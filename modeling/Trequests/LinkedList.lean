import Trequests.Base.Cells
import Trequests.LifetimeMachine

/-! The lists of `common.h` as they are in memory. Every pool and every session has a list
of requests, and all of them share one memory in which cells are released and allocated
again. Whatever is done to the lists in whatever order, no macro uses a cell that is not
allocated or releases one twice, no cell is lost, and each list reads as the model has it. -/

namespace Trequests

/-! ### The macros -/

section Macros
variable {α : Type*} [DecidableEq α]

/-- `treq_LinkedListInsertNewItem`; the address of the new cell is the new list. -/
def listInsertNewItem (malloc : Allocator α) (h : Heap α) (ll : Option ℕ) (item : α) :
    Heap α × Option ℕ :=
  (h.store (malloc.address h) ⟨item, ll⟩, some (malloc.address h))

/-- The loop of `treq_LinkedListRemoveByItem`; `none` when it uses a cell that is not
allocated, or does not end. -/
def listRemoveLoop (item : α) :
    ℕ → Heap α → Option ℕ → Option ℕ → Option ℕ → Option (Heap α × Option ℕ)
  | 0, _, _, _, _ => none
  | _ + 1, h, ll, _, none => some (h, ll)
  | fuel + 1, h, ll, prev, some cur =>
    match h.cell cur with
    | none => none
    | some c =>
      if c.item = item then
        match prev with
        | none => (h.free cur).map fun h => (h, c.next)
        | some p => ((h.setNext p c.next).bind fun h => h.free cur).map fun h => (h, ll)
      else listRemoveLoop item fuel h ll (some cur) c.next

/-- `treq_LinkedListRemoveByItem`. Every pass but the last looks at another cell, so their
number is fuel enough. -/
def listRemoveByItem (h : Heap α) (ll : Option ℕ) (item : α) : Option (Heap α × Option ℕ) :=
  listRemoveLoop item (h.bound + 1) h ll none ll

/-- What the loop of `treq_LinkedListFree` does behind its body. -/
def listDrop (h : Heap α) (ll : Option ℕ) : Option (Heap α × Option ℕ) :=
  match ll with
  | none => none
  | some cur =>
    match h.cell cur with
    | none => none
    | some c => (h.free cur).map fun h => (h, c.next)

/-- The cells without the first one of the item. -/
def eraseItem (item : α) (cs : List (ℕ × α)) : List (ℕ × α) := cs.eraseP fun c => c.2 = item

theorem eraseItem_map_snd (item : α) (cs : List (ℕ × α)) :
    (eraseItem item cs).map Prod.snd = (cs.map Prod.snd).erase item := by
  induction cs with
  | nil => rfl
  | cons c cs ih =>
    unfold eraseItem at ih ⊢
    by_cases hc : c.2 = item
    · simp [hc]
    · simp [hc, ih]

/-- What becomes of the memory when the cells `cs` of a list become `ds`. -/
structure Replaces (h h' : Heap α) (cs ds : List (ℕ × α)) : Prop where
  frame : ∀ a, a ∉ cs.map Prod.fst → a ∉ ds.map Prod.fst → h'.cell a = h.cell a
  released : ∀ a ∈ cs.map Prod.fst, a ∉ ds.map Prod.fst → h'.cell a = none

section Spec
variable {h : Heap α}

omit [DecidableEq α] in
theorem listInsertNewItem_spec (malloc : Allocator α) {ll : Option ℕ} {cs : List (ℕ × α)}
    (hp : h.Path ll cs none) (item : α) :
    let a := malloc.address h
    let s := listInsertNewItem malloc h ll item
    a ∉ cs.map Prod.fst ∧ s.1.Path s.2 ((a, item) :: cs) none ∧
      Replaces h s.1 cs ((a, item) :: cs) := by
  intro a s
  have hne : a ∉ cs.map Prod.fst := fun ha => by
    obtain ⟨c, hc⟩ := hp.allocated ha
    rw [malloc.unused h] at hc
    cases hc
  refine ⟨hne, ⟨rfl, ll, Function.update_self .., hp.congr fun b hb => ?_⟩, fun b _ hb => ?_,
    fun b hb hb' => absurd (List.mem_cons_of_mem _ hb) hb'⟩
  · exact Function.update_of_ne (fun he : b = a => hne (he ▸ hb)) ..
  · exact Function.update_of_ne (List.ne_of_not_mem_cons hb) ..

omit [DecidableEq α] in
theorem listDrop_spec {ll : Option ℕ} {a : ℕ} {x : α} {cs : List (ℕ × α)}
    (hp : h.Path ll ((a, x) :: cs) none) (hn : (((a, x) :: cs).map Prod.fst).Nodup) :
    ∃ h' ll', listDrop h ll = some (h', ll') ∧ h'.Path ll' cs none ∧
      Replaces h h' ((a, x) :: cs) cs := by
  obtain ⟨rfl, n, hc, hcs⟩ := hp
  obtain ⟨h', hf, -, hcell⟩ := Heap.free_of_cell hc
  have hne : a ∉ cs.map Prod.fst := (List.nodup_cons.mp hn).1
  refine ⟨h', n, by simp [listDrop, hc, hf], hcs.congr fun b hb => ?_, fun b hb _ => ?_,
    fun b hb hb' => ?_⟩
  · rw [hcell, Function.update_of_ne fun he : b = a => hne (he ▸ hb)]
  · rw [hcell, Function.update_of_ne (List.ne_of_not_mem_cons hb)]
  · rcases List.mem_cons.mp hb with rfl | hb
    · rw [hcell, Function.update_self]
    · exact absurd hb hb'

/-- The pass that finds the item takes its cell out of the list. -/
theorem listRemove_found {ll : Option ℕ} {ps cs : List (ℕ × α)} {a : ℕ} {x : α} {n : Option ℕ}
    (hps : h.Path ll ps (some a)) (hc : h.cell a = some ⟨x, n⟩) (hcs : h.Path n cs none)
    (hn : ((ps ++ (a, x) :: cs).map Prod.fst).Nodup) :
    ∃ h' ll', (match ps.getLast?.map Prod.fst with
        | none => (h.free a).map fun h => (h, n)
        | some p => ((h.setNext p n).bind fun h => h.free a).map fun h => (h, ll)) = some (h', ll') ∧
      h'.Path ll' (ps ++ cs) none ∧ Replaces h h' (ps ++ (a, x) :: cs) (ps ++ cs) := by
  rw [List.map_append, List.map_cons] at hn
  have hmid := List.nodup_middle.mp hn
  obtain ⟨ha, hn'⟩ := List.nodup_cons.mp hmid
  have hframe : ∀ h' : Heap α, (∀ b, b ∉ (ps.map Prod.fst) → b ≠ a → h'.cell b = h.cell b) →
      h'.cell a = none → Replaces h h' (ps ++ (a, x) :: cs) (ps ++ cs) := by
    intro h' hf hnone
    constructor
    · intro b hb _
      simp only [List.map_append, List.map_cons, List.mem_append, List.mem_cons, not_or] at hb
      exact hf b hb.1 hb.2.1
    · intro b hb hb'
      simp only [List.map_append, List.map_cons, List.mem_append, List.mem_cons, not_or] at hb hb'
      rcases hb with hb | rfl | hb
      · exact absurd hb hb'.1
      · exact hnone
      · exact absurd hb hb'.2
  cases ps using List.reverseRecOn with
  | nil =>
    obtain ⟨h', hf, -, hcell⟩ := Heap.free_of_cell hc
    refine ⟨h', n, by simp [hf], hcs.congr fun b hb => ?_, hframe h' (fun b _ hne => ?_) ?_⟩
    · rw [hcell, Function.update_of_ne fun he => ha (by simpa [he] using hb)]
    · rw [hcell, Function.update_of_ne hne]
    · rw [hcell, Function.update_self]
  | append_singleton ps p =>
    obtain ⟨p, y⟩ := p
    rw [← List.map_append, List.append_assoc] at hn'
    have hp : p ∉ ps.map Prod.fst ∧ p ∉ cs.map Prod.fst := by
      simp only [List.singleton_append, List.map_append, List.map_cons, List.nodup_middle,
        List.nodup_cons, List.mem_append, not_or] at hn'
      exact hn'.1
    have hpa : p ≠ a := fun he => ha (by simp [he])
    -- the pointer of the cell before is set, then the cell is released
    obtain ⟨h₁, hs, -, hcell₁, hpath₁⟩ := hps.setNext hp.1 n
    have hc₁ : h₁.cell a = some ⟨x, n⟩ := by rw [hcell₁, Function.update_of_ne (Ne.symm hpa), hc]
    obtain ⟨h', hf, -, hcell⟩ := Heap.free_of_cell hc₁
    refine ⟨h', ll, by simp [hs, hf], Heap.path_append.mpr ⟨n, hpath₁.congr fun b hb => ?_,
      hcs.congr fun b hb => ?_⟩, hframe h' (fun b hb hne => ?_) ?_⟩
    · rw [hcell, Function.update_of_ne fun he => ha (by rw [he] at hb; simp at hb ⊢; tauto)]
    · rw [hcell, Function.update_of_ne fun he => ha (by rw [he] at hb; simp at hb ⊢; tauto), hcell₁,
        Function.update_of_ne fun he : b = p => hp.2 (he ▸ hb)]
    · have hbp : b ≠ p := fun he => hb (by simp [he])
      rw [hcell, Function.update_of_ne hne, hcell₁, Function.update_of_ne hbp]
    · rw [hcell, Function.update_self]

/-- The loop, when it has passed the cells `ps` and the cells `cs` are still ahead. -/
theorem listRemoveLoop_spec {ll cur : Option ℕ} {ps cs : List (ℕ × α)} {item : α} {fuel : ℕ}
    (hps : h.Path ll ps cur) (hcs : h.Path cur cs none)
    (hn : ((ps ++ cs).map Prod.fst).Nodup) (hfuel : cs.length < fuel) :
    ∃ h' ll', listRemoveLoop item fuel h ll (ps.getLast?.map Prod.fst) cur = some (h', ll') ∧
      h'.Path ll' (ps ++ eraseItem item cs) none ∧
      Replaces h h' (ps ++ cs) (ps ++ eraseItem item cs) := by
  induction cs generalizing ps cur fuel with
  | nil =>
    obtain ⟨fuel, rfl⟩ := Nat.exists_eq_succ_of_ne_zero (Nat.ne_of_gt hfuel)
    cases hcs
    exact ⟨h, ll, rfl, by simpa [eraseItem] using hps,
      ⟨fun _ _ _ => rfl, fun a ha hna => absurd ha hna⟩⟩
  | cons c cs ih =>
    obtain ⟨a, x⟩ := c
    obtain ⟨fuel, rfl⟩ := Nat.exists_eq_succ_of_ne_zero (Nat.ne_zero_of_lt hfuel)
    obtain ⟨rfl, n, hc, hcs⟩ := hcs
    simp only [listRemoveLoop, hc]
    by_cases hx : x = item
    · rw [if_pos hx]
      have he : eraseItem item ((a, x) :: cs) = cs := by simp [eraseItem, hx]
      rw [he]
      exact listRemove_found hps hc hcs hn
    · rw [if_neg hx]
      have he : eraseItem item ((a, x) :: cs) = (a, x) :: eraseItem item cs := by
        simp [eraseItem, hx]
      have hps' : h.Path ll (ps ++ [(a, x)]) n :=
        Heap.path_append.mpr ⟨some a, hps, rfl, n, hc, rfl⟩
      have := ih hps' hcs (by simpa using hn) (Nat.lt_of_succ_lt_succ hfuel)
      simpa [he, List.append_assoc] using this

theorem listRemoveByItem_spec {ll : Option ℕ} {cs : List (ℕ × α)} (hp : h.Path ll cs none)
    (hn : (cs.map Prod.fst).Nodup) (item : α) :
    ∃ h' ll', listRemoveByItem h ll item = some (h', ll') ∧
      h'.Path ll' (eraseItem item cs) none ∧ Replaces h h' cs (eraseItem item cs) := by
  have hps : h.Path ll [] ll := rfl
  exact listRemoveLoop_spec hps hp hn (Nat.lt_succ_of_le (hp.length_le hn))

end Spec

end Macros

/-! ### All lists in one memory -/

/-- Who has a list of requests. -/
inductive ListOwner where
  | pool (p : PoolId)
  | session (i : SesId)
  deriving DecidableEq

inductive ListOp where
  | insert (o : ListOwner) (r : ReqId)
  | remove (o : ListOwner) (r : ReqId)

def ListOp.owner : ListOp → ListOwner
  | insert o _ | remove o _ => o

/-- A use of a macro; the body of the loop that frees a list uses other lists only. -/
inductive ListCmd where
  | op (op : ListOp)
  | free (o : ListOwner) (body : ReqId → List ListOp) (apart : ∀ r, ∀ op ∈ body r, op.owner ≠ o)

/-- The memory and the pointers to the first cells. -/
structure ListMemory where
  heap : Heap ReqId
  head : ListOwner → Option ℕ

namespace ListMemory
variable (malloc : Allocator ReqId)

def empty : ListMemory := ⟨Heap.empty, fun _ => none⟩

/-- The list of one owner is changed. -/
def update (m : ListMemory) (o : ListOwner) (s : Heap ReqId × Option ℕ) : ListMemory :=
  ⟨s.1, Function.update m.head o s.2⟩

def runOp (m : ListMemory) : ListOp → Option ListMemory
  | .insert o r => some (m.update o (listInsertNewItem malloc m.heap (m.head o) r))
  | .remove o r => (listRemoveByItem m.heap (m.head o) r).map (m.update o)

/-- One pass of the loop of `treq_LinkedListFree`, behind its test. -/
def freePass (o : ListOwner) (ops : List ListOp) (m : ListMemory) : Option ListMemory :=
  (Run.exec (runOp malloc) m ops).bind fun m => (listDrop m.heap (m.head o)).map (m.update o)

/-- `treq_LinkedListFree` -/
def freeLoop (o : ListOwner) (body : ReqId → List ListOp) : ℕ → ListMemory → Option ListMemory
  | 0, _ => none
  | fuel + 1, m =>
    match m.head o with
    | none => some m
    | some cur =>
      match m.heap.cell cur with
      | none => none
      | some c => (m.freePass malloc o (body c.item)).bind (freeLoop o body fuel)

/-- A use of a macro. The loop releases a cell of its list in every pass, so the number of
cells is fuel enough. -/
def step (m : ListMemory) : ListCmd → Option ListMemory
  | .op op => m.runOp malloc op
  | .free o body _ => freeLoop malloc o body (m.heap.bound + 1) m

end ListMemory

/-! ### The lists that the memory holds -/

/-- What the macro does to the lists. -/
def ListOp.apply (lists : ListOwner → List ReqId) : ListOp → ListOwner → List ReqId
  | insert o r => Function.update lists o (r :: lists o)
  | remove o r => Function.update lists o (linkedListRemoveByItem (lists o) r)

/-- The passes of the loop over the items `rs`. -/
def freeLists (o : ListOwner) (body : ReqId → List ListOp) :
    List ReqId → (ListOwner → List ReqId) → ListOwner → List ReqId
  | [], lists => lists
  | r :: rs, lists => freeLists o body rs
      (Function.update ((body r).foldl ListOp.apply lists) o rs)

def ListCmd.apply (lists : ListOwner → List ReqId) : ListCmd → ListOwner → List ReqId
  | op o => o.apply lists
  | free o body _ => freeLists o body (lists o) lists

theorem ListOp.apply_of_ne {lists : ListOwner → List ReqId} {op : ListOp} {o : ListOwner}
    (h : op.owner ≠ o) : op.apply lists o = lists o := by
  cases op <;> exact Function.update_of_ne (Ne.symm h) ..

theorem foldl_apply_of_ne {ops : List ListOp} {o : ListOwner} (h : ∀ op ∈ ops, op.owner ≠ o)
    (lists : ListOwner → List ReqId) : ops.foldl ListOp.apply lists o = lists o := by
  induction ops generalizing lists with
  | nil => rfl
  | cons op ops ih =>
    rw [List.foldl_cons, ih fun op' hop => h op' (List.mem_cons_of_mem _ hop),
      ListOp.apply_of_ne (h op List.mem_cons_self)]

namespace ListMemory

/-- The lists are in cells of their own, and there are no other cells. -/
structure Owns (m : ListMemory) (cells : ListOwner → List (ℕ × ReqId)) : Prop where
  path : ∀ o, m.heap.Path (m.head o) (cells o) none
  nodup : ∀ o, ((cells o).map Prod.fst).Nodup
  apart : ∀ o o', o ≠ o' → ∀ a ∈ (cells o).map Prod.fst, a ∉ (cells o').map Prod.fst
  owned : ∀ a c, m.heap.cell a = some c → ∃ o, a ∈ (cells o).map Prod.fst

/-- The memory holds the lists and nothing else. -/
def Holds (m : ListMemory) (lists : ListOwner → List ReqId) : Prop :=
  ∃ cells, m.Owns cells ∧ lists = fun o => (cells o).map Prod.snd

variable {m : ListMemory} {cells : ListOwner → List (ℕ × ReqId)}

/-- The cells of one list are replaced by some of them and by new ones. -/
theorem Owns.replace (h : m.Owns cells) {o : ListOwner} {ds : List (ℕ × ReqId)}
    {s : Heap ReqId × Option ℕ} (hp : s.1.Path s.2 ds none)
    (hr : Replaces m.heap s.1 (cells o) ds) (hn : (ds.map Prod.fst).Nodup)
    (hd : ∀ a ∈ ds.map Prod.fst, a ∈ (cells o).map Prod.fst ∨ m.heap.cell a = none) :
    (m.update o s).Owns (Function.update cells o ds) := by
  have hother : ∀ o', o' ≠ o → ∀ a ∈ (cells o').map Prod.fst, a ∉ ds.map Prod.fst := by
    intro o' ho a ha hm
    rcases hd a hm with hc | hc
    · exact h.apart o' o ho a ha hc
    · obtain ⟨c, hc'⟩ := (h.path o').allocated ha
      rw [hc] at hc'
      cases hc'
  constructor
  · intro o'
    by_cases ho : o' = o
    · subst ho
      simpa [update] using hp
    · have hpath : s.1.Path (m.head o') (cells o') none := (h.path o').congr fun a ha =>
        hr.frame a (h.apart o' o ho a ha) (hother o' ho a ha)
      simpa [update, ho] using hpath
  · intro o'
    by_cases ho : o' = o
    · subst ho
      simpa using hn
    · simpa [ho] using h.nodup o'
  · intro o₁ o₂ hne a h₁ h₂
    by_cases ho₁ : o₁ = o
    · subst ho₁
      rw [Function.update_self] at h₁
      rw [Function.update_of_ne (Ne.symm hne)] at h₂
      exact hother o₂ (Ne.symm hne) a h₂ h₁
    · rw [Function.update_of_ne ho₁] at h₁
      by_cases ho₂ : o₂ = o
      · subst ho₂
        rw [Function.update_self] at h₂
        exact hother o₁ ho₁ a h₁ h₂
      · rw [Function.update_of_ne ho₂] at h₂
        exact h.apart o₁ o₂ hne a h₁ h₂
  · intro a c ha
    by_cases hds : a ∈ ds.map Prod.fst
    · exact ⟨o, by rwa [Function.update_self]⟩
    · have hnot : a ∉ (cells o).map Prod.fst := fun hm => by
        rw [show (m.update o s).heap.cell a = none from hr.released a hm hds] at ha
        cases ha
      rw [show (m.update o s).heap.cell a = m.heap.cell a from hr.frame a hnot hds] at ha
      obtain ⟨o', ho'⟩ := h.owned a c ha
      have hne : o' ≠ o := fun he => hnot (he ▸ ho')
      exact ⟨o', by rwa [Function.update_of_ne hne]⟩

/-- The items of one list are replaced with its cells. -/
theorem Owns.holds {o : ListOwner} {ds : List (ℕ × ReqId)} {m' : ListMemory}
    (h : m'.Owns (Function.update cells o ds)) :
    m'.Holds (Function.update (fun o => (cells o).map Prod.snd) o (ds.map Prod.snd)) :=
  ⟨_, h, (Function.comp_update (fun cs : List (ℕ × ReqId) => cs.map Prod.snd) cells o ds).symm⟩

theorem holds_empty : empty.Holds fun _ => [] :=
  ⟨fun _ => [], ⟨fun _ => rfl, fun _ => List.nodup_nil, fun _ _ _ a ha => by simp at ha,
    fun a c hc => by cases hc⟩, rfl⟩

section Macros
variable (malloc : Allocator ReqId) {lists : ListOwner → List ReqId}

theorem Holds.runOp (h : m.Holds lists) (op : ListOp) :
    ∃ m', m.runOp malloc op = some m' ∧ m'.Holds (op.apply lists) := by
  obtain ⟨cells, h, rfl⟩ := h
  cases op with
  | insert o r =>
    obtain ⟨hne, hp, hr⟩ := listInsertNewItem_spec malloc (h.path o) r
    refine ⟨_, rfl, (h.replace hp hr (List.nodup_cons.mpr ⟨hne, h.nodup o⟩) fun a ha => ?_).holds⟩
    rcases List.mem_cons.mp ha with rfl | ha
    · exact Or.inr (malloc.unused _)
    · exact Or.inl ha
  | remove o r =>
    obtain ⟨h', ll', hrun, hp, hr⟩ := listRemoveByItem_spec (h.path o) (h.nodup o) r
    have hsub : ((eraseItem r (cells o)).map Prod.fst).Sublist ((cells o).map Prod.fst) :=
      List.eraseP_sublist.map _
    have := (h.replace (s := (h', ll')) hp hr ((h.nodup o).sublist hsub) fun a ha =>
      Or.inl (hsub.subset ha)).holds
    rw [eraseItem_map_snd, ← linkedListRemoveByItem_eq_erase] at this
    exact ⟨_, by rw [ListMemory.runOp, hrun]; rfl, this⟩

theorem Holds.exec (h : m.Holds lists) (ops : List ListOp) :
    ∃ m', Run.exec (ListMemory.runOp malloc) m ops = some m' ∧
      m'.Holds (ops.foldl ListOp.apply lists) := by
  induction ops generalizing m lists with
  | nil => exact ⟨m, rfl, h⟩
  | cons op ops ih =>
    obtain ⟨m₁, hrun, h₁⟩ := h.runOp malloc op
    obtain ⟨m₂, hexec, h₂⟩ := ih h₁
    exact ⟨m₂, by rw [Run.exec_cons, hrun]; exact hexec, h₂⟩

/-- The pointer to the first cell tells whether the list is empty. -/
theorem Holds.head {o : ListOwner} (h : m.Holds lists) :
    match lists o with
    | [] => m.head o = none
    | r :: _ => ∃ a n, m.head o = some a ∧ m.heap.cell a = some ⟨r, n⟩ := by
  obtain ⟨cells, h, rfl⟩ := h
  have hp := h.path o
  simp only
  cases hc : cells o with
  | nil => rw [hc] at hp; exact hp
  | cons c cs =>
    rw [hc] at hp
    obtain ⟨ha, n, hcell, -⟩ := hp
    exact ⟨c.1, n, ha, hcell⟩

/-- A pass of the loop: whatever its body does to the other lists, it then drops the first
item. -/
theorem Holds.freePass (h : m.Holds lists) {o : ListOwner} {r : ReqId} {rs : List ReqId}
    (hl : lists o = r :: rs) {ops : List ListOp} (hops : ∀ op ∈ ops, op.owner ≠ o) :
    ∃ m', m.freePass malloc o ops = some m' ∧
      m'.Holds (Function.update (ops.foldl ListOp.apply lists) o rs) := by
  obtain ⟨m₁, hexec, cells, h₁, hlists⟩ := h.exec malloc ops
  have hitems : (cells o).map Prod.snd = r :: rs := by
    rw [← hl, ← foldl_apply_of_ne hops lists, hlists]
  obtain ⟨c, cs, hcells, rfl, rfl⟩ := List.map_eq_cons_iff.mp hitems
  have hp := h₁.path o
  have hn := h₁.nodup o
  rw [hcells] at hp hn
  obtain ⟨h', ll', hdrop, hp', hr⟩ := listDrop_spec hp hn
  rw [← hcells] at hr
  refine ⟨_, by rw [ListMemory.freePass, hexec, Option.bind_some, hdrop]; rfl, ?_⟩
  rw [hlists]
  refine (h₁.replace (s := (h', ll')) hp' hr (List.nodup_cons.mp hn).2 fun a ha => ?_).holds
  rw [hcells]
  exact Or.inl (List.mem_cons_of_mem _ ha)

theorem Holds.freeLoop (h : m.Holds lists) {o : ListOwner} {body : ReqId → List ListOp}
    (hbody : ∀ r, ∀ op ∈ body r, op.owner ≠ o) {rs : List ReqId} (hl : lists o = rs) {fuel : ℕ}
    (hfuel : rs.length < fuel) :
    ∃ m', ListMemory.freeLoop malloc o body fuel m = some m' ∧
      m'.Holds (freeLists o body rs lists) := by
  induction rs generalizing m lists fuel with
  | nil =>
    obtain ⟨fuel, rfl⟩ := Nat.exists_eq_succ_of_ne_zero (Nat.ne_of_gt hfuel)
    have hh := h.head (o := o)
    rw [hl] at hh
    exact ⟨m, by simp [ListMemory.freeLoop, show m.head o = none from hh], h⟩
  | cons r rs ih =>
    obtain ⟨fuel, rfl⟩ := Nat.exists_eq_succ_of_ne_zero (Nat.ne_zero_of_lt hfuel)
    have hh := h.head (o := o)
    rw [hl] at hh
    obtain ⟨a, n, ha, hc⟩ := hh
    obtain ⟨m₁, hpass, h₁⟩ := h.freePass malloc hl (hbody r)
    obtain ⟨m₂, hloop, h₂⟩ := ih h₁ (Function.update_self ..) (Nat.lt_of_succ_lt_succ hfuel)
    refine ⟨m₂, ?_, h₂⟩
    rw [ListMemory.freeLoop, ha]
    simp only [hc, hpass, Option.bind_some, hloop]

/-- One use of a macro. -/
theorem Holds.step (h : m.Holds lists) (cmd : ListCmd) :
    ∃ m', m.step malloc cmd = some m' ∧ m'.Holds (cmd.apply lists) := by
  cases cmd with
  | op op => exact h.runOp malloc op
  | free o body apart =>
    refine h.freeLoop malloc apart rfl (Nat.lt_succ_of_le ?_)
    obtain ⟨cells, h, rfl⟩ := h
    simpa using (h.path o).length_le (h.nodup o)

end Macros

end ListMemory

/-- Whatever uses are made of the macros, in whatever order and for whichever pools and
sessions, no cell is used that is not allocated, every loop ends, and the memory then holds
the lists as the model has them and no other cells. -/
theorem listMemory_holds (malloc : Allocator ReqId) (cmds : List ListCmd) :
    ∃ m, Run.exec (ListMemory.step malloc) ListMemory.empty cmds = some m ∧
      m.Holds (cmds.foldl ListCmd.apply fun _ => []) := by
  have hrun : ∀ (m : ListMemory) (lists : ListOwner → List ReqId), m.Holds lists →
      ∃ m', Run.exec (ListMemory.step malloc) m cmds = some m' ∧
        m'.Holds (cmds.foldl ListCmd.apply lists) := by
    induction cmds with
    | nil => exact fun m lists h => ⟨m, rfl, h⟩
    | cons cmd cmds ih =>
      intro m lists h
      obtain ⟨m₁, hstep, h₁⟩ := h.step malloc cmd
      obtain ⟨m₂, hexec, h₂⟩ := ih m₁ _ h₁
      exact ⟨m₂, by rw [Run.exec_cons, hstep]; exact hexec, h₂⟩
  exact hrun _ _ ListMemory.holds_empty

/-! ### Where the model changes a list -/

namespace Lib
variable (l : Lib) (r : ReqId) (p : PoolId) (i : SesId)

def lists : ListOwner → List ReqId
  | .pool p => (l.pool p).requests
  | .session i => (l.session i).requests

variable {l} in
theorem lists_eq {l' : Lib} {lists : ListOwner → List ReqId}
    (hp : ∀ p, (l'.poolView.pool p).requests = lists (.pool p))
    (hs : ∀ i, l'.lifeView.requests i = lists (.session i)) : l'.lists = lists := by
  funext o
  cases o with
  | pool p => exact hp p
  | session i => exact hs i

theorem lists_poolInsert :
    (l.poolInsert p r).lists = ListOp.apply l.lists (.insert (.pool p) r) := by
  apply lists_eq
  · intro q
    rw [poolView_poolInsert]
    by_cases hq : q = p
    · subst hq
      simp [PoolView.insert, Pool.insert, ListOp.apply, lists, poolView]
    · simp [PoolView.insert, ListOp.apply, lists, poolView, hq]
  · intro j
    rw [lifeView_poolInsert]
    simp [ListOp.apply, lists, lifeView]

theorem lists_sessionInsert :
    (l.sessionInsert i r).lists = ListOp.apply l.lists (.insert (.session i) r) := by
  apply lists_eq
  · intro q
    rw [poolView_sessionInsert]
    simp [ListOp.apply, lists, poolView]
  · intro j
    by_cases hj : j = i
    · subst hj
      simp [sessionInsert, modifySession, modifyRequest, ListOp.apply, lists, lifeView]
    · simp [sessionInsert, modifySession, modifyRequest, ListOp.apply, lists, lifeView, hj]

/-- What `treq_SessionRemoveRequest` does to the list of the session. -/
def sessionRemoveOps : List ListOp :=
  (l.request r).session.toList.map fun i => .remove (.session i) r

/-- What `treq_PoolRemoveRequest` does to the list of the pool. -/
def poolRemoveOps : List ListOp :=
  ((l.request r).pool.toList.filter fun p => ! (l.pool p).isDead).map fun p => .remove (.pool p) r

theorem lists_sessionRemoveRequest :
    (l.sessionRemoveRequest r).lists = (l.sessionRemoveOps r).foldl ListOp.apply l.lists := by
  apply lists_eq
  · intro q
    rw [poolView_sessionRemoveRequest, foldl_apply_of_ne]
    · rfl
    · unfold sessionRemoveOps
      cases (l.request r).session <;> simp [ListOp.owner]
  · intro j
    rw [lifeView_sessionRemoveRequest, LifeView.sessionRemove, sessionRemoveOps,
      show l.lifeView.session r = (l.request r).session from rfl]
    cases (l.request r).session with
    | none => rfl
    | some i =>
      by_cases hj : j = i
      · subst hj
        simp [ListOp.apply, lists, lifeView]
      · simp [ListOp.apply, lists, lifeView, hj]

theorem lists_poolRemoveRequest :
    (l.poolRemoveRequest r).lists = (l.poolRemoveOps r).foldl ListOp.apply l.lists := by
  apply lists_eq
  · intro q
    rw [poolView_poolRemoveRequest, poolRemoveOps, show l.poolView.owner r = (l.request r).pool from rfl]
    cases (l.request r).pool with
    | none => rfl
    | some p =>
      by_cases hq : q = p
      · subst hq
        cases hd : (l.pool q).isDead <;>
          simp [PoolView.detach, Pool.detach, ListOp.apply, lists, poolView, hd]
      · cases hd : (l.pool p).isDead <;>
          simp [PoolView.detach, ListOp.apply, lists, poolView, hq, hd]
  · intro j
    rw [lifeView_poolRemoveRequest, foldl_apply_of_ne]
    · rfl
    · intro op hop
      obtain ⟨p, -, rfl⟩ := List.mem_map.mp hop
      simp [ListOp.owner]

theorem owner_of_poolRemoveOps {op : ListOp} (h : op ∈ l.poolRemoveOps r) :
    ∃ p, op.owner = .pool p := by
  obtain ⟨p, -, rfl⟩ := List.mem_map.mp h
  exact ⟨p, rfl⟩

/-- A request that is released leaves the list of its session and that of its pool. -/
theorem lists_requestFreeStart : (l.requestFreeStart r).lists =
    (l.sessionRemoveOps r ++ l.poolRemoveOps r).foldl ListOp.apply l.lists := by
  set l₁ := l.detachCallbackEvent r with hl₁
  have hview : (l₁.sessionRemoveRequest r).poolView = l.poolView := by simp [hl₁]
  have hpool : (l₁.sessionRemoveRequest r).poolRemoveOps r = l.poolRemoveOps r := by
    unfold poolRemoveOps
    rw [show ((l₁.sessionRemoveRequest r).request r).pool = (l.request r).pool from
      congrFun (congrArg PoolView.owner hview) r,
      show (l₁.sessionRemoveRequest r).pool = l.pool from congrArg PoolView.pool hview]
  have hsession : l₁.sessionRemoveOps r = l.sessionRemoveOps r ∧ l₁.lists = l.lists := by
    rw [hl₁, detachCallbackEvent]
    cases (l.request r).callbackEvent <;> exact ⟨rfl, rfl⟩
  rw [requestFreeStart, ← hl₁, lists_poolRemoveRequest, lists_sessionRemoveRequest, hpool,
    hsession.1, hsession.2, List.foldl_append]

/-- A pass of the loop of `treq_SessionFree`: its body has the request removed from its
pool at most. -/
theorem lists_sessionFreePass {rs : List ReqId} (hrs : (l.session i).requests = r :: rs) :
    ((((l.clearSession r).requestFreeStart r).requestFreeFinish r).dropRequest i).lists =
      Function.update ((l.poolRemoveOps r).foldl ListOp.apply l.lists) (.session i) rs := by
  set l₁ := l.clearSession r with hl₁
  have hops : l₁.sessionRemoveOps r = [] ∧ l₁.poolRemoveOps r = l.poolRemoveOps r := by
    constructor <;> simp [sessionRemoveOps, poolRemoveOps, hl₁, clearSession, modifyRequest]
  set l₂ := l₁.requestFreeStart r with hl₂
  have hlists : l₂.lists = (l.poolRemoveOps r).foldl ListOp.apply l.lists := by
    rw [hl₂, lists_requestFreeStart, hops.1, hops.2, List.nil_append]
    rfl
  have hfinish : (l₂.requestFreeFinish r).lists = l₂.lists := by
    funext o
    cases o with
    | pool p => exact congrArg (fun v => (PoolView.pool v p).requests) (l₂.poolView_requestFreeFinish r)
    | session j => exact congrArg (fun s => (s j).requests) (session_requestFreeFinish l₂ r)
  have hapart : ∀ op ∈ l.poolRemoveOps r, op.owner ≠ .session i := by
    intro op hop
    obtain ⟨p, hp⟩ := l.owner_of_poolRemoveOps r hop
    rw [hp]
    exact ListOwner.noConfusion
  rw [← hlists, ← hfinish]
  funext o
  by_cases ho : o = .session i
  · subst ho
    have htail : (l₂.requestFreeFinish r).lists (.session i) = r :: rs := by
      rw [hfinish, hlists, foldl_apply_of_ne hapart]
      exact hrs
    have hdrop : ((l₂.requestFreeFinish r).dropRequest i).lists (.session i) =
        ((l₂.requestFreeFinish r).lists (.session i)).tail := by
      simp [lists, dropRequest, modifySession]
    rw [Function.update_self, hdrop, htail, List.tail_cons]
  · rw [Function.update_of_ne ho]
    cases o with
    | pool p => rfl
    | session j =>
      have hj : j ≠ i := fun he => ho (he ▸ rfl)
      simp [lists, dropRequest, modifySession, hj]

/-- The loop of `treq_PoolFree` drops the requests of the pool one by one; their removal
leaves the list alone. -/
theorem lists_poolFreeLoop {rs : List ReqId} (hd : (l.pool p).isDead = true)
    (hrs : (l.pool p).requests = rs)
    (ho : ∀ r ∈ rs, (l.request r).pool = some p ∨ (l.request r).pool = none) :
    (poolFreeLoop p rs l).lists = freeLists (.pool p) (fun _ => []) rs l.lists := by
  induction rs generalizing l with
  | nil => rfl
  | cons r rs ih =>
    have hremove : (l.poolRemoveRequest r).lists = l.lists := by
      have hops : l.poolRemoveOps r = [] := by
        unfold poolRemoveOps
        rcases ho r List.mem_cons_self with h | h <;> simp [h, hd]
      rw [lists_poolRemoveRequest, hops, List.foldl_nil]
    set l₁ := (l.poolRemoveRequest r).modifyPool p fun q => { q with requests := q.requests.tail }
      with hl₁
    have hrs' : ((l.poolRemoveRequest r).pool p).requests = r :: rs := by
      rw [← hrs]
      exact congrFun hremove (.pool p)
    have hlists : l₁.lists = Function.update l.lists (.pool p) rs := by
      rw [← hremove]
      funext o
      by_cases hq : o = .pool p
      · subst hq
        simp [hl₁, lists, modifyPool, hrs']
      · rw [Function.update_of_ne hq]
        cases o with
        | pool q =>
          have hne : q ≠ p := fun he => hq (he ▸ rfl)
          simp [hl₁, lists, modifyPool, hne]
        | session j => rfl
    have hdead : (l₁.pool p).isDead = true := by
      have : ((l.poolRemoveRequest r).poolView.pool p).isDead = true := by
        rw [poolView_poolRemoveRequest]
        cases l.poolView.owner r with
        | none => exact hd
        | some q =>
          by_cases hq : p = q
          · subst hq
            simpa [PoolView.detach, Pool.detach, poolView] using hd
          · simpa [PoolView.detach, hq, poolView] using hd
      simpa [hl₁, modifyPool, poolView] using this
    have howner : ∀ x ∈ rs, (l₁.request x).pool = some p ∨ (l₁.request x).pool = none := by
      intro x hx
      have hx' := ho x (List.mem_cons_of_mem _ hx)
      have : (l.poolRemoveRequest r).poolView.owner x = some p ∨
          (l.poolRemoveRequest r).poolView.owner x = none := by
        rw [poolView_poolRemoveRequest]
        cases l.poolView.owner r with
        | none => exact hx'
        | some q =>
          by_cases he : x = r
          · subst he
            exact Or.inr (by simp [PoolView.detach])
          · simpa [PoolView.detach, he, poolView] using hx'
      exact this
    rw [poolFreeLoop, ih l₁ hdead (by simp [hl₁, modifyPool, hrs']) howner, hlists]
    rfl

/-- `treq_PoolFree` runs `treq_LinkedListFree` with a body that leaves all lists alone. -/
def poolFreeCmd : ListCmd := .free (.pool p) (fun _ => []) fun _ _ hop => absurd hop List.not_mem_nil

theorem lists_poolFree
    (ho : ∀ r ∈ (l.pool p).requests, (l.request r).pool = some p ∨ (l.request r).pool = none) :
    (l.poolFree p).lists = (poolFreeCmd p).apply l.lists := by
  set l₁ := l.modifyPool p fun q => { q with isDead := true } with hl₁
  have hdead : (l₁.pool p).isDead = true := by simp [hl₁, modifyPool]
  have hrequests : (l₁.pool p).requests = (l.pool p).requests := by simp [hl₁, modifyPool]
  have hlists : l₁.lists = l.lists := by
    funext o
    cases o with
    | pool q =>
      by_cases hq : q = p
      · subst hq
        exact hrequests
      · simp [hl₁, lists, modifyPool, hq]
    | session i => rfl
  have hloop := l₁.lists_poolFreeLoop p hdead hrequests ho
  rw [hlists] at hloop
  change (poolFreeLoop p (l₁.pool p).requests l₁).lists = _
  rw [hrequests]
  exact hloop

/-- `treq_SessionFree` runs `treq_LinkedListFree` with the release of the request as body,
which has left the session before and leaves its pool. -/
def sessionFreeCmd : ListCmd :=
  .free (.session i) l.poolRemoveOps fun r op hop => by
    obtain ⟨p, hp⟩ := l.owner_of_poolRemoveOps r hop
    rw [hp]
    exact ListOwner.noConfusion

/-- The release of a request does not matter to the pools of the others. -/
theorem poolRemoveOps_sessionFreePass {x : ReqId} (hx : x ≠ r) :
    ((((l.clearSession r).requestFreeStart r).requestFreeFinish r).dropRequest i).poolRemoveOps x =
      l.poolRemoveOps x := by
  set l' := (((l.clearSession r).requestFreeStart r).requestFreeFinish r).dropRequest i with hl'
  have hview : l'.poolView = (l.poolRemoveRequest r).poolView := by
    simp [hl', requestFreeStart, poolView_poolRemoveRequest]
  have howner : (l'.request x).pool = (l.request x).pool := by
    change l'.poolView.owner x = l.poolView.owner x
    rw [hview, poolView_poolRemoveRequest]
    cases l.poolView.owner r <;> simp [PoolView.detach, hx]
  have hdead : ∀ p, (l'.pool p).isDead = (l.pool p).isDead := by
    intro p
    change (l'.poolView.pool p).isDead = (l.poolView.pool p).isDead
    rw [hview, poolView_poolRemoveRequest]
    cases l.poolView.owner r with
    | none => rfl
    | some q =>
      by_cases hp : p = q
      · subst hp
        simp [PoolView.detach, Pool.detach]
      · simp [PoolView.detach, hp]
  simp only [poolRemoveOps, howner, hdead]

end Lib

theorem freeLists_congr {o : ListOwner} {body body' : ReqId → List ListOp} {rs : List ReqId}
    (h : ∀ r ∈ rs, body r = body' r) (lists : ListOwner → List ReqId) :
    freeLists o body rs lists = freeLists o body' rs lists := by
  induction rs generalizing lists with
  | nil => rfl
  | cons r rs ih =>
    rw [freeLists, freeLists, h r List.mem_cons_self]
    exact ih (fun x hx => h x (List.mem_cons_of_mem r hx)) _

namespace Machine

/-- The loop of `treq_SessionFree`, when no script runs meanwhile. -/
theorem lists_sessionFreeLoop (api : Api) (m : Machine) {i : SesId}
    (hn : (m.lib.session i).requests.Nodup) :
    ∃ m', Run.exec (step api) (m.sessionFreeLoop i)
        (List.replicate (m.lib.session i).requests.length .cleanupReturn) = some m' ∧
      m'.stack = m.stack ∧ m'.lib.lists = (m.lib.sessionFreeCmd i).apply m.lib.lists := by
  change ∃ m' : Machine, _ ∧ _ ∧ m'.lib.lists =
    freeLists (.session i) m.lib.poolRemoveOps (m.lib.session i).requests m.lib.lists
  induction hrs : (m.lib.session i).requests generalizing m with
  | nil =>
    have hloop : m.sessionFreeLoop i = m.setLib (m.lib.sessionFreeFinish i) := by
      simp only [sessionFreeLoop, hrs]
    exact ⟨m.setLib (m.lib.sessionFreeFinish i), by rw [hloop]; rfl, rfl, rfl⟩
  | cons r rs ih =>
    rw [hrs] at hn
    obtain ⟨hr, hn⟩ := List.nodup_cons.mp hn
    set l := (((m.lib.clearSession r).requestFreeStart r).requestFreeFinish r).dropRequest i with hl
    have hlists : l.lists = Function.update
        ((m.lib.poolRemoveOps r).foldl ListOp.apply m.lib.lists) (.session i) rs :=
      m.lib.lists_sessionFreePass r i hrs
    have hrest : (l.session i).requests = rs := by
      have := congrFun hlists (.session i)
      rwa [Function.update_self] at this
    obtain ⟨m', hexec, hstack, hend⟩ := ih (m.setLib l) (by rw [setLib, hrest]; exact hn) hrest
    refine ⟨m', ?_, hstack, ?_⟩
    · have hloop : m.sessionFreeLoop i =
          { m with
            lib := (m.lib.clearSession r).requestFreeStart r
            stack := .cleanup r (.session i) :: m.stack } := by
        simp [sessionFreeLoop, hrs, requestFree, setLib]
      rw [hloop, List.length_cons, List.replicate_succ, Run.exec_cons]
      exact hexec
    · rw [hend, freeLists, ← hlists]
      exact freeLists_congr (fun x hx => m.lib.poolRemoveOps_sessionFreePass r i
        fun he => hr (he ▸ hx)) _

end Machine

/-! ### The procedures in memory -/

namespace ListMemory.Holds
variable {mem : ListMemory} {l : Lib} (h : mem.Holds l.lists) (malloc : Allocator ReqId)
include h

theorem poolInsert (p : PoolId) (r : ReqId) :
    ∃ mem', mem.step malloc (.op (.insert (.pool p) r)) = some mem' ∧
      mem'.Holds (l.poolInsert p r).lists := by
  rw [Lib.lists_poolInsert]
  exact h.step malloc _

theorem sessionInsert (i : SesId) (r : ReqId) :
    ∃ mem', mem.step malloc (.op (.insert (.session i) r)) = some mem' ∧
      mem'.Holds (l.sessionInsert i r).lists := by
  rw [Lib.lists_sessionInsert]
  exact h.step malloc _

/-- The removals of `treq_RequestFree`. -/
theorem requestFreeStart (r : ReqId) :
    ∃ mem', Run.exec (ListMemory.runOp malloc) mem (l.sessionRemoveOps r ++ l.poolRemoveOps r) =
        some mem' ∧
      mem'.Holds (l.requestFreeStart r).lists := by
  rw [Lib.lists_requestFreeStart]
  exact h.exec malloc _

/-- `treq_PoolFree`, for a pool that owns the requests in its list. -/
theorem poolFree {p : PoolId}
    (ho : ∀ r ∈ (l.pool p).requests, (l.request r).pool = some p ∨ (l.request r).pool = none) :
    ∃ mem', mem.step malloc (Lib.poolFreeCmd p) = some mem' ∧ mem'.Holds (l.poolFree p).lists := by
  rw [l.lists_poolFree p ho]
  exact h.step malloc _

omit h in
/-- `treq_SessionFree`, when no script runs meanwhile. -/
theorem sessionFree (api : Api) {m : Machine} (h : mem.Holds m.lib.lists) {i : SesId}
    (hn : (m.lib.session i).requests.Nodup) :
    ∃ m' mem', Run.exec (Machine.step api) (m.sessionFreeLoop i)
        (List.replicate (m.lib.session i).requests.length .cleanupReturn) = some m' ∧
      mem.step malloc (m.lib.sessionFreeCmd i) = some mem' ∧ mem'.Holds m'.lib.lists := by
  obtain ⟨m', hexec, -, hlists⟩ := m.lists_sessionFreeLoop api hn
  obtain ⟨mem', hstep, hmem⟩ := h.step malloc (m.lib.sessionFreeCmd i)
  exact ⟨m', mem', hexec, hstep, hlists ▸ hmem⟩

end ListMemory.Holds

/-- A session with an async request. -/
def sessionAsyncRun : List Action :=
  [.sessionCmd 0 [lit "session"] true,
   .sessionHandle 0 (lit "s0") [lit "get", lit "http://localhost", lit "-async"] .willing]

/-- The request gets into both lists, `treq_SessionFree` releases it, and the pool is freed. -/
theorem listMemory_holds_sessionAsyncRun : ∃ m mem,
    runOf Api.plain sessionAsyncRun = some m ∧
      Run.exec (ListMemory.step (Allocator.bump _)) ListMemory.empty
        [.op (.insert (.session 0) 0), .op (.insert (.pool 0) 0), m.lib.sessionFreeCmd 0,
          Lib.poolFreeCmd 0] = some mem ∧
      mem.Holds fun _ => [] := by
  obtain ⟨m, hm, hp⟩ := (Option.any_eq_true _ _).mp (show
    (runOf Api.plain sessionAsyncRun).any (fun m =>
      (m.lib.request 0).pool = some 0 ∧ (m.lib.pool 0).isDead = false) = true by decide +kernel)
  obtain ⟨hpool, hdead⟩ := of_decide_eq_true hp
  have hops : m.lib.poolRemoveOps 0 = [.remove (.pool 0) 0] := by
    simp [Lib.poolRemoveOps, hpool, hdead]
  obtain ⟨mem, hexec, hmem⟩ := listMemory_holds (Allocator.bump _)
    [.op (.insert (.session 0) 0), .op (.insert (.pool 0) 0), m.lib.sessionFreeCmd 0,
      Lib.poolFreeCmd 0]
  refine ⟨m, mem, hm, hexec, ?_⟩
  convert hmem using 1
  funext o
  by_cases hs : o = .session 0
  · subst hs
    simp [ListCmd.apply, Lib.sessionFreeCmd, Lib.poolFreeCmd, freeLists, ListOp.apply, hops]
  · by_cases hp : o = .pool 0
    · subst hp
      simp [ListCmd.apply, Lib.sessionFreeCmd, Lib.poolFreeCmd, freeLists, ListOp.apply, hops]
    · simp [ListCmd.apply, Lib.sessionFreeCmd, Lib.poolFreeCmd, freeLists, ListOp.apply, hops, hs, hp]

end Trequests
