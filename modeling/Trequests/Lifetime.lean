import Trequests.PoolMachine

/-! The lifetimes of the requests. A request that has not been released is starting,
with its run on the stack, or has a command and no procedure at work on it, or is being
released, with its `curl_easy_cleanup` on the stack. Which of these it is tells the
state of its command and whether it still belongs to a session, and in particular no
two procedures on the stack are at work on one request. -/

namespace Trequests

/-! ### The stack -/

/-- The request that a procedure is at work on. -/
def Frame.busy : Frame → Option ReqId
  | .run r _ _ | .cleanup r _ => some r
  | _ => none

/-- The requests that procedures on the stack are at work on. -/
def busy (stack : List Frame) : List ReqId := stack.filterMap Frame.busy

@[simp] theorem busy_nil : busy [] = [] := rfl
@[simp] theorem busy_run (r : ReqId) (s w : Bool) (stack : List Frame) :
    busy (.run r s w :: stack) = r :: busy stack := rfl
@[simp] theorem busy_perform (p : PoolId) (w : Bool) (stack : List Frame) :
    busy (.perform p w :: stack) = busy stack := rfl
@[simp] theorem busy_cleanup (r : ReqId) (caller : Caller) (stack : List Frame) :
    busy (.cleanup r caller :: stack) = r :: busy stack := rfl
@[simp] theorem busy_interpDelete (i : InterpId) (stack : List Frame) :
    busy (.interpDelete i :: stack) = busy stack := rfl
@[simp] theorem busy_crash (stack : List Frame) : busy (.crash :: stack) = busy stack := rfl

theorem mem_busy {r : ReqId} {stack : List Frame} :
    r ∈ busy stack ↔ ∃ f ∈ stack, f.busy = some r := List.mem_filterMap

/-- A procedure is at work on the request, or a pool it is in is being performed. -/
def OnFrames (owner : ReqId → Option PoolId) (stack : List Frame) (r : ReqId) : Prop :=
  r ∈ busy stack ∨ ∃ p ∈ performing stack, owner r = some p

/-- The requests left in a session that is being released are at work nowhere below. -/
def ReleasesIdle (requests : SesId → List ReqId) (owner : ReqId → Option PoolId) :
    List Frame → Prop
  | [] => True
  | .cleanup _ (.session i) :: stack =>
    (∀ r ∈ requests i, ¬ OnFrames owner stack r) ∧ ReleasesIdle requests owner stack
  | _ :: stack => ReleasesIdle requests owner stack

/-- Lists that get shorter, and requests that leave their pools. New requests may come
in lists, and old ones in pools that are not being performed. -/
theorem ReleasesIdle.mono {requests requests' : SesId → List ReqId}
    {owner owner' : ReqId → Option PoolId} {stack : List Frame}
    (h : ReleasesIdle requests owner stack)
    (hr : ∀ i r, r ∈ requests' i → r ∈ requests i ∨ r ∉ busy stack ∧ ∀ p, owner' r ≠ some p)
    (ho : ∀ r p, owner' r = some p → owner r = some p ∨ p ∉ performing stack) :
    ReleasesIdle requests' owner' stack := by
  induction stack with
  | nil => trivial
  | cons f stack ih =>
    have hperf : ∀ p ∈ performing stack, p ∈ performing (f :: stack) := by
      intro p hp; cases f <;> simp [hp]
    have hbusy : ∀ r ∈ busy stack, r ∈ busy (f :: stack) := by
      intro r hb; cases f <;> simp [hb]
    have ih' : ReleasesIdle requests owner stack → ReleasesIdle requests' owner' stack := fun h =>
      ih h (fun i r hm => (hr i r hm).imp_right fun hb => ⟨fun hc => hb.1 (hbusy r hc), hb.2⟩)
        fun r p hp => (ho r p hp).imp_right fun hc hp => hc (hperf p hp)
    have hcons : ∀ x i, f = .cleanup x (.session i) →
        (∀ r ∈ requests i, ¬ OnFrames owner stack r) →
        ∀ r ∈ requests' i, ¬ OnFrames owner' stack r := by
      rintro x i rfl hall r hm hon
      rcases hr i r hm with hm | ⟨hb, hn⟩
      · rcases hon with hb | ⟨p, hp, hop⟩
        · exact hall r hm (Or.inl hb)
        · rcases ho r p hop with ho | hnp
          · exact hall r hm (Or.inr ⟨p, hp, ho⟩)
          · exact hnp (hperf p hp)
      · rcases hon with hb' | ⟨p, -, hop⟩
        · exact hb (hbusy r hb')
        · exact hn p hop
    cases f with
    | cleanup x caller =>
      cases caller with
      | session i => exact ⟨hcons x i rfl h.1, ih' h.2⟩
      | _ => exact ih' h
    | _ => exact ih' h

section ReleasesIdle
variable {requests : SesId → List ReqId} {owner : ReqId → Option PoolId} {stack : List Frame}
  {f : Option Frame}

/-- Without the frame on top. -/
theorem ReleasesIdle.of_append (h : ReleasesIdle requests owner (f.toList ++ stack)) :
    ReleasesIdle requests owner stack := by
  cases f with
  | none => exact h
  | some y =>
    cases y with
    | cleanup x caller =>
      cases caller with
      | session i => exact h.2
      | _ => exact h
    | _ => exact h

/-- With a frame on top. -/
theorem ReleasesIdle.append (h : ReleasesIdle requests owner stack)
    (hf : ∀ x i, f = some (.cleanup x (.session i)) → ∀ r ∈ requests i, ¬ OnFrames owner stack r) :
    ReleasesIdle requests owner (f.toList ++ stack) := by
  cases f with
  | none => exact h
  | some y =>
    cases y with
    | cleanup x caller =>
      cases caller with
      | session i => exact ⟨hf x i rfl, h⟩
      | _ => exact h
    | _ => exact h

end ReleasesIdle

/-! ### The invariant -/

/-- What a procedure on the stack relies on about its request. -/
def Frame.Holds (v : LifeView) (owner : ReqId → Option PoolId) : Frame → Prop
  | .run r _ _ => r < v.nextRequest ∧ v.freed r = 0 ∧ v.command (.request r) = .absent ∧
    v.cmdToken r = false ∧ v.isDead r = false
  | .cleanup r caller => r < v.nextRequest ∧ v.freed r = 0 ∧ v.session r = none ∧
    owner r = none ∧ match caller with
      | .simple => v.command (.request r) = .absent ∧ v.cmdToken r = false
      | .command => (v.command (.request r) = .deleting ∨ v.command (.request r) = .unlinked) ∧
        v.cmdToken r = false
      | .session _ => v.command (.request r) = .alive ∧ v.cmdToken r = true ∧ v.isDead r = false
  | .perform _ _ | .interpDelete _ => True
  | .crash => False

structure LifeInv (v : LifeView) (owner : ReqId → Option PoolId) (stack : List Frame) : Prop where
  busy_nodup : (busy stack).Nodup
  frames : ∀ f ∈ stack, f.Holds v owner
  idle : ∀ r < v.nextRequest, v.freed r = 0 → r ∉ busy stack →
    v.command (.request r) = .alive ∧ v.cmdToken r = true ∧ v.isDead r = false
  gone : ∀ r, v.freed r ≠ 0 → v.freed r = 1 ∧ v.session r = none ∧ owner r = none ∧
    (v.command (.request r) = .absent ∨ v.command (.request r) = .deleted)
  fresh : ∀ r, v.nextRequest ≤ r →
    v.freed r = 0 ∧ v.session r = none ∧ v.command (.request r) = .absent
  mem_iff : ∀ i r, r ∈ v.requests i ↔ v.session r = some i ∨ .cleanup r (.session i) ∈ stack
  nodup : ∀ i, (v.requests i).Nodup
  fresh_session : ∀ i, v.nextSession ≤ i →
    v.requests i = [] ∧ v.command (.session i) = .absent
  releases : ReleasesIdle v.requests owner stack

/-! ### Steps of the view -/

namespace LifeView
variable (v : LifeView) (r : ReqId)

def setCommand (tok : CmdToken) (status : CmdStatus) : LifeView :=
  { v with command := Function.update v.command tok status }

/-- A new request, in its session if there is one. -/
def create (session : Option SesId) (interp : InterpId) : LifeView :=
  { v with
    session := Function.update v.session v.nextRequest session
    cmdToken := Function.update v.cmdToken v.nextRequest false
    isDead := Function.update v.isDead v.nextRequest false
    interp := Function.update v.interp v.nextRequest interp
    nextRequest := v.nextRequest + 1
    requests := match session with
      | none => v.requests
      | some i => Function.update v.requests i (v.nextRequest :: v.requests i) }

/-- The handle command of a new request. -/
def createHandle : LifeView :=
  { v with
    cmdToken := Function.update v.cmdToken r true
    command := Function.update v.command (.request r) .alive }

/-- `treq_SessionRemoveRequest` -/
def sessionRemove : LifeView :=
  match v.session r with
  | none => v
  | some i =>
    { v with
      session := Function.update v.session r none
      requests := Function.update v.requests i ((v.requests i).erase r) }

def clearSession : LifeView := { v with session := Function.update v.session r none }

def clearCmdToken : LifeView := { v with cmdToken := Function.update v.cmdToken r false }

/-- A request without a command is released. -/
def free : LifeView := { v with freed := Function.update v.freed r (v.freed r + 1) }

/-- A request is released together with its command. -/
def freeWithCommand : LifeView :=
  { v with
    isDead := Function.update v.isDead r true
    command := Function.update v.command (.request r) .deleted
    freed := Function.update v.freed r (v.freed r + 1) }

def dropRequest (i : SesId) : LifeView :=
  { v with requests := Function.update v.requests i (v.requests i).tail }

end LifeView

namespace LifeInv
variable {v : LifeView} {owner : ReqId → Option PoolId} {stack : List Frame}
  (h : LifeInv v owner stack)
include h

theorem lt_of_busy {r : ReqId} (hr : r ∈ busy stack) : r < v.nextRequest := by
  obtain ⟨f, hf, hb⟩ := mem_busy.mp hr
  have := h.frames f hf
  cases f with
  | run x s w => cases hb; exact this.1
  | cleanup x c => cases hb; exact this.1
  | _ => cases hb

theorem freed_of_busy {r : ReqId} (hr : r ∈ busy stack) : v.freed r = 0 := by
  obtain ⟨f, hf, hb⟩ := mem_busy.mp hr
  have := h.frames f hf
  cases f with
  | run x s w => cases hb; exact this.2.1
  | cleanup x c => cases hb; exact this.2.1
  | _ => cases hb

theorem freed_le_one (r : ReqId) : v.freed r ≤ 1 := by
  by_cases hr : v.freed r = 0
  · rw [hr]; exact Nat.zero_le _
  · exact Nat.le_of_eq (h.gone r hr).1

/-- A command that is there and not deleted is that of a request not gone. -/
theorem live_of_command {r : ReqId} (ha : v.command (.request r) ≠ .absent)
    (hd : v.command (.request r) ≠ .deleted) : r < v.nextRequest ∧ v.freed r = 0 := by
  constructor
  · by_contra hn
    exact ha (h.fresh r (Nat.le_of_not_lt hn)).2.2
  · by_contra hn
    exact (h.gone r hn).2.2.2.elim ha hd

/-- A request whose command is being deleted is being released. -/
theorem busy_of_deleting {r : ReqId} (hr : v.command (.request r) = .deleting) :
    r ∈ busy stack := by
  obtain ⟨hlt, hfree⟩ := h.live_of_command (r := r) (by simp [hr]) (by simp [hr])
  by_contra hb
  have := (h.idle r hlt hfree hb).1
  rw [hr] at this
  cases this

/-- A request whose command is there has been started and is neither being released nor
gone, unless it is its session that is releasing it. -/
theorem of_alive {r : ReqId} (hr : v.command (.request r) = .alive) :
    r < v.nextRequest ∧ v.freed r = 0 ∧ v.cmdToken r = true ∧ v.isDead r = false ∧
      (r ∈ busy stack → ∃ i, .cleanup r (.session i) ∈ stack) := by
  obtain ⟨hlt, hfree⟩ := h.live_of_command (r := r) (by simp [hr]) (by simp [hr])
  by_cases hb : r ∈ busy stack
  · obtain ⟨f, hf, hbf⟩ := mem_busy.mp hb
    have hh := h.frames f hf
    cases f with
    | run x s w =>
      cases hbf
      have := hh.2.2.1
      rw [hr] at this
      cases this
    | cleanup x caller =>
      cases hbf
      cases caller with
      | simple =>
        have := hh.2.2.2.2.1
        rw [hr] at this
        cases this
      | command =>
        rcases hh.2.2.2.2.1 with hc | hc <;> rw [hr] at hc <;> cases hc
      | session i =>
        exact ⟨hlt, hfree, hh.2.2.2.2.2.1, hh.2.2.2.2.2.2, fun _ => ⟨i, hf⟩⟩
    | _ => cases hbf
  · obtain ⟨-, ht, hd⟩ := h.idle r hlt hfree hb
    exact ⟨hlt, hfree, ht, hd, fun hc => absurd hc hb⟩

/-- A frame of another request is not concerned by what happens to one request. -/
theorem holds_of_eq {v' : LifeView} {owner' : ReqId → Option PoolId} {f : Frame} (hf : f ∈ stack)
    (hn : v.nextRequest ≤ v'.nextRequest)
    (hv : ∀ r, f.busy = some r → v'.freed r = v.freed r ∧
      v'.command (.request r) = v.command (.request r) ∧ v'.cmdToken r = v.cmdToken r ∧
      v'.isDead r = v.isDead r ∧ (v.session r = none → v'.session r = none) ∧
      (∀ caller, f = .cleanup r caller → owner r = none → owner' r = none)) :
    f.Holds v' owner' := by
  have hh := h.frames f hf
  cases f with
  | run r s w =>
    obtain ⟨h₁, h₂, h₃, h₄, -, -⟩ := hv r rfl
    simp only [Frame.Holds, h₁, h₂, h₃, h₄]
    exact ⟨Nat.lt_of_lt_of_le hh.1 hn, hh.2⟩
  | cleanup r caller =>
    obtain ⟨h₁, h₂, h₃, h₄, h₅, h₆⟩ := hv r rfl
    simp only [Frame.Holds, h₁, h₂, h₃, h₄]
    exact ⟨Nat.lt_of_lt_of_le hh.1 hn, hh.2.1, h₅ hh.2.2.1, h₆ caller rfl hh.2.2.2.1, hh.2.2.2.2⟩
  | _ => trivial

end LifeInv

/-- Only one request changes, and no request gets into a pool or a list. -/
structure LifeView.Changes (r : ReqId) (v v' : LifeView) (owner owner' : ReqId → Option PoolId) :
    Prop where
  nextRequest : v'.nextRequest = v.nextRequest
  nextSession : v'.nextSession = v.nextSession
  request : ∀ x, x ≠ r → v'.session x = v.session x ∧ v'.cmdToken x = v.cmdToken x ∧
    v'.isDead x = v.isDead x ∧ v'.freed x = v.freed x ∧
    v'.command (.request x) = v.command (.request x)
  session : ∀ i, v'.command (.session i) = v.command (.session i)
  mem : ∀ i x, x ≠ r → (x ∈ v'.requests i ↔ x ∈ v.requests i)
  sublist : ∀ i, (v'.requests i).Sublist (v.requests i)
  owner : ∀ x p, owner' x = some p → owner x = some p

namespace LifeView.Changes
variable {v v' : LifeView} {owner owner' : ReqId → Option PoolId} {r : ReqId}
  (hc : LifeView.Changes r v v' owner owner')
include hc

theorem owner_none {x : ReqId} (ho : owner x = none) : owner' x = none := by
  apply Option.eq_none_iff_forall_ne_some.mpr
  intro p hp
  have := hc.owner x p hp
  rw [ho] at this
  cases this

theorem onFrames {stack : List Frame} {x : ReqId} (h : OnFrames owner' stack x) :
    OnFrames owner stack x := by
  rcases h with hb | ⟨p, hp, ho⟩
  · exact Or.inl hb
  · exact Or.inr ⟨p, hp, hc.owner x p ho⟩

theorem releasesIdle {stack : List Frame} (h : ReleasesIdle v.requests owner stack) :
    ReleasesIdle v'.requests owner' stack :=
  h.mono (fun i _ hx => Or.inl ((hc.sublist i).subset hx)) fun x p hp => Or.inl (hc.owner x p hp)

end LifeView.Changes

/-- One request moves on: its frame on top of the stack, if it has one, is replaced. -/
theorem LifeInv.move {v v' : LifeView} {owner owner' : ReqId → Option PoolId} {stack : List Frame}
    {f g : Option Frame} {r : ReqId} (h : LifeInv v owner (f.toList ++ stack))
    (hc : LifeView.Changes r v v' owner owner') (hlt : r < v.nextRequest) (hn : r ∉ busy stack)
    (hf : ∀ x ∈ f, x.busy = some r) (hf' : ∀ x ∈ g, x.busy = some r ∧ x.Holds v' owner')
    (hidle : g = none → v'.freed r = 0 →
      v'.command (.request r) = .alive ∧ v'.cmdToken r = true ∧ v'.isDead r = false)
    (hgone : v'.freed r ≠ 0 → v'.freed r = 1 ∧ v'.session r = none ∧ owner' r = none ∧
      (v'.command (.request r) = .absent ∨ v'.command (.request r) = .deleted))
    (hmem : ∀ i, r ∈ v'.requests i ↔ v'.session r = some i ∨ g = some (.cleanup r (.session i)))
    (hrel : ∀ i, g = some (.cleanup r (.session i)) →
      ∀ x ∈ v'.requests i, ¬ OnFrames owner stack x) :
    LifeInv v' owner' (g.toList ++ stack) where
  busy_nodup := by
    have hnd : (busy stack).Nodup :=
      h.busy_nodup.sublist ((List.sublist_append_right _ _).filterMap _)
    cases g with
    | none => exact hnd
    | some y =>
      have hy : busy (y :: stack) = r :: busy stack := by
        rw [busy, List.filterMap_cons_some (hf' y rfl).1]; rfl
      rw [Option.toList_some, List.singleton_append, hy]
      exact List.nodup_cons.mpr ⟨hn, hnd⟩
  frames y hy := by
    rcases List.mem_append.mp hy with hy | hy
    · exact (hf' y (Option.mem_toList.mp hy)).2
    · apply h.holds_of_eq (List.mem_append_right _ hy) (Nat.le_of_eq hc.nextRequest.symm)
      intro x hx
      have hne : x ≠ r := fun he => hn (mem_busy.mpr ⟨y, hy, he ▸ hx⟩)
      obtain ⟨h₁, h₂, h₃, h₄, h₅⟩ := hc.request x hne
      exact ⟨h₄, h₅, h₂, h₃, fun hs => h₁.trans hs, fun _ _ ho => hc.owner_none ho⟩
  idle x hx hfree hb := by
    rw [hc.nextRequest] at hx
    by_cases hne : x = r
    · subst hne
      refine hidle ?_ hfree
      cases g with
      | none => rfl
      | some y => exact absurd (mem_busy.mpr ⟨y, List.mem_cons_self, (hf' y rfl).1⟩) hb
    · obtain ⟨-, h₂, h₃, h₄, h₅⟩ := hc.request x hne
      rw [h₂, h₃, h₅]
      refine h.idle x hx (h₄ ▸ hfree) fun hb' => hb ?_
      obtain ⟨y, hy, hyb⟩ := mem_busy.mp hb'
      rcases List.mem_append.mp hy with hy | hy
      · exact absurd (Option.some.inj (hyb.symm.trans (hf y (Option.mem_toList.mp hy)))) hne
      · exact mem_busy.mpr ⟨y, List.mem_append_right _ hy, hyb⟩
  gone x hx := by
    by_cases hne : x = r
    · subst hne; exact hgone hx
    · obtain ⟨h₁, -, -, h₄, h₅⟩ := hc.request x hne
      obtain ⟨hone, hs, ho, hcmd⟩ := h.gone x (h₄ ▸ hx)
      rw [h₁, h₄, h₅]
      exact ⟨hone, hs, hc.owner_none ho, hcmd⟩
  fresh x hx := by
    rw [hc.nextRequest] at hx
    obtain ⟨h₁, -, -, h₄, h₅⟩ := hc.request x (Nat.ne_of_gt (Nat.lt_of_lt_of_le hlt hx))
    rw [h₁, h₄, h₅]
    exact h.fresh x hx
  mem_iff i x := by
    by_cases hne : x = r
    · subst hne
      have hnotmem : Frame.cleanup x (.session i) ∉ stack := fun hm =>
        hn (mem_busy.mpr ⟨_, hm, rfl⟩)
      rw [hmem]
      refine or_congr_right ⟨fun hg => ?_, fun hm => ?_⟩
      · rw [hg]; exact List.mem_cons_self
      · rcases List.mem_append.mp hm with hm | hm
        · exact Option.mem_toList.mp hm
        · exact absurd hm hnotmem
    · have hcleanup : ∀ {y : Option Frame}, (∀ z ∈ y, z.busy = some r) →
          (.cleanup x (.session i) ∈ y.toList ++ stack ↔ Frame.cleanup x (.session i) ∈ stack) := by
        intro y hy
        refine ⟨fun hm => (List.mem_append.mp hm).resolve_left fun hm => ?_, List.mem_append_right _⟩
        exact hne (Option.some.inj (hy _ (Option.mem_toList.mp hm)))
      rw [hc.mem i x hne, h.mem_iff, (hc.request x hne).1, hcleanup hf,
        hcleanup fun y hy => (hf' y hy).1]
  nodup i := (h.nodup i).sublist (hc.sublist i)
  fresh_session i hi := by
    rw [hc.nextSession] at hi
    obtain ⟨hnil, hcmd⟩ := h.fresh_session i hi
    exact ⟨List.sublist_nil.mp (hnil ▸ hc.sublist i), (hc.session i).trans hcmd⟩
  releases := by
    apply (hc.releasesIdle h.releases.of_append).append
    rintro x i rfl z hz hon
    have hx : x = r := Option.some.inj (hf' _ rfl).1
    exact hrel i (by rw [hx]) z hz (hc.onFrames hon)

/-! ### The moves of a request -/

theorem LifeView.sessionRemove_eq (v : LifeView) (r : ReqId) :
    v.sessionRemove r = { v with
      session := Function.update v.session r none
      requests := (v.sessionRemove r).requests } := by
  unfold LifeView.sessionRemove
  cases hs : v.session r with
  | none =>
    have : Function.update v.session r none = v.session := by rw [← hs, Function.update_eq_self]
    simp only [this]
  | some i => rfl

theorem LifeView.sublist_sessionRemove (v : LifeView) (r : ReqId) (i : SesId) :
    ((v.sessionRemove r).requests i).Sublist (v.requests i) := by
  unfold LifeView.sessionRemove
  cases v.session r with
  | none => exact List.Sublist.refl _
  | some j =>
    by_cases hi : i = j
    · subst hi; simpa using List.erase_sublist
    · simp [hi]

/-- Another request stays the first one of its session. -/
theorem LifeView.head?_sessionRemove (v : LifeView) {r x : ReqId} (hx : x ≠ r) {i : SesId}
    (h : (v.requests i).head? = some x) : ((v.sessionRemove r).requests i).head? = some x := by
  obtain ⟨rs, hrs⟩ := List.head?_eq_some_iff.mp h
  unfold LifeView.sessionRemove
  cases v.session r with
  | none => exact h
  | some j =>
    by_cases hi : i = j
    · subst hi
      have herase : (x :: rs).erase r = x :: rs.erase r := List.erase_cons_tail (by simpa using hx)
      simp only [Function.update_self, hrs, herase, List.head?_cons]
    · simpa only [Function.update_of_ne hi] using h

theorem LifeView.mem_sessionRemove (v : LifeView) {r x : ReqId} (hx : x ≠ r) (i : SesId) :
    x ∈ (v.sessionRemove r).requests i ↔ x ∈ v.requests i := by
  unfold LifeView.sessionRemove
  cases v.session r with
  | none => exact Iff.rfl
  | some j =>
    by_cases hi : i = j
    · subst hi; simp [List.mem_erase_of_ne hx]
    · simp [hi]

namespace LifeInv
variable {v : LifeView} {owner owner' : ReqId → Option PoolId} {stack : List Frame} {r : ReqId}

/-- A request that leaves its session is in no list. -/
theorem notMem_sessionRemove {f : Option Frame} (h : LifeInv v owner (f.toList ++ stack))
    (hf : ∀ i, f ≠ some (.cleanup r (.session i))) (hn : r ∉ busy stack) (i : SesId) :
    r ∉ (v.sessionRemove r).requests i := by
  have hnot : ∀ j, Frame.cleanup r (.session j) ∉ f.toList ++ stack := fun j hm => by
    rcases List.mem_append.mp hm with hm | hm
    · exact hf j (Option.mem_toList.mp hm)
    · exact hn (mem_busy.mpr ⟨_, hm, rfl⟩)
  intro hm
  have hs := ((h.mem_iff i r).mp ((v.sublist_sessionRemove r i).subset hm)).resolve_right (hnot i)
  simp only [LifeView.sessionRemove, hs, Function.update_self] at hm
  exact (h.nodup i).not_mem_erase hm

/-- `treq_RequestFree` starts on a request that is not released by its session. -/
theorem sessionRemove {v₁ : LifeView} {f : Option Frame} {caller : Caller}
    (h : LifeInv v owner (f.toList ++ stack))
    (hf : ∀ x ∈ f, x.busy = some r) (hf' : ∀ i, f ≠ some (.cleanup r (.session i)))
    (hc : LifeView.Changes r v v₁ owner owner) (hs : v₁.session = v.session)
    (hreq : v₁.requests = v.requests) (hfree : v₁.freed r = v.freed r)
    (hcaller : ∀ i, caller ≠ .session i) (hlt : r < v.nextRequest) (hr : v.freed r = 0)
    (hn : r ∉ busy stack) (ho : ∀ x p, owner' x = some p → owner x = some p) (hor : owner' r = none)
    (hholds : match caller with
      | .simple => v₁.command (.request r) = .absent ∧ v₁.cmdToken r = false
      | .command => (v₁.command (.request r) = .deleting ∨ v₁.command (.request r) = .unlinked) ∧
        v₁.cmdToken r = false
      | .session _ => True) :
    LifeInv (v₁.sessionRemove r) owner' (.cleanup r caller :: stack) := by
  have heq := v₁.sessionRemove_eq r
  have hreq' : (v₁.sessionRemove r).requests = (v.sessionRemove r).requests := by
    unfold LifeView.sessionRemove
    rw [hs, hreq]
    cases v.session r with
    | none => exact hreq
    | some i => rfl
  have hsession : (v₁.sessionRemove r).session r = none := by rw [heq]; simp
  refine h.move (g := some (.cleanup r caller)) (r := r) ?_ hlt hn hf ?_ ?_ ?_ ?_ ?_
  · constructor
    · rw [heq]; exact hc.nextRequest
    · rw [heq]; exact hc.nextSession
    · intro x hx
      rw [heq]
      simpa [hx] using hc.request x hx
    · intro i; rw [heq]; exact hc.session i
    · intro i x hx; rw [hreq']; exact v.mem_sessionRemove hx i
    · intro i; rw [hreq']; exact v.sublist_sessionRemove r i
    · exact ho
  · intro x hx
    cases hx
    refine ⟨rfl, ?_, ?_, hsession, hor, ?_⟩
    · rw [heq, hc.nextRequest]; exact hlt
    · rw [heq]; exact hfree.trans hr
    · cases caller with
      | session i => exact absurd rfl (hcaller i)
      | simple => rw [heq]; exact hholds
      | command => rw [heq]; exact hholds
  · intro hx; cases hx
  · intro hx
    rw [heq] at hx
    exact absurd (hfree.trans hr) hx
  · intro i
    rw [hreq', hsession]
    refine ⟨fun hm => absurd hm (h.notMem_sessionRemove hf' hn i), ?_⟩
    rintro (hm | hm)
    · cases hm
    · cases hm; exact absurd rfl (hcaller i)
  · intro i hx
    cases hx
    exact absurd rfl (hcaller i)

/-- A `-simple` request is released. -/
theorem release_simple {s w : Bool} (h : LifeInv v owner (.run r s w :: stack))
    (ho : ∀ x p, owner' x = some p → owner x = some p) (hor : owner' r = none) :
    LifeInv (v.sessionRemove r) owner' (.cleanup r .simple :: stack) := by
  obtain ⟨hlt, hfree, hcmd, htok, -⟩ := h.frames _ List.mem_cons_self
  have hn : r ∉ busy stack := (List.nodup_cons.mp h.busy_nodup).1
  refine sessionRemove (f := some (.run r s w)) h ?_ (by simp) ?_ rfl rfl rfl (by simp) hlt hfree hn ho hor
    ⟨hcmd, htok⟩
  · rintro x hx; cases hx; rfl
  · exact ⟨rfl, rfl, fun _ _ => ⟨rfl, rfl, rfl, rfl, rfl⟩, fun _ => rfl, fun _ _ _ => Iff.rfl,
      fun _ => List.Sublist.refl _, fun _ _ hx => hx⟩

/-- A request is released by the deletion of its command. -/
theorem release_command (h : LifeInv v owner stack) (ha : v.command (.request r) = .alive)
    (hn : r ∉ busy stack) (ho : ∀ x p, owner' x = some p → owner x = some p) (hor : owner' r = none) :
    LifeInv (((v.setCommand (.request r) .deleting).clearCmdToken r).sessionRemove r) owner'
      (.cleanup r .command :: stack) := by
  obtain ⟨hlt, hfree, -⟩ := h.of_alive ha
  refine sessionRemove (f := none) h (by simp) (by simp) ?_ rfl rfl rfl (by simp) hlt hfree hn ho hor ?_
  · exact ⟨rfl, rfl, fun x hx => by simp [LifeView.clearCmdToken, LifeView.setCommand, hx],
      fun i => by simp [LifeView.clearCmdToken, LifeView.setCommand], fun _ _ _ => Iff.rfl,
      fun _ => List.Sublist.refl _, fun _ _ hx => hx⟩
  · simp [LifeView.clearCmdToken, LifeView.setCommand]

/-- A request is released by its session. -/
theorem release_session {i : SesId} (h : LifeInv v owner stack) (hr : r ∈ v.requests i)
    (hidle : ∀ x ∈ v.requests i, ¬ OnFrames owner stack x)
    (ho : ∀ x p, owner' x = some p → owner x = some p) (hor : owner' r = none) :
    LifeInv (v.clearSession r) owner' (.cleanup r (.session i) :: stack) := by
  have hn : r ∉ busy stack := fun hb => hidle r hr (Or.inl hb)
  have hs : v.session r = some i := ((h.mem_iff i r).mp hr).resolve_right fun hm =>
    hn (mem_busy.mpr ⟨_, hm, rfl⟩)
  have hlt : r < v.nextRequest := by
    by_contra hge
    have := (h.fresh r (Nat.le_of_not_lt hge)).2.1
    rw [hs] at this
    cases this
  have hfree : v.freed r = 0 := by
    by_contra hne
    have := (h.gone r hne).2.1
    rw [hs] at this
    cases this
  refine h.move (f := none) (g := some (.cleanup r (.session i))) (r := r) ?_ hlt hn (by simp) ?_ ?_ ?_ ?_ ?_
  · exact ⟨rfl, rfl, fun x hx => by simp [LifeView.clearSession, hx], fun _ => rfl,
      fun _ _ _ => Iff.rfl, fun _ => List.Sublist.refl _, ho⟩
  · intro x hx
    cases hx
    exact ⟨rfl, hlt, hfree, by simp [LifeView.clearSession], hor, h.idle r hlt hfree hn⟩
  · intro hx; cases hx
  · exact fun hx => absurd hfree hx
  · intro j
    change r ∈ v.requests j ↔ _
    rw [h.mem_iff, hs]
    have hnot : Frame.cleanup r (.session j) ∉ stack := fun hm => hn (mem_busy.mpr ⟨_, hm, rfl⟩)
    simp [LifeView.clearSession, hnot]
  · intro j hx
    cases hx
    exact hidle

/-- The command of a new request. -/
theorem createHandle {s w : Bool} (h : LifeInv v owner (.run r s w :: stack)) :
    LifeInv (v.createHandle r) owner stack := by
  obtain ⟨hlt, hfree, hcmd, htok, hdead⟩ := h.frames _ List.mem_cons_self
  have hn : r ∉ busy stack := (List.nodup_cons.mp h.busy_nodup).1
  refine LifeInv.move (f := some (.run r s w)) (g := none) (r := r) h ?_ hlt hn ?_ (by simp) ?_ ?_ ?_
    (by simp)
  · exact ⟨rfl, rfl, fun x hx => by simp [LifeView.createHandle, hx],
      fun i => by simp [LifeView.createHandle], fun _ _ _ => Iff.rfl,
      fun _ => List.Sublist.refl _, fun _ _ hx => hx⟩
  · rintro x hx; cases hx; rfl
  · intro _ _
    simpa [LifeView.createHandle] using hdead
  · exact fun hx => absurd hfree hx
  · intro i
    change r ∈ v.requests i ↔ v.session r = some i ∨ _
    rw [h.mem_iff]
    have hnot : Frame.cleanup r (.session i) ∉ stack := fun hm => hn (mem_busy.mpr ⟨_, hm, rfl⟩)
    simp [hnot]

/-- The end of a release that leaves the command to its caller. -/
theorem free {caller : Caller} (h : LifeInv v owner (.cleanup r caller :: stack))
    (hcaller : ∀ i, caller ≠ .session i) (status : CmdStatus)
    (hstatus : status = .absent ∨ status = .deleted) :
    LifeInv ((v.free r).setCommand (.request r) status) owner stack := by
  obtain ⟨hlt, hfree, hs, hor, -⟩ := h.frames _ List.mem_cons_self
  have hn : r ∉ busy stack := (List.nodup_cons.mp h.busy_nodup).1
  refine LifeInv.move (f := some (.cleanup r caller)) (g := none) (r := r) h ?_ hlt hn ?_ (by simp) ?_ ?_ ?_
    (by simp)
  · exact ⟨rfl, rfl, fun x hx => by simp [LifeView.free, LifeView.setCommand, hx],
      fun i => by simp [LifeView.free, LifeView.setCommand], fun _ _ _ => Iff.rfl,
      fun _ => List.Sublist.refl _, fun _ _ hx => hx⟩
  · rintro x hx; cases hx; rfl
  · intro _ hx
    simp [LifeView.free, LifeView.setCommand] at hx
  · intro _
    refine ⟨by simp [LifeView.free, LifeView.setCommand, hfree], hs, hor, ?_⟩
    simpa [LifeView.free, LifeView.setCommand] using hstatus
  · intro i
    change r ∈ v.requests i ↔ v.session r = some i ∨ _
    rw [h.mem_iff]
    have hnot : Frame.cleanup r (.session i) ∉ stack := fun hm => hn (mem_busy.mpr ⟨_, hm, rfl⟩)
    simp [hnot, Ne.symm (hcaller i)]

/-- The end of a release by a session, whose list starts with the request. -/
theorem freeWithCommand {i : SesId} (h : LifeInv v owner (.cleanup r (.session i) :: stack))
    (hhead : (v.requests i).head? = some r) :
    LifeInv ((v.freeWithCommand r).dropRequest i) owner stack := by
  obtain ⟨hlt, hfree, hs, hor, -⟩ := h.frames _ List.mem_cons_self
  have hn : r ∉ busy stack := (List.nodup_cons.mp h.busy_nodup).1
  obtain ⟨rs, hrs⟩ := List.head?_eq_some_iff.mp hhead
  have hnd := h.nodup i
  rw [hrs] at hnd
  refine LifeInv.move (f := some (.cleanup r (.session i))) (g := none) (r := r) h ?_ hlt hn ?_ (by simp)
    ?_ ?_ ?_ (by simp)
  · refine ⟨rfl, rfl, fun x hx => by simp [LifeView.freeWithCommand, LifeView.dropRequest, hx],
      fun i => by simp [LifeView.freeWithCommand, LifeView.dropRequest], fun j x hx => ?_, fun j => ?_,
      fun _ _ hx => hx⟩
    · by_cases hj : j = i
      · subst hj
        simp [LifeView.freeWithCommand, LifeView.dropRequest, hrs, hx]
      · simp [LifeView.freeWithCommand, LifeView.dropRequest, hj]
    · by_cases hj : j = i
      · subst hj
        simpa [LifeView.freeWithCommand, LifeView.dropRequest] using List.tail_sublist _
      · simp [LifeView.freeWithCommand, LifeView.dropRequest, hj]
  · rintro x hx; cases hx; rfl
  · intro _ hx
    simp [LifeView.freeWithCommand, LifeView.dropRequest] at hx
  · intro _
    refine ⟨by simp [LifeView.freeWithCommand, LifeView.dropRequest, hfree], hs, hor, ?_⟩
    simp [LifeView.freeWithCommand, LifeView.dropRequest]
  · intro j
    have hj : r ∉ ((v.freeWithCommand r).dropRequest i).requests j := by
      by_cases hj : j = i
      · subst hj
        simpa [LifeView.freeWithCommand, LifeView.dropRequest, hrs] using (List.nodup_cons.mp hnd).1
      · have hnot : Frame.cleanup r (.session j) ∉ stack := fun hm => hn (mem_busy.mpr ⟨_, hm, rfl⟩)
        simp only [LifeView.freeWithCommand, LifeView.dropRequest, Function.update_of_ne hj]
        rw [h.mem_iff, hs]
        simp [hj, hnot]
    simp only [hj, false_iff]
    rintro (hm | hm)
    · change v.session r = some j at hm
      rw [hs] at hm
      cases hm
    · cases hm

/-- A new request, whose run starts. -/
theorem create {session : Option SesId} (h : LifeInv v owner stack)
    (hs : ∀ i, session = some i → i < v.nextSession) (interp : InterpId) (s w : Bool) :
    LifeInv (v.create session interp) (Function.update owner v.nextRequest none)
      (.run v.nextRequest s w :: stack) := by
  have hfresh := h.fresh v.nextRequest (Nat.le_refl _)
  have hnb : v.nextRequest ∉ busy stack := fun hb => Nat.lt_irrefl _ (h.lt_of_busy hb)
  have hne : ∀ {x}, x < v.nextRequest → x ≠ v.nextRequest := fun hx => Nat.ne_of_lt hx
  have hnotmem : ∀ i, v.nextRequest ∉ v.requests i := fun i hm => by
    rcases (h.mem_iff i _).mp hm with hm | hm
    · rw [hfresh.2.1] at hm; cases hm
    · exact hnb (mem_busy.mpr ⟨_, hm, rfl⟩)
  have hreq : ∀ i, (v.create session interp).requests i =
      if session = some i then v.nextRequest :: v.requests i else v.requests i := by
    intro i
    cases session with
    | none => simp [LifeView.create]
    | some j =>
      by_cases hi : i = j
      · subst hi; simp [LifeView.create]
      · simp [LifeView.create, hi, Ne.symm hi]
  constructor
  · exact List.nodup_cons.mpr ⟨hnb, h.busy_nodup⟩
  · intro f hf
    rcases List.mem_cons.mp hf with rfl | hf
    · exact ⟨Nat.lt_succ_self _, hfresh.1, hfresh.2.2, by simp [LifeView.create],
        by simp [LifeView.create]⟩
    · apply h.holds_of_eq hf (Nat.le_succ _)
      intro x hx
      have hx := hne (h.lt_of_busy (mem_busy.mpr ⟨f, hf, hx⟩))
      exact ⟨rfl, rfl, by simp [LifeView.create, hx], by simp [LifeView.create, hx],
        by simp [LifeView.create, hx], fun _ _ ho => by simpa [hx] using ho⟩
  · intro x hx hfree hb
    rw [busy_run, List.mem_cons, not_or] at hb
    have hlt : x < v.nextRequest := Nat.lt_of_le_of_ne (Nat.le_of_lt_succ hx) hb.1
    simpa [LifeView.create, hb.1] using h.idle x hlt hfree hb.2
  · intro x hx
    have hx' : x ≠ v.nextRequest := fun he => hx (he ▸ hfresh.1)
    simpa [LifeView.create, hx'] using h.gone x hx
  · intro x hx
    have hx' : x ≠ v.nextRequest := Nat.ne_of_gt hx
    simpa [LifeView.create, hx'] using h.fresh x (Nat.le_of_succ_le hx)
  · intro i x
    have hframe : Frame.cleanup x (.session i) ∈ Frame.run v.nextRequest s w :: stack ↔
        .cleanup x (.session i) ∈ stack := by simp
    rw [hreq, hframe]
    by_cases hx : x = v.nextRequest
    · subst hx
      have hnot : Frame.cleanup v.nextRequest (.session i) ∉ stack := fun hm =>
        hnb (mem_busy.mpr ⟨_, hm, rfl⟩)
      split_ifs with hi
      · simp [LifeView.create, hi]
      · simp [LifeView.create, hi, hnotmem i, hnot]
    · have : (v.create session interp).session x = v.session x := by simp [LifeView.create, hx]
      rw [this, ← h.mem_iff]
      split_ifs
      · simp [hx]
      · rfl
  · intro i
    rw [hreq]
    split_ifs
    · exact List.nodup_cons.mpr ⟨hnotmem i, h.nodup i⟩
    · exact h.nodup i
  · intro i hi
    rw [hreq, if_neg fun hc => Nat.not_le_of_lt (hs i hc) hi]
    exact h.fresh_session i hi
  · have hrel : ReleasesIdle (v.create session interp).requests
        (Function.update owner v.nextRequest none) stack := by
      refine ReleasesIdle.mono h.releases (fun i x hx => ?_) fun x p hp => Or.inl ?_
      · rw [hreq] at hx
        split_ifs at hx
        · rcases List.mem_cons.mp hx with rfl | hx
          · exact Or.inr ⟨hnb, by simp⟩
          · exact Or.inl hx
        · exact Or.inl hx
      · by_cases hx : x = v.nextRequest
        · simp [hx] at hp
        · simpa [hx] using hp
    exact hrel

/-! ### Other steps -/

/-- The interpreters, and how often a session was released, do not count. -/
theorem congr_view {v' : LifeView} (h : LifeInv v owner stack) (h₁ : v'.session = v.session)
    (h₂ : v'.cmdToken = v.cmdToken) (h₃ : v'.isDead = v.isDead)
    (h₄ : v'.nextRequest = v.nextRequest) (h₅ : v'.freed = v.freed)
    (h₆ : v'.requests = v.requests) (h₇ : ∀ r, v'.command (.request r) = v.command (.request r))
    (hn : v.nextSession ≤ v'.nextSession)
    (h₈ : ∀ i, v'.nextSession ≤ i → v'.command (.session i) = .absent) :
    LifeInv v' owner stack where
  busy_nodup := h.busy_nodup
  frames f hf := h.holds_of_eq hf (Nat.le_of_eq h₄.symm) fun r _ =>
    ⟨congrFun h₅ r, h₇ r, congrFun h₂ r, congrFun h₃ r, fun hs => (congrFun h₁ r).trans hs, fun _ _ => id⟩
  idle r := by rw [h₂, h₃, h₄, h₅, h₇]; exact h.idle r
  gone r := by rw [h₁, h₅, h₇]; exact h.gone r
  fresh r := by rw [h₁, h₄, h₅, h₇]; exact h.fresh r
  mem_iff i r := by rw [h₁, h₆]; exact h.mem_iff i r
  nodup i := by rw [h₆]; exact h.nodup i
  fresh_session i hi := ⟨by rw [h₆]; exact (h.fresh_session i (Nat.le_trans hn hi)).1, h₈ i hi⟩
  releases := by rw [h₆]; exact h.releases

/-- The pools have changed; nothing has been added to one that is being performed. -/
theorem congr_owner (h : LifeInv v owner stack)
    (ho : ∀ r p, owner' r = some p → owner r = some p ∨ p ∉ performing stack)
    (hnone : ∀ r < v.nextRequest, (∃ caller, .cleanup r caller ∈ stack) ∨ v.freed r ≠ 0 →
      owner r = none → owner' r = none) : LifeInv v owner' stack where
  busy_nodup := h.busy_nodup
  frames f hf := h.holds_of_eq hf (Nat.le_refl _) fun r hr =>
    ⟨rfl, rfl, rfl, rfl, id, fun caller hc =>
      hnone r (h.lt_of_busy (mem_busy.mpr ⟨f, hf, hr⟩)) (Or.inl ⟨caller, hc ▸ hf⟩)⟩
  idle := h.idle
  gone r hr := by
    obtain ⟨h₁, h₂, h₃, h₄⟩ := h.gone r hr
    refine ⟨h₁, h₂, hnone r ?_ (Or.inr hr) h₃, h₄⟩
    by_contra hlt
    exact hr (h.fresh r (Nat.le_of_not_lt hlt)).1
  fresh := h.fresh
  mem_iff := h.mem_iff
  nodup := h.nodup
  fresh_session := h.fresh_session
  releases := h.releases.mono (fun _ _ hm => Or.inl hm) ho

/-- Whether a write callback of a run has failed does not matter. -/
theorem congr_run {s w w' : Bool} (h : LifeInv v owner (.run r s w :: stack)) :
    LifeInv v owner (.run r s w' :: stack) where
  busy_nodup := h.busy_nodup
  frames f hf := by
    rcases List.mem_cons.mp hf with rfl | hf
    · exact h.frames (.run r s w) List.mem_cons_self
    · exact h.frames f (List.mem_cons_of_mem _ hf)
  idle := h.idle
  gone := h.gone
  fresh := h.fresh
  mem_iff i x := by rw [h.mem_iff]; simp
  nodup := h.nodup
  fresh_session := h.fresh_session
  releases := h.releases

/-- The command of a request that is being released is deleted once more. -/
theorem unlink (h : LifeInv v owner stack) (hr : v.command (.request r) = .deleting) :
    LifeInv (v.setCommand (.request r) .unlinked) owner stack := by
  have hother : ∀ x, x ≠ r → (v.setCommand (.request r) .unlinked).command (.request x) =
      v.command (.request x) := fun x hx => by simp [LifeView.setCommand, hx]
  constructor
  · exact h.busy_nodup
  · intro f hf
    have hh := h.frames f hf
    by_cases hb : f.busy = some r
    · cases f with
      | run x s w => cases hb; rw [hh.2.2.1] at hr; cases hr
      | cleanup x caller =>
        cases hb
        cases caller with
        | simple => rw [hh.2.2.2.2.1] at hr; cases hr
        | command =>
          exact ⟨hh.1, hh.2.1, hh.2.2.1, hh.2.2.2.1, Or.inr (by simp [LifeView.setCommand]),
            hh.2.2.2.2.2⟩
        | session i => rw [hh.2.2.2.2.1] at hr; cases hr
      | _ => cases hb
    · refine h.holds_of_eq hf (Nat.le_refl _) fun x hx => ?_
      exact ⟨rfl, hother x fun he => hb (he ▸ hx), rfl, rfl, id, fun _ _ => id⟩
  · intro x hx hfree hb
    have hidle := h.idle x hx hfree hb
    rw [hother x fun he => by rw [he, hr] at hidle; cases hidle.1]
    exact hidle
  · intro x hx
    have hgone := h.gone x hx
    rw [hother x fun he => by rw [he, hr] at hgone; rcases hgone.2.2.2 with hc | hc <;> cases hc]
    exact hgone
  · intro x hx
    have hfresh := h.fresh x hx
    rw [hother x fun he => by rw [he, hr] at hfresh; cases hfresh.2.2]
    exact hfresh
  · exact h.mem_iff
  · exact h.nodup
  · intro i hi
    simpa [LifeView.setCommand] using h.fresh_session i hi
  · exact h.releases

end LifeInv

end Trequests
