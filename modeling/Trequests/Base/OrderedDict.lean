import Mathlib.Data.List.Nodup
import Mathlib.Data.List.Basic
import Mathlib.Data.List.Induction
import Mathlib.Data.List.Pairwise

/-! Dictionaries that remember the order of insertion. Overwriting the value of a
key keeps the key's position; a new key goes to the end. The entries are a list
whose keys are distinct, which the structure carries. After a sequence of
insertions the keys stand in the order of their first occurrences and every key
has its last value. -/

namespace Trequests

variable {κ ν : Type*}

structure OrderedDict (κ ν : Type*) where
  entries : List (κ × ν)
  nodup : (entries.map Prod.fst).Nodup
  deriving DecidableEq

namespace OrderedDict

theorem ext_entries {d e : OrderedDict κ ν} (h : d.entries = e.entries) : d = e := by
  cases d; cases e; cases h; rfl

def empty : OrderedDict κ ν := ⟨[], List.nodup_nil⟩

def keys (d : OrderedDict κ ν) : List κ := d.entries.map Prod.fst

def size (d : OrderedDict κ ν) : ℕ := d.entries.length

variable [DecidableEq κ]

/-! ### Entry lists -/

/-- Overwrite the value of `k` in place, or append the pair. -/
def putList : List (κ × ν) → κ → ν → List (κ × ν)
  | [], k, v => [(k, v)]
  | e :: es, k, v => if e.1 = k then (k, v) :: es else e :: putList es k v

def putAll (es : List (κ × ν)) (ps : List (κ × ν)) : List (κ × ν) :=
  ps.foldl (fun l p => putList l p.1 p.2) es

@[simp] theorem putAll_nil (es : List (κ × ν)) : putAll es [] = es := rfl

@[simp] theorem putAll_cons (es ps : List (κ × ν)) (p : κ × ν) :
    putAll es (p :: ps) = putAll (putList es p.1 p.2) ps := rfl

theorem putAll_append (es ps qs : List (κ × ν)) :
    putAll es (ps ++ qs) = putAll (putAll es ps) qs := List.foldl_append

theorem putList_of_notMem {es : List (κ × ν)} {k : κ} (h : k ∉ es.map Prod.fst) (v : ν) :
    putList es k v = es ++ [(k, v)] := by
  induction es with
  | nil => rfl
  | cons e es ih =>
    simp only [List.map_cons, List.mem_cons, not_or] at h
    simp only [putList, if_neg (Ne.symm h.1), ih h.2, List.cons_append]

theorem map_fst_putList_of_mem {es : List (κ × ν)} {k : κ} (h : k ∈ es.map Prod.fst) (v : ν) :
    (putList es k v).map Prod.fst = es.map Prod.fst := by
  induction es with
  | nil => simp at h
  | cons e es ih =>
    by_cases he : e.1 = k
    · simp [putList, he]
    · have hk : k ∈ es.map Prod.fst := by
        rcases List.mem_cons.mp h with h | h
        · exact absurd h.symm he
        · exact h
      simp only [putList, if_neg he, List.map_cons, ih hk]

theorem map_fst_putList (es : List (κ × ν)) (k : κ) (v : ν) :
    (putList es k v).map Prod.fst =
      if k ∈ es.map Prod.fst then es.map Prod.fst else es.map Prod.fst ++ [k] := by
  split_ifs with h
  · exact map_fst_putList_of_mem h v
  · rw [putList_of_notMem h]; simp

theorem nodup_putList {es : List (κ × ν)} (h : (es.map Prod.fst).Nodup) (k : κ) (v : ν) :
    ((putList es k v).map Prod.fst).Nodup := by
  rw [map_fst_putList]
  split_ifs with hk
  · exact h
  · exact List.nodup_append.mpr ⟨h, List.nodup_singleton k, by
      rintro a ha b hb rfl; exact hk (List.mem_singleton.mp hb ▸ ha)⟩

theorem nodup_putAll {es : List (κ × ν)} (h : (es.map Prod.fst).Nodup) (ps : List (κ × ν)) :
    ((putAll es ps).map Prod.fst).Nodup := by
  induction ps generalizing es with
  | nil => exact h
  | cons p ps ih => exact ih (nodup_putList h p.1 p.2)

theorem nodup_putAll_nil (ps : List (κ × ν)) : ((putAll [] ps).map Prod.fst).Nodup :=
  @nodup_putAll κ ν _ [] List.nodup_nil ps

/-- Insertion acts on the entries of a class of keys as it acts on them alone. -/
theorem filter_putList (q : κ → Bool) (es : List (κ × ν)) (k : κ) (v : ν) :
    (putList es k v).filter (fun e => q e.1) =
      if q k then putList (es.filter fun e => q e.1) k v else es.filter fun e => q e.1 := by
  induction es with
  | nil => by_cases hq : q k <;> simp [putList, hq]
  | cons e es ih =>
    by_cases he : e.1 = k
    · subst he
      by_cases hq : q e.1 <;> simp [putList, hq]
    · by_cases hq : q k <;> by_cases hqe : q e.1 <;>
        simp [putList, he, hq, hqe, ih]

theorem filter_putAll (q : κ → Bool) (es ps : List (κ × ν)) :
    (putAll es ps).filter (fun e => q e.1) =
      putAll (es.filter fun e => q e.1) (ps.filter fun p => q p.1) := by
  induction ps generalizing es with
  | nil => rfl
  | cons p ps ih =>
    rw [putAll_cons, ih, filter_putList]
    by_cases hq : q p.1 <;> simp [hq]

/-- A present key can be overwritten before or after another key is put. -/
theorem putList_comm {es : List (κ × ν)} {k a : κ} (hk : k ∈ es.map Prod.fst) (h : a ≠ k)
    (v w : ν) : putList (putList es a w) k v = putList (putList es k v) a w := by
  induction es with
  | nil => simp at hk
  | cons e es ih =>
    by_cases hek : e.1 = k
    · have hea : e.1 ≠ a := fun he => h (he ▸ hek)
      simp [putList, hek, Ne.symm h]
    · have hk' : k ∈ es.map Prod.fst := by
        rcases List.mem_cons.mp hk with hk | hk
        · exact absurd hk.symm hek
        · exact hk
      by_cases hea : e.1 = a
      · simp [putList, hea, h]
      · simp [putList, hek, hea, ih hk']

theorem putList_putAll_comm {es ds : List (κ × ν)} {k : κ} (hk : k ∈ es.map Prod.fst)
    (hd : k ∉ ds.map Prod.fst) (v : ν) :
    putList (putAll es ds) k v = putAll (putList es k v) ds := by
  induction ds generalizing es with
  | nil => rfl
  | cons d ds ih =>
    simp only [List.map_cons, List.mem_cons, not_or] at hd
    have hk' : k ∈ (putList es d.1 d.2).map Prod.fst := by
      rw [map_fst_putList]; split_ifs <;> simp [hk]
    rw [putAll_cons, putAll_cons, ih hk' hd.2, putList_comm hk (Ne.symm hd.1)]

theorem putAll_putList (es : List (κ × ν)) {ds : List (κ × ν)} (hd : (ds.map Prod.fst).Nodup)
    (k : κ) (v : ν) : putAll es (putList ds k v) = putList (putAll es ds) k v := by
  induction ds generalizing es with
  | nil => rfl
  | cons d ds ih =>
    obtain ⟨hn, hd⟩ := List.nodup_cons.mp hd
    by_cases h : d.1 = k
    · have hmem : k ∈ (putList es k d.2).map Prod.fst := by
        rw [map_fst_putList]; split_ifs with hm
        · exact hm
        · simp
      have hover : putList (putList es k d.2) k v = putList es k v := by
        clear hmem
        induction es with
        | nil => simp [putList]
        | cons e es ihe => by_cases he : e.1 = k <;> simp [putList, he, ihe]
      simp only [putList, h, ↓reduceIte, putAll_cons]
      rw [putList_putAll_comm hmem (h ▸ hn), hover]
    · simp only [putList, if_neg h, putAll_cons, ih _ hd]

/-- Merging a dictionary entry by entry is putting the pairs it was built from. -/
theorem putAll_putAll (es ps : List (κ × ν)) : putAll es (putAll [] ps) = putAll es ps := by
  induction ps using List.reverseRecOn with
  | nil => rfl
  | append_singleton ps p ih =>
    rw [putAll_append [] ps [p], putAll_cons, putAll_nil,
      putAll_putList es (nodup_putAll_nil ps), ih, putAll_append, putAll_cons,
      putAll_nil]

/-! ### The result of a sequence of insertions -/

theorem putAll_concat (ps : List (κ × ν)) (k : κ) (v : ν) :
    putAll [] (ps ++ [(k, v)]) = putList (putAll [] ps) k v := by
  rw [putAll_append]; rfl

theorem mem_keys_putAll (ps : List (κ × ν)) (k : κ) :
    k ∈ (putAll [] ps).map Prod.fst ↔ k ∈ ps.map Prod.fst := by
  induction ps using List.reverseRecOn with
  | nil => rfl
  | append_singleton ps p ih =>
    rw [putAll_concat, map_fst_putList, List.map_append, List.mem_append, ← ih]
    split_ifs with h
    · constructor
      · exact Or.inl
      · rintro (hk | hk)
        · exact hk
        · rw [List.map_singleton, List.mem_singleton] at hk; exact hk ▸ h
    · simp

theorem putAll_eq_nil_iff (ps : List (κ × ν)) : putAll [] ps = [] ↔ ps = [] := by
  constructor
  · intro h
    apply List.eq_nil_iff_forall_not_mem.mpr
    intro p hp
    have := (mem_keys_putAll ps p.1).mpr (List.mem_map_of_mem hp)
    rw [h] at this
    cases this
  · rintro rfl
    rfl

/-- The keys stand in the order of their first occurrences. -/
theorem keys_putAll_sorted (ps : List (κ × ν)) :
    ((putAll [] ps).map Prod.fst).Pairwise
      (fun a b => (ps.map Prod.fst).idxOf a < (ps.map Prod.fst).idxOf b) := by
  induction ps using List.reverseRecOn with
  | nil => exact List.Pairwise.nil
  | append_singleton ps p ih =>
    have hold : ((putAll [] ps).map Prod.fst).Pairwise
        (fun a b => ((ps ++ [p]).map Prod.fst).idxOf a < ((ps ++ [p]).map Prod.fst).idxOf b) := by
      refine List.Pairwise.imp_of_mem ?_ ih
      intro a b ha hb hab
      rw [mem_keys_putAll] at ha hb
      rw [List.map_append, List.idxOf_append_of_mem ha, List.idxOf_append_of_mem hb]
      exact hab
    rw [putAll_concat, map_fst_putList]
    split_ifs with h
    · exact hold
    · refine List.pairwise_append.mpr ⟨hold, List.pairwise_singleton _ _, ?_⟩
      intro a ha b hb
      rw [List.mem_singleton] at hb
      rw [mem_keys_putAll] at ha h
      rw [hb, List.map_append, List.idxOf_append_of_mem ha, List.idxOf_append_of_notMem h]
      have := List.idxOf_lt_length_of_mem ha
      omega

/-- The value kept for a key is the one of its last occurrence. -/
theorem mem_putAll (ps : List (κ × ν)) (k : κ) (v : ν) :
    (k, v) ∈ putAll [] ps ↔ (ps.filter fun p => p.1 = k).getLast? = some (k, v) := by
  have hf := filter_putAll (fun a => decide (a = k)) [] ps
  have hm : (k, v) ∈ putAll [] ps ↔ (k, v) ∈ (putAll [] ps).filter (fun e => decide (e.1 = k)) := by
    simp
  rw [hm, hf, List.filter_nil]
  generalize hqs : ps.filter (fun p => decide (p.1 = k)) = qs
  have hall : ∀ p ∈ qs, p.1 = k := by
    intro p hp; rw [← hqs, List.mem_filter] at hp; simpa using hp.2
  clear hqs hf hm
  -- all keys are equal, so at every point there is one entry, the last pair
  have hone : putAll [] qs = qs.getLast?.toList := by
    induction qs using List.reverseRecOn with
    | nil => rfl
    | append_singleton qs q ih =>
      have hq := hall q (by simp)
      rw [putAll_concat, ih fun p hp => hall p (by simp [hp])]
      rcases List.eq_nil_or_concat' qs with rfl | ⟨rs, r, rfl⟩
      · simp [putList]
      · have hr := hall r (by simp)
        obtain ⟨a, w⟩ := q
        simp only at hq
        simp [putList, hr, hq]
  rw [hone]
  cases qs.getLast? <;> simp [eq_comm]

/-- The last entry belongs to the key whose first occurrence is the latest. -/
theorem getLast?_keys_putAll (ps : List (κ × ν)) (k : κ) (hk : k ∈ ps.map Prod.fst) :
    ((putAll [] ps).map Prod.fst).getLast? = some k ↔
      ∀ a ∈ ps.map Prod.fst, (ps.map Prod.fst).idxOf a ≤ (ps.map Prod.fst).idxOf k := by
  have hs := keys_putAll_sorted ps
  have hm := mem_keys_putAll ps
  generalize (putAll [] ps).map Prod.fst = ks at hs hm
  rcases List.eq_nil_or_concat' ks with rfl | ⟨init, l, rfl⟩
  · simp [← hm] at hk
  have hlt : ∀ a ∈ init, (ps.map Prod.fst).idxOf a < (ps.map Prod.fst).idxOf l :=
    fun a ha => (List.pairwise_append.mp hs).2.2 a ha l (by simp)
  rw [List.getLast?_concat, Option.some.injEq]
  constructor
  · rintro rfl a ha
    rcases List.mem_append.mp ((hm a).mpr ha) with h | h
    · exact Nat.le_of_lt (hlt a h)
    · exact Nat.le_of_eq (by rw [List.mem_singleton.mp h])
  · intro hmax
    have hl := hmax l ((hm l).mp (by simp))
    rcases List.mem_append.mp ((hm k).mpr hk) with h | h
    · have := hlt k h; omega
    · exact (List.mem_singleton.mp h).symm

/-- The key of the last pair is the one whose first occurrence is the latest. -/
def LastIsNewest (ps : List (κ × ν)) : Prop :=
  ∀ k, (ps.map Prod.fst).getLast? = some k →
    ∀ a ∈ ps.map Prod.fst, (ps.map Prod.fst).idxOf a ≤ (ps.map Prod.fst).idxOf k

/-- Then it is the last entry. -/
theorem getLast?_putAll_iff (ps : List (κ × ν)) :
    (putAll [] ps).getLast? = ps.getLast? ↔ LastIsNewest ps := by
  rcases List.eq_nil_or_concat' ps with rfl | ⟨init, ⟨k, v⟩, rfl⟩
  · simp [LastIsNewest]
  set ps := init ++ [(k, v)] with hps
  have hlast : ps.getLast? = some (k, v) := List.getLast?_concat
  have hkey : (ps.map Prod.fst).getLast? = some k := by rw [List.getLast?_map, hlast]; rfl
  have hk : k ∈ ps.map Prod.fst := List.mem_of_getLast? hkey
  rw [LastIsNewest, hkey, hlast]
  have hiff := getLast?_keys_putAll ps k hk
  constructor
  · intro he k' hk'
    cases hk'
    exact hiff.mp (by rw [List.getLast?_map, he]; rfl)
  · intro h
    have hl := hiff.mpr (h k rfl)
    rw [List.getLast?_map] at hl
    obtain ⟨⟨k', w⟩, he, rfl⟩ := Option.map_eq_some_iff.mp hl
    have hw := (mem_putAll ps k' w).mp (List.mem_of_getLast? he)
    rw [hps, List.filter_append] at hw
    simp at hw
    rw [he, hw]

/-! ### Classes of keys -/

section Classes
variable {γ : Type*} [DecidableEq γ] (f : κ → γ)

/-- A pair goes to the end in place of the entries of its class. -/
def supersede (es : List (κ × ν)) (p : κ × ν) : List (κ × ν) :=
  (es.filter fun e => f e.1 ≠ f p.1) ++ [p]

variable {f}

omit [DecidableEq κ] in
theorem nodup_supersede {es : List (κ × ν)} (h : (es.map fun e => f e.1).Nodup) (p : κ × ν) :
    ((supersede f es p).map fun e => f e.1).Nodup := by
  rw [supersede, List.map_append]
  refine List.nodup_append.mpr ⟨(List.filter_sublist.map _).nodup h, List.nodup_singleton _, ?_⟩
  rintro a ha b hb rfl
  obtain ⟨e, he, rfl⟩ := List.mem_map.mp ha
  rw [List.map_singleton, List.mem_singleton] at hb
  simpa [hb] using (List.mem_filter.mp he).2

omit [DecidableEq κ] in
theorem filter_supersede (c : γ) (es : List (κ × ν)) (p : κ × ν) :
    ((supersede f es p).filter fun e => c = f e.1) =
      if c = f p.1 then [p] else es.filter fun e => c = f e.1 := by
  rw [supersede, List.filter_append, List.filter_filter]
  split_ifs with hc
  · subst hc
    simp [eq_comm]
  · have hsame : (es.filter fun e => decide (c = f e.1) && decide (f e.1 ≠ f p.1)) =
        es.filter fun e => c = f e.1 := by
      apply List.filter_congr
      intro e _
      by_cases he : c = f e.1
      · simpa [he] using he ▸ hc
      · simp [he]
    rw [hsame, List.filter_singleton, decide_eq_false hc, cond_false, List.append_nil]

omit [DecidableEq κ] in
/-- Of every class the last pair is left. -/
theorem filter_foldl_supersede {es : List (κ × ν)} (h : (es.map fun e => f e.1).Nodup) (c : γ)
    (ps : List (κ × ν)) :
    ((ps.foldl (supersede f) es).filter fun e => c = f e.1) =
      ((es ++ ps).filter fun e => c = f e.1).getLast?.toList := by
  induction ps using List.reverseRecOn with
  | nil =>
    -- the entries of a class are no more than one
    rw [List.append_nil, List.foldl_nil]
    have hnd : (((es.filter fun e => c = f e.1)).map fun e => f e.1).Nodup :=
      (List.filter_sublist.map _).nodup h
    have hall : ∀ e ∈ es.filter (fun e => c = f e.1), f e.1 = c := fun e he =>
      (of_decide_eq_true (List.mem_filter.mp he).2).symm
    generalize es.filter (fun e => c = f e.1) = cs at hnd hall
    match cs with
    | [] => rfl
    | [e] => rfl
    | e :: e' :: cs =>
      have he := hall e List.mem_cons_self
      have he' := hall e' (List.mem_cons_of_mem _ List.mem_cons_self)
      exact absurd (List.mem_cons.mpr (Or.inl (he.trans he'.symm))) (List.nodup_cons.mp hnd).1
  | append_singleton ps p ih =>
    rw [List.foldl_append, List.foldl_cons, List.foldl_nil, filter_supersede, ← List.append_assoc,
      List.filter_append, List.filter_singleton]
    by_cases hc : c = f p.1
    · simp [hc]
    · simp [hc, ih]

/-- The pairs with no later one of their class. -/
def lastPairs (f : κ → γ) : List (κ × ν) → List (κ × ν)
  | [] => []
  | p :: ps => if ∀ q ∈ ps, f p.1 ≠ f q.1 then p :: lastPairs f ps else lastPairs f ps

omit [DecidableEq κ] in
/-- What is left of the old entries stands before what is left of the pairs. -/
theorem foldl_supersede (es ps : List (κ × ν)) : ps.foldl (supersede f) es =
    (es.filter fun e => ∀ p ∈ ps, f e.1 ≠ f p.1) ++ lastPairs f ps := by
  induction ps generalizing es with
  | nil => simp [lastPairs]
  | cons p ps ih =>
    have hfilter : (es.filter fun e => f e.1 ≠ f p.1).filter (fun e => ∀ q ∈ ps, f e.1 ≠ f q.1) =
        es.filter fun e => ∀ q ∈ p :: ps, f e.1 ≠ f q.1 := by
      rw [List.filter_filter]
      apply List.filter_congr
      intro e _
      rw [← Bool.decide_and]
      exact decide_eq_decide.mpr (by rw [List.forall_mem_cons, and_comm])
    rw [List.foldl_cons, ih, supersede, List.filter_append, hfilter, List.append_assoc, lastPairs]
    by_cases hlast : ∀ q ∈ ps, f p.1 ≠ f q.1
    · rw [if_pos hlast, List.filter_singleton, decide_eq_true hlast]
      rfl
    · rw [if_neg hlast, List.filter_singleton, decide_eq_false hlast]
      rfl

end Classes

/-! ### Dictionaries -/

def put (d : OrderedDict κ ν) (k : κ) (v : ν) : OrderedDict κ ν :=
  ⟨putList d.entries k v, nodup_putList d.nodup k v⟩

def erase (d : OrderedDict κ ν) (k : κ) : OrderedDict κ ν :=
  ⟨d.entries.filter fun e => e.1 ≠ k, (List.filter_sublist.map Prod.fst).nodup d.nodup⟩

/-- Put the pairs one after the other. -/
def putPairs (d : OrderedDict κ ν) (ps : List (κ × ν)) : OrderedDict κ ν :=
  ⟨putAll d.entries ps, nodup_putAll d.nodup ps⟩

def ofPairs (ps : List (κ × ν)) : OrderedDict κ ν := empty.putPairs ps

@[simp] theorem entries_put (d : OrderedDict κ ν) (k : κ) (v : ν) :
    (d.put k v).entries = putList d.entries k v := rfl

@[simp] theorem entries_erase (d : OrderedDict κ ν) (k : κ) :
    (d.erase k).entries = d.entries.filter fun e => e.1 ≠ k := rfl

@[simp] theorem entries_putPairs (d : OrderedDict κ ν) (ps : List (κ × ν)) :
    (d.putPairs ps).entries = putAll d.entries ps := rfl

theorem entries_ofPairs (ps : List (κ × ν)) : (ofPairs ps).entries = putAll [] ps := rfl

theorem ofPairs_append (ps qs : List (κ × ν)) :
    ofPairs (ps ++ qs) = (ofPairs ps).putPairs qs :=
  ext_entries (putAll_append [] ps qs)

/-- The value of a key. -/
def get? (d : OrderedDict κ ν) (k : κ) : Option ν := d.entries.lookup k

end OrderedDict

end Trequests
