import Trequests.Headers

/-! `treq_MergeDicts` on dictionary objects in memory: the result is a new object, the two
arguments stay as they are, and its entries are what is left of both. -/

namespace Trequests

/-- The dictionary objects in memory; a reference is a position. -/
abbrev DictStore := List Dict

/-- `Tcl_NewDictObj` and `Tcl_DuplicateObj`, which make a new object. -/
def DictStore.new (s : DictStore) (d : Dict) : DictStore × ℕ := (s ++ [d], s.length)

/-- The dictionary that `Tcl_DictObjFirst` starts to read. -/
def DictStore.read (s : DictStore) (obj : ℕ) : Dict := s[obj]?.getD OrderedDict.empty

/-- `Tcl_DictObjPut` and `Tcl_DictObjRemove` change the object in place. -/
def DictStore.put (s : DictStore) (obj : ℕ) (key value : Str) : DictStore :=
  s.modify obj fun d => d.put key value

def DictStore.remove (s : DictStore) (obj : ℕ) (key : Str) : DictStore :=
  s.modify obj fun d => d.erase key

/-- One pass of the loop over the pairs of the second dictionary. -/
def mergeStepAt (caseInsensitive : Bool) (dict1 : ℕ) (s : DictStore) (p : Str × Str) : DictStore :=
  (match if caseInsensitive then (s.read dict1).keys.find? (curlStrequal · p.1) else none with
    | some key1 => s.remove dict1 key1
    | none => s).put dict1 p.1 p.2

/-- `treq_MergeDicts` on references: the memory after the call and the result. -/
def mergeDictsAt (s : DictStore) (dict1 : Option ℕ) (dict2 : ℕ) (caseInsensitive : Bool) :
    DictStore × ℕ :=
  let (s, dict1) := match dict1 with
    | none => s.new OrderedDict.empty
    | some dict1 => s.new (s.read dict1)
  ((s.read dict2).entries.foldl (mergeStepAt caseInsensitive dict1) s, dict1)

/-! ### The new object -/

section New
variable (s : DictStore) (d : Dict)

theorem read_new : (s ++ [d] : DictStore).read s.length = d := by
  simp [DictStore.read]

theorem read_old {obj : ℕ} (h : obj < s.length) : (s ++ [d] : DictStore).read obj = s.read obj := by
  simp [DictStore.read, List.getElem?_append_left h]

theorem modify_new (f : Dict → Dict) : (s ++ [d]).modify s.length f = s ++ [f d] := by
  rw [List.modify_eq_take_drop]
  simp

/-- A pass changes the new object, as it changes the dictionary. -/
theorem mergeStepAt_new (caseInsensitive : Bool) (p : Str × Str) :
    mergeStepAt caseInsensitive s.length (s ++ [d]) p = s ++ [mergeStep caseInsensitive d p] := by
  unfold mergeStepAt mergeStep DictStore.put DictStore.remove
  rw [read_new]
  cases if caseInsensitive then d.keys.find? (curlStrequal · p.1) else none with
  | none => exact modify_new s d _
  | some key1 =>
    simp only
    rw [modify_new, modify_new]

theorem foldl_mergeStepAt_new (caseInsensitive : Bool) (ps : List (Str × Str)) :
    ps.foldl (mergeStepAt caseInsensitive s.length) (s ++ [d]) =
      s ++ [ps.foldl (mergeStep caseInsensitive) d] := by
  induction ps generalizing d with
  | nil => rfl
  | cons p ps ih => rw [List.foldl_cons, mergeStepAt_new, ih, List.foldl_cons]

/-- The merge adds one object to the memory. -/
theorem mergeDictsAt_eq (dict1 : Option ℕ) {dict2 : ℕ} (h : dict2 < s.length)
    (caseInsensitive : Bool) : mergeDictsAt s dict1 dict2 caseInsensitive =
      (s ++ [mergeDicts (dict1.map s.read) (s.read dict2) caseInsensitive], s.length) := by
  cases dict1 with
  | none =>
    simp only [mergeDictsAt, DictStore.new]
    rw [read_old s _ h, foldl_mergeStepAt_new]
    rfl
  | some dict1 =>
    simp only [mergeDictsAt, DictStore.new]
    rw [read_old s _ h, foldl_mergeStepAt_new]
    rfl

end New

/-- The entries of the second dictionary that no later one matches, behind the entries of
the first that none of them matches; no object that was there before is changed. -/
theorem mergeDictsAt_entries (s : DictStore) (dict1 dict2 : Fin s.length)
    (h : NamesDistinct (s.read dict1).entries) :
    ∃ merged, mergeDictsAt s (some dict1) dict2 true = (s ++ [merged], s.length) ∧
      NamesDistinct merged.entries ∧
      merged.entries =
        ((s.read dict1).entries.filter fun e =>
          ∀ p ∈ (s.read dict2).entries, foldCase e.1 ≠ foldCase p.1) ++
        OrderedDict.lastPairs foldCase (s.read dict2).entries := by
  obtain ⟨hentries, hdistinct⟩ := @entries_mergeDicts (some (s.read dict1)) h (s.read dict2)
  refine ⟨_, mergeDictsAt_eq s (some dict1.val) dict2.isLt true, hdistinct, ?_⟩
  rw [Option.map_some, hentries, OrderedDict.foldl_supersede]
  rfl

/-- The headers of a session and of a request. -/
def headerStore : DictStore :=
  [OrderedDict.ofPairs [(lit "Accept", lit "a"), (lit "X-Y", lit "b")],
   OrderedDict.ofPairs [(lit "x-y", lit "c"), (lit "X-y", lit "d")]]

theorem mergeDictsAt_headerStore : ∃ merged,
    mergeDictsAt headerStore (some 0) 1 true = (headerStore ++ [merged], 2) ∧
      merged.entries = [(lit "Accept", lit "a"), (lit "X-y", lit "d")] := by
  have hdistinct : NamesDistinct (headerStore.read 0).entries := by
    unfold NamesDistinct
    decide +kernel
  obtain ⟨merged, hmerge, -, hentries⟩ :=
    mergeDictsAt_entries headerStore ⟨0, by decide⟩ ⟨1, by decide⟩ hdistinct
  exact ⟨merged, hmerge, hentries.trans (by decide +kernel)⟩

end Trequests
