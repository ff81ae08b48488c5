import Trequests.Body
import Trequests.Urlencode

/-! The options whose values are lists of key-value pairs, `-params` and
`-data_fields_urlencode`: the string that comes out of validation, and the pairs that are
read back from it. -/

namespace Trequests

/-- A list of pairs: an even number of elements. -/
def IsPairList (api : Api) (obj : Str) : Prop :=
  ∃ objv, api.listElements obj = .ok objv ∧ objv.length % 2 = 0

/-- The pairs of one occurrence. -/
def occurrencePairs (api : Api) (obj : Str) : List (Str × Str) :=
  ((api.listElements obj).toOption.bind listPairs).getD []

/-- The pairs of all occurrences, in order. -/
def allPairs (api : Api) (objv : List Str) : List (Str × Str) := objv.flatMap (occurrencePairs api)

/-- The pair that a piece of a query string stands for. -/
def readPair (piece : Str) : Str × Str :=
  (percentDecode (cutFirst 61 piece).1, percentDecode (cutFirst 61 piece).2)

/-- The pairs of a query string. -/
def readPairs (query : Str) : List (Str × Str) := (query.splitOn 38).map readPair

/-! ### One pair -/

/-- A pair as it is written: an empty value is left out together with its equals sign. -/
def pairText (p : Str × Str) : Str :=
  unreserved.encode p.1 ++ if p.2 = [] then [] else lit "=" ++ unreserved.encode p.2

theorem readPair_pairText (p : Str × Str) : readPair (pairText p) = p := by
  obtain ⟨key, val⟩ := p
  have hkey : 61 ∉ unreserved.encode key := unreserved.not_mem_encode rfl (by decide) key
  unfold pairText readPair
  split_ifs with hval
  · obtain rfl : val = [] := hval
    rw [List.append_nil, cutFirst_of_notMem hkey, percentDecode_encode]
    rfl
  · have hcut : cutFirst 61 (unreserved.encode key ++ (lit "=" ++ unreserved.encode val)) =
        (unreserved.encode key, unreserved.encode val) := cutFirst_append hkey _
    rw [hcut, percentDecode_encode, percentDecode_encode]

/-- No separator of pairs is met inside of a pair. -/
theorem not_mem_pairText (p : Str × Str) : 38 ∉ pairText p := by
  have henc : ∀ s, 38 ∉ unreserved.encode s := unreserved.not_mem_encode rfl (by decide)
  have heq : 38 ∉ lit "=" := by decide
  unfold pairText
  split_ifs <;> simp [henc, heq]

theorem readPairs_joined {ps : List (Str × Str)} (h : ps ≠ []) :
    readPairs (joined (ps.map pairText)) = ps := by
  have hsplit : (joined (ps.map pairText)).splitOn 38 = ps.map pairText := by
    apply List.splitOn_intercalate
    · intro piece hpiece
      obtain ⟨p, -, rfl⟩ := List.mem_map.mp hpiece
      exact not_mem_pairText p
    · simpa using h
  rw [readPairs, hsplit, List.map_map]
  conv_rhs => rw [← List.map_id ps]
  exact List.map_congr_left fun p _ => readPair_pairText p

/-! ### One occurrence -/

/-- The chunks joined, or NULL without a chunk. -/
def joinChunks (chunks : List Str) : Option Str :=
  if chunks = [] then none else some (joined chunks)

/-- Two values joined by an ampersand, where there are two. -/
def joinBoth : Option Str → Option Str → Option Str
  | none, y => y
  | some x, none => some x
  | some x, some y => some (x ++ lit "&" ++ y)

theorem joinChunks_cons (x : Str) (xs : List Str) :
    joinChunks (x :: xs) = joinBoth (some x) (joinChunks xs) := by
  have hone : joined [x] = x := List.intercalate_singleton
  cases xs with
  | nil => exact congrArg some hone
  | cons next xs => exact congrArg some List.intercalate_cons_cons

theorem joinBoth_assoc (x y z : Option Str) :
    joinBoth (joinBoth x y) z = joinBoth x (joinBoth y z) := by
  cases x <;> cases y <;> cases z <;> simp [joinBoth]

theorem joinChunks_append (xs ys : List Str) :
    joinChunks (xs ++ ys) = joinBoth (joinChunks xs) (joinChunks ys) := by
  induction xs with
  | nil => rfl
  | cons x xs ih => rw [List.cons_append, joinChunks_cons, ih, joinChunks_cons, joinBoth_assoc]

theorem joinChunks_singleton (x : Str) : joinChunks [x] = some x := joinChunks_cons x []

theorem joinChunks_toList (chunk : Option Str) : joinChunks chunk.toList = chunk := by
  cases chunk with
  | none => rfl
  | some c => exact joinChunks_singleton c

theorem joinChunks_getD (xs : List Str) : (joinChunks xs).getD [] = joined xs := by
  unfold joinChunks
  split_ifs with h
  · rw [h]
    rfl
  · rfl

/-- What has been joined can be joined on. -/
theorem joinChunks_joinChunks (xs ys : List Str) :
    joinChunks ((joinChunks xs).toList ++ ys) = joinChunks (xs ++ ys) := by
  rw [joinChunks_append, joinChunks_append, joinChunks_toList]

theorem listPairs_eq_some_iff (objv : List Str) :
    (∃ ps, listPairs objv = some ps) ↔ objv.length % 2 = 0 := by
  induction objv using listPairs.induct with
  | case1 => simp [listPairs]
  | case2 => simp [listPairs]
  | case3 key val rest ih =>
    rw [listPairs, List.length_cons, List.length_cons]
    simp only [Option.map_eq_some_iff]
    constructor
    · rintro ⟨_, ps, hps, -⟩
      have := ih.mp ⟨ps, hps⟩
      omega
    · intro hlen
      obtain ⟨ps, hps⟩ := ih.mpr (by omega)
      exact ⟨_, ps, hps, rfl⟩

section Occurrence
variable {api : Api} {kind : DataKind}

theorem fieldsChunk_pairs (h : api.EscapesUnreserved) (hkind : kind.isUrlencoded = true)
    {objv : List Str} {ps : List (Str × Str)} (hps : listPairs objv = some ps)
    (chunk : Option Str) :
    fieldsChunk api kind objv chunk = .ok (joinChunks (chunk.toList ++ ps.map pairText)) := by
  have hencode : ∀ s, encodeIf api kind s = some (unreserved.encode s) := fun s =>
    (if_pos hkind).trans (urlencodeTclObject_eq h s)
  induction objv using listPairs.induct generalizing ps chunk with
  | case1 =>
    cases hps
    rw [List.map_nil, List.append_nil, joinChunks_toList]
    rfl
  | case2 => cases hps
  | case3 key val rest ih =>
    obtain ⟨qs, hqs, rfl⟩ := Option.map_eq_some_iff.mp hps
    -- the chunk goes on with the text of the pair
    have hpair : fieldsChunk api kind (key :: val :: rest) chunk =
        fieldsChunk api kind rest (joinBoth chunk (some (pairText (key, val)))) := by
      rw [fieldsChunk, hencode key]
      cases chunk <;> by_cases hval : val = [] <;> simp [hval, hencode, pairText, joinBoth]
    have hstep : joinBoth chunk (some (pairText (key, val))) =
        joinChunks (chunk.toList ++ [pairText (key, val)]) := by
      rw [joinChunks_append, joinChunks_toList, joinChunks_singleton]
    rw [hpair, ih hqs, hstep, joinChunks_joinChunks, List.append_assoc]
    rfl

theorem occurrencePairs_of_isPairList {obj : Str} (h : IsPairList api obj) :
    ∃ objv, api.listElements obj = .ok objv ∧ objv.length % 2 = 0 ∧
      listPairs objv = some (occurrencePairs api obj) := by
  obtain ⟨objv, hobjv, heven⟩ := h
  obtain ⟨ps, hps⟩ := (listPairs_eq_some_iff objv).mpr heven
  refine ⟨objv, hobjv, heven, ?_⟩
  rw [occurrencePairs, hobjv]
  simp [Except.toOption, hps]

/-- What one list of pairs adds. -/
theorem dataChunk_pairs (h : api.EscapesUnreserved) (hurl : kind.isUrlencoded = true)
    (hfields : kind.isFields = true) {obj : Str} (hobj : IsPairList api obj) :
    dataChunk api kind obj = .ok (joinChunks ((occurrencePairs api obj).map pairText)) := by
  obtain ⟨objv, hobjv, heven, hpairs⟩ := occurrencePairs_of_isPairList hobj
  rw [dataChunk, if_pos hfields, hobjv]
  by_cases hnil : objv = []
  · subst hnil
    rw [← Option.some.inj hpairs]
    rfl
  · simp only [if_neg hnil, heven, ne_eq, not_true_eq_false, if_false]
    exact fieldsChunk_pairs h hurl hpairs none

theorem dataChunk_error (hfields : kind.isFields = true) {obj : Str} (hobj : ¬ IsPairList api obj) :
    ∃ e, dataChunk api kind obj = .error e := by
  rw [dataChunk, if_pos hfields]
  cases hobjv : api.listElements obj with
  | error e => exact ⟨_, rfl⟩
  | ok objv =>
    have hodd : objv.length % 2 ≠ 0 := fun heven => hobj ⟨objv, hobjv, heven⟩
    have hnil : objv ≠ [] := fun h0 => hodd (by rw [h0]; rfl)
    simp only [if_neg hnil, if_pos hodd]
    exact ⟨_, rfl⟩

end Occurrence

/-! ### All occurrences -/

section Occurrences
variable {api : Api} {kind : DataKind}

/-- Joining the joined pairs of the occurrences is joining all pairs. -/
theorem dataChunks_pairs (h : api.EscapesUnreserved) (hurl : kind.isUrlencoded = true)
    (hfields : kind.isFields = true) {objv : List Str} (hobjv : ∀ obj ∈ objv, IsPairList api obj) :
    ∃ chunks, dataChunks api kind objv = .ok chunks ∧
      joinChunks chunks = joinChunks ((allPairs api objv).map pairText) := by
  induction objv with
  | nil => exact ⟨[], rfl, rfl⟩
  | cons obj objv ih =>
    obtain ⟨chunks, hchunks, hjoin⟩ := ih fun o ho => hobjv o (List.mem_cons_of_mem obj ho)
    have hobj := dataChunk_pairs h hurl hfields (hobjv obj List.mem_cons_self)
    refine ⟨(joinChunks ((occurrencePairs api obj).map pairText)).toList ++ chunks, ?_, ?_⟩
    · rw [dataChunks, hobj, hchunks]
      rfl
    · rw [joinChunks_joinChunks, joinChunks_append, hjoin, ← joinChunks_append, ← List.map_append]
      rfl

theorem dataChunks_error (hfields : kind.isFields = true) {objv : List Str}
    (hobjv : ∃ obj ∈ objv, ¬ IsPairList api obj) : ∃ e, dataChunks api kind objv = .error e := by
  induction objv with
  | nil => simp at hobjv
  | cons obj objv ih =>
    unfold dataChunks
    cases hobj : dataChunk api kind obj with
    | error e => exact ⟨e, rfl⟩
    | ok chunk =>
      -- the first occurrence is a list of pairs, so the bad one comes later
      have hrest : ∃ o ∈ objv, ¬ IsPairList api o := by
        obtain ⟨o, ho, hbad⟩ := hobjv
        rcases List.mem_cons.mp ho with rfl | ho
        · obtain ⟨e, he⟩ := dataChunk_error hfields hbad
          rw [he] at hobj
          cases hobj
        · exact ⟨o, ho, hbad⟩
      obtain ⟨e, he⟩ := ih hrest
      exact ⟨e, by rw [he]; rfl⟩

/-- An option of key-value pairs that are URL-encoded. -/
def urlencodedFields (name : Str) : DataKind := dataKind name true true false

/-- The value of such an option, in terms of its pairs. -/
theorem validateOptionData_pairs (h : api.EscapesUnreserved) (name : Str) {objv : List Str}
    (hobjv : ∀ obj ∈ objv, IsPairList api obj) :
    validateOptionData api (urlencodedFields name) (occurrences objv) =
      .ok (if objv = [] then none else some (joined ((allPairs api objv).map pairText))) := by
  obtain ⟨chunks, hchunks, hjoin⟩ :
      ∃ chunks, dataChunks api (urlencodedFields name) objv = .ok chunks ∧
        joinChunks chunks = joinChunks ((allPairs api objv).map pairText) :=
    dataChunks_pairs h rfl rfl hobjv
  have hloop : (dataLoop api (urlencodedFields name) objv none).map (·.getD []) =
      (dataChunks api (urlencodedFields name) objv).map joined := dataLoop_eq objv none
  rw [hchunks] at hloop
  obtain ⟨value, hvalue, hjoined⟩ := map_eq_ok.mp hloop
  rw [occurrences_eq]
  apply validateOptionData_ok.mpr
  split_ifs with hnil
  · exact Or.inr ⟨rfl, rfl⟩
  · refine Or.inl ⟨rfl, fun htyped => Bool.noConfusion htyped, value, hvalue, ?_⟩
    rw [hjoined, ← joinChunks_getD chunks, hjoin, joinChunks_getD]

theorem validateOptionData_error (name : Str) {objv : List Str}
    (hobjv : ∃ obj ∈ objv, ¬ IsPairList api obj) :
    ∃ e, validateOptionData api (urlencodedFields name) (occurrences objv) = .error e := by
  cases hv : validateOptionData api (urlencodedFields name) (occurrences objv) with
  | error e => exact ⟨e, rfl⟩
  | ok v =>
    have hnil : objv ≠ [] := by
      rintro rfl
      simp at hobjv
    rw [occurrences_eq, if_neg hnil] at hv
    obtain ⟨-, -, value, hvalue, -⟩ | ⟨hgiven, -⟩ := validateOptionData_ok.mp hv
    · obtain ⟨chunks, hchunks, -⟩ := joined_of_dataLoop hvalue
      obtain ⟨e, he⟩ := @dataChunks_error api (urlencodedFields name) rfl objv hobjv
      rw [hchunks] at he
      cases he
    · cases hgiven

end Occurrences

/-- Validation fails on what is no list of pairs and on nothing else. The pairs are read
back from the value, and the value depends on nothing but the pairs. -/
theorem urlencodedFields_readPairs {api : Api} (h : api.EscapesUnreserved) (name : Str)
    (objv : List Str) :
    ((∃ e, validateOptionData api (urlencodedFields name) (occurrences objv) = .error e) ↔
        ∃ obj ∈ objv, ¬ IsPairList api obj) ∧
      ((∀ obj ∈ objv, IsPairList api obj) → allPairs api objv ≠ [] → ∃ query,
        validateOptionData api (urlencodedFields name) (occurrences objv) = .ok (some query) ∧
          readPairs query = allPairs api objv) ∧
      ∀ objv', (∀ obj ∈ objv, IsPairList api obj) → (∀ obj ∈ objv', IsPairList api obj) →
        objv ≠ [] → objv' ≠ [] → allPairs api objv = allPairs api objv' →
          validateOptionData api (urlencodedFields name) (occurrences objv) =
            validateOptionData api (urlencodedFields name) (occurrences objv') := by
  refine ⟨⟨?_, validateOptionData_error name⟩, ?_, ?_⟩
  · rintro ⟨e, he⟩
    by_contra hall
    have hobjv : ∀ obj ∈ objv, IsPairList api obj := by simpa using hall
    rw [validateOptionData_pairs h name hobjv] at he
    cases he
  · intro hobjv hpairs
    have hnil : objv ≠ [] := by
      rintro rfl
      exact hpairs rfl
    refine ⟨_, ?_, readPairs_joined hpairs⟩
    rw [validateOptionData_pairs h name hobjv, if_neg hnil]
  · intro objv' hobjv hobjv' hnil hnil' hpairs
    rw [validateOptionData_pairs h name hobjv, validateOptionData_pairs h name hobjv', hpairs,
      if_neg hnil, if_neg hnil']

/-- The readings of plain words, with the escapes of libcurl. -/
def Api.escaping : Api := UrlApi.reference.toApi Api.plain.toTcl

theorem urlencodedFields_readPairs_plain : ∃ query,
    validateOptionData Api.escaping (urlencodedFields (lit "-params"))
        (occurrences [lit "a b=&c", lit "", lit "a b d e"]) = .ok (some query) ∧
      readPairs query = [(lit "a", lit "b=&c"), (lit "a", lit "b"), (lit "d", lit "e")] := by
  have hesc : Api.escaping.EscapesUnreserved :=
    UrlApi.reference_documented.escapesUnreserved Api.plain.toTcl
  have hlists : ∀ obj ∈ [lit "a b=&c", lit "", lit "a b d e"], IsPairList Api.escaping obj := by
    intro obj hobj
    refine ⟨(obj.splitOn 32).filter (· ≠ []), rfl, ?_⟩
    revert obj
    decide +kernel
  have hpairs : allPairs Api.escaping [lit "a b=&c", lit "", lit "a b d e"] =
      [(lit "a", lit "b=&c"), (lit "a", lit "b"), (lit "d", lit "e")] := by decide +kernel
  have := (urlencodedFields_readPairs hesc (lit "-params") [lit "a b=&c", lit "", lit "a b d e"]).2.1
  rw [hpairs] at this
  exact this hlists (by decide)

end Trequests
