import Mathlib.Data.List.Forall2
import Trequests.Settings

/-! The headers of a request: what the two merges keep of the pairs given on the command
line, and the names of the lines that are handed to libcurl. -/

namespace Trequests

/-- The pairs with a name, up to case. -/
def named (name : Str) (ps : List (Str × Str)) : List (Str × Str) :=
  ps.filter fun p => curlStrequal name p.1

/-- The pairs of a dictionary, or none. -/
def dictEntries (d : Option Dict) : List (Str × Str) := d.elim [] OrderedDict.entries

theorem named_append (name : Str) (ps qs : List (Str × Str)) :
    named name (ps ++ qs) = named name ps ++ named name qs := List.filter_append ..

theorem named_putAll (name : Str) (ps : List (Str × Str)) :
    named name (OrderedDict.putAll [] ps) = OrderedDict.putAll [] (named name ps) :=
  OrderedDict.filter_putAll (curlStrequal name) [] ps

/-- No two names are equal up to case. -/
def NamesDistinct (ps : List (Str × Str)) : Prop := (ps.map fun p => foldCase p.1).Nodup

/-! ### The merge that ignores case -/

theorem entries_mergeStep {d : Dict} (h : NamesDistinct d.entries) (p : Str × Str) :
    (mergeStep true d p).entries = OrderedDict.supersede foldCase d.entries p := by
  have hput : ∀ e : Dict, e.entries = d.entries.filter (fun q => foldCase q.1 ≠ foldCase p.1) →
      (e.put p.1 p.2).entries = OrderedDict.supersede foldCase d.entries p := by
    intro e he
    rw [OrderedDict.entries_put, OrderedDict.putList_of_notMem, he, OrderedDict.supersede]
    rw [he]
    intro hm
    obtain ⟨q, hq, hqp⟩ := List.mem_map.mp hm
    simpa [hqp] using (List.mem_filter.mp hq).2
  simp only [mergeStep, ↓reduceIte]
  cases hf : d.keys.find? fun key => curlStrequal key p.1 with
  | none =>
    refine hput d (List.filter_eq_self.mpr fun q hq => ?_).symm
    have := List.find?_eq_none.mp hf q.1 (List.mem_map_of_mem hq)
    simpa [curlStrequal] using this
  | some key =>
    have hkey : foldCase key = foldCase p.1 := by
      have := List.find?_some hf
      simpa [curlStrequal] using this
    obtain ⟨q₀, hq₀, hq₀k⟩ := List.mem_map.mp (List.mem_of_find?_eq_some hf)
    apply hput _
    rw [OrderedDict.entries_erase]
    apply List.filter_congr
    intro q hq
    -- the key found is the only one of its class
    have hiff : q.1 = key ↔ foldCase q.1 = foldCase p.1 := by
      constructor
      · intro he
        rw [he, hkey]
      · intro he
        have heq : q = q₀ := List.inj_on_of_nodup_map h hq hq₀ (by rw [he, hq₀k, hkey])
        rw [heq, hq₀k]
    simp only [ne_eq, hiff]

theorem entries_mergeDicts {d : Option Dict} (h : NamesDistinct (dictEntries d)) (dict2 : Dict) :
    (mergeDicts d dict2 true).entries =
        dict2.entries.foldl (OrderedDict.supersede foldCase) (dictEntries d) ∧
      NamesDistinct (mergeDicts d dict2 true).entries := by
  have hd : dictEntries d = (d.getD OrderedDict.empty).entries := by cases d <;> rfl
  unfold mergeDicts
  rw [hd] at h ⊢
  generalize d.getD OrderedDict.empty = dict1 at h ⊢
  generalize dict2.entries = ps
  induction ps generalizing dict1 with
  | nil => exact ⟨rfl, h⟩
  | cons p ps ih =>
    have hstep := entries_mergeStep h p
    have := ih (mergeStep true dict1 p) (by
      rw [NamesDistinct, hstep]
      exact OrderedDict.nodup_supersede h p)
    rwa [hstep] at this

/-- Of the pairs with a name, the merge keeps the last. -/
theorem named_mergeDicts {d : Option Dict} (h : NamesDistinct (dictEntries d)) (dict2 : Dict)
    (name : Str) : named name (mergeDicts d dict2 true).entries =
      (named name (dictEntries d ++ dict2.entries)).getLast?.toList := by
  rw [(entries_mergeDicts h dict2).1]
  exact OrderedDict.filter_foldl_supersede h (foldCase name) dict2.entries

theorem named_sessionParams (opt : Option ValidOptions) :
    let headers := dictEntries ((opt.map sessionParams).bind SessionParams.headers)
    NamesDistinct headers ∧ ∀ name, named name headers =
      (named name (dictEntries (opt.bind ValidOptions.headers))).getLast?.toList := by
  have hempty : NamesDistinct (dictEntries none) := List.nodup_nil
  cases opt with
  | none => exact ⟨hempty, fun _ => rfl⟩
  | some opt =>
    cases hh : opt.headers with
    | none => simpa [sessionParams, hh, dictEntries, named] using hempty
    | some value =>
      have := named_mergeDicts hempty value
      simpa [sessionParams, hh, dictEntries] using ⟨(entries_mergeDicts hempty value).2, this⟩

/-- Of the pairs with a name, those of the session before those of the request, the
request has the last. -/
theorem named_requestHeaders (session : Option ValidOptions) (headers : Option Dict) :
    let merged := dictEntries (requestHeaders (session.map sessionParams) headers)
    NamesDistinct merged ∧ ∀ name, named name merged =
      (named name (dictEntries (session.bind ValidOptions.headers) ++
        dictEntries headers)).getLast?.toList := by
  obtain ⟨hdistinct, hses⟩ := named_sessionParams session
  cases headers with
  | none => simpa [requestHeaders, dictEntries] using ⟨hdistinct, hses⟩
  | some value =>
    refine ⟨(entries_mergeDicts hdistinct value).2, fun name => ?_⟩
    rw [requestHeaders, dictEntries, Option.elim_some, named_mergeDicts hdistinct, named_append,
      named_append, hses, List.getLast?_append, List.getLast?_append]
    cases (named name (dictEntries (session.bind ValidOptions.headers))).getLast? <;> rfl

/-! ### The merge of the options -/

section Options
variable {tcl : Tcl} {values : List Str} {pss : List (List (Str × Str))}

/-- What the occurrences of `-headers` leave in the record. -/
def headersOption (values : List Str) : OptionList :=
  values.foldl (fun o value => lappendArg (some value) o) {}

theorem headersOption_cons (value : Str) (values : List Str) :
    headersOption (value :: values) = ⟨.given, value :: values⟩ := occurrences_eq (value :: values)

theorem mergeDictsLoop_eq (h : List.Forall₂ (fun v ps => tcl.pairs v = .ok ps) values pss) (d : Dict) :
    mergeDictsLoop tcl d values = .ok (d.putPairs pss.flatten) := by
  induction h generalizing d with
  | nil => rfl
  | @cons value ps values pss hv _ ih =>
    have hd : tcl.dict value = .ok (OrderedDict.ofPairs ps) := by rw [Tcl.dict, hv]; rfl
    simp only [mergeDictsLoop, hd, ih]
    refine congrArg Except.ok (OrderedDict.ext_entries ?_)
    simp only [OrderedDict.entries_putPairs, OrderedDict.entries_ofPairs, OrderedDict.putAll_putAll,
      List.flatten_cons, OrderedDict.putAll_append]

/-- The options are merged as if their pairs were put one after the other. -/
theorem validate_headersOption (h : List.Forall₂ (fun v ps => tcl.pairs v = .ok ps) values pss)
    (name : Str) : validateOptionListOfDicts tcl name (headersOption values) =
      .ok (if pss.flatten = [] then none else some (OrderedDict.ofPairs pss.flatten)) := by
  cases h with
  | nil => rfl
  | @cons value ps values pss hv hs =>
    have hd : tcl.dict value = .ok (OrderedDict.ofPairs ps) := by rw [Tcl.dict, hv]; rfl
    have hall : (OrderedDict.ofPairs ps).putPairs pss.flatten =
        OrderedDict.ofPairs (ps :: pss).flatten := (OrderedDict.ofPairs_append ps pss.flatten).symm
    have hsize : (OrderedDict.ofPairs (ps :: pss).flatten).size ≠ 0 ↔ (ps :: pss).flatten ≠ [] := by
      rw [OrderedDict.size, OrderedDict.entries_ofPairs, Ne, List.length_eq_zero_iff,
        OrderedDict.putAll_eq_nil_iff]
    have hmerge : optionListMergeDicts tcl (value :: values) =
        .ok (if (ps :: pss).flatten = [] then none else some (OrderedDict.ofPairs (ps :: pss).flatten)) := by
      simp only [optionListMergeDicts, hd, mergeDictsLoop_eq hs, hall]
      by_cases hnil : (ps :: pss).flatten = []
      · rw [Except.map, if_pos hnil, if_neg (fun hn => hsize.mp hn hnil)]
      · rw [Except.map, if_neg hnil, if_pos (hsize.mpr hnil)]
    rw [headersOption_cons]
    simp only [validateOptionListOfDicts, validateOptionCommon, hmerge]
    rfl

/-- Of the pairs with a name, given by the session and then by the options of the request,
the request has the last one, if and only if for every name in the options the spelling
of the last pair is the one that was new last. -/
theorem requestHeaders_last_iff (session : Option ValidOptions)
    (h : List.Forall₂ (fun v ps => tcl.pairs v = .ok ps) values pss) :
    ∃ headers, validateOptionListOfDicts tcl (lit "-headers") (headersOption values) = .ok headers ∧
      ((∀ name, named name (dictEntries (requestHeaders (session.map sessionParams) headers)) =
          (named name (dictEntries (session.bind ValidOptions.headers) ++ pss.flatten)).getLast?.toList) ↔
        ∀ name, OrderedDict.LastIsNewest (named name pss.flatten)) := by
  refine ⟨_, validate_headersOption h _, ?_⟩
  have hentries : dictEntries (if pss.flatten = [] then none else
      some (OrderedDict.ofPairs pss.flatten)) = OrderedDict.putAll [] pss.flatten := by
    split_ifs with hnil
    · rw [hnil]; rfl
    · rfl
  apply forall_congr'
  intro name
  rw [(named_requestHeaders session _).2, hentries, named_append, named_append, named_putAll,
    ← OrderedDict.getLast?_putAll_iff]
  generalize named name (dictEntries (session.bind ValidOptions.headers)) = gs
  generalize named name pss.flatten = qs
  rcases List.eq_nil_or_concat' qs with rfl | ⟨init, q, rfl⟩
  · simp
  · have hne := (OrderedDict.putAll_eq_nil_iff (init ++ [q])).not.mpr (by simp)
    obtain ⟨e, he⟩ := Option.ne_none_iff_exists'.mp (List.getLast?_eq_none_iff.not.mpr hne)
    rw [List.getLast?_append, List.getLast?_append, he, List.getLast?_concat]
    simp

/-- The values of `-headers {A 1} -headers {a 2} -headers {A 3}`. -/
def repeatedHeaders : List Str := [lit "A 1", lit "a 2", lit "A 3"]

theorem pairs_repeatedHeaders :
    List.Forall₂ (fun v ps => Api.plain.toTcl.pairs v = .ok ps) repeatedHeaders
      [[(lit "A", lit "1")], [(lit "a", lit "2")], [(lit "A", lit "3")]] :=
  .cons (by decide +kernel) (.cons (by decide +kernel) (.cons (by decide +kernel) .nil))

theorem requestHeaders_last_iff_repeatedHeaders : ∃ headers,
    validateOptionListOfDicts Api.plain.toTcl (lit "-headers") (headersOption repeatedHeaders) =
      .ok headers ∧
    ¬ ∀ name, named name (dictEntries (requestHeaders none headers)) =
      (named name [(lit "A", lit "1"), (lit "a", lit "2"), (lit "A", lit "3")]).getLast?.toList := by
  obtain ⟨headers, hv, hiff⟩ := requestHeaders_last_iff none pairs_repeatedHeaders
  refine ⟨headers, hv, fun h => ?_⟩
  have := hiff.mp h (lit "A") (lit "A") (by decide +kernel) (lit "a") (by decide +kernel)
  exact absurd this (by decide +kernel)

theorem repeatedHeaders_not_last : ¬ ∀ (tcl : Tcl) (session : Option ValidOptions) (values : List Str)
    (pss : List (List (Str × Str))), List.Forall₂ (fun v ps => tcl.pairs v = .ok ps) values pss →
    ∃ headers, validateOptionListOfDicts tcl (lit "-headers") (headersOption values) = .ok headers ∧
      ∀ name, named name (dictEntries (requestHeaders (session.map sessionParams) headers)) =
        (named name (dictEntries (session.bind ValidOptions.headers) ++ pss.flatten)).getLast?.toList := by
  intro h
  obtain ⟨headers, hv, hlast⟩ := h _ none _ _ pairs_repeatedHeaders
  rw [validate_headersOption pairs_repeatedHeaders] at hv
  cases hv
  exact absurd (hlast (lit "A")) (by decide +kernel)

end Options

/-! ### The lines handed to libcurl -/

/-- The name in a line, up to case: what stands before the first colon. -/
def lineName (line : Str) : Str := (foldCase line).takeWhile (· ≠ 58)

theorem lineName_headerLine (p : Str × Str) : lineName (headerLine p) = lineName p.1 := by
  have hsep : ∀ s t : Str, (s ++ (58 :: t)).takeWhile (· ≠ 58) = s.takeWhile (· ≠ 58) := by
    intro s t
    induction s with
    | nil => rfl
    | cons c s ih => simp only [List.cons_append, List.takeWhile_cons, ih]
  have hline : foldCase (headerLine p) = foldCase p.1 ++ 58 :: (32 :: foldCase p.2) := by
    simp only [headerLine, foldCase, List.map_append, List.append_assoc]
    rfl
  rw [lineName, hline, hsep, lineName]

theorem lineName_generateHeaderAccept (data : Str) :
    lineName (generateHeaderAccept data) = lit "accept" := rfl

theorem lineName_generateHeaderContentType (data : Str) :
    lineName (generateHeaderContentType data) = lit "content-type" := rfl

/-- The generated lines. -/
def RequestParams.generatedLines (p : RequestParams) : List Str :=
  p.headerAccept.toList ++ p.headerContentType.toList

/-- All lines of a request. -/
def RequestParams.allLines (p : RequestParams) : List Str :=
  p.generatedLines ++ (dictEntries p.headers).map headerLine

section Lines
variable {env : CurlEnv} {p : RequestParams} {lines : List Str}

theorem foldl_slistAppend_sublist (env : CurlEnv) (list ls : List Str) :
    (ls.foldl (slistAppend env) list).Sublist (list ++ ls) := by
  induction ls generalizing list with
  | nil => simp
  | cons line ls ih =>
    apply (ih (slistAppend env list line)).trans
    unfold slistAppend
    split_ifs
    · simp
    · exact (List.sublist_cons_self _ _).trans (List.sublist_append_right _ _)

theorem headersLoop_eq_some {list : List Str} {ps : List (Str × Str)}
    (h : headersLoop env list ps = some lines) : lines = list ++ ps.map headerLine := by
  induction ps generalizing list with
  | nil =>
    cases h
    simp
  | cons q ps ih =>
    simp only [headersLoop, slistAppend] at h
    split_ifs at h
    split at h
    · cases h
    · rw [ih h]; simp

/-- A line that cannot be added is missing, perhaps with those before it. -/
theorem curlHeaders_sublist (h : curlHeaders env p = some lines) : lines.Sublist p.allLines := by
  rw [headersLoop_eq_some h]
  exact (foldl_slistAppend_sublist env [] p.generatedLines).append (List.Sublist.refl _)

theorem headersLoop_willing (list : List Str) (ps : List (Str × Str)) :
    headersLoop .willing list ps = some (list ++ ps.map headerLine) := by
  induction ps generalizing list with
  | nil => simp [headersLoop]
  | cons q ps ih =>
    have : slistAppend .willing list (headerLine q) = list ++ [headerLine q] := rfl
    simp only [headersLoop, this]
    split
    · rename_i hnil
      simp at hnil
    · rw [ih]; simp

theorem curlHeaders_willing (p : RequestParams) : curlHeaders .willing p = some p.allLines := by
  have hgen : ∀ list ls : List Str, ls.foldl (slistAppend .willing) list = list ++ ls := by
    intro list ls
    induction ls generalizing list with
    | nil => simp
    | cons line ls ih =>
      rw [List.foldl_cons, ih]
      simp [slistAppend, CurlEnv.willing]
  unfold curlHeaders
  rw [headersLoop_willing, hgen]
  rfl

theorem runCalls_sublist (env : CurlEnv) (calls : List CurlCall) :
    (runCalls env calls).1.Sublist calls := by
  induction calls with
  | nil => exact List.Sublist.refl _
  | cons call calls ih =>
    unfold runCalls
    split
    · exact List.nil_sublist _
    · exact ih.cons_cons call

theorem runCalls_willing (calls : List CurlCall) : runCalls .willing calls = (calls, none) := by
  induction calls with
  | nil => rfl
  | cons call calls ih =>
    have : CurlEnv.willing.answer call = none := by cases call <;> rfl
    simp only [runCalls, this, ih]

/-- Neither the headers nor the share of a session are set before the headers are built. -/
theorem setopt_notMem_callsBeforeHeaders {o : EasyOpt}
    (ho : (∃ lines, o = .httpHeader lines) ∨ ∃ i, o = .share i) :
    .setopt o ∉ p.callsBeforeHeaders := by
  intro h
  obtain ⟨hheaders, hcreation⟩ := p.kind_callsBeforeHeaders _ h
  rcases ho with ⟨_, rfl⟩ | ⟨_, rfl⟩
  · exact hheaders rfl
  · exact hcreation rfl

theorem httpHeader_mem_callsAfterHeaders {list : List Str} :
    .setopt (.httpHeader lines) ∈ p.callsAfterHeaders list ↔ list ≠ [] ∧ lines = list := by
  simp only [RequestParams.callsAfterHeaders, List.mem_append]
  constructor
  · rintro (((((h | h) | h) | h) | h) | h)
    · split_ifs at h with hne
      · exact ⟨hne, by simpa using h⟩
      · cases h
    all_goals
      split_ifs at h <;> simp at h
  · rintro ⟨hne, rfl⟩
    simp [hne]

/-- Where the settings of a request come from. -/
theorem mem_requestSetup {call : CurlCall} (h : call ∈ (requestSetup env p).1) :
    call ∈ p.callsBeforeHeaders ∨
      ∃ lines, curlHeaders env p = some lines ∧ call ∈ p.callsAfterHeaders lines := by
  have hbefore : ∀ {calls : List CurlCall}, call ∈ (runCalls env calls).1 → call ∈ calls :=
    fun hm => (runCalls_sublist env _).subset hm
  unfold requestSetup at h
  split at h
  · rename_i hrun
    exact Or.inl (hbefore (by rwa [hrun]))
  · rename_i hrun
    split at h
    · exact Or.inl (hbefore (by rwa [hrun]))
    · rename_i lines hlines
      rcases List.mem_append.mp h with h | h
      · exact Or.inl (hbefore (by rwa [hrun]))
      · exact Or.inr ⟨lines, hlines, hbefore h⟩

theorem httpHeader_mem_requestSetup
    (h : .setopt (.httpHeader lines) ∈ (requestSetup env p).1) : curlHeaders env p = some lines := by
  rcases mem_requestSetup h with h | ⟨list, hlist, h⟩
  · exact absurd h (setopt_notMem_callsBeforeHeaders (Or.inl ⟨lines, rfl⟩))
  · rw [hlist, (httpHeader_mem_callsAfterHeaders.mp h).2]

theorem share_notMem_requestSetup (i : ℕ) : .setopt (.share i) ∉ (requestSetup env p).1 := by
  intro h
  rcases mem_requestSetup h with h | ⟨list, -, h⟩
  · exact setopt_notMem_callsBeforeHeaders (Or.inr ⟨i, rfl⟩) h
  · rcases p.kind_callsAfterHeaders list _ h with hk | hk <;> cases hk

theorem httpHeader_mem_requestSetup_willing (hne : p.allLines ≠ []) :
    .setopt (.httpHeader p.allLines) ∈ (requestSetup .willing p).1 := by
  simp only [requestSetup, runCalls_willing, curlHeaders_willing]
  exact List.mem_append_right _ (httpHeader_mem_callsAfterHeaders.mpr ⟨hne, rfl⟩)

/-- No two lines handed to libcurl have a name in common, whatever libcurl answers, if no
two of all lines have. -/
theorem httpHeader_nodup_iff : (∀ env lines, .setopt (.httpHeader lines) ∈ (requestSetup env p).1 →
      (lines.map lineName).Nodup) ↔ (p.allLines.map lineName).Nodup := by
  constructor
  · intro h
    by_cases hne : p.allLines = []
    · simp [hne]
    · exact h .willing p.allLines (httpHeader_mem_requestSetup_willing hne)
  · intro h env lines hm
    exact ((curlHeaders_sublist (httpHeader_mem_requestSetup hm)).map lineName).nodup h

end Lines

/-! ### When the names of the lines are distinct -/

section Names
variable (session : Option ValidOptions) (opt : ValidOptions)

/-- The names given by `-headers`, to the session and to the request. -/
def givenNames : List Str :=
  (dictEntries (session.bind ValidOptions.headers) ++ dictEntries opt.headers).map Prod.fst

/-- No name given is that of a generated line, and names that agree up to the first colon
are equal up to case. -/
structure NamesApart : Prop where
  accept : (chooseAccept (session.map sessionParams) opt).isSome →
    ∀ k ∈ givenNames session opt, lineName k ≠ lit "accept"
  contentType : (chooseContentType (session.map sessionParams) opt).isSome →
    ∀ k ∈ givenNames session opt, lineName k ≠ lit "content-type"
  given : ∀ k ∈ givenNames session opt, ∀ k' ∈ givenNames session opt,
    lineName k = lineName k' → foldCase k = foldCase k'

variable {session opt}

/-- The names of the merged headers are the given ones, up to case. -/
theorem exists_requestHeaders_iff (name : Str) :
    (∃ e ∈ dictEntries (requestHeaders (session.map sessionParams) opt.headers),
      foldCase name = foldCase e.1) ↔ ∃ k ∈ givenNames session opt, foldCase name = foldCase k := by
  have hex : ∀ ps : List (Str × Str), (∃ e ∈ ps, foldCase name = foldCase e.1) ↔ named name ps ≠ [] := by
    intro ps
    simp [named, curlStrequal, List.filter_eq_nil_iff]
  have hgiven : (∃ k ∈ givenNames session opt, foldCase name = foldCase k) ↔
      ∃ e ∈ dictEntries (session.bind ValidOptions.headers) ++ dictEntries opt.headers,
        foldCase name = foldCase e.1 := by
    simp only [givenNames, List.mem_map, exists_exists_and_eq_and]
  rw [hgiven, hex, hex, (named_requestHeaders session opt.headers).2]
  simp [Option.toList_eq_nil_iff]

/-- What depends on a name only up to case holds of the merged headers if it holds of the
given names. -/
theorem forall_requestHeaders_iff (P : Str → Prop) :
    (∀ e ∈ dictEntries (requestHeaders (session.map sessionParams) opt.headers), P (foldCase e.1)) ↔
      ∀ k ∈ givenNames session opt, P (foldCase k) := by
  constructor
  · intro h k hk
    obtain ⟨e, he, hke⟩ := (exists_requestHeaders_iff k).mpr ⟨k, hk, rfl⟩
    exact hke ▸ h e he
  · intro h e he
    obtain ⟨k, hk, hek⟩ := (exists_requestHeaders_iff e.1).mp ⟨e, he, rfl⟩
    exact hek ▸ h k hk

theorem names_generatedLines (p : RequestParams) (accept contentType : Option Str)
    (ha : p.headerAccept = accept.map generateHeaderAccept)
    (hc : p.headerContentType = contentType.map generateHeaderContentType) :
    (p.generatedLines.map lineName).Nodup ∧ ∀ name, name ∈ p.generatedLines.map lineName ↔
      (accept.isSome ∧ name = lit "accept") ∨ (contentType.isSome ∧ name = lit "content-type") := by
  have hne : lit "accept" ≠ lit "content-type" := by decide +kernel
  unfold RequestParams.generatedLines
  rw [ha, hc]
  cases accept <;> cases contentType <;>
    simp [lineName_generateHeaderAccept, lineName_generateHeaderContentType, hne]

theorem namesApart_iff {method : Method} {customMethod : Option Str} {url : Str} :
    ((requestParams (session.map sessionParams) method customMethod url opt).allLines.map
      lineName).Nodup ↔ NamesApart session opt := by
  set p := requestParams (session.map sessionParams) method customMethod url opt
  set es := dictEntries p.headers with hes
  obtain ⟨hgen, hmem⟩ := names_generatedLines p (chooseAccept (session.map sessionParams) opt)
    (chooseContentType (session.map sessionParams) opt) rfl rfl
  have hdistinct : NamesDistinct es := (named_requestHeaders session opt.headers).1
  have hall : ∀ P : Str → Prop, (∀ e ∈ es, P (foldCase e.1)) ↔
      ∀ k ∈ givenNames session opt, P (foldCase k) := forall_requestHeaders_iff
  have hlines : p.allLines.map lineName =
      p.generatedLines.map lineName ++ es.map fun e => lineName e.1 := by
    rw [RequestParams.allLines, List.map_append, List.map_map]
    exact congrArg _ (List.map_congr_left fun e _ => lineName_headerLine e)
  have hinj : (es.map fun e => lineName e.1).Nodup ↔
      ∀ e ∈ es, ∀ e' ∈ es, lineName e.1 = lineName e'.1 → foldCase e.1 = foldCase e'.1 := by
    rw [List.nodup_map_iff_inj_on (List.Nodup.of_map _ hdistinct)]
    refine forall₂_congr fun e he => forall₂_congr fun e' he' => imp_congr_right fun _ => ?_
    exact ⟨fun heq => by rw [heq], fun heq => List.inj_on_of_nodup_map hdistinct he he' heq⟩
  rw [hlines, List.nodup_append, hinj]
  constructor
  · rintro ⟨-, hdist, hdisj⟩
    refine ⟨fun ha => ?_, fun hc => ?_, ?_⟩
    · refine (hall fun n => n.takeWhile (· ≠ 58) ≠ lit "accept").mp fun e he heq => ?_
      exact hdisj _ ((hmem _).mpr (Or.inl ⟨ha, rfl⟩)) _ (List.mem_map_of_mem he) heq.symm
    · refine (hall fun n => n.takeWhile (· ≠ 58) ≠ lit "content-type").mp fun e he heq => ?_
      exact hdisj _ ((hmem _).mpr (Or.inr ⟨hc, rfl⟩)) _ (List.mem_map_of_mem he) heq.symm
    · refine (hall fun n => ∀ k' ∈ givenNames session opt,
        n.takeWhile (· ≠ 58) = lineName k' → n = foldCase k').mp fun e he => ?_
      exact (hall fun n => lineName e.1 = n.takeWhile (· ≠ 58) → foldCase e.1 = n).mp
        fun e' he' => hdist e he e' he'
  · rintro ⟨haccept, hcontent, hgiven⟩
    refine ⟨hgen, ?_, ?_⟩
    · refine (hall fun n => ∀ e' ∈ es, n.takeWhile (· ≠ 58) = lineName e'.1 → n = foldCase e'.1).mpr
        fun k hk => ?_
      exact (hall fun n => lineName k = n.takeWhile (· ≠ 58) → foldCase k = n).mpr
        fun k' hk' => hgiven k hk k' hk'
    · rintro a ha b hb rfl
      obtain ⟨e, he, heq⟩ := List.mem_map.mp hb
      rcases (hmem a).mp ha with ⟨hs, rfl⟩ | ⟨hs, rfl⟩
      · exact (hall fun n => n.takeWhile (· ≠ 58) ≠ lit "accept").mpr (haccept hs) e he heq
      · exact (hall fun n => n.takeWhile (· ≠ 58) ≠ lit "content-type").mpr (hcontent hs) e he heq

/-- No list handed to libcurl has two lines with the same name, if and only if no name
given by `-headers` is that of a generated line and no two of them agree up to the first
colon without being equal. -/
theorem httpHeader_names_distinct_iff (session : Option ValidOptions) (opt : ValidOptions)
    (method : Method) (customMethod : Option Str) (url : Str) :
    (∀ env lines, .setopt (.httpHeader lines) ∈ (requestSetup env
        (requestParams (session.map sessionParams) method customMethod url opt)).1 →
      (lines.map lineName).Nodup) ↔ NamesApart session opt :=
  httpHeader_nodup_iff.trans namesApart_iff

/-- `http://localhost -accept json -headers {Accept x}` -/
def acceptTwice : List Str :=
  [lit "http://localhost", lit "-accept", lit "json", lit "-headers", lit "Accept x"]

theorem acceptTwice_names_equal : ¬ ∀ (api : Api) (session : Option ValidOptions) (method : Method)
    (objv : List Str) (opt : ValidOptions), requestOptions api method objv = .ok opt →
    ∀ env lines, .setopt (.httpHeader lines) ∈ (requestSetup env
      (requestParams (session.map sessionParams) method none (objv.headD []) opt)).1 →
      (lines.map lineName).Nodup := by
  intro h
  obtain ⟨opt, hok, hmem⟩ := exists_ok_of_any (show
    (requestOptions Api.plain .get acceptTwice).toOption.any (fun opt =>
      .setopt (.httpHeader [lit "Accept: application/json", lit "Accept: x"]) ∈
        (requestSetup .willing (requestParams none .get none (lit "http://localhost") opt)).1) = true by
    decide +kernel)
  have := h Api.plain none .get acceptTwice opt hok .willing _ (of_decide_eq_true hmem)
  exact absurd this (by decide +kernel)

end Names

end Trequests
