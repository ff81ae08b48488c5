import Trequests.Base.Run
import Trequests.Library

/-! The order of the options of a command. The entries of an argument table each fill a
field of their own, so that only the order among the occurrences of one option matters:
that of the values of `-data`, say, or which `-timeout` is the last one. However the
options are abbreviated and arranged otherwise, they are accepted or refused together,
and what is created from them is the same. -/

namespace Trequests

/-! ### Entries that do not interfere -/

section Table
variable {ω : Type}

/-- What an action does to the record, for some argument. -/
inductive ArgvAction.Effect : ArgvAction ω → (ω → ω) → Prop
  | const (set : ω → ω) : Effect (.const set) set
  | int (set : ℤ → ω → ω) (n : ℤ) : Effect (.int set) (set n)
  | func (handler : Option Str → ω → ω) (a : Option Str) : Effect (.func handler) (handler a)

def ArgvAction.Commutes (a b : ArgvAction ω) : Prop :=
  ∀ f g, a.Effect f → b.Effect g → ∀ o, f (g o) = g (f o)

theorem ArgvAction.Commutes.symm {a b : ArgvAction ω} (h : a.Commutes b) : b.Commutes a :=
  fun f g hf hg o => (h g f hg hf o).symm

/-- The options that `Tcl_ParseArgsObjv` finds in the words, under the names of their
entries and with their arguments; a word without an entry has no name. -/
def splitArgs (table : List (ArgvInfo ω)) : List Str → List (Option Str × Option Str)
  | [] => []
  | word :: rest =>
    match matchArgv word table none with
    | .error _ => (none, none) :: splitArgs table rest
    | .ok info => match info.action, rest with
      | .const _, rest => (some info.keyStr, none) :: splitArgs table rest
      | .int _, [] | .func _, [] => [(some info.keyStr, none)]
      | .int _, arg :: rest | .func _, arg :: rest =>
        (some info.keyStr, some arg) :: splitArgs table rest

/-- The same options, each with its arguments in the same order. -/
def SameOptions (table : List (ArgvInfo ω)) (objv objv' : List Str) : Prop :=
  ∀ name ∈ none :: table.map fun info => some info.keyStr,
    (splitArgs table objv).filter (fun x => x.1 = name) =
      (splitArgs table objv').filter fun x => x.1 = name

instance (table : List (ArgvInfo ω)) (objv objv' : List Str) :
    Decidable (SameOptions table objv objv') :=
  inferInstanceAs (Decidable (∀ name ∈ _, _))

/-- One option applied to the record. -/
def applyArg (tcl : Tcl) (table : List (ArgvInfo ω)) (o : ω) (x : Option Str × Option Str) :
    Option ω :=
  (x.1.bind fun name => table.find? fun info => info.keyStr = name).bind fun info =>
    match info.action, x.2 with
    | .const set, _ => some (set o)
    | .int _, none => none
    | .int set, some arg => (tcl.getInt arg).toOption.map fun n => set n o
    | .func handler, arg => some (handler arg o)

variable {tcl : Tcl} {table : List (ArgvInfo ω)}

theorem find_keyStr (hn : (table.map ArgvInfo.keyStr).Nodup) {info : ArgvInfo ω} (h : info ∈ table) :
    table.find? (fun x => x.keyStr = info.keyStr) = some info := by
  induction table with
  | nil => cases h
  | cons head table ih =>
    obtain ⟨hhead, hn⟩ := List.nodup_cons.mp hn
    rcases List.mem_cons.mp h with rfl | h
    · simp
    · have hne : head.keyStr ≠ info.keyStr := fun he => hhead (he ▸ List.mem_map_of_mem h)
      simpa [List.find?_cons, hne] using ih hn h

/-- The loop of `Tcl_ParseArgsObjv` applies the options one after the other. -/
theorem parseArgs_eq_exec (hn : (table.map ArgvInfo.keyStr).Nodup) (objv : List Str) (o : ω) :
    (parseArgs tcl table objv o).toOption =
      Run.exec (applyArg tcl table) o (splitArgs table objv) := by
  have hfind : ∀ {word info}, matchArgv word table none = .ok info →
      table.find? (fun x => x.keyStr = info.keyStr) = some info := fun hm =>
    find_keyStr hn ((matchArgv_mem hm).resolve_right (by simp))
  induction objv, o using parseArgs.induct tcl table with
  | case1 o => rfl
  | case2 word rest o e hm => simp [parseArgs, splitArgs, hm, applyArg, Except.toOption]
  | case3 word o info hm set rest ha ih =>
    simpa [parseArgs, splitArgs, hm, ha, applyArg, hfind hm] using ih
  | case4 word o info hm set ha =>
    simp [parseArgs, splitArgs, hm, ha, applyArg, hfind hm, Except.toOption]
  | case5 word o info hm set arg rest ha e he =>
    simp [parseArgs, splitArgs, hm, ha, he, applyArg, hfind hm, Except.toOption]
  | case6 word o info hm set arg rest ha n he ih =>
    simpa [parseArgs, splitArgs, hm, ha, he, applyArg, hfind hm, Except.toOption] using ih
  | case7 word o info hm handler ha =>
    simp [parseArgs, splitArgs, hm, ha, applyArg, hfind hm, Except.toOption]
  | case8 word o info hm handler arg rest ha ih =>
    simpa [parseArgs, splitArgs, hm, ha, applyArg, hfind hm] using ih

/-- An option either fails, whatever the record, or has an effect of its entry. -/
theorem applyArg_cases (tcl : Tcl) (table : List (ArgvInfo ω)) (x : Option Str × Option Str) :
    (∀ o, applyArg tcl table o x = none) ∨
      ∃ info ∈ table, x.1 = some info.keyStr ∧
        ∃ f, info.action.Effect f ∧ ∀ o, applyArg tcl table o x = some (f o) := by
  obtain ⟨name, arg⟩ := x
  cases hm : name.bind fun name => table.find? fun info => info.keyStr = name with
  | none => exact Or.inl fun o => by simp [applyArg, hm]
  | some info =>
    obtain ⟨key, rfl, hfind⟩ := Option.bind_eq_some_iff.mp hm
    have hinfo : info ∈ table := List.mem_of_find?_eq_some hfind
    have hkey : info.keyStr = key := by simpa using List.find?_some hfind
    subst hkey
    cases ha : info.action with
    | const set =>
      exact Or.inr ⟨info, hinfo, rfl, set, ha ▸ .const set, fun o => by simp [applyArg, hfind, ha]⟩
    | func handler =>
      exact Or.inr ⟨info, hinfo, rfl, handler arg, ha ▸ .func handler arg,
        fun o => by simp [applyArg, hfind, ha]⟩
    | int set =>
      cases arg with
      | none => exact Or.inl fun o => by simp [applyArg, hfind, ha]
      | some arg =>
        cases he : tcl.getInt arg with
        | error e => exact Or.inl fun o => by simp [applyArg, hfind, ha, he, Except.toOption]
        | ok n =>
          exact Or.inr ⟨info, hinfo, rfl, set n, ha ▸ .int set n,
            fun o => by simp [applyArg, hfind, ha, he, Except.toOption]⟩

theorem applyArg_comm
    (hcomm : ∀ a ∈ table, ∀ b ∈ table, a.keyStr ≠ b.keyStr → a.action.Commutes b.action) (o : ω)
    (x y : Option Str × Option Str) (hne : x.1 ≠ y.1) :
    ((applyArg tcl table o x).bind fun p => applyArg tcl table p y) =
      (applyArg tcl table o y).bind fun p => applyArg tcl table p x := by
  rcases applyArg_cases tcl table x with hx | ⟨a, ha, hxa, f, hf, hx⟩
  · cases applyArg tcl table o y <;> simp [hx]
  · rcases applyArg_cases tcl table y with hy | ⟨b, hb, hyb, g, hg, hy⟩
    · simp [hx, hy]
    · have hkey : a.keyStr ≠ b.keyStr := fun he => hne (by rw [hxa, hyb, he])
      simp [hx, hy, hcomm a ha b hb hkey f g hf hg o]

/-- Every option found has the name of an entry, or none. -/
theorem name_mem_of_mem_splitArgs {objv : List Str} {x : Option Str × Option Str}
    (hx : x ∈ splitArgs table objv) : x.1 ∈ none :: table.map fun info => some info.keyStr := by
  have hinfo : ∀ {word info}, matchArgv word table none = .ok info →
      some info.keyStr ∈ none :: table.map fun info => some info.keyStr := fun hm =>
    List.mem_cons_of_mem _ (List.mem_map_of_mem ((matchArgv_mem hm).resolve_right (by simp)))
  induction objv using splitArgs.induct table with
  | case1 => cases hx
  | case2 word rest e hm ih =>
    simp only [splitArgs, hm, List.mem_cons] at hx
    rcases hx with rfl | hx
    · exact List.mem_cons_self
    · exact ih hx
  | case3 word info hm set rest ha ih =>
    simp only [splitArgs, hm, ha, List.mem_cons] at hx
    rcases hx with rfl | hx
    · exact hinfo hm
    · exact ih hx
  | case4 word info hm set ha =>
    simp only [splitArgs, hm, ha, List.mem_singleton] at hx
    exact hx ▸ hinfo hm
  | case5 word info hm handler ha =>
    simp only [splitArgs, hm, ha, List.mem_singleton] at hx
    exact hx ▸ hinfo hm
  | case6 word info hm arg rest set ha ih =>
    simp only [splitArgs, hm, ha, List.mem_cons] at hx
    rcases hx with rfl | hx
    · exact hinfo hm
    · exact ih hx
  | case7 word info hm arg rest handler ha ih =>
    simp only [splitArgs, hm, ha, List.mem_cons] at hx
    rcases hx with rfl | hx
    · exact hinfo hm
    · exact ih hx

theorem parseArgs_order (hn : (table.map ArgvInfo.keyStr).Nodup)
    (hcomm : ∀ a ∈ table, ∀ b ∈ table, a.keyStr ≠ b.keyStr → a.action.Commutes b.action)
    {objv objv' : List Str} (h : SameOptions table objv objv') (o : ω) :
    (parseArgs tcl table objv o).toOption = (parseArgs tcl table objv' o).toOption := by
  rw [parseArgs_eq_exec hn, parseArgs_eq_exec hn]
  refine Run.exec_reorder (applyArg_comm hcomm) (fun name => ?_) o
  by_cases hname : name ∈ none :: table.map fun info => some info.keyStr
  · exact h name hname
  · have hnil : ∀ objv, (splitArgs table objv).filter (fun x => x.1 = name) = [] := fun objv =>
      List.filter_eq_nil_iff.mpr fun x hx hxn =>
        hname (of_decide_eq_true hxn ▸ name_mem_of_mem_splitArgs hx)
    rw [hnil, hnil]

end Table

/-! ### The options of requests and sessions -/

theorem pairwise_requestArgTable :
    requestArgTable.Pairwise fun a b => a.action.Commutes b.action := by
  simp only [requestArgTable, List.pairwise_cons, List.forall_mem_cons, List.not_mem_nil,
    IsEmpty.forall_iff, implies_true, List.Pairwise.nil, and_true]
  repeat' constructor
  all_goals
    rintro f g ⟨⟩ ⟨⟩ o
    rfl

/-- Each entry fills a field of its own. -/
theorem commutes_requestArgTable {a b : ArgvInfo RequestOptions} (ha : a ∈ requestArgTable)
    (hb : b ∈ requestArgTable) (hne : a.keyStr ≠ b.keyStr) : a.action.Commutes b.action := by
  have : Std.Symm fun a b : ArgvInfo RequestOptions => a.action.Commutes b.action :=
    ⟨fun _ _ h => h.symm⟩
  exact pairwise_requestArgTable.forall ha hb fun he => hne (congrArg ArgvInfo.keyStr he)

/-- A session takes some of the options of a request. -/
theorem sessionArgTable_sublist : sessionArgTable.Sublist requestArgTable := by
  unfold sessionArgTable requestArgTable
  repeat first | exact List.Sublist.slnil | apply List.Sublist.cons_cons | apply List.Sublist.cons

theorem nodup_requestArgTable : (requestArgTable.map ArgvInfo.keyStr).Nodup := by decide +kernel

theorem toOption_bind {ε α β : Type*} (x : Except ε α) (f : α → Except ε β) :
    (x.bind f).toOption = x.toOption.bind fun a => (f a).toOption := by
  cases x <;> rfl

theorem requestOptions_order {objv objv' : List Str} (h : SameOptions requestArgTable objv objv')
    (api : Api) (method : Method) (url : Str) :
    (requestOptions api method (url :: objv)).toOption =
      (requestOptions api method (url :: objv')).toOption := by
  have hparse : (parseArgs api.toTcl requestArgTable objv {}).toOption =
      (parseArgs api.toTcl requestArgTable objv' {}).toOption :=
    parseArgs_order nodup_requestArgTable (fun _ ha _ hb => commutes_requestArgTable ha hb) h {}
  simp only [requestOptions, parseArgsObjv, List.tail_cons, toOption_bind, hparse]

theorem sessionOptions_order {objv objv' : List Str} (h : SameOptions sessionArgTable objv objv')
    (api : Api) (name : Str) :
    (sessionOptions api (name :: objv)).toOption = (sessionOptions api (name :: objv')).toOption := by
  have hsub := sessionArgTable_sublist
  have hparse : (parseArgs api.toTcl sessionArgTable objv {}).toOption =
      (parseArgs api.toTcl sessionArgTable objv' {}).toOption :=
    parseArgs_order (nodup_requestArgTable.sublist (hsub.map _))
      (fun _ ha _ hb => commutes_requestArgTable (hsub.subset ha) (hsub.subset hb)) h {}
  simp only [sessionOptions, parseArgsObjv, List.tail_cons, toOption_bind, hparse]

/-- Two results with the same value, or two errors. -/
theorem eq_or_error {ε α : Type*} {x y : Except ε α} (h : x.toOption = y.toOption) :
    (∃ e e', x = .error e ∧ y = .error e') ∨ x = y := by
  cases x with
  | error e =>
    cases y with
    | error e' => exact Or.inl ⟨e, e', rfl, rfl⟩
    | ok b => cases h
  | ok a =>
    cases y with
    | error e' => cases h
    | ok b =>
      cases h
      exact Or.inr rfl

/-- The same options in another order, each with its arguments in the same order: a request
or a session is refused for both, or the same one is created. -/
theorem options_in_any_order {objv objv' : List Str} :
    (SameOptions requestArgTable objv objv' →
      ∀ (api : Api) (l : Lib) (env : CurlEnv) (interp : InterpId) (method : Method)
        (customMethod : Option Str) (url : Str) (session : Option SesId),
        let create objv := l.createNewRequest api env interp ⟨method, customMethod, url :: objv⟩ session
        (∃ e e', create objv = .failed e ∧ create objv' = .failed e') ∨ create objv = create objv') ∧
      (SameOptions sessionArgTable objv objv' →
        ∀ (api : Api) (l : Lib) (interp : InterpId) (name : Str) (shareInit : Bool),
          let create objv := l.sessionCmd api interp (name :: objv) shareInit
          (∃ e e', create objv = .error e ∧ create objv' = .error e') ∨ create objv = create objv') := by
  refine ⟨fun h api l env interp method customMethod url session => ?_, fun h api l interp name share => ?_⟩
  · rcases eq_or_error (requestOptions_order h api method url) with ⟨e, e', he, he'⟩ | he
    · exact Or.inl ⟨e, e', by simp only [Lib.createNewRequest, he], by simp only [Lib.createNewRequest, he']⟩
    · exact Or.inr (by simp only [Lib.createNewRequest, he, List.headD_cons])
  · rcases eq_or_error (sessionOptions_order h api name) with ⟨e, e', he, he'⟩ | he
    · exact Or.inl ⟨e, e', by simp only [Lib.sessionCmd, he], by simp only [Lib.sessionCmd, he']⟩
    · exact Or.inr (by simp only [Lib.sessionCmd, he])

/-- `-async -verbose 1 -callback foo -headers {a b} -headers {c d}`, and the same with the
switch at the end, between the headers another option, and one name abbreviated. -/
theorem options_in_any_order_async : Lib.createNewRequest Api.plain Lib.init .willing 0
      ⟨.get, none, [lit "http://localhost", lit "-async", lit "-verbose", lit "1", lit "-callback",
        lit "foo", lit "-headers", lit "a b", lit "-headers", lit "c d"]⟩ none =
    Lib.createNewRequest Api.plain Lib.init .willing 0
      ⟨.get, none, [lit "http://localhost", lit "-headers", lit "a b", lit "-verb", lit "1",
        lit "-headers", lit "c d", lit "-callback", lit "foo", lit "-async"]⟩ none := by
  refine ((options_in_any_order.1 (by decide +kernel)) Api.plain Lib.init .willing 0 .get none
    (lit "http://localhost") none).resolve_left ?_
  rintro ⟨e, e', he, -⟩
  have hok : (requestOptions Api.plain .get [lit "http://localhost", lit "-async", lit "-verbose",
    lit "1", lit "-callback", lit "foo", lit "-headers", lit "a b", lit "-headers",
    lit "c d"]).toOption.any (fun _ => true) = true := by decide +kernel
  obtain ⟨opt, hopt, -⟩ := exists_ok_of_any hok
  simp [Lib.createNewRequest, hopt, Lib.newRequest, Lib.requestInit, CurlEnv.willing] at he

end Trequests
