import Mathlib.Data.Int.Notation
import Mathlib.Data.List.Basic
import Trequests.Base.OrderedDict

/-! What the extension uses of the Tcl C API. A Tcl value is its string, a C
string is its bytes before the terminating NUL. How Tcl reads a string as a list,
a boolean or an integer is a parameter; dictionaries, the lookup of a name in a
table and the parsing of command arguments follow the documentation of
`Tcl_DictObjPut`, `Tcl_GetIndexFromObjStruct` and `Tcl_ParseArgsObjv`. -/

namespace Trequests

abbrev Str := List UInt8

/-- An ASCII literal of the source. -/
def lit (s : String) : Str := s.toList.map fun c => UInt8.ofNat c.toNat

/-- The decimal representation of an integer, as `%d` prints it. -/
def decimal (n : ℤ) : Str := lit (toString n)

/-- `tolower` in the C locale. -/
def toLower (b : UInt8) : UInt8 := if 65 ≤ b ∧ b ≤ 90 then b + 32 else b

def foldCase (s : Str) : Str := s.map toLower

/-- `curl_strequal`: equality up to ASCII case. -/
def curlStrequal (a b : Str) : Bool := foldCase a = foldCase b

/-- The readings of a Tcl value; a failure carries the text Tcl leaves in the
interpreter's result. -/
structure Tcl where
  /-- `Tcl_ListObjGetElements` -/
  listElements : Str → Except Str (List Str)
  /-- `Tcl_GetBooleanFromObj` -/
  getBoolean : Str → Option Bool
  /-- `Tcl_GetIntFromObj` -/
  getInt : Str → Except Str ℤ

abbrev Dict := OrderedDict Str Str

/-- The pairs of a list with an even number of elements. -/
def listPairs : List Str → Option (List (Str × Str))
  | [] => some []
  | [_] => none
  | k :: v :: rest => (listPairs rest).map ((k, v) :: ·)

/-- A Tcl value read as a list of key-value pairs. -/
def Tcl.pairs (tcl : Tcl) (obj : Str) : Except Str (List (Str × Str)) :=
  match tcl.listElements obj with
  | .error e => .error e
  | .ok es => match listPairs es with
    | none => .error (lit "missing value to go with key")
    | some ps => .ok ps

/-- A Tcl value read as a dictionary (`Tcl_DictObjSize`, `Tcl_DictObjFirst`). -/
def Tcl.dict (tcl : Tcl) (obj : Str) : Except Str Dict :=
  (tcl.pairs obj).map OrderedDict.ofPairs

/-! ### Tables of names -/

/-- `Tcl_GetIndexFromObjStruct`: the entry the key spells, or else, unless `exact`
(the flag `TCL_EXACT`) or the key is empty, the only entry it abbreviates. -/
def getIndex (exact : Bool) (table : List Str) (key : Str) : Option ℕ :=
  match table.findIdx? (· = key) with
  | some i => some i
  | none =>
    if exact ∨ key = [] ∨ (table.filter key.isPrefixOf).length ≠ 1 then none
    else table.findIdx? key.isPrefixOf

def enumerateRest : List Str → Str
  | [] => []
  | [last] => lit ", or " ++ last
  | entry :: rest => lit ", " ++ entry ++ enumerateRest rest

/-- The entries of a table as an error lists them: `a`, `a or b`, `a, b, or c`. -/
def enumerate : List Str → Str
  | [] => []
  | [a] => a
  | [a, b] => a ++ lit " or " ++ b
  | a :: rest => a ++ enumerateRest rest

/-- The error of a failed lookup without `TCL_EXACT`. -/
def indexError (msg : Str) (table : List Str) (key : Str) : Str :=
  (if 1 < (table.filter key.isPrefixOf).length then lit "ambiguous " else lit "bad ") ++ msg ++
    lit " \"" ++ key ++ lit "\": must be " ++ enumerate table

/-! ### Command arguments -/

/-- What an entry of an argument table does with the option record. -/
inductive ArgvAction (ω : Type) where
  /-- `TCL_ARGV_CONSTANT` -/
  | const (set : ω → ω)
  /-- `TCL_ARGV_INT` -/
  | int (set : ℤ → ω → ω)
  /-- `TCL_ARGV_FUNC`; the handlers of this extension all take the next argument -/
  | func (handler : Option Str → ω → ω)

structure ArgvInfo (ω : Type) where
  keyStr : Str
  action : ArgvAction ω

variable {ω : Type}

/-- The scan of the argument table: the first exact match, or else the only entry
that the word abbreviates. A word of less than two bytes matches nothing, since
the second bytes are compared first. -/
def matchArgv (word : Str) : List (ArgvInfo ω) → Option (ArgvInfo ω) → Except Str (ArgvInfo ω)
  | [], none => .error (lit "unrecognized argument \"" ++ word ++ lit "\"")
  | [], some found => .ok found
  | info :: table, found =>
    if 2 ≤ word.length ∧ word.isPrefixOf info.keyStr then
      if info.keyStr = word then .ok info
      else match found with
        | some _ => .error (lit "ambiguous option \"" ++ word ++ lit "\"")
        | none => matchArgv word table (some info)
    else matchArgv word table found

/-- The loop of `Tcl_ParseArgsObjv` over the arguments after the command name. -/
def parseArgs (tcl : Tcl) (table : List (ArgvInfo ω)) : List Str → ω → Except Str ω
  | [], o => .ok o
  | word :: rest, o =>
    match matchArgv word table none with
    | .error e => .error e
    | .ok info => match info.action, rest with
      | .const set, rest => parseArgs tcl table rest (set o)
      | .int _, [] =>
        .error (lit "\"" ++ word ++ lit "\" option requires an additional argument")
      | .int set, arg :: rest => match tcl.getInt arg with
        | .error _ => .error (lit "expected integer argument for \"" ++ info.keyStr ++
            lit "\" but got \"" ++ arg ++ lit "\"")
        | .ok n => parseArgs tcl table rest (set n o)
      | .func handler, [] => .ok (handler none o)
      | .func handler, arg :: rest => parseArgs tcl table rest (handler (some arg) o)

/-- `Tcl_ParseArgsObjv` without a place for unknown arguments; the first word is
the command name, or here the URL. -/
def parseArgsObjv (tcl : Tcl) (table : List (ArgvInfo ω)) (objv : List Str) (o : ω) :
    Except Str ω :=
  parseArgs tcl table objv.tail o

/-! ### What no argument changes -/

/-- Whatever its argument, the action keeps the property of the record. -/
def ArgvAction.Keeps (P : ω → Prop) : ArgvAction ω → Prop
  | .const set => ∀ o, P o → P (set o)
  | .int set => ∀ n o, P o → P (set n o)
  | .func handler => ∀ a o, P o → P (handler a o)

section Keeps
variable {tcl : Tcl} {table : List (ArgvInfo ω)}

theorem matchArgv_mem {word : Str} {found : Option (ArgvInfo ω)} {info : ArgvInfo ω}
    (h : matchArgv word table found = .ok info) : info ∈ table ∨ found = some info := by
  induction table generalizing found with
  | nil =>
    cases found with
    | none => cases h
    | some found =>
      cases h
      exact Or.inr rfl
  | cons head table ih =>
    simp only [matchArgv] at h
    split_ifs at h
    · cases h
      exact Or.inl List.mem_cons_self
    · cases found with
      | some found => cases h
      | none =>
        rcases ih h with hm | hm
        · exact Or.inl (List.mem_cons_of_mem _ hm)
        · cases hm
          exact Or.inl List.mem_cons_self
    · rcases ih h with hm | hm
      · exact Or.inl (List.mem_cons_of_mem _ hm)
      · exact Or.inr hm

/-- What every entry of the table keeps, no list of arguments changes. -/
theorem parseArgs_keeps {P : ω → Prop} (hP : ∀ info ∈ table, info.action.Keeps P) {objv : List Str}
    {o o' : ω} (h : parseArgs tcl table objv o = .ok o') (ho : P o) : P o' := by
  have haction : ∀ {word info}, matchArgv word table none = .ok info → info.action.Keeps P := by
    intro word info hm
    rcases matchArgv_mem hm with hm | hm
    · exact hP info hm
    · cases hm
  induction objv, o using parseArgs.induct tcl table with
  | case1 o =>
    cases h
    exact ho
  | case2 word rest o e hm =>
    simp [parseArgs, hm] at h
  | case3 word o info hm set rest ha ih =>
    have hkeeps := haction hm
    rw [ha] at hkeeps
    apply ih _ (hkeeps o ho)
    simpa [parseArgs, hm, ha] using h
  | case4 word o info hm set ha =>
    simp [parseArgs, hm, ha] at h
  | case5 word o info hm set arg rest ha e hn =>
    simp [parseArgs, hm, ha, hn] at h
  | case6 word o info hm set arg rest ha n hn ih =>
    have hkeeps := haction hm
    rw [ha] at hkeeps
    apply ih _ (hkeeps n o ho)
    simpa [parseArgs, hm, ha, hn] using h
  | case7 word o info hm handler ha =>
    have hkeeps := haction hm
    rw [ha] at hkeeps
    have ho' : handler none o = o' := by simpa [parseArgs, hm, ha] using h
    exact ho' ▸ hkeeps none o ho
  | case8 word o info hm handler arg rest ha ih =>
    have hkeeps := haction hm
    rw [ha] at hkeeps
    apply ih _ (hkeeps (some arg) o ho)
    simpa [parseArgs, hm, ha] using h

end Keeps

end Trequests
