import Trequests.Headers
import Trequests.Validation

/-! The body of a request, from the options that give it to the settings that hand it to
libcurl. At most one of the six options may stand for a body; validation, the merge of the
options, the choice of the fields and the setup of the easy handle each look at them in
their own order. -/

namespace Trequests

/-! ### The sources of a body -/

/-- The options whose value is sent as it is, once its occurrences are joined. -/
inductive DataSource where
  | data | dataUrlencode | dataFields | dataFieldsUrlencode | json
  deriving DecidableEq

namespace DataSource

def kind : DataSource → DataKind
  | data => dataKind (lit "-data") false false false
  | dataUrlencode => dataKind (lit "-data_urlencode") true false false
  | dataFields => dataKind (lit "-data_fields") false true false
  | dataFieldsUrlencode => dataKind (lit "-data_fields_urlencode") true true false
  | json => dataKind (lit "-json") false false true

def value (v : ValidOptions) : DataSource → Option Str
  | data => v.data
  | dataUrlencode => v.dataUrlencode
  | dataFields => v.dataFields
  | dataFieldsUrlencode => v.dataFieldsUrlencode
  | json => v.json

end DataSource

inductive BodySource where
  | data (s : DataSource)
  | form
  deriving DecidableEq

namespace BodySource

def all : List BodySource :=
  [data .data, data .dataUrlencode, data .dataFields, data .dataFieldsUrlencode, data .json, form]

def name : BodySource → Str
  | data s => s.kind.name
  | form => lit "-form"

/-- The valid option exists. -/
def found (v : ValidOptions) : BodySource → Bool
  | data s => (s.value v).isSome
  | form => v.form.isSome

end BodySource

section Sources
variable {api : Api} {method : Method} {opt : RequestOptions} {v : ValidOptions}
  {scheme aws : Option Str}

end Sources

/-! ### The joined value -/

section Join
variable (api : Api) (kind : DataKind)

/-- What the occurrences of a data option add, one after the other. -/
def dataChunks : List Str → Except Str (List Str)
  | [] => .ok []
  | obj :: objv => match dataChunk api kind obj with
    | .error e => .error e
    | .ok chunk => (dataChunks objv).map (chunk.toList ++ ·)

/-- The chunks, joined by ampersands. -/
def joined (chunks : List Str) : Str := List.intercalate (lit "&") chunks

variable {api kind}

theorem joined_cons_cons (v chunk : Str) (chunks : List Str) :
    joined ((v ++ lit "&" ++ chunk) :: chunks) = joined (v :: chunk :: chunks) := by
  unfold joined
  cases chunks with
  | nil => simp [List.intercalate_cons_cons]
  | cons next chunks => simp [List.intercalate_cons_cons]

/-- The loop joins the chunks. -/
theorem dataLoop_eq (objv : List Str) (value : Option Str) :
    (dataLoop api kind objv value).map (·.getD []) =
      (dataChunks api kind objv).map fun chunks => joined (value.toList ++ chunks) := by
  induction objv generalizing value with
  | nil => cases value <;> simp [dataLoop, dataChunks, joined, Except.map]
  | cons obj objv ih =>
    unfold dataChunks dataLoop
    cases dataChunk api kind obj with
    | error e => rfl
    | ok chunk =>
      cases chunk with
      | none =>
        simp only [ih, Option.toList_none, List.nil_append]
        cases dataChunks api kind objv <;> rfl
      | some chunk =>
        simp only [ih, Option.toList_some, List.singleton_append]
        cases dataChunks api kind objv with
        | error e => rfl
        | ok chunks =>
          cases value with
          | none => rfl
          | some v => exact congrArg Except.ok (joined_cons_cons v chunk chunks)

theorem joined_of_dataLoop {objv : List Str} {value : Option Str}
    (h : dataLoop api kind objv none = .ok value) :
    ∃ chunks, dataChunks api kind objv = .ok chunks ∧ value.getD [] = joined chunks := by
  have hloop : (dataLoop api kind objv none).map (·.getD []) =
      (dataChunks api kind objv).map joined := dataLoop_eq objv none
  rw [h] at hloop
  obtain ⟨chunks, hc, hj⟩ := map_eq_ok.mp hloop.symm
  exact ⟨chunks, hc, hj.symm⟩

end Join

/-! ### The settings of the body -/

section Delivery
variable {api : Api} {method : Method} {opt : RequestOptions} {v valid : ValidOptions}
  {scheme aws : Option Str} {session : Option SessionParams} {customMethod : Option Str}
  {url : Str} {env : CurlEnv} {p : RequestParams}

theorem runCalls_prefix (env : CurlEnv) (calls : List CurlCall) :
    (runCalls env calls).1 <+: calls ∧
      ((runCalls env calls).2 = none → (runCalls env calls).1 = calls) := by
  induction calls with
  | nil => exact ⟨List.prefix_rfl, fun _ => rfl⟩
  | cons call calls ih =>
    unfold runCalls
    split
    · exact ⟨List.nil_prefix, fun h => by cases h⟩
    · exact ⟨List.cons_prefix_cons.mpr ⟨rfl, ih.1⟩, fun h => congrArg (call :: ·) (ih.2 h)⟩

/-- The settings of a request are made in order, and all of them unless one is refused. -/
theorem requestSetup_prefix (env : CurlEnv) (p : RequestParams) : ∃ lines,
    (requestSetup env p).1 <+: p.callsBeforeHeaders ++ p.callsAfterHeaders lines ∧
      ((requestSetup env p).2 = none →
        (requestSetup env p).1 = p.callsBeforeHeaders ++ p.callsAfterHeaders lines) := by
  obtain ⟨hpre, hall⟩ := runCalls_prefix env p.callsBeforeHeaders
  unfold requestSetup
  split
  · rename_i done e hrun
    rw [hrun] at hpre
    exact ⟨[], hpre.trans (List.prefix_append _ _), fun h => by cases h⟩
  · rename_i done hrun
    rw [hrun] at hpre hall
    split
    · exact ⟨[], hpre.trans (List.prefix_append _ _), fun h => by cases h⟩
    · rename_i lines _
      obtain ⟨hpre', hall'⟩ := runCalls_prefix env (p.callsAfterHeaders lines)
      have hdone : done = p.callsBeforeHeaders := hall rfl
      rw [hdone]
      exact ⟨lines, (List.prefix_append_right_inj _).mpr hpre', fun h => congrArg _ (hall' h)⟩

end Delivery

end Trequests
