import Trequests.RequestAuth

/-! `library.c`: the options of a request or a session, from the words of the
command to the validated record. An option is absent (`is_missing` is -1), given
(0) or given as the last word without its argument (1). Validation turns the raw
words into values; an option whose value is an empty dictionary or an empty
callback then counts as absent. -/

namespace Trequests

/-- The readings of Tcl values, and `curl_easy_escape` of a block of bytes. -/
structure Api extends Tcl where
  easyEscape : Str → Option Str

/-- The readings of words that need no quoting: a list is separated by blanks, and the
only booleans are 0 and 1. -/
def Api.plain : Api where
  listElements obj := .ok ((obj.splitOn 32).filter (· ≠ []))
  getBoolean obj := if obj = lit "1" then some true else if obj = lit "0" then some false else none
  getInt obj := .error (lit "expected integer but got \"" ++ obj ++ lit "\"")
  easyEscape data := some data

inductive Method where
  | head | get | post | put | patch | delete | custom
  deriving DecidableEq

/-- `treq_RequestGetMethodName` -/
def Method.name : Method → Str
  | head => lit "HEAD"
  | get => lit "GET"
  | post => lit "POST"
  | put => lit "PUT"
  | patch => lit "PATCH"
  | delete => lit "DELETE"
  | custom => lit "custom"

/-! ### The record and the argument tables -/

/-- The flag `is_missing`: -1, 0 and 1 in the source. -/
inductive IsMissing where
  | notGiven | given | noArgument
  deriving DecidableEq

/-- An option that may be repeated: the arguments of its occurrences. -/
structure OptionList where
  isMissing : IsMissing := .notGiven
  value : List Str := []
  deriving DecidableEq

/-- An option whose last occurrence counts. -/
structure OptionObject where
  isMissing : IsMissing := .notGiven
  value : Str := []
  deriving DecidableEq

/-- `treq_RequestOptions`, as `treq_InitRequestOptions` sets it. -/
structure RequestOptions where
  headers : OptionList := {}
  form : OptionList := {}
  verbose : OptionObject := {}
  allowRedirects : OptionObject := {}
  callback : OptionObject := {}
  callbackDebug : OptionObject := {}
  authScheme : OptionObject := {}
  authToken : OptionObject := {}
  auth : OptionObject := {}
  authAwsSigv4 : OptionObject := {}
  accept : OptionObject := {}
  contentType : OptionObject := {}
  data : OptionList := {}
  dataUrlencode : OptionList := {}
  dataFields : OptionList := {}
  dataFieldsUrlencode : OptionList := {}
  json : OptionList := {}
  params : OptionList := {}
  paramsRaw : OptionList := {}
  verify : OptionObject := {}
  verifyHost : OptionObject := {}
  verifyPeer : OptionObject := {}
  verifyStatus : OptionObject := {}
  async : Bool := false
  simple : Bool := false
  timeout : ℤ := -1
  timeoutConnect : ℤ := -1
  deriving DecidableEq

/-- `lappend_arg` -/
def lappendArg : Option Str → OptionList → OptionList
  | none, _ => { isMissing := .noArgument, value := [] }
  | some obj, o => { isMissing := .given, value := o.value ++ [obj] }

/-- The occurrences of an option, one argument each, as `lappend_arg` collects them. -/
def occurrences (objv : List Str) : OptionList :=
  objv.foldl (fun o obj => lappendArg (some obj) o) {}

/-- `object_arg`; `boolean_arg` keeps its raw value in the same way. -/
def objectArg : Option Str → OptionObject → OptionObject
  | none, o => { o with isMissing := .noArgument }
  | some obj, _ => { isMissing := .given, value := obj }

namespace Arg

/-! The entries of the argument tables, each filling its own field. -/

def headers : ArgvInfo RequestOptions :=
  ⟨lit "-headers", .func fun a o => { o with headers := lappendArg a o.headers }⟩

def form : ArgvInfo RequestOptions :=
  ⟨lit "-form", .func fun a o => { o with form := lappendArg a o.form }⟩

def allowRedirects : ArgvInfo RequestOptions :=
  ⟨lit "-allow_redirects", .func fun a o => { o with allowRedirects := objectArg a o.allowRedirects }⟩

def verbose : ArgvInfo RequestOptions :=
  ⟨lit "-verbose", .func fun a o => { o with verbose := objectArg a o.verbose }⟩

def callback : ArgvInfo RequestOptions :=
  ⟨lit "-callback", .func fun a o => { o with callback := objectArg a o.callback }⟩

def callbackDebug : ArgvInfo RequestOptions :=
  ⟨lit "-callback_debug", .func fun a o => { o with callbackDebug := objectArg a o.callbackDebug }⟩

def auth : ArgvInfo RequestOptions :=
  ⟨lit "-auth", .func fun a o => { o with auth := objectArg a o.auth }⟩

def authToken : ArgvInfo RequestOptions :=
  ⟨lit "-auth_token", .func fun a o => { o with authToken := objectArg a o.authToken }⟩

def authScheme : ArgvInfo RequestOptions :=
  ⟨lit "-auth_scheme", .func fun a o => { o with authScheme := objectArg a o.authScheme }⟩

def authAwsSigv4 : ArgvInfo RequestOptions :=
  ⟨lit "-auth_aws_sigv4", .func fun a o => { o with authAwsSigv4 := objectArg a o.authAwsSigv4 }⟩

def accept : ArgvInfo RequestOptions :=
  ⟨lit "-accept", .func fun a o => { o with accept := objectArg a o.accept }⟩

def contentType : ArgvInfo RequestOptions :=
  ⟨lit "-content_type", .func fun a o => { o with contentType := objectArg a o.contentType }⟩

def data : ArgvInfo RequestOptions :=
  ⟨lit "-data", .func fun a o => { o with data := lappendArg a o.data }⟩

def dataUrlencode : ArgvInfo RequestOptions :=
  ⟨lit "-data_urlencode", .func fun a o => { o with dataUrlencode := lappendArg a o.dataUrlencode }⟩

def dataFields : ArgvInfo RequestOptions :=
  ⟨lit "-data_fields", .func fun a o => { o with dataFields := lappendArg a o.dataFields }⟩

def dataFieldsUrlencode : ArgvInfo RequestOptions :=
  ⟨lit "-data_fields_urlencode", .func fun a o => { o with dataFieldsUrlencode := lappendArg a o.dataFieldsUrlencode }⟩

def json : ArgvInfo RequestOptions :=
  ⟨lit "-json", .func fun a o => { o with json := lappendArg a o.json }⟩

def params : ArgvInfo RequestOptions :=
  ⟨lit "-params", .func fun a o => { o with params := lappendArg a o.params }⟩

def paramsRaw : ArgvInfo RequestOptions :=
  ⟨lit "-params_raw", .func fun a o => { o with paramsRaw := lappendArg a o.paramsRaw }⟩

def verify : ArgvInfo RequestOptions :=
  ⟨lit "-verify", .func fun a o => { o with verify := objectArg a o.verify }⟩

def verifyHost : ArgvInfo RequestOptions :=
  ⟨lit "-verify_host", .func fun a o => { o with verifyHost := objectArg a o.verifyHost }⟩

def verifyPeer : ArgvInfo RequestOptions :=
  ⟨lit "-verify_peer", .func fun a o => { o with verifyPeer := objectArg a o.verifyPeer }⟩

def verifyStatus : ArgvInfo RequestOptions :=
  ⟨lit "-verify_status", .func fun a o => { o with verifyStatus := objectArg a o.verifyStatus }⟩

def async : ArgvInfo RequestOptions := ⟨lit "-async", .const fun o => { o with async := true }⟩

def simple : ArgvInfo RequestOptions := ⟨lit "-simple", .const fun o => { o with simple := true }⟩

def timeout : ArgvInfo RequestOptions := ⟨lit "-timeout", .int fun n o => { o with timeout := n }⟩

def timeoutConnect : ArgvInfo RequestOptions :=
  ⟨lit "-timeout_connect", .int fun n o => { o with timeoutConnect := n }⟩

end Arg

/-- `ArgTable` of `treq_CreateNewRequest` -/
def requestArgTable : List (ArgvInfo RequestOptions) :=
  [Arg.headers, Arg.form, Arg.allowRedirects, Arg.verbose, Arg.async, Arg.simple, Arg.callback,
   Arg.callbackDebug, Arg.auth, Arg.authToken, Arg.authScheme, Arg.authAwsSigv4, Arg.accept,
   Arg.contentType, Arg.data, Arg.dataUrlencode, Arg.dataFields, Arg.dataFieldsUrlencode,
   Arg.json, Arg.params, Arg.paramsRaw, Arg.timeout, Arg.timeoutConnect, Arg.verify,
   Arg.verifyHost, Arg.verifyPeer, Arg.verifyStatus]

/-- `ArgTable` of `treq_SessionCmd` -/
def sessionArgTable : List (ArgvInfo RequestOptions) :=
  [Arg.headers, Arg.allowRedirects, Arg.verbose, Arg.callback, Arg.callbackDebug, Arg.auth,
   Arg.authToken, Arg.authScheme, Arg.authAwsSigv4, Arg.accept, Arg.contentType, Arg.timeout,
   Arg.timeoutConnect, Arg.verify, Arg.verifyHost, Arg.verifyPeer, Arg.verifyStatus]

/-! ### Validation of one option -/

/-- `treq_ValidateOptionCommon`: `true` stands for `TCL_CONTINUE`. -/
def validateOptionCommon (name : Str) : IsMissing → Except Str Bool
  | .given => .ok true
  | .noArgument => .error (lit "\"" ++ name ++ lit "\" option requires an additional argument")
  | .notGiven => .ok false

section Merge
variable (tcl : Tcl)

/-- The loop of `treq_OptionListMergeDicts` over the elements after the first. -/
def mergeDictsLoop : Dict → List Str → Except Str Dict
  | result, [] => .ok result
  | result, obj :: objv => match tcl.dict obj with
    | .error e => .error e
    | .ok d => mergeDictsLoop (result.putPairs d.entries) objv

/-- `treq_OptionListMergeDicts`; an empty result becomes NULL. A given option has at
least one element. -/
def optionListMergeDicts : List Str → Except Str (Option Dict)
  | [] => .ok none
  | obj :: objv => match tcl.dict obj with
    | .error e => .error e
    | .ok d => (mergeDictsLoop tcl d objv).map fun result =>
        if result.size ≠ 0 then some result else none

/-- `treq_ValidateOptionListOfDicts` -/
def validateOptionListOfDicts (name : Str) (o : OptionList) : Except Str (Option Dict) := do
  if ← validateOptionCommon name o.isMissing then
    (optionListMergeDicts tcl o.value).mapError fun e =>
      name ++ lit " option is expected to be a valid dict, but got: " ++ e
  else return none

/-- `treq_ValidateOptionBoolean` -/
def validateOptionBoolean (name : Str) (o : OptionObject) : Except Str (Option ℤ) := do
  if ← validateOptionCommon name o.isMissing then
    match tcl.getBoolean o.value with
    | none => throw (name ++ lit " option is expected to be a boolean, but got: '" ++ o.value ++
        lit "'")
    | some b => return some (if b then 1 else 0)
  else return none

/-- `treq_ValidateOptionObjectList` -/
def validateOptionObjectList (name : Str) (o : OptionObject) (allowEmpty : Bool) :
    Except Str (Option Str) := do
  if ← validateOptionCommon name o.isMissing then
    match tcl.listElements o.value with
    | .error e => throw (name ++ lit " option is expected to be a list, but got: " ++ e)
    | .ok [] =>
      if allowEmpty then return none
      else throw (name ++ lit " option cannot be an empty list")
    | .ok _ => return some o.value
  else return none

/-- The plain options, which only need their argument. -/
def validateOptionObject (name : Str) (o : OptionObject) : Except Str (Option Str) := do
  if ← validateOptionCommon name o.isMissing then return some o.value else return none

/-- `treq_ValidateOptionAuth` -/
def validateOptionAuth (name : Str) (o : OptionObject) : Except Str (Option (Str × Str)) := do
  if ← validateOptionCommon name o.isMissing then
    match tcl.listElements o.value with
    | .error e =>
      throw (name ++ lit " option is expected to be a list with 2 elements, but got: " ++ e)
    | .ok [username, password] => return some (username, password)
    | .ok objv => throw (name ++ lit (" option is expected to be a list with 2 elements, but " ++
        "got a list with ") ++ decimal objv.length ++ lit " element" ++
        (if objv.length = 1 then [] else lit "s"))
  else return none

end Merge

/-! ### Body and query data -/

section Data
variable (api : Api)

def curlMaxInputLength : ℕ := 8000000

/-- The loop of `treq_UrlencodeTclObject`. Every pass encodes at least one byte, so
the length of the data is fuel enough. -/
def urlencodeLoop : ℕ → Str → Option Str
  | 0, _ => some []
  | fuel + 1, data =>
    if data = [] then some []
    else match api.easyEscape (data.take curlMaxInputLength) with
      | none => none
      | some encoded => (urlencodeLoop fuel (data.drop curlMaxInputLength)).map (encoded ++ ·)

/-- `treq_UrlencodeTclObject` -/
def urlencodeTclObject (data : Str) : Option Str := urlencodeLoop api data.length data

/-- How one data option treats its values. -/
structure DataKind where
  name : Str
  isUrlencoded : Bool
  isFields : Bool
  isTyped : Bool

variable (kind : DataKind)

def encodeIf (s : Str) : Option Str :=
  if kind.isUrlencoded then urlencodeTclObject api s else some s

/-- The key-value pairs of one occurrence, joined behind `chunk`. -/
def fieldsChunk : List Str → Option Str → Except Str (Option Str)
  | key :: val :: rest, chunk =>
    match encodeIf api kind key with
    | none => .error (lit "failed to urlencode the key while processing the " ++ kind.name ++
        lit " option")
    | some k =>
      let chunk := match chunk with
        | none => k
        | some c => c ++ lit "&" ++ k
      -- an empty value is left out together with its equals sign
      if val = [] then fieldsChunk rest (some chunk)
      else match encodeIf api kind val with
        | none => .error (lit "failed to urlencode the value for the key \"" ++ key ++
            lit "\" while processing the " ++ kind.name ++ lit " option")
        | some v => fieldsChunk rest (some (chunk ++ lit "=" ++ v))
  | _, chunk => .ok chunk

/-- One occurrence of a data option; `none` when it adds nothing. -/
def dataChunk (obj : Str) : Except Str (Option Str) :=
  if kind.isFields then
    match api.listElements obj with
    | .error e => .error (lit "an invalid list is specified for option " ++ kind.name ++
        lit ": " ++ e)
    | .ok objv =>
      if objv = [] then .ok none
      else if objv.length % 2 ≠ 0 then
        .error (lit "an even numbered list is expected for option " ++ kind.name ++
          lit ", but got a list of " ++ decimal objv.length ++ lit " items")
      else fieldsChunk api kind objv none
  else if obj = [] then .ok none
  else match encodeIf api kind obj with
    | none => .error (lit "failed to urlencode data while processing the " ++ kind.name ++
        lit " option")
    | some chunk => .ok (some chunk)

/-- The occurrences of a data option, joined by ampersands behind `value`. -/
def dataLoop : List Str → Option Str → Except Str (Option Str)
  | [], value => .ok value
  | obj :: objv, value => match dataChunk api kind obj with
    | .error e => .error e
    | .ok none => dataLoop objv value
    | .ok (some chunk) => dataLoop objv (some (match value with
      | none => chunk
      | some v => v ++ lit "&" ++ chunk))

/-- `treq_ValidateOptionData` -/
def validateOptionData (o : OptionList) : Except Str (Option Str) := do
  if ← validateOptionCommon kind.name o.isMissing then
    if kind.isTyped ∧ o.value.length ≠ 1 then
      throw (kind.name ++ lit " option specified multiple times")
    let value ← dataLoop api kind o.value none
    return some (value.getD [])
  else return none

end Data

/-! ### Validation of the record -/

/-- The options after `treq_ValidateOptions`: an option exists when it is `some`. -/
structure ValidOptions where
  headers : Option Dict
  form : Option Dict
  callback : Option Str
  callbackDebug : Option Str
  authScheme : Option (BitVec 64)
  authToken : Option Str
  auth : Option (Str × Str)
  authAwsSigv4 : Option Str
  accept : Option Str
  contentType : Option Str
  data : Option Str
  dataUrlencode : Option Str
  dataFields : Option Str
  dataFieldsUrlencode : Option Str
  json : Option Str
  params : Option Str
  paramsRaw : Option Str
  verify : Option ℤ
  verifyHost : Option ℤ
  verifyPeer : Option ℤ
  verifyStatus : Option ℤ
  verbose : Option ℤ
  allowRedirects : Option ℤ
  async : Bool
  simple : Bool
  timeout : ℤ
  timeoutConnect : ℤ

/-- The options that stand for the request body and are given, in the order in
which the two passes of the source look at them. -/
def ValidOptions.bodySources (v : ValidOptions) : List Str :=
  ([(lit "-data", v.data.isSome), (lit "-data_urlencode", v.dataUrlencode.isSome),
    (lit "-data_fields", v.dataFields.isSome),
    (lit "-data_fields_urlencode", v.dataFieldsUrlencode.isSome),
    (lit "-json", v.json.isSome), (lit "-form", v.form.isSome)].filter Prod.snd).map Prod.fst

def mutuallyExclusive (opt1 opt2 : Str) : Str :=
  lit "mutually exclusive options " ++ opt1 ++ lit " and " ++ opt2 ++ lit " were specified"

/-- The methods that take no body. -/
def Method.refusesBody : Method → Bool
  | .head | .get | .patch | .delete => true
  | .put | .post | .custom => false

/-- At most one body source, and only for a method that takes a body. -/
def validateBody (method : Method) (sources : List Str) : Except Str Unit :=
  match sources with
  | [] => .ok ()
  | first :: others =>
    if method.refusesBody then
      .error (lit "option " ++ first ++ lit " is incompatible with HTTP method " ++ method.name)
    else match others with
      | [] => .ok ()
      | second :: _ => .error (mutuallyExclusive first second)

/-- The words of `-auth_aws_sigv4`, joined by colons. -/
def validateAwsSigv4 (objv : List Str) : Except Str Str :=
  if objv.length < 1 ∨ 4 < objv.length then
    .error (lit ("-auth_aws_sigv4 option is expected to be a list with number of elements " ++
      "from 1 to 4, but got a list with ") ++ decimal objv.length ++ lit " elements")
  else .ok (List.intercalate (lit ":") objv)

def validateTimeout (name : Str) (timeout : ℤ) : Except Str Unit :=
  if timeout < -1 then
    .error (name ++ lit " option is expected as unsigned integer value, but got " ++
      decimal timeout)
  else .ok ()

def dataKind (name : Str) (isUrlencoded isFields isTyped : Bool) : DataKind :=
  ⟨name, isUrlencoded, isFields, isTyped⟩

/-- The words of an option whose value has been checked to be a list. -/
def Tcl.words (tcl : Tcl) (obj : Str) : List Str := (tcl.listElements obj).toOption.getD []

/-- The validators of the single options, in the order of `treq_ValidateOptions`, with
the lists that stand for `-auth_scheme` and `-auth_aws_sigv4`. -/
def validateEach (api : Api) (opt : RequestOptions) :
    Except Str (ValidOptions × Option Str × Option Str) := do
  let headers ← validateOptionListOfDicts api.toTcl (lit "-headers") opt.headers
  let form ← validateOptionListOfDicts api.toTcl (lit "-form") opt.form
  let callback ← validateOptionObjectList api.toTcl (lit "-callback") opt.callback true
  let callbackDebug ←
    validateOptionObjectList api.toTcl (lit "-callback_debug") opt.callbackDebug true
  let authScheme ← validateOptionObjectList api.toTcl (lit "-auth_scheme") opt.authScheme false
  let authToken ← validateOptionObject (lit "-auth_token") opt.authToken
  let auth ← validateOptionAuth api.toTcl (lit "-auth") opt.auth
  let authAwsSigv4 ←
    validateOptionObjectList api.toTcl (lit "-auth_aws_sigv4") opt.authAwsSigv4 false
  let accept ← validateOptionObject (lit "-accept") opt.accept
  let contentType ← validateOptionObject (lit "-content_type") opt.contentType
  let data ← validateOptionData api (dataKind (lit "-data") false false false) opt.data
  let dataUrlencode ←
    validateOptionData api (dataKind (lit "-data_urlencode") true false false) opt.dataUrlencode
  let dataFields ←
    validateOptionData api (dataKind (lit "-data_fields") false true false) opt.dataFields
  let dataFieldsUrlencode ← validateOptionData api
    (dataKind (lit "-data_fields_urlencode") true true false) opt.dataFieldsUrlencode
  let json ← validateOptionData api (dataKind (lit "-json") false false true) opt.json
  let params ← validateOptionData api (dataKind (lit "-params") true true false) opt.params
  let paramsRaw ←
    validateOptionData api (dataKind (lit "-params_raw") false false false) opt.paramsRaw
  let verify ← validateOptionBoolean api.toTcl (lit "-verify") opt.verify
  let verifyHost ← validateOptionBoolean api.toTcl (lit "-verify_host") opt.verifyHost
  let verifyPeer ← validateOptionBoolean api.toTcl (lit "-verify_peer") opt.verifyPeer
  let verifyStatus ← validateOptionBoolean api.toTcl (lit "-verify_status") opt.verifyStatus
  let verbose ← validateOptionBoolean api.toTcl (lit "-verbose") opt.verbose
  let allowRedirects ←
    validateOptionBoolean api.toTcl (lit "-allow_redirects") opt.allowRedirects
  return (
    { headers, form, callback, callbackDebug, authScheme := none, authToken, auth,
      authAwsSigv4 := none, accept, contentType, data, dataUrlencode, dataFields,
      dataFieldsUrlencode, json, params, paramsRaw, verify, verifyHost, verifyPeer,
      verifyStatus, verbose, allowRedirects, async := opt.async, simple := opt.simple,
      timeout := opt.timeout, timeoutConnect := opt.timeoutConnect },
    authScheme, authAwsSigv4)

/-- The switches `-async` and `-simple`, and the option `-callback`. -/
def validateAsync (valid : ValidOptions) : Except Str Unit :=
  if valid.async then
    if valid.simple then
      .error (lit "-async and -simple switches are incompatible with each other")
    else .ok ()
  else if valid.callback.isSome then
    .error (lit "-callback option can only be used for async requests")
  else .ok ()

def validateParams (valid : ValidOptions) : Except Str Unit :=
  if valid.params.isSome ∧ valid.paramsRaw.isSome then
    .error (mutuallyExclusive (lit "-params") (lit "-params_raw"))
  else .ok ()

/-- A parser applied to the words of an option, if it is given. -/
def parseWords {α : Type} (tcl : Tcl) (parse : List Str → Except Str α) :
    Option Str → Except Str (Option α)
  | none => .ok none
  | some raw => (parse (tcl.words raw)).map some

/-- The checks of `treq_ValidateOptions` that look at several options, and the values of
the two options of authentication. -/
def validateTogether (api : Api) (method : Method) (valid : ValidOptions)
    (authScheme authAwsSigv4 : Option Str) : Except Str ValidOptions := do
  validateBody method valid.bodySources
  validateParams valid
  let scheme ← parseWords api.toTcl requestAuthParseOption authScheme
  let aws ← parseWords api.toTcl validateAwsSigv4 authAwsSigv4
  validateAsync valid
  validateTimeout (lit "-timeout") valid.timeout
  validateTimeout (lit "-timeout_connect") valid.timeoutConnect
  return { valid with authScheme := scheme, authAwsSigv4 := aws }

/-- `treq_ValidateOptions` -/
def validateOptions (api : Api) (method : Method) (opt : RequestOptions) :
    Except Str ValidOptions :=
  (validateEach api opt).bind fun v => validateTogether api method v.1 v.2.1 v.2.2

/-- The options of a request, from the words of its command to the valid record. -/
def requestOptions (api : Api) (method : Method) (objv : List Str) : Except Str ValidOptions :=
  (parseArgsObjv api.toTcl requestArgTable objv {}).bind (validateOptions api method)

/-- The options of a session. -/
def sessionOptions (api : Api) (objv : List Str) : Except Str ValidOptions :=
  (parseArgsObjv api.toTcl sessionArgTable objv {}).bind (validateOptions api .custom)

/-! ### What validation guarantees -/

theorem occurrences_value (o : OptionList) (objv : List Str) :
    (objv.foldl (fun o obj => lappendArg (some obj) o) o).value = o.value ++ objv := by
  induction objv generalizing o with
  | nil => rw [List.foldl_nil, List.append_nil]
  | cons obj objv ih => rw [List.foldl_cons, ih, lappendArg, List.append_assoc, List.singleton_append]

theorem occurrences_eq (objv : List Str) :
    occurrences objv = ⟨if objv = [] then .notGiven else .given, objv⟩ := by
  cases objv using List.reverseRecOn with
  | nil => rfl
  | append_singleton objv obj =>
    rw [occurrences, List.foldl_append, List.foldl_cons, List.foldl_nil, lappendArg,
      occurrences_value]
    simp

theorem bind_eq_ok {ε α β : Type*} {x : Except ε α} {f : α → Except ε β} {b : β} :
    x.bind f = .ok b ↔ ∃ a, x = .ok a ∧ f a = .ok b := by
  cases x <;> simp [Except.bind]

/-- A result that has been found by evaluation. -/
theorem exists_ok_of_any {ε α : Type*} {x : Except ε α} {p : α → Bool}
    (h : x.toOption.any p = true) : ∃ a, x = .ok a ∧ p a = true := by
  cases x with
  | error e => cases h
  | ok a => exact ⟨a, rfl, h⟩

theorem validateTogether_async {api : Api} {method : Method} {valid opt : ValidOptions}
    {scheme aws : Option Str} (h : validateTogether api method valid scheme aws = .ok opt) :
    validateAsync valid = .ok () ∧ opt.async = valid.async ∧ opt.simple = valid.simple := by
  simp only [validateTogether, bind, bind_eq_ok] at h
  obtain ⟨_, -, _, -, scheme, -, aws, -, _, ha, _, -, _, -, h⟩ := h
  cases h
  exact ⟨ha, rfl, rfl⟩

/-- A `-simple` request is sync. -/
theorem requestOptions_async {api : Api} {method : Method} {objv : List Str} {opt : ValidOptions}
    (h : requestOptions api method objv = .ok opt) (hs : opt.simple = true) :
    opt.async = false := by
  simp only [requestOptions, validateOptions, bind_eq_ok] at h
  obtain ⟨_, -, v, -, h⟩ := h
  obtain ⟨hv, hasync, hsim⟩ := validateTogether_async h
  rw [hasync]
  rw [hsim] at hs
  cases ha : v.1.async with
  | false => rfl
  | true => simp [validateAsync, hs, ha] at hv

end Trequests
