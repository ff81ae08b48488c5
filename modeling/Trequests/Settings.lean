import Trequests.Curl
import Trequests.Options

/-! The parameters of a session and of a request, from the valid options
(`treq_SessionCmd` and `treq_CreateNewRequest` in `library.c`), and the libcurl
settings that `treq_RequestRun` makes of them. -/

namespace Trequests

/-! ### Merging of headers -/

/-- One pass of the loop of `treq_MergeDicts`. -/
def mergeStep (caseInsensitive : Bool) (dict1 : Dict) (p : Str × Str) : Dict :=
  (match if caseInsensitive then dict1.keys.find? (curlStrequal · p.1) else none with
    | some key1 => dict1.erase key1
    | none => dict1).put p.1 p.2

/-- `treq_MergeDicts`; NULL for the first dictionary stands for an empty one. -/
def mergeDicts (dict1 : Option Dict) (dict2 : Dict) (caseInsensitive : Bool) : Dict :=
  dict2.entries.foldl (mergeStep caseInsensitive) (dict1.getD OrderedDict.empty)

/-! ### Generated headers -/

def acceptShortcuts : List (Str × Str) :=
  [(lit "all", lit "*/*"), (lit "json", lit "application/json")]

def contentTypeShortcuts : List (Str × Str) := [(lit "json", lit "application/json")]

/-- `treq_GenerateHeader` -/
def generateHeader (data : Str) (table : List (Str × Str)) : Str :=
  ((getIndex true (table.map Prod.fst) data).bind fun i => table[i]?).elim data Prod.snd

def generateHeaderAccept (data : Str) : Str := lit "Accept: " ++ generateHeader data acceptShortcuts

def generateHeaderContentType (data : Str) : Str :=
  lit "Content-Type: " ++ generateHeader data contentTypeShortcuts

/-! ### Sessions -/

/-- The fields of `treq_SessionType` a request inherits; -1 stands for unset. -/
structure SessionParams where
  headers : Option Dict
  auth : Option RequestAuth
  allowRedirects : ℤ
  verbose : ℤ
  callback : Option Str
  callbackDebug : Option Str
  accept : Option Str
  contentType : Option Str
  timeout : ℤ
  timeoutConnect : ℤ
  verify : ℤ
  verifyHost : ℤ
  verifyPeer : ℤ
  verifyStatus : ℤ
  deriving DecidableEq

/-- The parameters for `treq_RequestAuthInit`, if one of the options is given. -/
def ValidOptions.requestAuth (opt : ValidOptions) : Option RequestAuth :=
  if opt.authScheme.isSome ∨ opt.authToken.isSome ∨ opt.auth.isSome ∨ opt.authAwsSigv4.isSome then
    some
      { username := opt.auth.map Prod.fst
        password := opt.auth.map Prod.snd
        token := opt.authToken
        awsSigv4 := opt.authAwsSigv4
        scheme := opt.authScheme.getD (-1) }
  else none

/-- The session that `treq_SessionCmd` fills from its options. -/
def sessionParams (opt : ValidOptions) : SessionParams where
  headers := opt.headers.map fun value => mergeDicts none value true
  auth := opt.requestAuth
  allowRedirects := opt.allowRedirects.getD (-1)
  verbose := opt.verbose.getD (-1)
  callback := opt.callback
  callbackDebug := opt.callbackDebug
  accept := opt.accept
  contentType := opt.contentType
  timeout := opt.timeout
  timeoutConnect := opt.timeoutConnect
  verify := opt.verify.getD (-1)
  verifyHost := opt.verifyHost.getD (-1)
  verifyPeer := opt.verifyPeer.getD (-1)
  verifyStatus := opt.verifyStatus.getD (-1)

/-! ### Requests -/

/-- The input parameters of `treq_RequestType`. -/
structure RequestParams where
  url : Str
  headers : Option Dict
  headerAccept : Option Str
  headerContentType : Option Str
  form : Option Dict
  method : Method
  customMethod : Option Str
  auth : Option RequestAuth
  postfields : Option Str
  querystring : Option Str
  allowRedirects : ℤ
  verbose : ℤ
  timeout : ℤ
  timeoutConnect : ℤ
  verifyHost : ℤ
  verifyPeer : ℤ
  verifyStatus : ℤ
  callback : Option Str
  async : Bool
  callbackDebug : Option Str
  deriving DecidableEq

/-- The value of an option, or of the session unless that is -1, or the default. -/
def inherit (session : Option SessionParams) (field : SessionParams → ℤ) (default : ℤ) : ℤ :=
  match session with
  | none => default
  | some s => if field s ≠ -1 then field s else default

/-- The choice of `verify_host` and `verify_peer`: the own option, the option
`-verify`, the session's own field, the session's field `verify`. -/
def chooseVerify (own verify : Option ℤ) (session : Option SessionParams)
    (field : SessionParams → ℤ) : ℤ :=
  match own, verify, session with
  | some v, _, _ => v
  | none, some v, _ => v
  | none, none, none => -1
  | none, none, some s => if field s ≠ -1 then field s else s.verify

/-- The headers of a request: its own merged into those of the session. -/
def requestHeaders (session : Option SessionParams) (headers : Option Dict) : Option Dict :=
  match headers with
  | some value => some (mergeDicts (session.bind SessionParams.headers) value true)
  | none => session.bind SessionParams.headers

/-- The value for the generated `Accept` line. -/
def chooseAccept (session : Option SessionParams) (opt : ValidOptions) : Option Str :=
  match opt.accept with
  | some value => some value
  | none => if opt.json.isSome then some (lit "json") else session.bind SessionParams.accept

/-- The value for the generated `Content-Type` line. -/
def chooseContentType (session : Option SessionParams) (opt : ValidOptions) : Option Str :=
  match opt.contentType with
  | some value => some value
  | none => if opt.json.isSome then some (lit "json") else session.bind SessionParams.contentType

/-- The fields that `treq_CreateNewRequest` fills before it runs the request. -/
def requestParams (session : Option SessionParams) (method : Method) (customMethod : Option Str)
    (url : Str) (opt : ValidOptions) : RequestParams where
  url := url
  headers := requestHeaders session opt.headers
  headerAccept := (chooseAccept session opt).map generateHeaderAccept
  headerContentType := (chooseContentType session opt).map generateHeaderContentType
  form := opt.form
  method := method
  customMethod := customMethod
  auth := opt.requestAuth.or (session.bind SessionParams.auth)
  postfields :=
    opt.data.or (opt.dataUrlencode.or (opt.dataFields.or (opt.dataFieldsUrlencode.or opt.json)))
  querystring := opt.params.or opt.paramsRaw
  allowRedirects := opt.allowRedirects.getD (inherit session SessionParams.allowRedirects 1)
  verbose := opt.verbose.getD (inherit session SessionParams.verbose 0)
  timeout := if opt.timeout ≠ -1 then opt.timeout else (session.map SessionParams.timeout).getD (-1)
  timeoutConnect :=
    if opt.timeoutConnect ≠ -1 then opt.timeoutConnect
    else (session.map SessionParams.timeoutConnect).getD (-1)
  verifyHost := chooseVerify opt.verifyHost opt.verify session SessionParams.verifyHost
  verifyPeer := chooseVerify opt.verifyPeer opt.verify session SessionParams.verifyPeer
  verifyStatus := opt.verifyStatus.getD ((session.map SessionParams.verifyStatus).getD (-1))
  -- a sync request never has a callback
  callback := if opt.async then opt.callback.or (session.bind SessionParams.callback) else none
  async := opt.async
  callbackDebug := opt.callbackDebug.or (session.bind SessionParams.callbackDebug)

/-! ### The settings of `treq_RequestRun` -/

namespace RequestParams
variable (p : RequestParams)

/-- The calls for the method. -/
def methodCalls : List CurlCall :=
  match p.method with
  | .head => [.setopt (.httpGet 1), .setopt (.noBody 1)]
  | .get => [.setopt (.httpGet 1)]
  | .post => [.setopt (.post 1)]
  | .put => [.setopt (.customRequest (lit "PUT"))]
  | .patch => [.setopt (.customRequest (lit "PATCH"))]
  | .delete => [.setopt (.customRequest (lit "DELETE"))]
  | .custom => [.setopt (.customRequest (p.customMethod.getD []))]

/-- The calls for the URL and the query. -/
def urlCalls : List CurlCall :=
  [.urlSet (.url p.url)] ++
  (match p.querystring with
    | some q => if q ≠ [] then [.urlSet (.query q)] else []
    | none => []) ++
  [.setopt .curlU]

def authCalls : List CurlCall :=
  match p.auth with
  | none => []
  | some auth =>
    auth.username.toList.map (.setopt <| .username ·) ++
    auth.password.toList.map (.setopt <| .password ·) ++
    auth.token.toList.map (.setopt <| .xoauth2Bearer ·) ++
    auth.awsSigv4.toList.map (.setopt <| .awsSigv4 ·) ++
    (if auth.scheme ≠ -1 then [.setopt (.httpAuth auth.scheme)]
      else if auth.token.isSome then [.setopt (.httpAuth (curlauthBearer ||| curlauthOnly))]
      else [])

def bodyCalls : List CurlCall :=
  match p.form, p.postfields with
  | some form, _ => [.setopt (.mimePost form.entries)]
  | none, some data => [.setopt (.postFieldSize data.length), .setopt (.postFields data)]
  | none, none =>
    if p.method = .post ∨ p.method = .put then [.setopt (.postFieldSize 0)] else []

/-- The calls before the list of headers is built. -/
def callsBeforeHeaders : List CurlCall :=
  p.methodCalls ++ p.urlCalls ++ p.authCalls ++ p.bodyCalls ++
    [.setopt (.followLocation (if p.allowRedirects ≠ 0 then 1 else 0)),
     .setopt (.verbose (if p.verbose ≠ 0 then 1 else 0))]

/-- The calls after it; an empty list of headers is not set. -/
def callsAfterHeaders (curlHeaders : List Str) : List CurlCall :=
  (if curlHeaders ≠ [] then [.setopt (.httpHeader curlHeaders)] else []) ++
  (if 0 ≤ p.timeoutConnect then [.setopt (.connectTimeoutMs p.timeoutConnect)] else []) ++
  (if 0 ≤ p.timeout then [.setopt (.timeoutMs p.timeout)] else []) ++
  (if p.verifyHost ≠ -1 then [.setopt (.sslVerifyHost (if p.verifyHost = 0 then 0 else 2))]
    else []) ++
  (if p.verifyPeer ≠ -1 then [.setopt (.sslVerifyPeer (if p.verifyPeer = 0 then 0 else 1))]
    else []) ++
  (if p.verifyStatus ≠ -1 then [.setopt (.sslVerifyStatus (if p.verifyStatus = 0 then 0 else 1))]
    else [])

end RequestParams

section Run
variable (env : CurlEnv)

/-- `curl_slist_append`: NULL, the empty list here, when the line cannot be added. -/
def slistAppend (list : List Str) (line : Str) : List Str :=
  if env.slistAppend line then list ++ [line] else []

def headerLine (p : Str × Str) : Str := p.1 ++ lit ": " ++ p.2

/-- The loop over the merged headers; `none` when a line cannot be added. -/
def headersLoop : List Str → List (Str × Str) → Option (List Str)
  | list, [] => some list
  | list, p :: ps =>
    match slistAppend env list (headerLine p) with
    | [] => none
    | list => headersLoop list ps

/-- The list `curl_headers`. Whether the two generated lines could be added is not
checked. -/
def curlHeaders (p : RequestParams) : Option (List Str) :=
  headersLoop env
    ((p.headerAccept.toList ++ p.headerContentType.toList).foldl (slistAppend env) [])
    (p.headers.elim [] OrderedDict.entries)

/-- The checked calls in turn: those that were made, and the error of the first
refused one. -/
def runCalls : List CurlCall → List CurlCall × Option Str
  | [] => ([], none)
  | call :: calls =>
    match env.answer call with
    | some e => ([], some e)
    | none => (call :: (runCalls calls).1, (runCalls calls).2)

/-- `treq_RequestRun` up to the point where the transfer starts. -/
def requestSetup (p : RequestParams) : List CurlCall × Option Str :=
  match runCalls env p.callsBeforeHeaders with
  | (done, some e) => (done, some e)
  | (done, none) =>
    match curlHeaders env p with
    | none => (done, some (lit "failed to add headers"))
    | some lines =>
      let after := runCalls env (p.callsAfterHeaders lines)
      (done ++ after.1, after.2)

end Run

/-! ### The kinds of settings -/

/-- What a setting is about. -/
inductive CallKind where
  | method | url | auth | body | headers | transfer | creation
  deriving DecidableEq

def CurlCall.kind : CurlCall → CallKind
  | .setopt (.httpGet _) | .setopt (.noBody _) | .setopt (.post _) | .setopt (.customRequest _) =>
    .method
  | .urlSet _ | .setopt .curlU => .url
  | .setopt (.username _) | .setopt (.password _) | .setopt (.xoauth2Bearer _)
  | .setopt (.awsSigv4 _) | .setopt (.httpAuth _) => .auth
  | .setopt (.mimePost _) | .setopt (.postFieldSize _) | .setopt (.postFields _) => .body
  | .setopt (.httpHeader _) => .headers
  | .setopt (.followLocation _) | .setopt (.verbose _) | .setopt (.connectTimeoutMs _)
  | .setopt (.timeoutMs _) | .setopt (.sslVerifyHost _) | .setopt (.sslVerifyPeer _)
  | .setopt (.sslVerifyStatus _) => .transfer
  | _ => .creation

namespace RequestParams
variable (p : RequestParams)

theorem kind_methodCalls : ∀ c ∈ p.methodCalls, c.kind = .method := by
  unfold methodCalls
  cases p.method <;> simp [CurlCall.kind]

theorem kind_urlCalls : ∀ c ∈ p.urlCalls, c.kind = .url := by
  unfold urlCalls
  cases p.querystring with
  | none => simp [CurlCall.kind]
  | some q => by_cases hq : q = [] <;> simp [hq, CurlCall.kind]

theorem kind_authCalls : ∀ c ∈ p.authCalls, c.kind = .auth := by
  unfold authCalls
  cases p.auth with
  | none => simp
  | some auth =>
    intro c hc
    simp only [List.mem_append, List.mem_map] at hc
    rcases hc with (((⟨v, -, rfl⟩ | ⟨v, -, rfl⟩) | ⟨v, -, rfl⟩) | ⟨v, -, rfl⟩) | hc
    · rfl
    · rfl
    · rfl
    · rfl
    · split_ifs at hc <;> simp at hc <;> rw [hc] <;> rfl

theorem kind_bodyCalls : ∀ c ∈ p.bodyCalls, c.kind = .body := by
  unfold bodyCalls
  split
  · simp [CurlCall.kind]
  · simp [CurlCall.kind]
  · split_ifs <;> simp [CurlCall.kind]

theorem kind_callsAfterHeaders (lines : List Str) :
    ∀ c ∈ p.callsAfterHeaders lines, c.kind = .headers ∨ c.kind = .transfer := by
  intro c hc
  simp only [callsAfterHeaders, List.mem_append, List.mem_ite_nil_right, List.mem_singleton] at hc
  rcases hc with ((((⟨-, rfl⟩ | ⟨-, rfl⟩) | ⟨-, rfl⟩) | ⟨-, rfl⟩) | ⟨-, rfl⟩) | ⟨-, rfl⟩ <;>
    simp [CurlCall.kind]

theorem kind_callsBeforeHeaders :
    ∀ c ∈ p.callsBeforeHeaders, c.kind ≠ .headers ∧ c.kind ≠ .creation := by
  intro c hc
  simp only [callsBeforeHeaders, List.mem_append, List.mem_cons, List.not_mem_nil, or_false] at hc
  rcases hc with (((hc | hc) | hc) | hc) | (rfl | rfl)
  · simp [p.kind_methodCalls c hc]
  · simp [p.kind_urlCalls c hc]
  · simp [p.kind_authCalls c hc]
  · simp [p.kind_bodyCalls c hc]
  · simp [CurlCall.kind]
  · simp [CurlCall.kind]

end RequestParams

/-- The settings of one kind. -/
def ofKind (k : CallKind) (calls : List CurlCall) : List CurlCall :=
  calls.filter fun c => c.kind = k

theorem ofKind_append (k : CallKind) (calls calls' : List CurlCall) :
    ofKind k (calls ++ calls') = ofKind k calls ++ ofKind k calls' := List.filter_append ..

theorem ofKind_eq_self {k : CallKind} {calls : List CurlCall} (h : ∀ c ∈ calls, c.kind = k) :
    ofKind k calls = calls :=
  List.filter_eq_self.mpr fun c hc => decide_eq_true (h c hc)

theorem ofKind_eq_nil {k : CallKind} {calls : List CurlCall} (h : ∀ c ∈ calls, c.kind ≠ k) :
    ofKind k calls = [] :=
  List.filter_eq_nil_iff.mpr fun c hc => by simpa using h c hc

namespace RequestParams
variable (p : RequestParams)

/-- The settings of a kind, among all settings of a run. -/
theorem ofKind_calls (k : CallKind) (hh : k ≠ .headers) (ht : k ≠ .transfer) (lines : List Str) :
    ofKind k (p.callsBeforeHeaders ++ p.callsAfterHeaders lines) =
      ofKind k p.methodCalls ++ ofKind k p.urlCalls ++ ofKind k p.authCalls ++ ofKind k p.bodyCalls := by
  have hafter : ofKind k (p.callsAfterHeaders lines) = [] := by
    apply ofKind_eq_nil
    intro c hc
    rcases p.kind_callsAfterHeaders lines c hc with h | h
    · exact h ▸ hh.symm
    · exact h ▸ ht.symm
  have hflags : ∀ a b, ofKind k [.setopt (.followLocation a), .setopt (.verbose b)] = [] := by
    intro a b
    apply ofKind_eq_nil
    simpa [CurlCall.kind] using ht.symm
  rw [callsBeforeHeaders, ofKind_append, hafter, ofKind_append, hflags, ofKind_append, ofKind_append,
    ofKind_append, List.append_nil, List.append_nil]

theorem ofKind_auth (lines : List Str) :
    ofKind .auth (p.callsBeforeHeaders ++ p.callsAfterHeaders lines) = p.authCalls := by
  rw [ofKind_calls p .auth (by decide) (by decide), ofKind_eq_self p.kind_authCalls,
    ofKind_eq_nil fun c hc => by simp [p.kind_methodCalls c hc],
    ofKind_eq_nil fun c hc => by simp [p.kind_urlCalls c hc],
    ofKind_eq_nil fun c hc => by simp [p.kind_bodyCalls c hc], List.append_nil, List.nil_append,
    List.nil_append]

end RequestParams

end Trequests
