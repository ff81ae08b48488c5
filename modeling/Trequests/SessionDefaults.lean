import Trequests.SessionRequests
import Trequests.Validation

/-! The options of a session as defaults for its requests. A session keeps the parameters
made of its options, whatever is done with it, so a request that is created by one of its
verbs has each setting from its own option, or else from the option of the session, or
else the default. -/

namespace Trequests

/-! ### What validation says of a session -/

/-- A boolean option that is given has the value 0 or 1, and so never the value -1 that
stands for unset. -/
def IsBoolean (o : Option ℤ) : Prop := ∀ v ∈ o, v = 0 ∨ v = 1

theorem IsBoolean.ne_unset {o : Option ℤ} (h : IsBoolean o) (default : ℤ) :
    (if o.getD (-1) ≠ -1 then o.getD (-1) else default) = o.getD default := by
  cases o with
  | none => rfl
  | some v =>
    have hv : v ≠ -1 := by
      rcases h v rfl with rfl | rfl <;> decide
    rw [Option.getD_some, if_pos hv, Option.getD_some]

/-- The boolean options have boolean values. -/
structure BooleansValid (opt : ValidOptions) : Prop where
  allowRedirects : IsBoolean opt.allowRedirects
  verbose : IsBoolean opt.verbose
  verifyHost : IsBoolean opt.verifyHost
  verifyPeer : IsBoolean opt.verifyPeer

theorem booleansValid_of_validateOptions {api : Api} {method : Method} {raw : RequestOptions}
    {opt : ValidOptions} (h : validateOptions api method raw = .ok opt) : BooleansValid opt := by
  obtain ⟨v, scheme, aws, heach, htogether⟩ := validateOptions_ok.mp h
  rw [htogether.eq]
  refine ⟨?_, ?_, ?_, ?_⟩ <;> intro b hb <;> apply validateOptionBoolean_ok
  · rw [heach.allowRedirects, Option.mem_def.mp hb]
  · rw [heach.verbose, Option.mem_def.mp hb]
  · rw [heach.verifyHost, Option.mem_def.mp hb]
  · rw [heach.verifyPeer, Option.mem_def.mp hb]

theorem booleansValid_of_sessionOptions {api : Api} {objv : List Str} {ses : ValidOptions}
    (h : sessionOptions api objv = .ok ses) : BooleansValid ses := by
  obtain ⟨raw, -, hv⟩ := bind_eq_ok.mp h
  exact booleansValid_of_validateOptions hv

/-! ### The parameters of a request of a session -/

/-- The timeout of an option, where -1 counts as not given. -/
def givenTimeout (timeout : ℤ) : Option ℤ := if timeout = -1 then none else some timeout

/-- Each setting is the one of the request's own option, or else that of the session, or
else the default. An option counts as given if it exists after validation. -/
structure EffectiveSettings (ses opt : ValidOptions) (p : RequestParams) : Prop where
  headersDistinct : NamesDistinct (dictEntries p.headers)
  headers : ∀ name, named name (dictEntries p.headers) =
    ((named name (dictEntries opt.headers)).getLast?.or
      (named name (dictEntries ses.headers)).getLast?).toList
  accept : p.headerAccept =
    (opt.accept.or ((opt.json.map fun _ => lit "json").or ses.accept)).map generateHeaderAccept
  contentType : p.headerContentType =
    (opt.contentType.or ((opt.json.map fun _ => lit "json").or ses.contentType)).map
      generateHeaderContentType
  allowRedirects : p.allowRedirects = (opt.allowRedirects.or ses.allowRedirects).getD 1
  verbose : p.verbose = (opt.verbose.or ses.verbose).getD 0
  callbackDebug : p.callbackDebug = opt.callbackDebug.or ses.callbackDebug
  timeout : p.timeout = ((givenTimeout opt.timeout).or (givenTimeout ses.timeout)).getD (-1)
  timeoutConnect : p.timeoutConnect =
    ((givenTimeout opt.timeoutConnect).or (givenTimeout ses.timeoutConnect)).getD (-1)
  verifyStatus : p.verifyStatus = (opt.verifyStatus.or ses.verifyStatus).getD (-1)
  verifyHost : p.verifyHost =
    (opt.verifyHost.or (opt.verify.or (ses.verifyHost.or ses.verify))).getD (-1)
  verifyPeer : p.verifyPeer =
    (opt.verifyPeer.or (opt.verify.or (ses.verifyPeer.or ses.verify))).getD (-1)

section Params
variable {ses opt : ValidOptions}

theorem inherit_sessionParams {o own : Option ℤ} (h : IsBoolean o) {field : SessionParams → ℤ}
    (hf : field (sessionParams ses) = o.getD (-1)) (default : ℤ) :
    own.getD (inherit (some (sessionParams ses)) field default) = (own.or o).getD default := by
  cases own with
  | some v => rfl
  | none =>
    simp only [inherit, hf, Option.getD_none, Option.none_or]
    exact h.ne_unset default

theorem chooseVerify_sessionParams {o own : Option ℤ} (h : IsBoolean o)
    {field : SessionParams → ℤ} (hf : field (sessionParams ses) = o.getD (-1)) :
    chooseVerify own opt.verify (some (sessionParams ses)) field =
      (own.or (opt.verify.or (o.or ses.verify))).getD (-1) := by
  unfold chooseVerify
  cases own with
  | some v => rfl
  | none =>
    cases opt.verify with
    | some v => rfl
    | none =>
      simp only [hf, Option.none_or]
      rw [h.ne_unset]
      cases o <;> rfl

theorem timeout_sessionParams (own session : ℤ) :
    (if own ≠ -1 then own else session) =
      ((givenTimeout own).or (givenTimeout session)).getD (-1) := by
  unfold givenTimeout
  by_cases ho : own = -1
  · by_cases hs : session = -1 <;> simp [ho, hs]
  · simp [ho]

theorem shortcut_or {own json session : Option Str} :
    (match own with
      | some value => some value
      | none => if json.isSome then some (lit "json") else session) =
      own.or ((json.map fun _ => lit "json").or session) := by
  cases own with
  | some value => rfl
  | none => cases json <;> rfl

/-- The parameters that a request is filled with in a session. -/
theorem effectiveSettings_requestParams (h : BooleansValid ses) (opt : ValidOptions)
    (method : Method) (customMethod : Option Str) (url : Str) :
    EffectiveSettings ses opt
      (requestParams (some (sessionParams ses)) method customMethod url opt) := by
  obtain ⟨hdistinct, hnamed⟩ := named_requestHeaders (some ses) opt.headers
  constructor
  case headersDistinct => exact hdistinct
  case headers =>
    intro name
    refine (hnamed name).trans ?_
    rw [named_append, List.getLast?_append]
    rfl
  case accept => exact congrArg (Option.map generateHeaderAccept) shortcut_or
  case contentType => exact congrArg (Option.map generateHeaderContentType) shortcut_or
  case allowRedirects => exact inherit_sessionParams h.allowRedirects rfl 1
  case verbose => exact inherit_sessionParams h.verbose rfl 0
  case callbackDebug => rfl
  case timeout => exact timeout_sessionParams _ _
  case timeoutConnect => exact timeout_sessionParams _ _
  case verifyStatus =>
    simp only [requestParams]
    cases opt.verifyStatus <;> rfl
  case verifyHost => exact chooseVerify_sessionParams h.verifyHost rfl
  case verifyPeer => exact chooseVerify_sessionParams h.verifyPeer rfl

end Params

/-! ### Runs -/

namespace Machine

/-- In a run that leads to `m`, `::trequests::session` with the words `objv` has returned
the handle of the session `i`. -/
def HasSession (api : Api) (m : Machine) (i : SesId) (objv : List Str) : Prop :=
  ∃ as m₀ interp shareInit m₁ as', runOf api as = some m₀ ∧
    m₀.step api (.sessionCmd interp objv shareInit) = some m₁ ∧ m₁.result = .handle (.session i) ∧
    Run.exec (step api) m₁ as' = some m

/-- A run leads from `m` to `m'` that starts with the creation of a request by a verb of the
session `i`; the request has the options `opt`. -/
structure CreatesInSession (api : Api) (env : CurlEnv) (m : Machine) (i : SesId)
    (call : CreateCall) (opt : ValidOptions) (m' : Machine) : Prop where
  easyInit : env.easyInit = true
  options : requestOptions api call.method call.objv = .ok opt
  run : ∃ name args as, sessionHandleCall name args = .ok (.create call true) ∧
    Run.exec (step api) m (.sessionHandle i name args env :: as) = some m'

section Runs
variable {api : Api} {env : CurlEnv} {m m' : Machine} {i : SesId} {objv : List Str}
  {call : CreateCall} {ses opt : ValidOptions}

/-- A session keeps the parameters made of its options. -/
theorem HasSession.inherited (h : HasSession api m i objv) : ∃ ses,
    sessionOptions api objv = .ok ses ∧ m.lib.inherited (some i) = some (sessionParams ses) := by
  obtain ⟨as, m₀, interp, shareInit, m₁, as', -, hst, hresult, he⟩ := h
  obtain ⟨-, rfl⟩ := step_eq_some.mp hst
  have hkeeps := keeps_exec he
  simp only [next] at hresult hkeeps
  split at hresult
  · cases hresult
  · rename_i l j hl
    cases hresult
    rw [hl] at hkeeps
    obtain ⟨-, hlt, ses, hses, hparams⟩ := Lib.keeps_sessionCmd hl
    exact ⟨ses, hses, congrArg some ((hkeeps.sesParams i hlt).trans hparams)⟩

/-- A request of a session keeps what it is given when it is created. -/
theorem CreatesInSession.given (h : CreatesInSession api env m i call opt m') :
    let params := requestParams (m.lib.inherited (some i)) call.method call.customMethod
      (call.objv.headD []) opt
    (m'.lib.request m.lib.nextRequest).toRequestParams = params ∧
      (m'.lib.request m.lib.nextRequest).curlEasy =
        initCalls ++ sessionCalls i ++ (requestSetup env params).1 := by
  obtain ⟨hinit, hopt, name, args, as, hcall, he⟩ := h
  obtain ⟨m₁, hst, he⟩ := Option.bind_eq_some_iff.mp he
  obtain ⟨-, rfl⟩ := step_eq_some.mp hst
  have hnext : m.next api (.sessionHandle i name args env) =
      m.createNewRequest api env (m.lib.session i).interp call (some i) := by
    simp only [next, hcall, ↓reduceIte]
  obtain ⟨opt', hopt', hlt, hparams, hsettings⟩ :=
    given_createNewRequest ⟨hinit, opt, hopt⟩ m (m.lib.session i).interp (some i)
  cases hopt.symm.trans hopt'
  have hkeeps := keeps_exec he
  rw [hnext] at hkeeps
  exact ⟨(hkeeps.params _ hlt).trans hparams, (hkeeps.settings _ hlt).trans hsettings⟩

/-- Whatever has happened before and happens after, a request created by a verb of a session
has its own options, else those of the session, else the defaults, and its easy handle the
settings made of them. -/
theorem effectiveSettings_of_session (hm : HasSession api m i objv)
    (hses : sessionOptions api objv = .ok ses) (h : CreatesInSession api env m i call opt m') :
    let q := m'.lib.request m.lib.nextRequest
    EffectiveSettings ses opt q.toRequestParams ∧
      q.curlEasy = initCalls ++ sessionCalls i ++ (requestSetup env q.toRequestParams).1 := by
  obtain ⟨ses', hses', hinherited⟩ := hm.inherited
  cases hses.symm.trans hses'
  obtain ⟨hparams, hsettings⟩ := h.given
  rw [hinherited] at hparams hsettings
  intro q
  rw [show q.toRequestParams = _ from hparams]
  exact ⟨effectiveSettings_requestParams (booleansValid_of_sessionOptions hses) opt _ _ _, hsettings⟩

end Runs

/-- `::trequests::session -allow_redirects 0 -accept json -headers {A 1 B 2}` -/
def defaultsSession : List Str :=
  [lit "session", lit "-allow_redirects", lit "0", lit "-accept", lit "json", lit "-headers",
   lit "A 1 B 2"]

/-- A new session, in a thread that has none yet. -/
theorem hasSession_init {api : Api} {objv : List Str} {ses : ValidOptions}
    (h : sessionOptions api objv = .ok ses) :
    HasSession api (init.next api (.sessionCmd 0 objv true)) 0 objv := by
  refine ⟨[], init, 0, true, _, [], rfl, step_eq_some.mpr ⟨rfl, rfl⟩, ?_, rfl⟩
  simp [next, Lib.sessionCmd, h, init, Lib.init]

/-- `http://localhost -async -accept text -headers {a 3}` -/
def defaultsGet : List Str :=
  [lit "http://localhost", lit "-async", lit "-accept", lit "text", lit "-headers", lit "a 3"]

theorem effectiveSettings_of_session_defaultsSession : ∃ m' : Machine,
    Run.exec (step Api.plain) (init.next Api.plain (.sessionCmd 0 defaultsSession true))
      [.sessionHandle 0 (lit "s") (lit "get" :: defaultsGet) .willing] = some m' ∧
    (m'.lib.request 0).allowRedirects = 0 ∧
    (m'.lib.request 0).headerAccept = some (lit "Accept: text") ∧
    named (lit "A") (dictEntries (m'.lib.request 0).headers) = [(lit "a", lit "3")] := by
  obtain ⟨ses, hses, hs⟩ := exists_ok_of_any (show (sessionOptions Api.plain defaultsSession).toOption.any
    (fun ses => ses.allowRedirects = some 0) = true by decide +kernel)
  obtain ⟨opt, hopt, ho⟩ := exists_ok_of_any (show
    (requestOptions Api.plain .get defaultsGet).toOption.any (fun opt => opt.allowRedirects = none ∧
      opt.accept = some (lit "text") ∧
      (named (lit "A") (dictEntries opt.headers)).getLast? = some (lit "a", lit "3")) = true by
    decide +kernel)
  obtain ⟨hredirects, haccept, hheaders⟩ := of_decide_eq_true ho
  set m := init.next Api.plain (.sessionCmd 0 defaultsSession true) with hm
  have hnext : m.lib.nextRequest = 0 := by simp [hm, next, Lib.sessionCmd, hses, init, Lib.init]
  obtain ⟨m', hm'⟩ := Option.isSome_iff_exists.mp (show (Run.exec (step Api.plain) m
    [.sessionHandle 0 (lit "s") (lit "get" :: defaultsGet) .willing]).isSome = true by decide +kernel)
  obtain ⟨h, -⟩ := effectiveSettings_of_session (hasSession_init hses) hses
    ⟨rfl, hopt, lit "s", lit "get" :: defaultsGet, [], rfl, hm'⟩
  rw [← hm, hnext] at h
  refine ⟨m', hm', ?_, ?_, ?_⟩
  · rw [h.allowRedirects, hredirects, of_decide_eq_true hs]
    rfl
  · rw [h.accept, haccept]
    rfl
  · rw [h.headers, hheaders]
    rfl

end Machine

end Trequests
