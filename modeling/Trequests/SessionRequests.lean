import Trequests.Headers
import Trequests.Params
import Trequests.Runs

/-! The two ways a session handle creates requests. A named method passes the session on,
the subcommand `request` does not, and so its requests are those of no session: they
differ from what the session would create whenever a request is created at all. -/

namespace Trequests

/-- The call creates a request: its options are valid, and there is an easy handle. -/
def CreateCall.Creates (api : Api) (env : CurlEnv) (call : CreateCall) : Prop :=
  env.easyInit = true ∧ ∃ opt, requestOptions api call.method call.objv = .ok opt

namespace Lib

theorem createNewRequest_of_not_creates {api : Api} {env : CurlEnv} {call : CreateCall}
    (h : ¬ call.Creates api env) (l : Lib) (interp : InterpId) :
    ∃ e, ∀ session, l.createNewRequest api env interp call session = .failed e := by
  cases hopt : requestOptions api call.method call.objv with
  | error e => exact ⟨e, fun session => by simp only [createNewRequest, hopt]⟩
  | ok opt =>
    have hinit : env.easyInit = false := by
      simpa using fun he => h ⟨he, opt, hopt⟩
    refine ⟨lit "failed to alloc", fun session => ?_⟩
    have hnew : l.newRequest env session = none := by
      cases session <;> simp [newRequest, sessionRequestInit, requestInit, hinit]
    simp only [createNewRequest, hopt, hnew]

theorem createNewRequest_of_creates {api : Api} {env : CurlEnv} {call : CreateCall}
    (h : call.Creates api env) (l : Lib) (interp : InterpId) (session : Option SesId) :
    ∃ l' r simple performing,
      l.createNewRequest api env interp call session = .created l' r simple performing := by
  obtain ⟨hinit, opt, hopt⟩ := h
  have hnew : ∃ n, l.newRequest env session = some n := by
    cases session <;> simp [newRequest, sessionRequestInit, requestInit, hinit]
  obtain ⟨⟨l₁, r⟩, hnew⟩ := hnew
  simp only [createNewRequest, hopt, hnew]
  exact ⟨_, _, _, _, rfl⟩

end Lib

/-! ### The words of a session handle -/

theorem methodCall_known {word : Str} {method : Method} (h : (word, method) ∈ knownMethods)
    (objv : List Str) : methodCall word objv = ⟨method, none, objv⟩ := by
  simp only [knownMethods, List.mem_cons, Prod.mk.injEq, List.not_mem_nil, or_false] at h
  rcases h with ⟨rfl, rfl⟩ | ⟨rfl, rfl⟩ | ⟨rfl, rfl⟩ | ⟨rfl, rfl⟩ | ⟨rfl, rfl⟩ | ⟨rfl, rfl⟩ <;> rfl

theorem methodCall_custom {word : Str} (h : word ∉ knownMethods.map Prod.fst) (objv : List Str) :
    methodCall word objv = ⟨.custom, some word, objv⟩ := by
  have : (knownMethods.map Prod.fst).findIdx? (· = word) = none :=
    List.findIdx?_eq_none_iff.mpr fun x hx => by
      simpa using fun he : x = word => h (he ▸ hx)
  simp [methodCall, getIndex, this]

theorem sessionHandleCall_verb {verb : Str} {method : Method}
    (h : (verb, .request method) ∈ sessionCommands) (name url : Str) (opts : List Str) :
    sessionHandleCall name (verb :: url :: opts) = .ok (.create ⟨method, none, url :: opts⟩ true) := by
  simp only [sessionCommands, List.mem_cons, Prod.mk.injEq, List.not_mem_nil, or_false,
    SessionCommand.request.injEq, reduceCtorEq, and_false] at h
  rcases h with ⟨rfl, rfl⟩ | ⟨rfl, rfl⟩ | ⟨rfl, rfl⟩ | ⟨rfl, rfl⟩ | ⟨rfl, rfl⟩ | ⟨rfl, rfl⟩ <;> rfl

namespace Machine
variable {api : Api} {env : CurlEnv} {call : CreateCall}

/-- A call that creates a request gives it what its options and its session ask for. -/
theorem given_createNewRequest (h : call.Creates api env) (m : Machine) (interp : InterpId)
    (session : Option SesId) : ∃ opt, requestOptions api call.method call.objv = .ok opt ∧
    let params := requestParams (m.lib.inherited session) call.method call.customMethod
      (call.objv.headD []) opt
    let v := (m.createNewRequest api env interp call session).lib.paramView
    m.lib.nextRequest < v.nextRequest ∧ v.params m.lib.nextRequest = params ∧
      v.settings m.lib.nextRequest =
        initCalls ++ session.elim [] sessionCalls ++ (requestSetup env params).1 := by
  obtain ⟨l, r, simple, performing, hc⟩ := Lib.createNewRequest_of_creates h m.lib interp session
  obtain ⟨rfl, opt, hopt, hgiven⟩ := Lib.given_createNewRequest hc
  refine ⟨opt, hopt, ?_⟩
  have hview : (m.createNewRequest api env interp call session).lib.paramView = l.paramView := by
    unfold createNewRequest
    rw [hc]
    cases performing with
    | true => rfl
    | false => exact paramView_createFinish _ _ _
  intro params v
  rw [show v = l.paramView from hview]
  exact hgiven

/-- A call without a session does what it does with one if and only if it creates no
request. -/
theorem createNewRequest_none_eq_iff (m : Machine) (interp : InterpId) (i : SesId) :
    m.createNewRequest api env interp call none = m.createNewRequest api env interp call (some i) ↔
      ¬ call.Creates api env := by
  constructor
  · intro heq h
    obtain ⟨_, -, -, -, h₁⟩ := given_createNewRequest h m interp none
    obtain ⟨_, -, -, -, h₂⟩ := given_createNewRequest h m interp (some i)
    -- only the request of the session has its share
    rw [heq, h₂] at h₁
    have hshare : .setopt (.share i) ∈ initCalls ++ sessionCalls i := by simp [sessionCalls]
    have hmem := h₁ ▸ List.mem_append_left _ hshare
    rcases List.mem_append.mp hmem with hm | hm
    · simp [initCalls] at hm
    · exact share_notMem_requestSetup i hm
  · intro h
    obtain ⟨e, he⟩ := Lib.createNewRequest_of_not_creates h m.lib interp
    simp only [createNewRequest, he]

/-- The subcommand `request` of a session handle does what the subcommand of the method
does, and for another method what the creation of a request in the session does, if and
only if no request is created. -/
theorem sessionHandle_request_eq_iff (api : Api) (env : CurlEnv) (m : Machine) (i : SesId)
    (name url : Str) (opts : List Str) :
    (∀ word method verb, (word, method) ∈ knownMethods → (verb, .request method) ∈ sessionCommands →
      (m.next api (.sessionHandle i name (lit "request" :: word :: url :: opts) env) =
          m.next api (.sessionHandle i name (verb :: url :: opts) env) ↔
        ¬ CreateCall.Creates api env ⟨method, none, url :: opts⟩)) ∧
    ∀ word, word ∉ knownMethods.map Prod.fst →
      (m.next api (.sessionHandle i name (lit "request" :: word :: url :: opts) env) =
          m.createNewRequest api env (m.lib.session i).interp ⟨.custom, some word, url :: opts⟩
            (some i) ↔
        ¬ CreateCall.Creates api env ⟨.custom, some word, url :: opts⟩) := by
  have hrequest : ∀ word, m.next api
      (.sessionHandle i name (lit "request" :: word :: url :: opts) env) =
      m.createNewRequest api env (m.lib.session i).interp (methodCall word (url :: opts)) none :=
    fun _ => rfl
  constructor
  · intro word method verb hw hv
    have hverb : m.next api (.sessionHandle i name (verb :: url :: opts) env) =
        m.createNewRequest api env (m.lib.session i).interp ⟨method, none, url :: opts⟩ (some i) := by
      simp only [next, sessionHandleCall_verb hv, ↓reduceIte]
    rw [hrequest, hverb, methodCall_known hw]
    exact createNewRequest_none_eq_iff m _ i
  · intro word hw
    rw [hrequest, methodCall_custom hw]
    exact createNewRequest_none_eq_iff m _ i

/-- With an option that does not exist no request is created. -/
theorem sessionHandle_request_eq_iff_invalid :
    init.next Api.plain (.sessionHandle 0 (lit "s")
        (lit "request" :: lit "GET" :: lit "http://localhost" :: [lit "-bogus"]) .willing) =
      init.next Api.plain (.sessionHandle 0 (lit "s")
        (lit "get" :: lit "http://localhost" :: [lit "-bogus"]) .willing) := by
  refine ((sessionHandle_request_eq_iff Api.plain .willing init 0 (lit "s") (lit "http://localhost")
    [lit "-bogus"]).1 (lit "GET") .get (lit "get") (by simp [knownMethods])
    (by simp [sessionCommands])).mpr ?_
  rintro ⟨-, opt, hopt⟩
  have hnone : (requestOptions Api.plain .get
      (lit "http://localhost" :: [lit "-bogus"])).toOption.isSome = false := by decide +kernel
  rw [hopt] at hnone
  cases hnone

/-- A session is created. -/
def newSessionRun : List Action := [.sessionCmd 0 [lit "session"] true]

theorem sessionHandle_request_not_in_session : ¬ ∀ (api : Api) (as : List Action) (m : Machine),
    runOf api as = some m → ∀ (i : SesId) (name url : Str) (opts : List Str) (env : CurlEnv)
      (word : Str) (method : Method) (verb : Str),
      (word, method) ∈ knownMethods → (verb, .request method) ∈ sessionCommands →
      m.enabled (.sessionHandle i name (lit "request" :: word :: url :: opts) env) = true →
      m.next api (.sessionHandle i name (lit "request" :: word :: url :: opts) env) =
        m.next api (.sessionHandle i name (verb :: url :: opts) env) := by
  intro h
  set a₁ : Action := .sessionHandle 0 (lit "s")
    (lit "request" :: lit "GET" :: lit "http://localhost" :: [lit "-async"]) .willing with ha₁
  set a₂ : Action := .sessionHandle 0 (lit "s")
    (lit "get" :: lit "http://localhost" :: [lit "-async"]) .willing with ha₂
  obtain ⟨m, hm, hp⟩ := (Option.any_eq_true _ _).mp (show (runOf Api.plain newSessionRun).any
    (fun m => m.enabled a₁ = true ∧ ((m.next Api.plain a₁).lib.session 0).requests = [] ∧
      ((m.next Api.plain a₂).lib.session 0).requests = [0]) = true by decide +kernel)
  obtain ⟨hen, h₁, h₂⟩ := of_decide_eq_true hp
  have heq := h _ _ m hm 0 (lit "s") (lit "http://localhost") [lit "-async"] .willing (lit "GET") .get
    (lit "get") (by simp [knownMethods]) (by simp [sessionCommands]) hen
  rw [← ha₁, ← ha₂] at heq
  rw [heq, h₂] at h₁
  cases h₁

end Machine

end Trequests
