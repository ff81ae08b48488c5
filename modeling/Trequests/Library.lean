import Trequests.Lifecycle

/-! `library.c`: the commands of the package and of its session handles, and
`treq_CreateNewRequest` up to the point where the request is handed to libcurl or
has failed. -/

namespace Trequests

/-! ### The words of a command -/

/-- `Tcl_WrongNumArgs` behind the command name. -/
def wrongNumArgs (name message : Str) : Str :=
  lit "wrong # args: should be \"" ++ name ++ lit " " ++ message ++ lit "\""

/-- The table `known_methods`. -/
def knownMethods : List (Str × Method) :=
  [(lit "HEAD", .head), (lit "GET", .get), (lit "POST", .post), (lit "PUT", .put),
   (lit "PATCH", .patch), (lit "DELETE", .delete)]

/-- The arguments of `treq_CreateNewRequest`; `objv` starts with the URL. -/
structure CreateCall where
  method : Method
  customMethod : Option Str
  objv : List Str
  deriving DecidableEq

/-- The call for a method given by name: a known method if it is spelled exactly. -/
def methodCall (name : Str) (objv : List Str) : CreateCall :=
  match (getIndex true (knownMethods.map Prod.fst) name).bind fun k => knownMethods[k]? with
  | some (_, method) => ⟨method, none, objv⟩
  | none => ⟨.custom, some name, objv⟩

/-- `treq_RequestCmd` on the arguments behind the command name; the client data is
the method, or NULL for `::trequests::request`. -/
def requestCmdCall (name : Str) : Option Method → List Str → Except Str CreateCall
  | none, method :: url :: opts => .ok (methodCall method (url :: opts))
  | none, _ => .error (wrongNumArgs name (lit "method url ?options?"))
  | some method, url :: opts => .ok ⟨method, none, url :: opts⟩
  | some _, [] => .error (wrongNumArgs name (lit "url ?options?"))

inductive SessionCommand where
  | request (method : Method)
  | customRequest
  | destroy
  deriving DecidableEq

/-- The table `commands` of `treq_SessionHandleCmd`. -/
def sessionCommands : List (Str × SessionCommand) :=
  [(lit "head", .request .head), (lit "get", .request .get), (lit "post", .request .post),
   (lit "put", .request .put), (lit "patch", .request .patch),
   (lit "delete", .request .delete), (lit "request", .customRequest), (lit "destroy", .destroy)]

/-- What a session handle is asked to do. -/
inductive SessionCall where
  | destroy
  /-- `inSession` tells that the session is passed on, and not NULL -/
  | create (call : CreateCall) (inSession : Bool)
  deriving DecidableEq

def sessionWrongNumArgs (name : Str) : Str :=
  wrongNumArgs name (lit "method url ?options?") ++
    lit " or \"" ++ name ++ lit " request method url ?options?\"" ++
    lit " or \"" ++ name ++ lit " destroy\""

/-- `treq_SessionHandleCmd` on the arguments behind the command name. -/
def sessionHandleCall (name : Str) : List Str → Except Str SessionCall
  | [] => .error (sessionWrongNumArgs name)
  | command :: args =>
    match (getIndex false (sessionCommands.map Prod.fst) command).bind
        fun k => sessionCommands[k]? with
    | none => .error (indexError (lit "command") (sessionCommands.map Prod.fst) command)
    | some (_, .destroy) =>
      if args = [] then .ok .destroy else .error (sessionWrongNumArgs name)
    | some (_, .customRequest) => match args with
      | method :: url :: opts => .ok (.create (methodCall method (url :: opts)) false)
      | _ => .error (sessionWrongNumArgs name)
    | some (_, .request method) => match args with
      | url :: opts => .ok (.create ⟨method, none, url :: opts⟩ true)
      | [] => .error (sessionWrongNumArgs name)

/-! ### Creating a request -/

/-- The outcome of `treq_CreateNewRequest` when `treq_RequestRun` returns, or, with
`performing`, when it enters `curl_easy_perform`. -/
inductive CreateResult where
  | failed (error : Str)
  | created (l : Lib) (r : ReqId) (simple performing : Bool)

namespace Lib
variable (api : Api) (l : Lib) (env : CurlEnv)

/-- The allocation of the request, in its session if there is one. -/
def newRequest : Option SesId → Option (Lib × ReqId)
  | none => l.requestInit env
  | some i => l.sessionRequestInit env i

variable {l env} in
/-- The allocation gives the next request, in its session if there is one. -/
theorem newRequest_eq_some {session : Option SesId} {l' : Lib} {r : ReqId}
    (h : l.newRequest env session = some (l', r)) :
    r = l.nextRequest ∧
      l' = session.elim l.initRequest fun i => l.initRequest.sessionInsert i l.nextRequest := by
  cases session with
  | none =>
    simp only [newRequest, requestInit] at h
    split_ifs at h
    cases h
    exact ⟨rfl, rfl⟩
  | some i =>
    simp only [newRequest, sessionRequestInit, requestInit] at h
    split_ifs at h
    · cases h
      exact ⟨rfl, rfl⟩
    · cases h

/-- The parameters of a session, if there is one. -/
def inherited (session : Option SesId) : Option SessionParams :=
  session.map fun i => (l.session i).toSessionParams

/-- The parameters and the interpreter of a new request. -/
def fillRequest (r : ReqId) (params : RequestParams) (interp : InterpId) : Lib :=
  l.modifyRequest r fun q => { q with toRequestParams := params, interp }

/-- `treq_CreateNewRequest` up to the end of `treq_RequestRun`. -/
def createNewRequest (interp : InterpId) (call : CreateCall) (session : Option SesId) :
    CreateResult :=
  match requestOptions api call.method call.objv with
  | .error e => .failed e
  | .ok opt =>
    match l.newRequest env session with
    | none => .failed (lit "failed to alloc")
    | some (l, r) =>
      let params := requestParams (l.inherited session) call.method call.customMethod
        (call.objv.headD []) opt
      let run := (l.fillRequest r params interp).requestRunStart env r
      .created run.1 r opt.simple run.2

variable {api l env}

theorem createNewRequest_eq_created {interp : InterpId} {call : CreateCall}
    {session : Option SesId} {l' : Lib} {r : ReqId} {simple performing : Bool}
    (h : l.createNewRequest api env interp call session = .created l' r simple performing) :
    ∃ opt l₁, requestOptions api call.method call.objv = .ok opt ∧ opt.simple = simple ∧
      l.newRequest env session = some (l₁, r) ∧
      (l₁.fillRequest r (requestParams (l₁.inherited session) call.method call.customMethod
        (call.objv.headD []) opt) interp).requestRunStart env r = (l', performing) := by
  unfold createNewRequest at h
  split at h
  · cases h
  · rename_i opt hopt
    split at h
    · cases h
    · rename_i l₁ r₁ hnew
      cases h
      exact ⟨opt, l₁, hopt, rfl, hnew, rfl⟩

variable (api l env)

/-- The handle command of a request that is not `-simple`. -/
def createHandle (r : ReqId) : Lib :=
  (l.modifyRequest r fun q => { q with cmdToken := true }).setCommand (.request r) .alive

/-- `treq_SessionCmd`; the words start with the command name. Whether
`curl_share_init` succeeds is given. -/
def sessionCmd (interp : InterpId) (objv : List Str) (shareInit : Bool) :
    Except Str (Lib × SesId) :=
  match sessionOptions api objv with
  | .error e => .error e
  | .ok opt =>
    if shareInit then
      .ok ({ l with
        session := Function.update l.session l.nextSession
          { sessionParams opt with interp, requests := [] }
        nextSession := l.nextSession + 1
        command := Function.update l.command (.session l.nextSession) .alive }, l.nextSession)
    else .error (lit "failed to alloc")

/-- `treq_SessionFree` after its loop, and the end of the deletion of the command. -/
def sessionFreeFinish (i : SesId) : Lib :=
  { l.setCommand (.session i) .deleted with
    sessionFreed := Function.update l.sessionFreed i (l.sessionFreed i + 1) }

end Lib

end Trequests
