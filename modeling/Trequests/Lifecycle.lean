import Trequests.Pool

/-! `treqRequest.c` and `treqSession.c`: the creation, the start, the end and the
release of a request, and its place in its session. The start is cut where it
enters `curl_easy_perform` and the release where it enters `curl_easy_cleanup`,
since scripts can run before these calls return. -/

namespace Trequests

/-- The settings of `treq_RequestInit`, whose results are not checked. -/
def initCalls : List CurlCall :=
  [.setopt .errorBuffer, .setopt .writeFunction, .setopt .writeData, .setopt .privateData,
   .setopt .debugFunction, .setopt .debugData, .setopt (.noSignal 1),
   .setopt (.acceptEncoding [])]

/-- The settings of `treq_SessionRequestInit`, whose results are not checked. -/
def sessionCalls (i : SesId) : List CurlCall :=
  [.setopt (.share i), .setopt (.cookieFile [])]

namespace Lib
variable (l : Lib)

/-! ### Creation -/

/-- `treq_RequestInit`; a request without an easy handle is released at once. -/
def requestInit (env : CurlEnv) : Option (Lib × ReqId) :=
  if env.easyInit then
    some ({ l with
      request := Function.update l.request l.nextRequest { Request.zero with curlEasy := initCalls }
      nextRequest := l.nextRequest + 1
      stateLog := l.stateLog ++ [(l.nextRequest, .created)] }, l.nextRequest)
  else none

/-- The library with the request of `treq_RequestInit`. -/
def initRequest : Lib :=
  { l with
    request := Function.update l.request l.nextRequest { Request.zero with curlEasy := initCalls }
    nextRequest := l.nextRequest + 1
    stateLog := l.stateLog ++ [(l.nextRequest, .created)] }

/-- The rest of `treq_SessionRequestInit`. -/
def sessionInsert (i : SesId) (r : ReqId) : Lib :=
  let l := l.modifyRequest r fun q =>
    { q with session := some i, curlEasy := q.curlEasy ++ sessionCalls i }
  l.modifySession i fun s => { s with requests := r :: s.requests }

/-- `treq_SessionRequestInit` -/
def sessionRequestInit (env : CurlEnv) (i : SesId) : Option (Lib × ReqId) :=
  (l.requestInit env).map fun (l, r) => (l.sessionInsert i r, r)

/-! ### The run of a request -/

/-- The label `error` of `treq_RequestRun`. -/
def requestRunError (r : ReqId) (error : Str) : Lib :=
  let l := l.requestSetError r error
  if (l.request r).async then l.requestScheduleCallback r else l

/-- `treq_RequestRun` up to `curl_easy_perform`; the flag tells that a sync request
gets there. -/
def requestRunStart (env : CurlEnv) (r : ReqId) : Lib × Bool :=
  let setup := requestSetup env (l.request r).toRequestParams
  let l := l.modifyRequest r fun q => { q with curlEasy := q.curlEasy ++ setup.1 }
  match setup.2 with
  | some e => (l.requestRunError r e, false)
  | none =>
    let l := l.setState r .inprogress
    if (l.request r).async then
      let added := l.poolAddRequest env r
      if added.2 then (added.1, false)
      else (added.1.requestRunError r (lit "failed to add the request to the pool"), false)
    else (l, true)

/-- Only a sync request enters `curl_easy_perform`. -/
theorem requestRunStart_performing {env : CurlEnv} {r : ReqId}
    (h : (l.requestRunStart env r).2 = true) : (l.request r).async = false := by
  simp only [requestRunStart] at h
  split at h
  · cases h
  · split_ifs at h with ha
    · simpa [setState, modifyRequest] using ha

/-- The rest of `treq_RequestRun` for a sync request. -/
def requestRunFinish (r : ReqId) (res : CURLcode) : Lib :=
  l.setState r (if res = curleOk then .done else .error)

/-! ### Release -/

/-- `treq_SessionRemoveRequest`; its caller makes sure that the request has a session. -/
def sessionRemoveRequest (r : ReqId) : Lib :=
  match (l.request r).session with
  | none => l
  | some i =>
    (l.modifyRequest r fun q => { q with session := none }).modifySession i fun s =>
      { s with requests := linkedListRemoveByItem s.requests r }

/-- The pending event of the request no longer refers to it. -/
def detachCallbackEvent (r : ReqId) : Lib :=
  match (l.request r).callbackEvent with
  | none => l
  | some e =>
    { l with queue := l.queue.map fun
        | .request id req => .request id (if id = e then none else req)
        | event => event }

/-- `treq_RequestFree` up to `curl_easy_cleanup`. -/
def requestFreeStart (r : ReqId) : Lib :=
  ((l.detachCallbackEvent r).sessionRemoveRequest r).poolRemoveRequest r

/-- `Tcl_DeleteCommandFromToken` for a command whose delete procedure has nothing to
do. -/
def deleteCommand (tok : CmdToken) : Lib :=
  match l.command tok with
  | .alive => l.setCommand tok .deleted
  | .deleting => l.setCommand tok .unlinked
  | _ => l

/-- The command of a request that still has one. Its delete procedure returns at once,
as `isDead` is set. -/
def requestFreeCommand (r : ReqId) : Lib :=
  if (l.request r).cmdToken then
    (l.modifyRequest r fun q => { q with isDead := true }).deleteCommand (.request r)
  else l

/-- `treq_RequestFree` after `curl_easy_cleanup`. -/
def requestFreeFinish (r : ReqId) : Lib :=
  { l.requestFreeCommand r with freed := Function.update l.freed r (l.freed r + 1) }

end Lib

end Trequests
