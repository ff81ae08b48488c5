import Mathlib.Logic.Function.Basic
import Trequests.Settings

/-! The state of the library in one thread: the requests, the sessions, the pool
and what Tcl keeps for them, the event queue, the event sources, the commands and
the interpreters. An object keeps its number for ever, and a freed one keeps its
last contents; how often it was freed is counted. Two records of the past, of the
writes to request states and of the events queued, are never read by the code. -/

namespace Trequests

abbrev InterpId := ℕ
abbrev ReqId := EasyHandle
abbrev SesId := ℕ
abbrev PoolId := ℕ
abbrev EventId := ℕ

/-! ### Requests, sessions and pools -/

/-- `treq_RequestStateType` -/
inductive RequestState where
  | created | inprogress | done | error
  deriving DecidableEq

/-- `treq_RequestType`. The settings applied to the easy handle stand for the
handle. -/
structure Request extends RequestParams where
  interp : InterpId
  cmdToken : Bool
  pool : Option PoolId
  curlEasy : List CurlCall
  error : Option Str
  state : RequestState
  session : Option SesId
  isDead : Bool
  callbackEvent : Option EventId
  deriving DecidableEq

/-- `treq_SessionType` -/
structure Session extends SessionParams where
  interp : InterpId
  requests : List ReqId
  deriving DecidableEq

/-- `treq_PoolType` -/
structure Pool where
  curlMulti : Multi
  requests : List ReqId
  isDead : Bool
  isActive : Bool
  needRefresh : Bool
  activeConnectionCount : ℤ
  deriving DecidableEq

/-- Parameters whose memory has only been cleared. -/
def RequestParams.zero : RequestParams where
  url := []
  headers := none
  headerAccept := none
  headerContentType := none
  form := none
  method := .custom
  customMethod := none
  auth := none
  postfields := none
  querystring := none
  allowRedirects := 0
  verbose := 0
  timeout := 0
  timeoutConnect := 0
  verifyHost := 0
  verifyPeer := 0
  verifyStatus := 0
  callback := none
  async := false
  callbackDebug := none

def SessionParams.zero : SessionParams where
  headers := none
  auth := none
  allowRedirects := 0
  verbose := 0
  callback := none
  callbackDebug := none
  accept := none
  contentType := none
  timeout := 0
  timeoutConnect := 0
  verify := 0
  verifyHost := 0
  verifyPeer := 0
  verifyStatus := 0

def Request.zero : Request :=
  { RequestParams.zero with
    interp := 0
    cmdToken := false
    pool := none
    curlEasy := []
    error := none
    state := .created
    session := none
    isDead := false
    callbackEvent := none }

def Session.zero : Session := { SessionParams.zero with interp := 0, requests := [] }

def Pool.zero : Pool where
  curlMulti := Multi.init
  requests := []
  isDead := false
  isActive := false
  needRefresh := false
  activeConnectionCount := 0

/-! ### What Tcl keeps -/

/-- A handle command, named by the object it belongs to. -/
inductive CmdToken where
  | request (r : ReqId)
  | session (i : SesId)
  deriving DecidableEq

/-- A command that is being deleted can still be found until a second deletion, from
within the first, takes it out of the table of commands. -/
inductive CmdStatus where
  | absent | alive | deleting | unlinked | deleted
  deriving DecidableEq

inductive TclEvent where
  /-- `treq_RequestEvent` -/
  | request (id : EventId) (request : Option ReqId)
  /-- `treq_PoolDeactivateEvent` -/
  | poolDeactivate (pool : PoolId)
  /-- an event of another source -/
  | other
  deriving DecidableEq

/-- The state of the library in a thread. -/
structure Lib where
  request : ReqId → Request
  nextRequest : ReqId
  /-- how often `treq_RequestFree` has released a request -/
  freed : ReqId → ℕ
  session : SesId → Session
  nextSession : SesId
  sessionFreed : SesId → ℕ
  pool : PoolId → Pool
  nextPool : PoolId
  poolFreed : PoolId → Bool
  /-- `pool_default` of the thread -/
  poolDefault : Option PoolId
  queue : List TclEvent
  nextEvent : EventId
  /-- the pools registered as event sources -/
  sources : List PoolId
  interpDeleted : InterpId → Bool
  command : CmdToken → CmdStatus
  /-- every write to the state of a request, the oldest first -/
  stateLog : List (ReqId × RequestState)
  /-- the request of every `treq_RequestEvent` queued so far, the oldest first -/
  scheduled : List ReqId

namespace Lib

/-- The state when the package is loaded. -/
def init : Lib where
  request _ := Request.zero
  nextRequest := 0
  freed _ := 0
  session _ := Session.zero
  nextSession := 0
  sessionFreed _ := 0
  pool _ := Pool.zero
  nextPool := 0
  poolFreed _ := false
  poolDefault := none
  queue := []
  nextEvent := 0
  sources := []
  interpDeleted _ := false
  command _ := .absent
  stateLog := []
  scheduled := []

def modifyRequest (l : Lib) (r : ReqId) (f : Request → Request) : Lib :=
  { l with request := Function.update l.request r (f (l.request r)) }

def modifySession (l : Lib) (i : SesId) (f : Session → Session) : Lib :=
  { l with session := Function.update l.session i (f (l.session i)) }

def modifyPool (l : Lib) (p : PoolId) (f : Pool → Pool) : Lib :=
  { l with pool := Function.update l.pool p (f (l.pool p)) }

def setCommand (l : Lib) (tok : CmdToken) (status : CmdStatus) : Lib :=
  { l with command := Function.update l.command tok status }

/-- A write to the state of a request. -/
def setState (l : Lib) (r : ReqId) (state : RequestState) : Lib :=
  { l.modifyRequest r fun q => { q with state } with stateLog := l.stateLog ++ [(r, state)] }

/-- The states written to one request. -/
def statesOf (l : Lib) (r : ReqId) : List RequestState :=
  (l.stateLog.filter fun e => e.1 = r).map Prod.snd

end Lib

end Trequests
