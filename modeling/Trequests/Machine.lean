import Mathlib.Data.List.Basic
import Trequests.Base.Run
import Trequests.Library

/-! The library as a machine. Between two calls that libcurl makes, the state of the
thread is the library and the stack of the library's procedures that wait for a
call of libcurl to return: a sync run in `curl_easy_perform`, a check of the pool in
`curl_multi_perform`, a release in `curl_easy_cleanup`. While one of them waits,
`treq_debug_callback` can evaluate a script, which can do what any script can,
including running the event loop. An action of the machine is one command of a
script, one procedure called by Tcl, or one thing that libcurl does. -/

namespace Trequests

/-- Who called `treq_RequestFree`. -/
inductive Caller where
  /-- `treq_RequestHandleDelete` -/
  | command
  /-- `treq_CreateNewRequest` -/
  | simple
  /-- `treq_SessionFree` -/
  | session (i : SesId)
  deriving DecidableEq

inductive Frame where
  /-- in `curl_easy_perform`; a write callback may have failed -/
  | run (r : ReqId) (simple writeFailed : Bool)
  /-- in `curl_multi_perform` -/
  | perform (p : PoolId) (writeFailed : Bool)
  /-- in `curl_easy_cleanup` -/
  | cleanup (r : ReqId) (caller : Caller)
  /-- Tcl deletes the commands of an interpreter -/
  | interpDelete (i : InterpId)
  /-- in `Tcl_DeleteCommandFromToken` without a token, where the process dies -/
  | crash
  deriving DecidableEq

/-- What the last command left in the interpreter; the last two are errors. -/
inductive CmdResult where
  | empty
  | handle (tok : CmdToken)
  | text (r : ReqId)
  | wrongState
  | requestError (r : ReqId)
  | error (message : Str)
  deriving DecidableEq

structure Machine where
  lib : Lib
  stack : List Frame
  result : CmdResult

inductive Action where
  /-- `::trequests::session` -/
  | sessionCmd (interp : InterpId) (objv : List Str) (shareInit : Bool)
  /-- `::trequests::request` and the commands of the methods -/
  | requestCmd (interp : InterpId) (name : Str) (clientData : Option Method) (args : List Str)
      (env : CurlEnv)
  /-- a session handle -/
  | sessionHandle (i : SesId) (name : Str) (args : List Str) (env : CurlEnv)
  /-- `destroy` of a request handle, or its `rename` to the empty string -/
  | requestDestroy (r : ReqId) (byRename : Bool)
  | poolEventSetup (p : PoolId) (fileEvents : Bool) (curlTimeout : Option ℤ)
  | poolEventCheck (p : PoolId) (fileEvents : Bool) (wait : Option ℕ)
  /-- `Tcl_ServiceEvent` -/
  | serviceEvent (fileEvents : Bool)
  /-- another source queues an event, at the head or at the tail -/
  | queueOther (atHead : Bool)
  | interpDelete (i : InterpId)
  | interpDeleteCommand (tok : CmdToken)
  | interpDeleteDone
  | threadExit
  /-- a transfer of the pool being performed is over -/
  | curlComplete (r : ReqId) (result : CURLcode)
  /-- `treq_write_callback` cannot store `size` bytes -/
  | curlWriteError (r : ReqId) (size contentSize : ℕ) (result : CURLcode)
  | performReturn (ok : Bool)
  | easyPerformReturn (res : CURLcode)
  | cleanupReturn

/-- An event whose procedure does not leave it in the queue. -/
def TclEvent.ready (fileEvents : Bool) : TclEvent → Bool
  | .request _ _ => fileEvents
  | .poolDeactivate _ | .other => true

def writeErrorText (size contentSize : ℕ) : Str :=
  lit "failed to allocate " ++ decimal size ++
    lit " additional bytes in the output buffer, current output buffer size is " ++
    decimal contentSize

namespace Lib
variable (l : Lib)

/-- `treq_debug_callback` evaluates a script for the request. -/
def runsScript (r : ReqId) : Bool :=
  (l.request r).verbose ≠ 0 ∧ (l.request r).callbackDebug.isSome ∧
    ¬ l.interpDeleted (l.request r).interp

/-- The interpreter of a command. -/
def cmdInterp : CmdToken → InterpId
  | .request r => (l.request r).interp
  | .session i => (l.session i).interp

/-- No command of the interpreter is left to delete. -/
def interpEmpty (i : InterpId) : Bool :=
  (List.range l.nextRequest).all (fun r =>
    (l.request r).interp ≠ i ∨ l.command (.request r) ≠ .alive) &&
  (List.range l.nextSession).all fun s =>
    (l.session s).interp ≠ i ∨ l.command (.session s) ≠ .alive

def queueEvent (atHead : Bool) (event : TclEvent) : Lib :=
  { l with queue := if atHead then event :: l.queue else l.queue ++ [event] }

/-- `Tcl_ServiceEvent` takes the event and calls its procedure. -/
def serviceEvent (fileEvents : Bool) : Lib :=
  let taken := l.queue.find? (TclEvent.ready fileEvents)
  let l := { l with queue := l.queue.eraseP (TclEvent.ready fileEvents) }
  match taken with
  | some (.request _ req) => l.requestEventProc req
  | some (.poolDeactivate p) => l.poolDeactivate p
  | some .other | none => l

/-- `treq_SessionFree` takes the session away from a request. -/
def clearSession (r : ReqId) : Lib := l.modifyRequest r fun q => { q with session := none }

/-- `treq_RequestHandleDelete` takes the command away from a request. -/
def clearCmdToken (r : ReqId) : Lib := l.modifyRequest r fun q => { q with cmdToken := false }

/-- `treq_LinkedListFree` drops the first item. -/
def dropRequest (i : SesId) : Lib :=
  l.modifySession i fun s => { s with requests := s.requests.tail }

/-- A transfer of the pool is over. -/
def poolComplete (p : PoolId) (r : ReqId) (result : CURLcode) : Lib :=
  l.modifyPool p fun q => { q with curlMulti := q.curlMulti.complete r result }

/-- Whether a transfer callback of the multi handle is running. -/
def setInCallback (p : PoolId) (value : Bool) : Lib :=
  l.modifyPool p fun q => { q with curlMulti := { q.curlMulti with inCallback := value } }

end Lib

namespace Machine

def init : Machine := ⟨Lib.init, [], .empty⟩

variable (api : Api) (m : Machine)

def setLib (l : Lib) : Machine := { m with lib := l }

/-- A script can run: nothing waits, or libcurl calls the debug callback. -/
def scriptMayRun : Bool :=
  match m.stack with
  | [] => true
  | .run r _ _ :: _ | .cleanup r _ :: _ => m.lib.runsScript r
  | .perform p _ :: _ => (m.lib.pool p).curlMulti.handles.any m.lib.runsScript
  | .interpDelete _ :: _ | .crash :: _ => false

/-- The command can be found by its name. -/
def commandFound (tok : CmdToken) : Bool :=
  m.lib.command tok = .alive ∨ m.lib.command tok = .deleting

/-! ### Procedures that can wait -/

/-- `treq_RequestFree` up to `curl_easy_cleanup`. -/
def requestFree (r : ReqId) (caller : Caller) : Machine :=
  { m with lib := m.lib.requestFreeStart r, stack := .cleanup r caller :: m.stack }

/-- The loop of `treq_SessionFree`, from the test of its condition on. -/
def sessionFreeLoop (i : SesId) : Machine :=
  match (m.lib.session i).requests with
  | [] => m.setLib (m.lib.sessionFreeFinish i)
  | r :: _ => (m.setLib (m.lib.clearSession r)).requestFree r (.session i)

/-- `Tcl_DeleteCommandFromToken` for a request handle. -/
def deleteRequestCommand (r : ReqId) : Machine :=
  match m.lib.command (.request r) with
  | .alive =>
    -- treq_RequestHandleDelete
    if (m.lib.request r).isDead then m.setLib (m.lib.setCommand (.request r) .deleted)
    else
      (m.setLib ((m.lib.setCommand (.request r) .deleting).clearCmdToken r)).requestFree r .command
  | _ => m.setLib (m.lib.deleteCommand (.request r))

/-- `Tcl_DeleteCommandFromToken` for a session handle. -/
def deleteSessionCommand (i : SesId) : Machine :=
  match m.lib.command (.session i) with
  | .alive => (m.setLib (m.lib.setCommand (.session i) .deleting)).sessionFreeLoop i
  | _ => m.setLib (m.lib.deleteCommand (.session i))

/-- `treq_RequestHandleCmd` for `destroy`, which deletes the command by the token of the
request. There is none while the command is being deleted. -/
def destroyRequest (r : ReqId) : Machine :=
  if (m.lib.request r).cmdToken then m.deleteRequestCommand r
  else { m with stack := .crash :: m.stack }

def deleteCommand : CmdToken → Machine
  | .request r => m.deleteRequestCommand r
  | .session i => m.deleteSessionCommand i

/-- The rest of `treq_CreateNewRequest` once `treq_RequestRun` has returned. -/
def createFinish (r : ReqId) (simple : Bool) : Machine :=
  if simple then
    { m with result := match (m.lib.request r).state with
        | .done => .text r
        | .error => .requestError r
        | .created | .inprogress => .wrongState }.requestFree r .simple
  else { m with lib := m.lib.createHandle r, result := .handle (.request r) }

def createNewRequest (env : CurlEnv) (interp : InterpId) (call : CreateCall)
    (session : Option SesId) : Machine :=
  match m.lib.createNewRequest api env interp call session with
  | .failed e => { m with result := .error e }
  | .created l r simple true => { m with lib := l, stack := .run r simple false :: m.stack }
  | .created l r simple false => (m.setLib l).createFinish r simple

/-- The end of `curl_easy_cleanup`, the rest of `treq_RequestFree`, and what its
caller does until it waits again. -/
def cleanupFinish (r : ReqId) (caller : Caller) : Machine :=
  let l := m.lib.requestFreeFinish r
  match caller with
  | .command => m.setLib (l.setCommand (.request r) .deleted)
  | .simple => m.setLib l
  | .session i => (m.setLib (l.dropRequest i)).sessionFreeLoop i

/-! ### Steps -/

/-- The actions that can happen. -/
def enabled : Action → Bool
  | .sessionCmd interp _ _ | .requestCmd interp _ _ _ _ =>
    m.scriptMayRun && ! m.lib.interpDeleted interp
  | .sessionHandle i _ _ _ =>
    m.scriptMayRun && m.commandFound (.session i) && ! m.lib.interpDeleted (m.lib.session i).interp
  | .requestDestroy r _ =>
    m.scriptMayRun && m.commandFound (.request r) && ! m.lib.interpDeleted (m.lib.request r).interp
  | .poolEventSetup p _ _ | .poolEventCheck p _ _ =>
    m.scriptMayRun && p ∈ m.lib.sources && ! m.lib.poolFreed p
  | .serviceEvent fileEvents =>
    m.scriptMayRun && match m.lib.queue.find? (TclEvent.ready fileEvents) with
      | some (.poolDeactivate p) => ! m.lib.poolFreed p
      | some _ => true
      | none => false
  | .queueOther _ => m.scriptMayRun
  | .interpDelete i => m.stack = [] && ! m.lib.interpDeleted i
  | .interpDeleteCommand tok =>
    match m.stack with
    | [.interpDelete i] => m.lib.command tok = .alive && m.lib.cmdInterp tok = i
    | _ => false
  | .interpDeleteDone =>
    match m.stack with
    | [.interpDelete i] => m.lib.interpEmpty i
    | _ => false
  | .threadExit => m.stack = []
  | .curlComplete r _ =>
    match m.stack with
    | .perform p _ :: _ =>
      r ∈ (m.lib.pool p).curlMulti.handles && r ∉ (m.lib.pool p).curlMulti.completed
    | _ => false
  | .curlWriteError r _ _ result =>
    match m.stack with
    -- the same perform reports the transfer as done
    | .perform p _ :: _ =>
      r ∈ (m.lib.pool p).curlMulti.handles && r ∉ (m.lib.pool p).curlMulti.completed &&
        result ≠ curleOk
    | .run r' _ _ :: _ => r = r'
    | _ => false
  | .performReturn ok =>
    match m.stack with
    | .perform _ writeFailed :: _ => ok || ! writeFailed
    | _ => false
  | .easyPerformReturn res =>
    match m.stack with
    | .run _ _ writeFailed :: _ => ! writeFailed || res ≠ curleOk
    | _ => false
  | .cleanupReturn =>
    match m.stack with
    | .cleanup _ _ :: _ => true
    | _ => false

/-- The effect of an action that can happen. -/
def next : Action → Machine
  | .sessionCmd interp objv shareInit =>
    match m.lib.sessionCmd api interp objv shareInit with
    | .error e => { m with result := .error e }
    | .ok (l, i) => { m with lib := l, result := .handle (.session i) }
  | .requestCmd interp name clientData args env =>
    match requestCmdCall name clientData args with
    | .error e => { m with result := .error e }
    | .ok call => m.createNewRequest api env interp call none
  | .sessionHandle i name args env =>
    match sessionHandleCall name args with
    | .error e => { m with result := .error e }
    | .ok .destroy => { m with result := .empty }.deleteSessionCommand i
    | .ok (.create call inSession) =>
      m.createNewRequest api env (m.lib.session i).interp call (if inSession then some i else none)
  | .requestDestroy r byRename =>
    let m := { m with result := .empty }
    if byRename then m.deleteRequestCommand r else m.destroyRequest r
  | .poolEventSetup p fileEvents curlTimeout =>
    m.setLib (m.lib.poolEventSetup p fileEvents curlTimeout).1
  | .poolEventCheck p fileEvents wait =>
    let start := m.lib.poolEventCheckStart p fileEvents wait
    -- a recursive call of curl_multi_perform fails
    if start.2 && ! (start.1.pool p).curlMulti.inCallback then
      { m with lib := start.1.setInCallback p true, stack := .perform p false :: m.stack }
    else m.setLib start.1
  | .serviceEvent fileEvents => m.setLib (m.lib.serviceEvent fileEvents)
  | .queueOther atHead => m.setLib (m.lib.queueEvent atHead .other)
  | .interpDelete i =>
    { m with
      lib := { m.lib with interpDeleted := Function.update m.lib.interpDeleted i true }
      stack := .interpDelete i :: m.stack }
  | .interpDeleteCommand tok => m.deleteCommand tok
  | .interpDeleteDone => { m with stack := m.stack.tail }
  | .threadExit => m.setLib m.lib.poolThreadExitProc
  | .curlComplete r result =>
    match m.stack with
    | .perform p _ :: _ =>
      m.setLib (m.lib.poolComplete p r result)
    | _ => m
  | .curlWriteError r size contentSize result =>
    let l := m.lib.requestSetError r (writeErrorText size contentSize)
    match m.stack with
    | .perform p _ :: stack =>
      { m with
        lib := l.poolComplete p r result
        stack := .perform p true :: stack }
    | .run r' simple _ :: stack => { m with lib := l, stack := .run r' simple true :: stack }
    | _ => m
  | .performReturn ok =>
    match m.stack with
    | .perform p _ :: stack =>
      let l := m.lib.setInCallback p false
      { m with
        lib := if ok then l.poolEventCheckFinish p (l.pool p).curlMulti.running else l
        stack := stack }
    | _ => m
  | .easyPerformReturn res =>
    match m.stack with
    | .run r simple _ :: stack =>
      { m with lib := m.lib.requestRunFinish r res, stack := stack }.createFinish r simple
    | _ => m
  | .cleanupReturn =>
    match m.stack with
    | .cleanup r caller :: stack => { m with stack := stack }.cleanupFinish r caller
    | _ => m

variable {api m} in
/-- A `destroy` deletes the command, or finds no token. -/
@[elab_as_elim]
theorem next_requestDestroy_rule {P : Machine → Prop} {r : ReqId} {byRename : Bool}
    (hdelete : P (({ m with result := .empty } : Machine).deleteRequestCommand r))
    (hcrash : byRename = false → (m.lib.request r).cmdToken = false →
      P { m with stack := .crash :: m.stack, result := .empty }) :
    P (m.next api (.requestDestroy r byRename)) := by
  simp only [next, destroyRequest]
  cases byRename with
  | true => exact hdelete
  | false =>
    cases ht : (m.lib.request r).cmdToken with
    | true => exact hdelete
    | false => exact hcrash rfl ht

def step (a : Action) : Option Machine := if m.enabled a then some (m.next api a) else none

variable {m} in
theorem step_eq_some {api : Api} {a : Action} {m' : Machine} :
    m.step api a = some m' ↔ m.enabled a = true ∧ m.next api a = m' := by
  unfold step
  split_ifs with h <;> simp [h]

/-! ### What an action that can happen finds on the stack -/

section Enabled
variable {m}

theorem enabled_interpDelete {i : InterpId} (h : m.enabled (.interpDelete i) = true) :
    m.stack = [] ∧ m.lib.interpDeleted i = false := by
  simpa [enabled] using h

theorem enabled_interpDeleteCommand {tok : CmdToken}
    (h : m.enabled (.interpDeleteCommand tok) = true) :
    ∃ i, m.stack = [.interpDelete i] ∧ m.lib.command tok = .alive ∧ m.lib.cmdInterp tok = i := by
  simp only [enabled] at h
  split at h
  · rename_i i hs
    exact ⟨i, hs, by simpa using h⟩
  · cases h

theorem enabled_interpDeleteDone (h : m.enabled .interpDeleteDone = true) :
    ∃ i, m.stack = [.interpDelete i] ∧ m.lib.interpEmpty i = true := by
  simp only [enabled] at h
  split at h
  · rename_i i hs
    exact ⟨i, hs, h⟩
  · cases h

theorem enabled_threadExit (h : m.enabled .threadExit = true) : m.stack = [] := by
  simpa [enabled] using h

theorem enabled_curlComplete {r : ReqId} {result : CURLcode}
    (h : m.enabled (.curlComplete r result) = true) :
    ∃ p wf stack, m.stack = .perform p wf :: stack ∧
      r ∈ (m.lib.pool p).curlMulti.handles ∧ r ∉ (m.lib.pool p).curlMulti.completed := by
  simp only [enabled] at h
  split at h
  · rename_i p wf stack hs
    exact ⟨p, wf, stack, hs, by simpa using h⟩
  · cases h

theorem enabled_curlWriteError {r : ReqId} {size contentSize : ℕ} {result : CURLcode}
    (h : m.enabled (.curlWriteError r size contentSize result) = true) :
    (∃ p wf stack, m.stack = .perform p wf :: stack ∧
      (r ∈ (m.lib.pool p).curlMulti.handles ∧ r ∉ (m.lib.pool p).curlMulti.completed) ∧
        result ≠ curleOk) ∨
      ∃ simple wf stack, m.stack = .run r simple wf :: stack := by
  simp only [enabled] at h
  split at h
  · rename_i p wf stack hs
    exact Or.inl ⟨p, wf, stack, hs, by simpa using h⟩
  · rename_i r' simple wf stack hs
    have hr : r = r' := by simpa using h
    exact Or.inr ⟨simple, wf, stack, hr ▸ hs⟩
  · cases h

theorem enabled_performReturn {ok : Bool} (h : m.enabled (.performReturn ok) = true) :
    ∃ p wf stack, m.stack = .perform p wf :: stack ∧ (ok || ! wf) = true := by
  simp only [enabled] at h
  split at h
  · rename_i p wf stack hs
    exact ⟨p, wf, stack, hs, h⟩
  · cases h

theorem enabled_easyPerformReturn {res : CURLcode}
    (h : m.enabled (.easyPerformReturn res) = true) :
    ∃ r simple wf stack, m.stack = .run r simple wf :: stack ∧ (wf = true → res ≠ curleOk) := by
  simp only [enabled] at h
  split at h
  · rename_i r simple wf stack hs
    refine ⟨r, simple, wf, stack, hs, fun hw => ?_⟩
    simpa [hw] using h
  · cases h

theorem enabled_cleanupReturn (h : m.enabled .cleanupReturn = true) :
    ∃ r caller stack, m.stack = .cleanup r caller :: stack := by
  simp only [enabled] at h
  split at h
  · rename_i r caller stack hs
    exact ⟨r, caller, stack, hs⟩
  · cases h

end Enabled

end Machine

/-- The machine after a run from the start. -/
def runOf (api : Api) (as : List Action) : Option Machine :=
  Run.exec (Machine.step api) Machine.init as

end Trequests
