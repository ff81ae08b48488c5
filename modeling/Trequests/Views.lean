import Trequests.Machine

/-! Views of the library. An invariant is about a part of the state only: the pools
and what they own, the states and callbacks of the requests, the lifetimes of the
objects with their commands, the queue with the events the requests point to. Each
view gathers such a part, and each procedure is shown to leave the views it does not
concern as they are. -/

namespace Trequests

/-- The pools, and the pool each request is in. -/
structure PoolView where
  pool : PoolId → Pool
  nextPool : PoolId
  poolFreed : PoolId → Bool
  poolDefault : Option PoolId
  sources : List PoolId
  owner : ReqId → Option PoolId
  nextRequest : ReqId

/-- The states of the requests and what decides whether their callbacks run. -/
structure CallbackView where
  async : ReqId → Bool
  callback : ReqId → Option Str
  interp : ReqId → InterpId
  state : ReqId → RequestState
  interpDeleted : InterpId → Bool
  stateLog : List (ReqId × RequestState)
  scheduled : List ReqId
  nextRequest : ReqId

/-- The lifetimes of requests, sessions and commands. -/
structure LifeView where
  session : ReqId → Option SesId
  cmdToken : ReqId → Bool
  isDead : ReqId → Bool
  interp : ReqId → InterpId
  nextRequest : ReqId
  freed : ReqId → ℕ
  requests : SesId → List ReqId
  sesInterp : SesId → InterpId
  nextSession : SesId
  sessionFreed : SesId → ℕ
  command : CmdToken → CmdStatus
  interpDeleted : InterpId → Bool

/-- The event queue and the events the requests point to. -/
structure EventView where
  callbackEvent : ReqId → Option EventId
  queue : List TclEvent
  nextEvent : EventId

/-- A write to the state of a request. -/
def CallbackView.setState (v : CallbackView) (r : ReqId) (s : RequestState) : CallbackView :=
  { v with state := Function.update v.state r s, stateLog := v.stateLog ++ [(r, s)] }

namespace Lib

def poolView (l : Lib) : PoolView where
  pool := l.pool
  nextPool := l.nextPool
  poolFreed := l.poolFreed
  poolDefault := l.poolDefault
  sources := l.sources
  owner r := (l.request r).pool
  nextRequest := l.nextRequest

def callbackView (l : Lib) : CallbackView where
  async r := (l.request r).async
  callback r := (l.request r).callback
  interp r := (l.request r).interp
  state r := (l.request r).state
  interpDeleted := l.interpDeleted
  stateLog := l.stateLog
  scheduled := l.scheduled
  nextRequest := l.nextRequest

def lifeView (l : Lib) : LifeView where
  session r := (l.request r).session
  cmdToken r := (l.request r).cmdToken
  isDead r := (l.request r).isDead
  interp r := (l.request r).interp
  nextRequest := l.nextRequest
  freed := l.freed
  requests i := (l.session i).requests
  sesInterp i := (l.session i).interp
  nextSession := l.nextSession
  sessionFreed := l.sessionFreed
  command := l.command
  interpDeleted := l.interpDeleted

def eventView (l : Lib) : EventView where
  callbackEvent r := (l.request r).callbackEvent
  queue := l.queue
  nextEvent := l.nextEvent

variable {α : Type*} (l : Lib) (r : ReqId) (p : PoolId) (i : SesId)

/-- A field of the requests after one request is modified. -/
theorem field_modifyRequest (g : Request → α) (f : Request → Request) :
    (fun x => g ((l.modifyRequest r f).request x)) =
      Function.update (fun x => g (l.request x)) r (g (f (l.request r))) :=
  Function.comp_update g l.request r _

theorem field_modifyRequest_of_eq (g : Request → α) (f : Request → Request)
    (h : g (f (l.request r)) = g (l.request r)) :
    (fun x => g ((l.modifyRequest r f).request x)) = fun x => g (l.request x) := by
  rw [field_modifyRequest, h, Function.update_eq_self_iff]

/-! ### Elementary updates -/

section Modify
variable (f : Request → Request)

@[simp] theorem poolView_modifyRequest (h : (f (l.request r)).pool = (l.request r).pool) :
    (l.modifyRequest r f).poolView = l.poolView := by
  have ho := field_modifyRequest_of_eq l r Request.pool f h
  simp only [poolView, ho]; rfl

@[simp] theorem callbackView_modifyRequest (ha : (f (l.request r)).async = (l.request r).async)
    (hc : (f (l.request r)).callback = (l.request r).callback)
    (hi : (f (l.request r)).interp = (l.request r).interp)
    (hs : (f (l.request r)).state = (l.request r).state) :
    (l.modifyRequest r f).callbackView = l.callbackView := by
  have ha := field_modifyRequest_of_eq l r (fun q => q.async) f ha
  have hc := field_modifyRequest_of_eq l r (fun q => q.callback) f hc
  have hi := field_modifyRequest_of_eq l r Request.interp f hi
  have hs := field_modifyRequest_of_eq l r Request.state f hs
  simp only [callbackView, ha, hc, hi, hs]; rfl

@[simp] theorem lifeView_modifyRequest (hs : (f (l.request r)).session = (l.request r).session)
    (hc : (f (l.request r)).cmdToken = (l.request r).cmdToken)
    (hd : (f (l.request r)).isDead = (l.request r).isDead)
    (hi : (f (l.request r)).interp = (l.request r).interp) :
    (l.modifyRequest r f).lifeView = l.lifeView := by
  have hs := field_modifyRequest_of_eq l r Request.session f hs
  have hc := field_modifyRequest_of_eq l r Request.cmdToken f hc
  have hd := field_modifyRequest_of_eq l r Request.isDead f hd
  have hi := field_modifyRequest_of_eq l r Request.interp f hi
  simp only [lifeView, hs, hc, hd, hi]; rfl

@[simp] theorem eventView_modifyRequest
    (h : (f (l.request r)).callbackEvent = (l.request r).callbackEvent) :
    (l.modifyRequest r f).eventView = l.eventView := by
  have he := field_modifyRequest_of_eq l r Request.callbackEvent f h
  simp only [eventView, he]; rfl

end Modify

section Frames
variable (s : RequestState) (e : Str) (tok : CmdToken) (status : CmdStatus)
  (g : Session → Session) (h : Pool → Pool)

@[simp] theorem poolView_modifySession : (l.modifySession i g).poolView = l.poolView := rfl
@[simp] theorem callbackView_modifySession :
    (l.modifySession i g).callbackView = l.callbackView := rfl
@[simp] theorem eventView_modifySession : (l.modifySession i g).eventView = l.eventView := rfl

@[simp] theorem callbackView_modifyPool : (l.modifyPool p h).callbackView = l.callbackView := rfl
@[simp] theorem lifeView_modifyPool : (l.modifyPool p h).lifeView = l.lifeView := rfl
@[simp] theorem eventView_modifyPool : (l.modifyPool p h).eventView = l.eventView := rfl

@[simp] theorem poolView_setCommand : (l.setCommand tok status).poolView = l.poolView := rfl
@[simp] theorem callbackView_setCommand :
    (l.setCommand tok status).callbackView = l.callbackView := rfl
@[simp] theorem eventView_setCommand : (l.setCommand tok status).eventView = l.eventView := rfl

/-! ### States, errors and callbacks -/

@[simp] theorem poolView_setState : (l.setState r s).poolView = l.poolView :=
  l.poolView_modifyRequest r (fun q => { q with state := s }) rfl
@[simp] theorem lifeView_setState : (l.setState r s).lifeView = l.lifeView :=
  l.lifeView_modifyRequest r (fun q => { q with state := s }) rfl rfl rfl rfl
@[simp] theorem eventView_setState : (l.setState r s).eventView = l.eventView :=
  l.eventView_modifyRequest r (fun q => { q with state := s }) rfl

@[simp] theorem poolView_requestSetError : (l.requestSetError r e).poolView = l.poolView := by
  simp [requestSetError]
@[simp] theorem lifeView_requestSetError : (l.requestSetError r e).lifeView = l.lifeView := by
  simp [requestSetError]
@[simp] theorem eventView_requestSetError : (l.requestSetError r e).eventView = l.eventView := by
  simp [requestSetError]
@[simp] theorem callbackView_setState :
    (l.setState r s).callbackView = l.callbackView.setState r s := by
  have ha := field_modifyRequest_of_eq l r (fun q => q.async) (fun q => { q with state := s }) rfl
  have hc := field_modifyRequest_of_eq l r (fun q => q.callback) (fun q => { q with state := s }) rfl
  have hi := field_modifyRequest_of_eq l r Request.interp (fun q => { q with state := s }) rfl
  have hs := field_modifyRequest l r Request.state fun q => { q with state := s }
  simp only [callbackView, setState, CallbackView.setState, ha, hc, hi, hs]
  rfl
@[simp] theorem callbackView_requestSetError :
    (l.requestSetError r e).callbackView = l.callbackView.setState r .error := by
  simp [requestSetError]

@[simp] theorem poolView_requestScheduleCallback :
    (l.requestScheduleCallback r).poolView = l.poolView := by
  unfold requestScheduleCallback
  split_ifs
  · rfl
  · rfl
  · exact l.poolView_modifyRequest r (fun q => { q with callbackEvent := some l.nextEvent }) rfl
@[simp] theorem lifeView_requestScheduleCallback :
    (l.requestScheduleCallback r).lifeView = l.lifeView := by
  unfold requestScheduleCallback
  split_ifs
  · rfl
  · rfl
  · exact l.lifeView_modifyRequest r (fun q => { q with callbackEvent := some l.nextEvent })
      rfl rfl rfl rfl

@[simp] theorem poolView_requestEventProc (req : Option ReqId) :
    (l.requestEventProc req).poolView = l.poolView := by
  cases req <;> simp [requestEventProc]
@[simp] theorem callbackView_requestEventProc (req : Option ReqId) :
    (l.requestEventProc req).callbackView = l.callbackView := by
  cases req <;> simp [requestEventProc]
@[simp] theorem lifeView_requestEventProc (req : Option ReqId) :
    (l.requestEventProc req).lifeView = l.lifeView := by
  cases req <;> simp [requestEventProc]

@[simp] theorem poolView_requestRunError : (l.requestRunError r e).poolView = l.poolView := by
  simp only [requestRunError]
  split_ifs <;> simp
@[simp] theorem lifeView_requestRunError : (l.requestRunError r e).lifeView = l.lifeView := by
  simp only [requestRunError]
  split_ifs <;> simp

@[simp] theorem poolView_poolAbort : (l.poolAbort r).poolView = l.poolView := by
  simp only [poolAbort]
  split_ifs <;> simp
@[simp] theorem lifeView_poolAbort : (l.poolAbort r).lifeView = l.lifeView := by
  simp only [poolAbort]
  split_ifs <;> simp

/-! ### The pool -/

@[simp] theorem callbackView_poolActivate : (l.poolActivate p).callbackView = l.callbackView := rfl
@[simp] theorem lifeView_poolActivate : (l.poolActivate p).lifeView = l.lifeView := rfl
@[simp] theorem eventView_poolActivate : (l.poolActivate p).eventView = l.eventView := rfl

@[simp] theorem callbackView_poolDeactivate :
    (l.poolDeactivate p).callbackView = l.callbackView := rfl

@[simp] theorem callbackView_poolInsert : (l.poolInsert p r).callbackView = l.callbackView := by
  simp only [poolInsert]
  split_ifs <;> simp
@[simp] theorem lifeView_poolInsert : (l.poolInsert p r).lifeView = l.lifeView := by
  simp only [poolInsert]
  split_ifs <;> simp
@[simp] theorem eventView_poolInsert : (l.poolInsert p r).eventView = l.eventView := by
  simp only [poolInsert]
  split_ifs <;> simp

@[simp] theorem callbackView_poolAddRequest (env : CurlEnv) :
    (l.poolAddRequest env r).1.callbackView = l.callbackView :=
  l.poolAddRequest_rule (P := fun l' => l'.callbackView = l.callbackView) env r rfl rfl
    fun l' p h => (l'.callbackView_poolInsert r p).trans h
@[simp] theorem lifeView_poolAddRequest (env : CurlEnv) :
    (l.poolAddRequest env r).1.lifeView = l.lifeView :=
  l.poolAddRequest_rule (P := fun l' => l'.lifeView = l.lifeView) env r rfl rfl
    fun l' p h => (l'.lifeView_poolInsert r p).trans h
@[simp] theorem eventView_poolAddRequest (env : CurlEnv) :
    (l.poolAddRequest env r).1.eventView = l.eventView :=
  l.poolAddRequest_rule (P := fun l' => l'.eventView = l.eventView) env r rfl rfl
    fun l' p h => (l'.eventView_poolInsert r p).trans h

@[simp] theorem callbackView_poolDetach : (l.poolDetach p r).callbackView = l.callbackView := by
  simp [poolDetach]
@[simp] theorem lifeView_poolDetach : (l.poolDetach p r).lifeView = l.lifeView := by
  simp [poolDetach]
@[simp] theorem eventView_poolDetach : (l.poolDetach p r).eventView = l.eventView := by
  simp [poolDetach]

@[simp] theorem lifeView_poolRemoveRequest : (l.poolRemoveRequest r).lifeView = l.lifeView := by
  unfold poolRemoveRequest
  cases (l.request r).pool <;> simp

@[simp] theorem lifeView_poolCompleteRequest (msg : CURLMsg) :
    (l.poolCompleteRequest msg).lifeView = l.lifeView := by
  simp [poolCompleteRequest]

@[simp] theorem lifeView_poolDrain (fuel : ℕ) : (poolDrain p fuel l).lifeView = l.lifeView := by
  induction fuel generalizing l with
  | zero => rfl
  | succ fuel ih =>
    simp only [poolDrain]
    split
    · rfl
    · split <;> simp [ih]

@[simp] theorem lifeView_poolEventCheckFinish (n : ℕ) :
    (l.poolEventCheckFinish p n).lifeView = l.lifeView := by
  simp only [poolEventCheckFinish, poolEventCheckDrain]
  split_ifs
  · rfl
  · exact lifeView_poolDrain l p _
  · exact lifeView_poolDrain l p _

@[simp] theorem lifeView_poolFreeLoop (rs : List ReqId) :
    (poolFreeLoop p rs l).lifeView = l.lifeView := by
  induction rs generalizing l with
  | nil => rfl
  | cons r rs ih => simp [poolFreeLoop, ih]

@[simp] theorem lifeView_poolThreadExitProc : l.poolThreadExitProc.lifeView = l.lifeView := by
  unfold poolThreadExitProc
  cases l.poolDefault with
  | none => rfl
  | some p => exact lifeView_poolFreeLoop (l.modifyPool p _) p _

@[simp] theorem lifeView_poolEventSetup (b : Bool) (t : Option ℤ) :
    (l.poolEventSetup p b t).1.lifeView = l.lifeView := by
  obtain ⟨v, hv⟩ := l.poolEventSetup_eq p b t
  rw [hv, lifeView_modifyPool]

@[simp] theorem lifeView_poolEventCheckStart (b : Bool) (w : Option ℕ) :
    (l.poolEventCheckStart p b w).1.lifeView = l.lifeView := by
  obtain ⟨v, hv⟩ := l.poolEventCheckStart_eq p b w
  rw [hv, lifeView_modifyPool]

@[simp] theorem callbackView_poolEventSetup (b : Bool) (t : Option ℤ) :
    (l.poolEventSetup p b t).1.callbackView = l.callbackView := by
  obtain ⟨v, hv⟩ := l.poolEventSetup_eq p b t
  rw [hv, callbackView_modifyPool]

@[simp] theorem callbackView_poolEventCheckStart (b : Bool) (w : Option ℕ) :
    (l.poolEventCheckStart p b w).1.callbackView = l.callbackView := by
  obtain ⟨v, hv⟩ := l.poolEventCheckStart_eq p b w
  rw [hv, callbackView_modifyPool]

@[simp] theorem eventView_poolEventSetup (b : Bool) (t : Option ℤ) :
    (l.poolEventSetup p b t).1.eventView = l.eventView := by
  obtain ⟨v, hv⟩ := l.poolEventSetup_eq p b t
  rw [hv, eventView_modifyPool]

@[simp] theorem eventView_poolEventCheckStart (b : Bool) (w : Option ℕ) :
    (l.poolEventCheckStart p b w).1.eventView = l.eventView := by
  obtain ⟨v, hv⟩ := l.poolEventCheckStart_eq p b w
  rw [hv, eventView_modifyPool]

/-! ### Release -/

@[simp] theorem poolView_sessionRemoveRequest :
    (l.sessionRemoveRequest r).poolView = l.poolView := by
  unfold sessionRemoveRequest
  split <;> simp
@[simp] theorem callbackView_sessionRemoveRequest :
    (l.sessionRemoveRequest r).callbackView = l.callbackView := by
  unfold sessionRemoveRequest
  split <;> simp
@[simp] theorem eventView_sessionRemoveRequest :
    (l.sessionRemoveRequest r).eventView = l.eventView := by
  unfold sessionRemoveRequest
  split <;> simp

@[simp] theorem poolView_detachCallbackEvent : (l.detachCallbackEvent r).poolView = l.poolView := by
  unfold detachCallbackEvent; split <;> rfl
@[simp] theorem callbackView_detachCallbackEvent :
    (l.detachCallbackEvent r).callbackView = l.callbackView := by
  unfold detachCallbackEvent; split <;> rfl
@[simp] theorem lifeView_detachCallbackEvent : (l.detachCallbackEvent r).lifeView = l.lifeView := by
  unfold detachCallbackEvent; split <;> rfl

@[simp] theorem poolView_deleteCommand : (l.deleteCommand tok).poolView = l.poolView := by
  unfold deleteCommand; split <;> rfl
@[simp] theorem callbackView_deleteCommand :
    (l.deleteCommand tok).callbackView = l.callbackView := by
  unfold deleteCommand; split <;> rfl
@[simp] theorem eventView_deleteCommand : (l.deleteCommand tok).eventView = l.eventView := by
  unfold deleteCommand; split <;> rfl

@[simp] theorem poolView_requestFreeCommand : (l.requestFreeCommand r).poolView = l.poolView := by
  unfold requestFreeCommand; split_ifs <;> simp
@[simp] theorem callbackView_requestFreeCommand :
    (l.requestFreeCommand r).callbackView = l.callbackView := by
  unfold requestFreeCommand; split_ifs <;> simp
@[simp] theorem eventView_requestFreeCommand :
    (l.requestFreeCommand r).eventView = l.eventView := by
  unfold requestFreeCommand; split_ifs <;> simp

@[simp] theorem poolView_requestFreeFinish : (l.requestFreeFinish r).poolView = l.poolView :=
  l.poolView_requestFreeCommand r
@[simp] theorem callbackView_requestFreeFinish :
    (l.requestFreeFinish r).callbackView = l.callbackView :=
  l.callbackView_requestFreeCommand r
@[simp] theorem eventView_requestFreeFinish : (l.requestFreeFinish r).eventView = l.eventView :=
  l.eventView_requestFreeCommand r

@[simp] theorem poolView_sessionFreeFinish : (l.sessionFreeFinish i).poolView = l.poolView := rfl
@[simp] theorem callbackView_sessionFreeFinish :
    (l.sessionFreeFinish i).callbackView = l.callbackView := rfl
@[simp] theorem eventView_sessionFreeFinish : (l.sessionFreeFinish i).eventView = l.eventView := rfl

/-! ### Creation -/

@[simp] theorem poolView_sessionInsert : (l.sessionInsert i r).poolView = l.poolView := by
  simp [sessionInsert]
@[simp] theorem callbackView_sessionInsert : (l.sessionInsert i r).callbackView = l.callbackView := by
  simp [sessionInsert]
@[simp] theorem eventView_sessionInsert : (l.sessionInsert i r).eventView = l.eventView := by
  simp [sessionInsert]

@[simp] theorem poolView_createHandle : (l.createHandle r).poolView = l.poolView := by
  simp [createHandle]
@[simp] theorem callbackView_createHandle : (l.createHandle r).callbackView = l.callbackView := by
  simp [createHandle]
@[simp] theorem eventView_createHandle : (l.createHandle r).eventView = l.eventView := by
  simp [createHandle]

@[simp] theorem poolView_requestRunFinish (res : CURLcode) :
    (l.requestRunFinish r res).poolView = l.poolView := by simp [requestRunFinish]
@[simp] theorem lifeView_requestRunFinish (res : CURLcode) :
    (l.requestRunFinish r res).lifeView = l.lifeView := by simp [requestRunFinish]
@[simp] theorem eventView_requestRunFinish (res : CURLcode) :
    (l.requestRunFinish r res).eventView = l.eventView := by simp [requestRunFinish]

@[simp] theorem lifeView_requestRunStart (env : CurlEnv) :
    (l.requestRunStart env r).1.lifeView = l.lifeView := by
  simp only [requestRunStart]
  split
  · simp
  · split_ifs <;> simp

@[simp] theorem session_deleteCommand : (l.deleteCommand tok).session = l.session := by
  unfold deleteCommand; split <;> rfl
@[simp] theorem session_requestFreeFinish : (l.requestFreeFinish r).session = l.session := by
  simp only [requestFreeFinish, requestFreeCommand]
  split_ifs
  · exact session_deleteCommand _ _
  · rfl

/-! ### The updates of the machine -/

@[simp] theorem poolView_clearSession : (l.clearSession r).poolView = l.poolView := by
  simp [clearSession]
@[simp] theorem callbackView_clearSession : (l.clearSession r).callbackView = l.callbackView := by
  simp [clearSession]
@[simp] theorem eventView_clearSession : (l.clearSession r).eventView = l.eventView := by
  simp [clearSession]

@[simp] theorem poolView_clearCmdToken : (l.clearCmdToken r).poolView = l.poolView := by
  simp [clearCmdToken]
@[simp] theorem callbackView_clearCmdToken : (l.clearCmdToken r).callbackView = l.callbackView := by
  simp [clearCmdToken]
@[simp] theorem eventView_clearCmdToken : (l.clearCmdToken r).eventView = l.eventView := by
  simp [clearCmdToken]

@[simp] theorem poolView_dropRequest : (l.dropRequest i).poolView = l.poolView := rfl
@[simp] theorem callbackView_dropRequest : (l.dropRequest i).callbackView = l.callbackView := rfl
@[simp] theorem eventView_dropRequest : (l.dropRequest i).eventView = l.eventView := rfl

@[simp] theorem callbackView_poolComplete (c : CURLcode) :
    (l.poolComplete p r c).callbackView = l.callbackView := rfl
@[simp] theorem lifeView_poolComplete (c : CURLcode) :
    (l.poolComplete p r c).lifeView = l.lifeView := rfl
@[simp] theorem eventView_poolComplete (c : CURLcode) :
    (l.poolComplete p r c).eventView = l.eventView := rfl

@[simp] theorem callbackView_setInCallback (b : Bool) :
    (l.setInCallback p b).callbackView = l.callbackView := rfl
@[simp] theorem lifeView_setInCallback (b : Bool) :
    (l.setInCallback p b).lifeView = l.lifeView := rfl
@[simp] theorem eventView_setInCallback (b : Bool) :
    (l.setInCallback p b).eventView = l.eventView := rfl

end Frames

end Lib

end Trequests
