import Trequests.Views

/-! What a request and a session are given when they are created: the parameters, and of
a request also the settings of its easy handle. No procedure changes them later, so they
are what they were in every later state of a run. -/

namespace Trequests

/-- The parameters of the requests and the sessions. -/
structure ParamView where
  params : ReqId → RequestParams
  settings : ReqId → List CurlCall
  sesParams : SesId → SessionParams
  nextRequest : ReqId
  nextSession : SesId

/-- What exists keeps its parameters. -/
structure ParamView.Keeps (v w : ParamView) : Prop where
  params : ∀ r < v.nextRequest, w.params r = v.params r
  settings : ∀ r < v.nextRequest, w.settings r = v.settings r
  sesParams : ∀ i < v.nextSession, w.sesParams i = v.sesParams i
  nextRequest : v.nextRequest ≤ w.nextRequest
  nextSession : v.nextSession ≤ w.nextSession

namespace ParamView.Keeps
variable {u v w : ParamView}

theorem refl (v : ParamView) : v.Keeps v :=
  ⟨fun _ _ => rfl, fun _ _ => rfl, fun _ _ => rfl, Nat.le_refl _, Nat.le_refl _⟩

theorem trans (h : u.Keeps v) (h' : v.Keeps w) : u.Keeps w where
  params r hr := (h'.params r (Nat.lt_of_lt_of_le hr h.nextRequest)).trans (h.params r hr)
  settings r hr := (h'.settings r (Nat.lt_of_lt_of_le hr h.nextRequest)).trans (h.settings r hr)
  sesParams i hi := (h'.sesParams i (Nat.lt_of_lt_of_le hi h.nextSession)).trans (h.sesParams i hi)
  nextRequest := Nat.le_trans h.nextRequest h'.nextRequest
  nextSession := Nat.le_trans h.nextSession h'.nextSession

end ParamView.Keeps

namespace Lib

/-- The settings of the easy handle of each request. -/
def settings (l : Lib) (r : ReqId) : List CurlCall := (l.request r).curlEasy

def paramView (l : Lib) : ParamView where
  params r := (l.request r).toRequestParams
  settings := l.settings
  sesParams i := (l.session i).toSessionParams
  nextRequest := l.nextRequest
  nextSession := l.nextSession

section Frames
variable (l : Lib) (r : ReqId) (p : PoolId) (i : SesId) (tok : CmdToken)

/-! ### Updates of the other fields -/

@[simp] theorem paramView_modifyRequest (f : Request → Request)
    (hp : (f (l.request r)).toRequestParams = (l.request r).toRequestParams)
    (hs : (f (l.request r)).curlEasy = (l.request r).curlEasy) :
    (l.modifyRequest r f).paramView = l.paramView := by
  have hp := field_modifyRequest_of_eq l r Request.toRequestParams f hp
  have hs : (l.modifyRequest r f).settings = l.settings :=
    field_modifyRequest_of_eq l r Request.curlEasy f hs
  simp only [paramView, hp, hs]; rfl

@[simp] theorem paramView_modifySession (f : Session → Session)
    (h : (f (l.session i)).toSessionParams = (l.session i).toSessionParams) :
    (l.modifySession i f).paramView = l.paramView := by
  have hs : (fun x => ((l.modifySession i f).session x).toSessionParams) =
      fun x => (l.session x).toSessionParams := by
    funext x
    by_cases hx : x = i
    · subst hx; simpa [modifySession] using h
    · simp [modifySession, hx]
  simp only [paramView, hs]; rfl

@[simp] theorem paramView_modifyPool (f : Pool → Pool) :
    (l.modifyPool p f).paramView = l.paramView := rfl

@[simp] theorem paramView_setCommand (status : CmdStatus) :
    (l.setCommand tok status).paramView = l.paramView := rfl

@[simp] theorem paramView_setState (s : RequestState) :
    (l.setState r s).paramView = l.paramView :=
  l.paramView_modifyRequest r (fun q => { q with state := s }) rfl rfl

@[simp] theorem paramView_requestSetError (e : Str) :
    (l.requestSetError r e).paramView = l.paramView := by
  simp [requestSetError]

@[simp] theorem paramView_requestScheduleCallback :
    (l.requestScheduleCallback r).paramView = l.paramView := by
  unfold requestScheduleCallback
  split_ifs
  · rfl
  · rfl
  · exact l.paramView_modifyRequest r (fun q => { q with callbackEvent := some l.nextEvent }) rfl rfl

@[simp] theorem paramView_requestEventProc (req : Option ReqId) :
    (l.requestEventProc req).paramView = l.paramView := by
  cases req <;> simp [requestEventProc]

@[simp] theorem paramView_requestRunError (e : Str) :
    (l.requestRunError r e).paramView = l.paramView := by
  simp only [requestRunError]
  split_ifs <;> simp

@[simp] theorem paramView_requestRunFinish (res : CURLcode) :
    (l.requestRunFinish r res).paramView = l.paramView := by
  simp [requestRunFinish]

/-! ### The pool -/

@[simp] theorem paramView_poolActivate : (l.poolActivate p).paramView = l.paramView := rfl

@[simp] theorem paramView_poolDeactivate : (l.poolDeactivate p).paramView = l.paramView := rfl

@[simp] theorem paramView_poolInsert : (l.poolInsert p r).paramView = l.paramView := by
  simp only [poolInsert]
  split_ifs <;> simp

@[simp] theorem paramView_poolAddRequest (env : CurlEnv) :
    (l.poolAddRequest env r).1.paramView = l.paramView :=
  l.poolAddRequest_rule (P := fun l' => l'.paramView = l.paramView) env r rfl rfl
    fun l' p h => (l'.paramView_poolInsert r p).trans h

@[simp] theorem paramView_poolRemoveRequest :
    (l.poolRemoveRequest r).paramView = l.paramView := by
  unfold poolRemoveRequest
  cases (l.request r).pool with
  | none => rfl
  | some p =>
    have hdetach : (l.poolDetach p r).paramView = l.paramView := by simp [poolDetach]
    simp only [poolAbort]
    split_ifs <;> simp [hdetach]

@[simp] theorem paramView_poolCompleteRequest (msg : CURLMsg) :
    (l.poolCompleteRequest msg).paramView = l.paramView := by
  simp [poolCompleteRequest]

@[simp] theorem paramView_poolDrain (fuel : ℕ) : (poolDrain p fuel l).paramView = l.paramView := by
  induction fuel generalizing l with
  | zero => rfl
  | succ fuel ih =>
    simp only [poolDrain]
    split
    · rfl
    · split <;> simp [ih]

@[simp] theorem paramView_poolEventCheckFinish (n : ℕ) :
    (l.poolEventCheckFinish p n).paramView = l.paramView := by
  simp only [poolEventCheckFinish, poolEventCheckDrain]
  split_ifs
  · rfl
  · exact paramView_poolDrain l p _
  · exact paramView_poolDrain l p _

@[simp] theorem paramView_poolEventSetup (b : Bool) (t : Option ℤ) :
    (l.poolEventSetup p b t).1.paramView = l.paramView := by
  obtain ⟨v, hv⟩ := l.poolEventSetup_eq p b t
  rw [hv, paramView_modifyPool]

@[simp] theorem paramView_poolEventCheckStart (b : Bool) (w : Option ℕ) :
    (l.poolEventCheckStart p b w).1.paramView = l.paramView := by
  obtain ⟨v, hv⟩ := l.poolEventCheckStart_eq p b w
  rw [hv, paramView_modifyPool]

@[simp] theorem paramView_poolFreeLoop (rs : List ReqId) :
    (poolFreeLoop p rs l).paramView = l.paramView := by
  induction rs generalizing l with
  | nil => rfl
  | cons r rs ih => simp [poolFreeLoop, ih]

@[simp] theorem paramView_poolThreadExitProc : l.poolThreadExitProc.paramView = l.paramView := by
  unfold poolThreadExitProc
  cases l.poolDefault with
  | none => rfl
  | some p => exact paramView_poolFreeLoop (l.modifyPool p _) p _

/-! ### Release -/

@[simp] theorem paramView_sessionRemoveRequest :
    (l.sessionRemoveRequest r).paramView = l.paramView := by
  unfold sessionRemoveRequest
  split <;> simp

@[simp] theorem paramView_requestFreeStart : (l.requestFreeStart r).paramView = l.paramView := by
  have hevent : (l.detachCallbackEvent r).paramView = l.paramView := by
    unfold detachCallbackEvent
    split <;> rfl
  simp [requestFreeStart, hevent]

@[simp] theorem paramView_deleteCommand : (l.deleteCommand tok).paramView = l.paramView := by
  unfold deleteCommand
  split <;> rfl

@[simp] theorem paramView_requestFreeFinish : (l.requestFreeFinish r).paramView = l.paramView := by
  have hcommand : (l.requestFreeCommand r).paramView = l.paramView := by
    unfold requestFreeCommand
    split_ifs <;> simp
  exact hcommand

@[simp] theorem paramView_createHandle : (l.createHandle r).paramView = l.paramView := by
  simp [createHandle]

end Frames

/-! ### Creation -/

section Creation
variable {l : Lib} {v : ParamView} {r : ReqId}

/-- An object that did not exist may be given anything. -/
theorem keeps_modifyRequest (h : v.Keeps l.paramView) (hr : v.nextRequest ≤ r)
    (f : Request → Request) : v.Keeps (l.modifyRequest r f).paramView := by
  have hne : ∀ x < v.nextRequest, (l.modifyRequest r f).request x = l.request x := fun x hx =>
    Function.update_of_ne (Nat.ne_of_lt (Nat.lt_of_lt_of_le hx hr)) _ _
  refine ⟨fun x hx => ?_, fun x hx => ?_, h.sesParams, h.nextRequest, h.nextSession⟩
  · rw [← h.params x hx]
    exact congrArg Request.toRequestParams (hne x hx)
  · rw [← h.settings x hx]
    exact congrArg Request.curlEasy (hne x hx)

theorem keeps_initRequest (l : Lib) : l.paramView.Keeps l.initRequest.paramView := by
  have hne : ∀ x < l.nextRequest, l.initRequest.request x = l.request x := fun x hx =>
    Function.update_of_ne (Nat.ne_of_lt hx) _ _
  exact ⟨fun x hx => congrArg Request.toRequestParams (hne x hx),
    fun x hx => congrArg Request.curlEasy (hne x hx), fun _ _ => rfl, Nat.le_succ _, Nat.le_refl _⟩

theorem keeps_newRequest {env : CurlEnv} {session : Option SesId} {l' : Lib}
    (h : l.newRequest env session = some (l', r)) :
    (r = l.nextRequest ∧ l'.nextRequest = l.nextRequest + 1) ∧ l.paramView.Keeps l'.paramView := by
  obtain ⟨rfl, rfl⟩ := newRequest_eq_some h
  have hinit := l.keeps_initRequest
  cases session with
  | none => exact ⟨⟨rfl, rfl⟩, hinit⟩
  | some i =>
    refine ⟨⟨rfl, rfl⟩, ?_⟩
    rw [Option.elim_some, sessionInsert, paramView_modifySession _ _ _ rfl]
    exact keeps_modifyRequest hinit (Nat.le_refl _) _

theorem settings_newRequest {env : CurlEnv} {session : Option SesId} {l' : Lib}
    (h : l.newRequest env session = some (l', r)) :
    l'.settings r = initCalls ++ session.elim [] sessionCalls := by
  obtain ⟨rfl, rfl⟩ := newRequest_eq_some h
  cases session <;> simp [settings, initRequest, sessionInsert, modifyRequest, modifySession]

theorem inherited_newRequest {env : CurlEnv} {session : Option SesId} {l' : Lib}
    (h : l.newRequest env session = some (l', r)) : l'.inherited session = l.inherited session := by
  obtain ⟨-, rfl⟩ := newRequest_eq_some h
  cases session with
  | none => rfl
  | some i => simp [inherited, initRequest, sessionInsert, modifyRequest, modifySession]

/-- The start of a request adds to its settings those of its parameters. -/
theorem paramView_requestRunStart (l : Lib) (r : ReqId) (env : CurlEnv) :
    (l.requestRunStart env r).1.paramView = (l.modifyRequest r fun q => { q with
      curlEasy := q.curlEasy ++ (requestSetup env (l.request r).toRequestParams).1 }).paramView := by
  simp only [requestRunStart]
  split
  · simp
  · split_ifs <;> simp

/-- What a new request is given: the parameters made of its options and of the session,
and the settings of every request, those of its session and those of its parameters. -/
theorem given_createNewRequest {api : Api} {env : CurlEnv} {interp : InterpId} {call : CreateCall}
    {session : Option SesId} {l' : Lib} {simple performing : Bool}
    (h : l.createNewRequest api env interp call session = .created l' r simple performing) :
    r = l.nextRequest ∧ ∃ opt, requestOptions api call.method call.objv = .ok opt ∧
      let params := requestParams (l.inherited session) call.method call.customMethod
        (call.objv.headD []) opt
      r < l'.paramView.nextRequest ∧ l'.paramView.params r = params ∧
        l'.paramView.settings r =
          initCalls ++ session.elim [] sessionCalls ++ (requestSetup env params).1 := by
  obtain ⟨opt, l₁, hopt, -, hnew, hrun⟩ := createNewRequest_eq_created h
  obtain ⟨⟨hr, hnext⟩, -⟩ := keeps_newRequest hnew
  refine ⟨hr, opt, hopt, ?_⟩
  intro params
  rw [inherited_newRequest hnew] at hrun
  have hview := paramView_requestRunStart (l₁.fillRequest r params interp) r env
  rw [hrun] at hview
  rw [hview]
  have hset := settings_newRequest hnew
  simp only [settings] at hset
  refine ⟨?_, ?_, ?_⟩
  · change r < l₁.nextRequest
    rw [hr, hnext]
    exact Nat.lt_succ_self _
  · simp [paramView, fillRequest, modifyRequest]
  · simp [paramView, settings, fillRequest, modifyRequest, hset, params]

theorem keeps_requestRunStart (h : v.Keeps l.paramView) (hr : v.nextRequest ≤ r) (env : CurlEnv) :
    v.Keeps (l.requestRunStart env r).1.paramView := by
  rw [paramView_requestRunStart]
  exact keeps_modifyRequest h hr _

theorem keeps_createNewRequest {api : Api} {env : CurlEnv} {interp : InterpId} {call : CreateCall}
    {session : Option SesId} {l' : Lib} {simple performing : Bool}
    (h : l.createNewRequest api env interp call session = .created l' r simple performing) :
    l.paramView.Keeps l'.paramView := by
  obtain ⟨opt, l₁, -, -, hnew, hrun⟩ := createNewRequest_eq_created h
  obtain ⟨⟨rfl, -⟩, hk⟩ := keeps_newRequest hnew
  rw [← show _ = l' from congrArg Prod.fst hrun]
  exact keeps_requestRunStart (keeps_modifyRequest hk (Nat.le_refl _) _) (Nat.le_refl _) env

theorem keeps_sessionCmd {api : Api} {interp : InterpId} {objv : List Str} {shareInit : Bool}
    {l' : Lib} {i : SesId} (h : l.sessionCmd api interp objv shareInit = .ok (l', i)) :
    l.paramView.Keeps l'.paramView ∧ i < l'.nextSession ∧
      ∃ opt, sessionOptions api objv = .ok opt ∧ l'.paramView.sesParams i = sessionParams opt := by
  unfold sessionCmd at h
  split at h
  · cases h
  · rename_i opt hopt
    split_ifs at h
    cases h
    refine ⟨⟨fun _ _ => rfl, fun _ _ => rfl, fun x hx => ?_, Nat.le_refl _, Nat.le_succ _⟩,
      Nat.lt_succ_self _, opt, hopt, ?_⟩
    · exact congrArg Session.toSessionParams (Function.update_of_ne (Nat.ne_of_lt hx) _ _)
    · simp [paramView]

end Creation

end Lib

/-! ### Steps and runs -/

namespace Machine
variable (m : Machine)

theorem paramView_sessionFreeLoop (i : SesId) :
    (m.sessionFreeLoop i).lib.paramView = m.lib.paramView := by
  unfold sessionFreeLoop
  split
  · rfl
  · simp [setLib, requestFree, Lib.clearSession]

theorem paramView_deleteSessionCommand (i : SesId) :
    (m.deleteSessionCommand i).lib.paramView = m.lib.paramView := by
  unfold deleteSessionCommand
  split
  · exact (paramView_sessionFreeLoop _ i).trans rfl
  · exact m.lib.paramView_deleteCommand _

theorem paramView_deleteRequestCommand (r : ReqId) :
    (m.deleteRequestCommand r).lib.paramView = m.lib.paramView := by
  unfold deleteRequestCommand
  split
  · split_ifs
    · rfl
    · simp [setLib, requestFree, Lib.clearCmdToken]
  · exact m.lib.paramView_deleteCommand _

theorem paramView_createFinish (r : ReqId) (simple : Bool) :
    (m.createFinish r simple).lib.paramView = m.lib.paramView := by
  unfold createFinish
  split_ifs
  · exact m.lib.paramView_requestFreeStart r
  · exact m.lib.paramView_createHandle r

theorem paramView_cleanupFinish (r : ReqId) (caller : Caller) :
    (m.cleanupFinish r caller).lib.paramView = m.lib.paramView := by
  unfold cleanupFinish
  cases caller with
  | command => simp [setLib]
  | simple => simp [setLib]
  | session i => simp [paramView_sessionFreeLoop, setLib, Lib.dropRequest]

theorem paramView_serviceEvent (b : Bool) : (m.lib.serviceEvent b).paramView = m.lib.paramView := by
  simp only [Lib.serviceEvent]
  split
  · exact Lib.paramView_requestEventProc _ _
  · rfl
  · rfl
  · rfl

theorem keeps_createNewRequest (api : Api) (env : CurlEnv) (interp : InterpId) (call : CreateCall)
    (session : Option SesId) :
    m.lib.paramView.Keeps (m.createNewRequest api env interp call session).lib.paramView := by
  unfold createNewRequest
  split
  · exact .refl _
  · rename_i hc
    exact Lib.keeps_createNewRequest hc
  · rename_i hc
    rw [paramView_createFinish]
    exact Lib.keeps_createNewRequest hc

/-- No action changes the parameters of what exists. -/
theorem keeps_next (api : Api) (a : Action) :
    m.lib.paramView.Keeps (m.next api a).lib.paramView := by
  have heq : ∀ {v : ParamView}, v = m.lib.paramView → m.lib.paramView.Keeps v := by
    rintro _ rfl
    exact .refl _
  cases a with
  | sessionCmd interp objv share =>
    simp only [next]
    split
    · exact .refl _
    · rename_i hl
      exact (Lib.keeps_sessionCmd hl).1
  | requestCmd interp name clientData args env =>
    simp only [next]
    split
    · exact .refl _
    · exact m.keeps_createNewRequest _ _ _ _ _
  | sessionHandle i name args env =>
    simp only [next]
    split
    · exact .refl _
    · exact heq (paramView_deleteSessionCommand _ i)
    · exact m.keeps_createNewRequest _ _ _ _ _
  | requestDestroy r byRename =>
    refine next_requestDestroy_rule ?_ fun _ _ => .refl _
    exact heq (paramView_deleteRequestCommand { m with result := .empty } r)
  | poolEventSetup p b t => exact heq (m.lib.paramView_poolEventSetup p b t)
  | poolEventCheck p b w =>
    have hstart := m.lib.paramView_poolEventCheckStart p b w
    simp only [next]
    split_ifs
    · exact heq hstart
    · exact heq hstart
  | serviceEvent b => exact heq (m.paramView_serviceEvent b)
  | queueOther b => exact .refl _
  | interpDelete i => exact .refl _
  | interpDeleteCommand tok =>
    cases tok with
    | request r => exact heq (m.paramView_deleteRequestCommand r)
    | session i => exact heq (m.paramView_deleteSessionCommand i)
  | interpDeleteDone => exact .refl _
  | threadExit => exact heq m.lib.paramView_poolThreadExitProc
  | curlComplete r result =>
    simp only [next]
    split <;> exact .refl _
  | curlWriteError r size contentSize result =>
    have herror := m.lib.paramView_requestSetError r (writeErrorText size contentSize)
    simp only [next]
    split
    · exact heq herror
    · exact heq herror
    · exact .refl _
  | performReturn ok =>
    simp only [next]
    split
    · cases ok with
      | false => exact .refl _
      | true => exact heq (Lib.paramView_poolEventCheckFinish _ _ _)
    · exact .refl _
  | easyPerformReturn res =>
    simp only [next]
    split
    · rename_i r simple wf stack _
      exact heq ((paramView_createFinish _ r simple).trans (m.lib.paramView_requestRunFinish r res))
    · exact .refl _
  | cleanupReturn =>
    simp only [next]
    split
    · rename_i r caller stack _
      exact heq (paramView_cleanupFinish { m with stack := stack } r caller)
    · exact .refl _

/-- No run changes the parameters of what exists when it starts. -/
theorem keeps_exec {api : Api} {m m' : Machine} {as : List Action}
    (h : Run.exec (step api) m as = some m') : m.lib.paramView.Keeps m'.lib.paramView := by
  apply Run.exec_invariant (I := fun t => m.lib.paramView.Keeps t.lib.paramView) _ (.refl _) h
  intro s a t hs hst
  obtain ⟨-, rfl⟩ := step_eq_some.mp hst
  exact hs.trans (s.keeps_next api a)

end Machine

end Trequests
