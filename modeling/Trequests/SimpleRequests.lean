import Trequests.Runs

/-! What a call that creates a request leaves behind when it fails, or when the request is
`-simple`. A simple request is put into the list of its session, run and released within
the call; since it is sync it has no pool and no callback, and since it has no command
nothing but the list and the count of releases shows that it has existed. -/

namespace Trequests

/-- The result of a command that has failed. -/
def CmdResult.isError : CmdResult → Bool
  | .error _ | .requestError _ => true
  | _ => false

namespace Lib

/-- The request has been created and not released. -/
def Live (l : Lib) (r : ReqId) : Prop := r < l.nextRequest ∧ l.freed r = 0

/-- The same requests are live, in the same lists, and the pools, the commands and the
events are the same. -/
structure SameObjects (l l' : Lib) : Prop where
  live : ∀ r, l'.Live r ↔ l.Live r
  requests : ∀ i, (l'.session i).requests = (l.session i).requests
  pool : l'.pool = l.pool
  command : l'.command = l.command
  queue : l'.queue = l.queue

theorem SameObjects.refl (l : Lib) : l.SameObjects l :=
  ⟨fun _ => Iff.rfl, fun _ => rfl, rfl, rfl, rfl⟩

/-- There is one request more, and it is known to nothing but its session. -/
structure NewRequest (l : Lib) (session : Option SesId) (l' : Lib) : Prop where
  nextRequest : l'.nextRequest = l.nextRequest + 1
  freed : l'.freed = l.freed
  pool : l'.pool = l.pool
  command : l'.command = l.command
  queue : l'.queue = l.queue
  requests : ∀ i, (l'.session i).requests =
    if session = some i then l.nextRequest :: (l.session i).requests else (l.session i).requests
  session : (l'.request l.nextRequest).session = session
  owner : (l'.request l.nextRequest).pool = none
  cmdToken : (l'.request l.nextRequest).cmdToken = false
  callbackEvent : (l'.request l.nextRequest).callbackEvent = none

section NewRequest
variable {l l' : Lib} {session : Option SesId} {env : CurlEnv} {r : ReqId}

theorem newRequest_of_newRequest (h : l.newRequest env session = some (l', r)) :
    r = l.nextRequest ∧ l.NewRequest session l' := by
  obtain ⟨rfl, rfl⟩ := newRequest_eq_some h
  have hnew : l.NewRequest none l.initRequest := by
    refine ⟨rfl, rfl, rfl, rfl, rfl, fun _ => rfl, ?_, ?_, ?_, ?_⟩ <;>
      simp [initRequest, Request.zero]
  cases session with
  | none => exact ⟨rfl, hnew⟩
  | some i =>
    refine ⟨rfl, hnew.nextRequest, hnew.freed, hnew.pool, hnew.command, hnew.queue, fun j => ?_,
      ?_, ?_, ?_, ?_⟩
    · have hj := hnew.requests j
      by_cases he : j = i
      · subst he
        simpa [sessionInsert, modifyRequest, modifySession] using hj
      · simpa [sessionInsert, modifyRequest, modifySession, he, Ne.symm he] using hj
    · simp [sessionInsert, modifyRequest, modifySession]
    · simpa [sessionInsert, modifyRequest, modifySession] using hnew.owner
    · simpa [sessionInsert, modifyRequest, modifySession] using hnew.cmdToken
    · simpa [sessionInsert, modifyRequest, modifySession] using hnew.callbackEvent

namespace NewRequest
variable (h : l.NewRequest session l')
include h

/-- The other fields of the request may change. -/
theorem modifyRequest (f : Request → Request) (hs : ∀ q, (f q).session = q.session)
    (hp : ∀ q, (f q).pool = q.pool) (hc : ∀ q, (f q).cmdToken = q.cmdToken)
    (he : ∀ q, (f q).callbackEvent = q.callbackEvent) :
    l.NewRequest session (l'.modifyRequest l.nextRequest f) where
  nextRequest := h.nextRequest
  freed := h.freed
  pool := h.pool
  command := h.command
  queue := h.queue
  requests := h.requests
  session := by simpa [Lib.modifyRequest, hs] using h.session
  owner := by simpa [Lib.modifyRequest, hp] using h.owner
  cmdToken := by simpa [Lib.modifyRequest, hc] using h.cmdToken
  callbackEvent := by simpa [Lib.modifyRequest, he] using h.callbackEvent

theorem setState (state : RequestState) :
    l.NewRequest session (l'.setState l.nextRequest state) := by
  have h := h.modifyRequest (fun q => { q with state }) (fun _ => rfl) (fun _ => rfl)
    (fun _ => rfl) fun _ => rfl
  exact ⟨h.nextRequest, h.freed, h.pool, h.command, h.queue, h.requests, h.session, h.owner,
    h.cmdToken, h.callbackEvent⟩

theorem requestSetError (error : Str) :
    l.NewRequest session (l'.requestSetError l.nextRequest error) :=
  (h.modifyRequest (fun q => { q with error := some error }) (fun _ => rfl) (fun _ => rfl)
    (fun _ => rfl) fun _ => rfl).setState .error

/-- A sync request is known to nothing else when it starts, or fails to. -/
theorem requestRunStart (hsync : (l'.request l.nextRequest).async = false) (env : CurlEnv) :
    l.NewRequest session (l'.requestRunStart env l.nextRequest).1 := by
  simp only [Lib.requestRunStart]
  set l₁ := l'.modifyRequest l.nextRequest _ with hl₁
  have h₁ : l.NewRequest session l₁ :=
    h.modifyRequest _ (fun _ => rfl) (fun _ => rfl) (fun _ => rfl) fun _ => rfl
  have hsync₁ : (l₁.request l.nextRequest).async = false := by
    simpa [hl₁, Lib.modifyRequest] using hsync
  split
  · rename_i e _
    have herror : ((l₁.requestSetError l.nextRequest e).request l.nextRequest).async = false := by
      simpa [Lib.requestSetError, Lib.setState, Lib.modifyRequest] using hsync₁
    rw [requestRunError, if_neg (by simp [herror])]
    exact h₁.requestSetError e
  · rw [if_neg (by simpa [Lib.setState, Lib.modifyRequest] using hsync₁)]
    exact h₁.setState .inprogress

/-- The first part of the release takes it out of its session. -/
theorem requestFreeStart : l.NewRequest none (l'.requestFreeStart l.nextRequest) := by
  have hevent : l'.detachCallbackEvent l.nextRequest = l' := by
    rw [detachCallbackEvent, h.callbackEvent]
  have hremove : l.NewRequest none (l'.sessionRemoveRequest l.nextRequest) := by
    unfold sessionRemoveRequest
    rw [h.session]
    cases session with
    | none => exact h
    | some i =>
      refine ⟨h.nextRequest, h.freed, h.pool, h.command, h.queue, fun j => ?_, ?_, ?_, ?_, ?_⟩
      · have hj := h.requests j
        by_cases he : j = i
        · subst he
          rw [if_pos rfl] at hj
          simp [Lib.modifyRequest, modifySession, hj]
        · simpa [Lib.modifyRequest, modifySession, he, Ne.symm he] using hj
      · simp [Lib.modifyRequest, modifySession]
      · simpa [Lib.modifyRequest, modifySession] using h.owner
      · simpa [Lib.modifyRequest, modifySession] using h.cmdToken
      · simpa [Lib.modifyRequest, modifySession] using h.callbackEvent
  rw [Lib.requestFreeStart, hevent, poolRemoveRequest, hremove.owner]
  exact hremove

end NewRequest

/-- The last part leaves nothing of it. -/
theorem NewRequest.requestFreeFinish (h : l.NewRequest none l') :
    l.SameObjects (l'.requestFreeFinish l.nextRequest) := by
  have hcommand : l'.requestFreeCommand l.nextRequest = l' := by
    rw [requestFreeCommand, if_neg (by simp [h.cmdToken])]
  rw [Lib.requestFreeFinish, hcommand]
  refine ⟨fun x => ?_, fun i => h.requests i, h.pool, h.command, h.queue⟩
  unfold Live
  simp only [h.nextRequest]
  by_cases hx : x = l.nextRequest
  · subst hx
    simp
  · rw [Function.update_of_ne hx, h.freed]
    have hlt : x < l.nextRequest + 1 ↔ x < l.nextRequest :=
      ⟨fun h => Nat.lt_of_le_of_ne (Nat.le_of_lt_succ h) hx, Nat.lt_succ_of_lt⟩
    rw [hlt]

end NewRequest

end Lib

namespace Machine

/-! ### The steps of a call -/

section Steps
variable {m : Machine} {a : Action} {r : ReqId} {stack : List Frame}

/-- In `curl_easy_perform`, unless a script runs, libcurl stores data or returns. -/
theorem enabled_run {simple wf : Bool} (hs : m.stack = .run r simple wf :: stack)
    (ha : m.enabled a = true) (hscript : a.isScript = false) :
    (∃ size contentSize result, a = .curlWriteError r size contentSize result) ∨
      ∃ res, a = .easyPerformReturn res := by
  cases a <;> simp [enabled, hs, Action.isScript] at ha hscript ⊢
  exact ha

/-- `curl_easy_cleanup` returns, unless a script runs. -/
theorem enabled_cleanup {caller : Caller} (hs : m.stack = .cleanup r caller :: stack)
    (ha : m.enabled a = true) (hscript : a.isScript = false) : a = .cleanupReturn := by
  cases a <;> simp [enabled, hs, Action.isScript] at ha hscript ⊢

end Steps

/-- How far a call has got that has been made in `m`: the request runs, or it is released,
or the call has left the objects as they were, or it has made a handle. -/
inductive CallPhase (m : Machine) (session : Option SesId) (simple : Bool) (s : Machine) : Prop where
  | run (wf : Bool) (hs : s.stack = .run m.lib.nextRequest simple wf :: m.stack)
    (h : simple = true → m.lib.NewRequest session s.lib)
  | cleanup (hs : s.stack = .cleanup m.lib.nextRequest .simple :: m.stack)
    (h : m.lib.NewRequest none s.lib)
  | undone (hs : s.stack = m.stack) (h : m.lib.SameObjects s.lib)
  | handle (hs : s.stack = m.stack) (hsimple : simple = false)
    (h : s.result = .handle (.request m.lib.nextRequest))

section Phases
variable {api : Api} {env : CurlEnv} {interp : InterpId} {call : CreateCall}
  {session : Option SesId} {m s : Machine} {simple : Bool}

/-- The end of a call, or of its first half. -/
theorem callPhase_createFinish (hs : s.stack = m.stack)
    (h : simple = true → m.lib.NewRequest session s.lib) :
    CallPhase m session simple (s.createFinish m.lib.nextRequest simple) := by
  unfold createFinish
  cases simple with
  | false => exact .handle hs rfl rfl
  | true => exact .cleanup (congrArg _ hs) (h rfl).requestFreeStart

theorem callPhase_createNewRequest (m : Machine) : ∃ simple,
    (∀ opt, requestOptions api call.method call.objv = .ok opt → opt.simple = simple) ∧
      CallPhase m session simple (m.createNewRequest api env interp call session) := by
  unfold createNewRequest
  cases hc : m.lib.createNewRequest api env interp call session with
  | failed e =>
    refine ⟨(requestOptions api call.method call.objv).toOption.elim false ValidOptions.simple, ?_,
      .undone rfl (.refl _)⟩
    intro opt hopt
    rw [hopt]
    rfl
  | created l r simple performing =>
    obtain ⟨opt, l₁, hopt, hsimple, hnew, hrun⟩ := Lib.createNewRequest_eq_created hc
    obtain ⟨rfl, hone⟩ := Lib.newRequest_of_newRequest hnew
    refine ⟨simple, fun opt' hopt' => ?_, ?_⟩
    · cases hopt.symm.trans hopt'
      exact hsimple
    · have h : simple = true → m.lib.NewRequest session l := by
        intro htrue
        have hsync : opt.async = false := requestOptions_async hopt (hsimple.trans htrue)
        set params := requestParams (l₁.inherited session) call.method call.customMethod
          (call.objv.headD []) opt with hparams
        have hfill : m.lib.NewRequest session (l₁.fillRequest m.lib.nextRequest params interp) :=
          hone.modifyRequest _ (fun _ => rfl) (fun _ => rfl) (fun _ => rfl) fun _ => rfl
        rw [← show _ = l from congrArg Prod.fst hrun]
        apply hfill.requestRunStart
        simpa [Lib.fillRequest, Lib.modifyRequest, hparams, requestParams] using hsync
      cases performing with
      | true => exact .run false rfl h
      | false => exact callPhase_createFinish (s := m.setLib l) rfl h

theorem CallPhase.next {a : Action} (h : CallPhase m session simple s)
    (ha : s.enabled a = true) (hscript : a.isScript = false)
    (hlen : m.stack.length < s.stack.length) : CallPhase m session simple (s.next api a) := by
  cases h with
  | run wf hs h =>
    rcases enabled_run hs ha hscript with ⟨size, contentSize, result, rfl⟩ | ⟨res, rfl⟩
    · refine .run true ?_ fun hsimple => ?_
      · simp [Machine.next, hs]
      · simpa [Machine.next, hs] using (h hsimple).requestSetError _
    · have hnext : s.next api (.easyPerformReturn res) =
          ({ s with lib := s.lib.requestRunFinish m.lib.nextRequest res, stack := m.stack } :
            Machine).createFinish m.lib.nextRequest simple := by
        simp [Machine.next, hs]
      rw [hnext]
      exact callPhase_createFinish rfl fun hsimple => (h hsimple).setState _
  | cleanup hs h =>
    obtain rfl := enabled_cleanup hs ha hscript
    refine .undone ?_ ?_
    · simp [Machine.next, hs, cleanupFinish, setLib]
    · simpa [Machine.next, hs, cleanupFinish, setLib] using h.requestFreeFinish
  | undone hs _ =>
    rw [hs] at hlen
    exact absurd hlen (Nat.lt_irrefl _)
  | handle hs _ _ =>
    rw [hs] at hlen
    exact absurd hlen (Nat.lt_irrefl _)

/-- A call of `treq_CreateNewRequest` made in `m` returns in `m'`, and no script runs
meanwhile. -/
def CreateReturns (api : Api) (env : CurlEnv) (interp : InterpId) (call : CreateCall)
    (session : Option SesId) (m m' : Machine) : Prop :=
  ∃ as, Run.exec (step api) (m.createNewRequest api env interp call session) as = some m' ∧
    Run.Along (step api) (fun s a => a.isScript = false ∧ m.stack.length < s.stack.length)
      (m.createNewRequest api env interp call session) as ∧
    m'.stack = m.stack

/-- A call that fails, or whose request is simple, leaves the live requests, the lists of the
sessions, the pools with their counters, the commands and the events as they were. -/
theorem sameObjects_of_createReturns {m' : Machine}
    (h : CreateReturns api env interp call session m m')
    (hresult : m'.result.isError = true ∨
      ∃ opt, requestOptions api call.method call.objv = .ok opt ∧ opt.simple = true) :
    m.lib.SameObjects m'.lib := by
  obtain ⟨as, he, halong, hstack⟩ := h
  obtain ⟨simple, hsimple, hphase⟩ : ∃ simple,
      (∀ opt, requestOptions api call.method call.objv = .ok opt → opt.simple = simple) ∧
        CallPhase m session simple (m.createNewRequest api env interp call session) :=
    callPhase_createNewRequest m
  have hend : CallPhase m session simple m' := by
    apply Run.exec_preserves _ hphase halong he
    rintro s a t hs ⟨hscript, hlen⟩ hst
    obtain ⟨ha, rfl⟩ := step_eq_some.mp hst
    exact hs.next ha hscript hlen
  cases hend with
  | run wf hs _ => simp [hstack] at hs
  | cleanup hs _ => simp [hstack] at hs
  | undone _ h => exact h
  | handle _ hfalse h =>
    rcases hresult with herror | ⟨opt, hopt, htrue⟩
    · rw [h] at herror
      cases herror
    · rw [hsimple opt hopt, hfalse] at htrue
      cases htrue

end Phases

/-- `get http://localhost -simple` -/
def simpleGet : CreateCall := ⟨.get, none, [lit "http://localhost", lit "-simple"]⟩

theorem sameObjects_of_createReturns_simpleGet : ∃ m m', (m.lib.session 0).requests = [] ∧
    CreateReturns Api.plain .willing 0 simpleGet (some 0) m m' ∧ m.lib.SameObjects m'.lib := by
  set m := init.next Api.plain (.sessionCmd 0 [lit "session"] true)
  obtain ⟨m', hm', hstack⟩ := (Option.any_eq_true _ _).mp (show (Run.exec (step Api.plain)
    (m.createNewRequest Api.plain .willing 0 simpleGet (some 0))
    [.easyPerformReturn curleOk, .cleanupReturn]).any (fun m' => m'.stack = m.stack) = true by
    decide +kernel)
  obtain ⟨opt, hopt, hsimple⟩ := exists_ok_of_any (show (requestOptions Api.plain simpleGet.method
    simpleGet.objv).toOption.any (fun opt => opt.simple) = true by decide +kernel)
  have hreturns : CreateReturns Api.plain .willing 0 simpleGet (some 0) m m' :=
    ⟨_, hm', by decide +kernel, of_decide_eq_true hstack⟩
  exact ⟨m, m', by decide +kernel, hreturns,
    sameObjects_of_createReturns hreturns (Or.inr ⟨opt, hopt, hsimple⟩)⟩

end Machine

end Trequests
