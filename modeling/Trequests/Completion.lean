import Trequests.ScheduleMachine

/-! What the bookkeeping of the pool is for. Its redundant parts agree in every state,
and so the comparison of two numbers after a perform tells whether a transfer is over:
the early exit of `treq_PoolEventCheck` leaves the same behind as reading the messages
always. -/

namespace Trequests

/-- The state a finished transfer leaves its request in. -/
def CURLMsg.finalState (msg : CURLMsg) : RequestState :=
  if msg.result = curleOk then .done else .error

namespace Lib

/-- The queued callback events and the requests they refer to. -/
def callbacks (l : Lib) : List (EventId × Option ReqId) :=
  l.queue.filterMap fun
    | .request id req => some (id, req)
    | _ => none

/-- The callback of the request can be scheduled. -/
def callbackDue (l : Lib) (r : ReqId) : Bool :=
  (l.request r).callback ≠ none ∧ ¬ l.interpDeleted (l.request r).interp

/-- The library after the messages `read` of a pool have been dealt with. -/
structure Drained (l : Lib) (p : PoolId) (read : List CURLMsg) (l' : Lib) : Prop where
  requests : (l'.pool p).requests =
    (l.pool p).requests.filter (· ∉ read.map CURLMsg.easyHandle)
  count : (l'.pool p).activeConnectionCount = (l.pool p).activeConnectionCount - read.length
  finished : ∀ msg ∈ read, (l'.request msg.easyHandle).state = msg.finalState ∧
    (l'.request msg.easyHandle).pool = none
  stateLog : l'.stateLog = l.stateLog ++ read.map fun msg => (msg.easyHandle, msg.finalState)
  due : l'.callbackDue = l.callbackDue
  callbacks : l'.callbacks.map Prod.snd = l.callbacks.map Prod.snd ++
    ((read.map CURLMsg.easyHandle).filter l.callbackDue).map some

theorem drained_nil (l : Lib) (p : PoolId) : Drained l p [] l := by
  constructor <;> simp

variable {l l' : Lib} {p : PoolId} {r : ReqId}

theorem callbackDue_eq_of_callbackView (h : l'.callbackView.callback = l.callbackView.callback)
    (hi : l'.callbackView.interp = l.callbackView.interp)
    (hd : l'.callbackView.interpDeleted = l.callbackView.interpDeleted) :
    l'.callbackDue = l.callbackDue := by
  funext r
  have h₁ : (l'.request r).callback = (l.request r).callback := congrFun h r
  have h₂ : (l'.request r).interp = (l.request r).interp := congrFun hi r
  have h₃ : l'.interpDeleted = l.interpDeleted := hd
  simp only [callbackDue, h₁, h₂, h₃]

theorem callbacks_requestScheduleCallback :
    (l.requestScheduleCallback r).callbacks.map Prod.snd =
      l.callbacks.map Prod.snd ++ if l.callbackDue r then [some r] else [] := by
  unfold requestScheduleCallback callbackDue
  split_ifs with hc hd <;> simp_all [callbacks]

theorem callbacks_poolDrainPass (p : PoolId) (msg : CURLMsg) (msgs : List CURLMsg) :
    (l.poolDrainPass p msg msgs).callbacks.map Prod.snd = l.callbacks.map Prod.snd ++
      if l.callbackDue msg.easyHandle then [some msg.easyHandle] else [] := by
  simp only [poolDrainPass, poolCompleteRequest, callbacks_requestScheduleCallback]
  set l₁ := (l.modifyPool p fun q => q.setMsgs msgs).setState msg.easyHandle
    (if msg.result = curleOk then .done else .error) with hl₁
  have hs : (l₁.request msg.easyHandle).state ≠ .inprogress := by
    simp only [hl₁, setState, modifyRequest, Function.update_self]
    split_ifs <;> simp
  have hv : (l₁.poolRemoveRequest msg.easyHandle).callbacks = l.callbacks ∧
      (l₁.poolRemoveRequest msg.easyHandle).callbackView = l₁.callbackView := by
    rcases poolRemoveRequest_of_state hs with h | ⟨q, h⟩ <;> rw [h]
    · exact ⟨rfl, rfl⟩
    · exact ⟨rfl, callbackView_poolDetach l₁ msg.easyHandle q⟩
  have hd : (l₁.poolRemoveRequest msg.easyHandle).callbackDue = l.callbackDue := by
    refine callbackDue_eq_of_callbackView ?_ ?_ ?_ <;> rw [hv.2, hl₁, callbackView_setState] <;> rfl
  rw [hv.1, hd]

theorem callbackView_schedule (v : CallbackView) (r : ReqId) :
    ∃ scheduled, v.schedule r = { v with scheduled } := by
  unfold CallbackView.schedule
  split_ifs
  · exact ⟨v.scheduled, rfl⟩
  · exact ⟨v.scheduled, rfl⟩
  · exact ⟨v.scheduled ++ [r], rfl⟩

/-- A pass of the loop reads one more message. -/
theorem Drained.pass {read msgs : List CURLMsg} {msg : CURLMsg} (h : Drained l p read l')
    (hw : PoolsOk l'.poolView) (hc : l'.poolView.inCallback p = false)
    (hm : (l'.pool p).curlMulti.msgs = msg :: msgs) :
    Drained l p (read ++ [msg]) (l'.poolDrainPass p msg msgs) := by
  obtain ⟨ho, -⟩ := hw.detach_setMsgs hm hc
  have hdead := hw.alive p (hw.live_of_owner ho).2
  have hv := poolView_poolDrainPass hw hm hc
  have hpool := congrFun (congrArg PoolView.pool hv) p
  have howner := congrArg PoolView.owner hv
  simp only [PoolView.detach, PoolView.modifyPool, Function.update_self, poolView_pool] at hpool howner
  have hview : (l'.poolDrainPass p msg msgs).callbackView = _ :=
    l'.callbackView_poolDrainPass p msg msgs
  obtain ⟨scheduled, hs⟩ := callbackView_schedule
    (l'.callbackView.setState msg.easyHandle (if msg.result = curleOk then .done else .error))
    msg.easyHandle
  rw [hs] at hview
  have hstate := congrArg CallbackView.state hview
  have hdue : (l'.poolDrainPass p msg msgs).callbackDue = l'.callbackDue :=
    callbackDue_eq_of_callbackView (by rw [hview]; rfl) (by rw [hview]; rfl) (by rw [hview]; rfl)
  constructor
  · rw [hpool]
    have hd : (l'.pool p).isDead = false := hdead
    have hnd : (l'.pool p).requests.Nodup := (hw.wellFormed p).nodup
    simp only [Pool.detach, Pool.setMsgs, hd, Bool.false_eq_true, ↓reduceIte]
    rw [hnd.erase_eq_filter, h.requests, List.filter_filter]
    apply List.filter_congr
    intro x _
    have hmem : x ∈ (read ++ [msg]).map CURLMsg.easyHandle ↔
        x ∈ read.map CURLMsg.easyHandle ∨ x = msg.easyHandle := by
      rw [List.map_append, List.mem_append, List.map_singleton, List.mem_singleton]
    rw [Bool.eq_iff_iff, Bool.and_eq_true, bne_iff_ne, decide_eq_true_eq, decide_eq_true_eq, hmem,
      not_or, and_comm]
  · rw [hpool]
    simp only [Pool.detach, Pool.setMsgs, h.count, List.length_append, List.length_singleton]
    omega
  · intro msg' hmem
    have hst : ((l'.poolDrainPass p msg msgs).request msg'.easyHandle).state =
        Function.update (fun r => (l'.request r).state) msg.easyHandle msg.finalState
          msg'.easyHandle := congrFun hstate msg'.easyHandle
    have how : ((l'.poolDrainPass p msg msgs).request msg'.easyHandle).pool =
        Function.update (fun r => (l'.request r).pool) msg.easyHandle none
          msg'.easyHandle := congrFun howner msg'.easyHandle
    rw [hst, how]
    rcases List.mem_append.mp hmem with hmem | hmem
    · have hne : msg'.easyHandle ≠ msg.easyHandle := fun he => by
        have hnone : l'.poolView.owner msg'.easyHandle = none := (h.finished msg' hmem).2
        rw [he, ho] at hnone
        cases hnone
      simpa [hne] using h.finished msg' hmem
    · rw [List.mem_singleton.mp hmem]
      simp
  · have hlog := congrArg CallbackView.stateLog hview
    change (l'.poolDrainPass p msg msgs).stateLog = l'.stateLog ++ [_] at hlog
    rw [hlog, h.stateLog, List.map_append, List.append_assoc]
    rfl
  · rw [hdue, h.due]
  · rw [callbacks_poolDrainPass, h.callbacks, h.due]
    cases hd : l.callbackDue msg.easyHandle <;> simp [hd]

/-- After the loop every message has been dealt with. -/
theorem drained_poolDrain (hw : PoolsOk l.poolView) (hc : l.poolView.inCallback p = false) :
    Drained l p (l.pool p).curlMulti.msgs (poolDrain p (l.pool p).curlMulti.msgs.length l) := by
  have h := (poolDrain_rule
    (I := fun rest l' => ∃ read, (l.pool p).curlMulti.msgs = read ++ rest ∧ Drained l p read l')
    (fun l' msg msgs hok hc' hm ⟨read, hr, hd⟩ =>
      ⟨read ++ [msg], by rw [hr, List.append_assoc]; rfl, hd.pass hok hc' hm⟩)
    hw hc ⟨[], rfl, drained_nil l p⟩).1
  obtain ⟨read, hr, hd⟩ := h
  rw [List.append_nil] at hr
  rwa [← hr] at hd

/-- With or without the early exit, every message has been dealt with in the end. -/
theorem drained_poolEventCheckFinish (hw : PoolsOk l.poolView)
    (hc : l.poolView.inCallback p = false) :
    Drained l p (l.pool p).curlMulti.msgs
      (l.poolEventCheckFinish p (l.pool p).curlMulti.running) := by
  have hd := drained_poolDrain hw hc
  simp only [poolEventCheckFinish, poolEventCheckDrain]
  split_ifs with hn
  · have hwf := hw.wellFormed p
    have hnil := hwf.running_eq_count_iff.mp hn
    rw [hwf.completed] at hnil
    rw [show (l.pool p).curlMulti.msgs = [] from List.map_eq_nil_iff.mp hnil]
    exact drained_nil l p
  · -- the event that is queued at the head is not a callback event
    exact ⟨hd.requests, hd.count, hd.finished, hd.stateLog, hd.due, hd.callbacks⟩
  · exact hd

/-- What the early exit changes. -/
theorem poolEventCheckFinish_eq_drain (hw : PoolsOk l.poolView) :
    let fast := l.poolEventCheckFinish p (l.pool p).curlMulti.running
    let full := l.poolEventCheckDrain p (l.pool p).curlMulti.running
    fast.request = full.request ∧ fast.pool = full.pool ∧ fast.callbacks = full.callbacks ∧
      fast.stateLog = full.stateLog ∧ fast.scheduled = full.scheduled := by
  intro fast full
  have hsame : ∀ {l₁ l₂ : Lib}, l₁ = l₂ → l₁.request = l₂.request ∧ l₁.pool = l₂.pool ∧
      l₁.callbacks = l₂.callbacks ∧ l₁.stateLog = l₂.stateLog ∧ l₁.scheduled = l₂.scheduled := by
    rintro l₁ _ rfl
    exact ⟨rfl, rfl, rfl, rfl, rfl⟩
  by_cases hn : ((l.pool p).curlMulti.running : ℤ) = (l.pool p).activeConnectionCount
  · have hwf := hw.wellFormed p
    have hnil := hwf.running_eq_count_iff.mp hn
    rw [hwf.completed] at hnil
    have hmsgs : (l.pool p).curlMulti.msgs = [] := List.map_eq_nil_iff.mp hnil
    have hdrain : poolDrain p (l.pool p).curlMulti.msgs.length l = l := by rw [hmsgs]; rfl
    rw [show fast = l from if_pos hn]
    simp only [full, poolEventCheckDrain, hdrain]
    split_ifs
    · exact ⟨rfl, rfl, rfl, rfl, rfl⟩
    · exact ⟨rfl, rfl, rfl, rfl, rfl⟩
  · exact hsame (if_neg hn)

end Lib

/-! ### Runs -/

namespace Machine
variable {api : Api} {as : List Action} {m : Machine}

/-- In every state the counter, the list and the attached handles of a pool agree, the
list has no duplicates and is told by the pool fields, and the pool is an event source
once if it is active and not otherwise. A refused request leaves all this as it is. -/
theorem pool_bookkeeping (hq : Run.Along (step api) NoReentrantDestroy init as)
    (hr : runOf api as = some m) :
    (∀ p, m.lib.poolFreed p = false →
      ((m.lib.pool p).activeConnectionCount = (m.lib.pool p).requests.length ∧
        (m.lib.pool p).requests.length = (m.lib.pool p).curlMulti.handles.length) ∧
      (m.lib.pool p).requests.Nodup ∧
      (∀ r, r ∈ (m.lib.pool p).requests ↔ (m.lib.request r).pool = some p) ∧
      m.lib.sources.count p = if (m.lib.pool p).isActive then 1 else 0) ∧
    ∀ (l : Lib) env r, (l.poolAddRequest env r).2 = false →
      (l.poolAddRequest env r).1.request = l.request ∧
      (l.poolAddRequest env r).1.sources = l.sources ∧
      ∀ p < l.nextPool, (l.poolAddRequest env r).1.pool p = l.pool p := by
  have hw := (poolInv_of_noReentrantDestroy hq hr).1.pools
  refine ⟨fun p hp => ?_, fun l env r h => ?_⟩
  · have hwf := hw.wellFormed p
    exact ⟨⟨hwf.count, (congrArg List.length hwf.handles).symm⟩, hwf.nodup, hw.mem_iff p, hw.source p hp⟩
  · rcases l.poolAddRequest_refused h with hl | hl <;> rw [hl]
    · exact ⟨rfl, rfl, fun _ _ => rfl⟩
    · refine ⟨rfl, rfl, fun p hp => ?_⟩
      exact Function.update_of_ne (Nat.ne_of_lt hp) _ _

/-- Three async requests, of which one is over and one is released. -/
def partlyCompletedRun : List Action :=
  [.getAsync, .getAsync, .getAsync, .poolEventCheck 0 true none, .curlComplete 1 0,
   .performReturn true, .requestDestroy 0 false, .cleanupReturn, .getAsync]

theorem pool_bookkeeping_partlyCompletedRun : ∃ m, runOf Api.plain partlyCompletedRun = some m ∧
    (m.lib.pool 0).requests = [3, 2] ∧ (m.lib.pool 0).activeConnectionCount = 2 ∧
      (m.lib.request 3).pool = some 0 ∧ m.lib.sources.count 0 = 1 := by
  obtain ⟨m, hm, hp⟩ := (Option.any_eq_true _ _).mp (show
    (runOf Api.plain partlyCompletedRun).any (fun m => m.lib.poolFreed 0 = false ∧
      (m.lib.pool 0).requests = [3, 2] ∧ (m.lib.pool 0).isActive = true) = true by decide +kernel)
  obtain ⟨hfreed, hrequests, hactive⟩ := of_decide_eq_true hp
  obtain ⟨⟨hcount, -⟩, -, hpool, hsource⟩ := (pool_bookkeeping (by decide +kernel) hm).1 0 hfreed
  refine ⟨m, hm, hrequests, ?_, (hpool 3).mp (by simp [hrequests]), ?_⟩
  · rw [hcount, hrequests]
    rfl
  · rw [hsource, if_pos hactive]

/-- The end of a check whose perform has succeeded. Whether or not it takes the early
exit, it leaves the requests, the pools and the queued callbacks as reading the messages
always would: no finished transfer is left in the pool, each has been removed once, its
request has got the state of its own result and no other has, and the callbacks are
queued in the order in which the transfers have finished. -/
theorem poolEventCheck_early_exit (hq : Run.Along (step api) NoReentrantDestroy init as)
    (hr : runOf api as = some m) {p : PoolId} {wf : Bool} {stack : List Frame}
    (hs : m.stack = .perform p wf :: stack) :
    let l := m.lib.setInCallback p false
    let finished := (m.lib.pool p).curlMulti.msgs
    let l' := (m.next api (.performReturn true)).lib
    let full := l.poolEventCheckDrain p (l.pool p).curlMulti.running
    (l'.request = full.request ∧ l'.pool = full.pool ∧ l'.callbacks = full.callbacks ∧
      l'.stateLog = full.stateLog ∧ l'.scheduled = full.scheduled) ∧
    (l'.pool p).curlMulti.completed = [] ∧
    (l'.pool p).requests =
      (m.lib.pool p).requests.filter (· ∉ (m.lib.pool p).curlMulti.completed) ∧
    (l'.pool p).activeConnectionCount =
      (m.lib.pool p).activeConnectionCount - (m.lib.pool p).curlMulti.completed.length ∧
    (∀ msg ∈ finished, (l'.request msg.easyHandle).state = msg.finalState ∧
      (l'.request msg.easyHandle).pool = none) ∧
    l'.stateLog = m.lib.stateLog ++ finished.map (fun msg => (msg.easyHandle, msg.finalState)) ∧
    l'.callbacks.map Prod.snd = m.lib.callbacks.map Prod.snd ++
      ((m.lib.pool p).curlMulti.completed.filter m.lib.callbackDue).map some := by
  intro l finished l' full
  have hi := (poolInv_of_noReentrantDestroy hq hr).1
  obtain ⟨hi₁, hoff⟩ := hi.performReturn hs
  have hw : PoolsOk l.poolView := hi₁.pools
  have hl' : l' = l.poolEventCheckFinish p (l.pool p).curlMulti.running := by
    simp only [l', next, hs]; rfl
  have hpool : l.pool p = { m.lib.pool p with
      curlMulti := { (m.lib.pool p).curlMulti with inCallback := false } } := by
    simp [l, Lib.setInCallback, Lib.modifyPool]
  have hcompleted : (m.lib.pool p).curlMulti.completed = finished.map CURLMsg.easyHandle :=
    (hi.pools.wellFormed p).completed
  have hd := Lib.drained_poolEventCheckFinish hw hoff
  have hsame := Lib.poolEventCheckFinish_eq_drain (p := p) hw
  rw [← hl', show (l.pool p).curlMulti.msgs = finished by rw [hpool]] at hd
  refine ⟨hl' ▸ hsame, ?_, ?_, ?_, hd.finished, hd.stateLog, ?_⟩
  · have hok := (Lib.evolves_poolEventCheckFinish (n := 0) hw hoff (l.pool p).curlMulti.running).ok
    have hnil := Lib.msgs_poolEventCheckFinish hw hoff
    rw [← hl'] at hok hnil
    rw [show (l'.pool p).curlMulti.completed = _ from (hok.wellFormed p).completed]
    exact List.map_eq_nil_iff.mpr hnil
  · rw [hd.requests, hcompleted, hpool]
  · rw [hd.count, hcompleted, List.length_map, hpool]
  · rw [hd.callbacks, hcompleted]
    rfl

theorem poolEventCheck_early_exit_getAsync :
    ∃ m, runOf Api.plain [.getAsync, .poolEventCheck 0 true none, .curlComplete 0 0] = some m ∧
      ((m.next Api.plain (.performReturn true)).lib.pool 0).curlMulti.completed = [] := by
  obtain ⟨m, hm, hp⟩ := (Option.any_eq_true _ _).mp (show
    (runOf Api.plain [.getAsync, .poolEventCheck 0 true none, .curlComplete 0 0]).any
      (fun m => m.stack = [.perform 0 false]) = true by decide +kernel)
  exact ⟨m, hm, (poolEventCheck_early_exit (by decide +kernel) hm (of_decide_eq_true hp)).2.1⟩

end Machine

end Trequests
