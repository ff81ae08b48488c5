import Trequests.Schedule

/-! The states and the callback events along the runs of the machine. -/

namespace Trequests

/-- The transfers that wait. -/
def Machine.transfers (m : Machine) : List Frame := m.stack.filter Frame.isTransfer

/-- The views of the library and the stack are in order. -/
def Machine.ScheduleOk (m : Machine) : Prop :=
  ScheduleInv m.lib.callbackView m.lib.poolView m.transfers

theorem mem_transfers {m : Machine} {f : Frame} :
    f ∈ m.transfers ↔ f ∈ m.stack ∧ f.isTransfer = true := List.mem_filter

theorem Lib.callbackView_sessionCmd {api : Api} {l l' : Lib} {interp : InterpId} {objv : List Str}
    {share : Bool} {i : SesId} (h : l.sessionCmd api interp objv share = .ok (l', i)) :
    l'.callbackView = l.callbackView := by
  unfold Lib.sessionCmd at h
  split at h
  · cases h
  · split_ifs at h
    cases h
    rfl

theorem mem_performing {p : PoolId} {stack : List Frame} :
    p ∈ performing stack ↔ ∃ w, .perform p w ∈ stack := by
  induction stack with
  | nil => simp
  | cons f stack ih => cases f <;> simp [ih, exists_or]

theorem mem_runs {r : ReqId} {s f : Bool} {frames : List Frame} (h : .run r s f ∈ frames) :
    r ∈ frames.filterMap Frame.runs := List.mem_filterMap.mpr ⟨_, h, rfl⟩

namespace Machine.ScheduleOk
variable {m : Machine} (h : m.ScheduleOk)
include h

theorem of_eq {l : Lib} {stack : List Frame} {result : CmdResult}
    (hc : l.callbackView = m.lib.callbackView) (hv : l.poolView = m.lib.poolView)
    (hs : stack.filter Frame.isTransfer = m.transfers) : ScheduleOk ⟨l, stack, result⟩ := by
  simpa only [ScheduleOk, transfers, hc, hv, hs] using h

theorem setLib_of_eq {l : Lib} (hc : l.callbackView = m.lib.callbackView)
    (hv : l.poolView = m.lib.poolView) : (m.setLib l).ScheduleOk := h.of_eq hc hv rfl

theorem setResult (result : CmdResult) : ScheduleOk { m with result } := h

/-- A procedure that keeps the owners, and the messages of the pool it changes. -/
theorem setLib_of_pool {l : Lib} {p : PoolId} {f : Pool → Pool}
    (hc : l.callbackView = m.lib.callbackView) (ho : l.poolView.owner = m.lib.poolView.owner)
    (hp : l.pool = (m.lib.modifyPool p f).pool)
    (hm : (f (m.lib.pool p)).curlMulti.msgs = (m.lib.pool p).curlMulti.msgs) :
    (m.setLib l).ScheduleOk := by
  have hmsgs : ∀ q, (l.pool q).curlMulti.msgs = (m.lib.pool q).curlMulti.msgs := by
    intro q
    rw [hp]
    by_cases hq : q = p
    · subst hq; simpa [Lib.modifyPool] using hm
    · simp [Lib.modifyPool, hq]
  have := ScheduleInv.congr_pool h (u := l.poolView) ho hmsgs
  rwa [← hc] at this

theorem requestFree {r : ReqId} {caller : Caller} (hw : PoolsOk m.lib.poolView)
    (hp : ∀ p, m.lib.poolView.owner r = some p → .perform p true ∉ m.transfers) :
    (m.requestFree r caller).ScheduleOk :=
  Lib.schedule_requestFreeStart h hw hp

theorem sessionFreeLoop {i : SesId} (hw : PoolsOk m.lib.poolView)
    (hp : ∀ r, (m.lib.session i).requests.head? = some r → ∀ p,
      m.lib.poolView.owner r = some p → .perform p true ∉ m.transfers) :
    (m.sessionFreeLoop i).ScheduleOk := by
  unfold Machine.sessionFreeLoop
  split
  · exact h.setLib_of_eq (by simp) (by simp)
  · rename_i r rs hrs
    refine requestFree (h.setLib_of_eq (by simp) (by simp)) ?_ ?_
    · simpa [Machine.setLib] using hw
    · simpa [Machine.setLib, transfers] using hp r (by rw [hrs, List.head?_cons])

theorem deleteRequestCommand {r : ReqId} (hw : PoolsOk m.lib.poolView)
    (hp : m.lib.command (.request r) = .alive →
      ∀ p, m.lib.poolView.owner r = some p → .perform p true ∉ m.transfers) :
    (m.deleteRequestCommand r).ScheduleOk := by
  unfold Machine.deleteRequestCommand
  split
  · rename_i halive
    split_ifs
    · exact h.setLib_of_eq (by simp) (by simp)
    · refine requestFree (h.setLib_of_eq (by simp) (by simp)) ?_ ?_
      · simpa [Machine.setLib] using hw
      · simpa [Machine.setLib, transfers] using hp halive
  · exact h.setLib_of_eq (by simp) (by simp)

theorem deleteSessionCommand {i : SesId} (hw : PoolsOk m.lib.poolView)
    (hp : ∀ r, m.sessionReleases i = some r → ∀ p,
      m.lib.poolView.owner r = some p → .perform p true ∉ m.transfers) :
    (m.deleteSessionCommand i).ScheduleOk := by
  unfold Machine.deleteSessionCommand
  split
  · rename_i halive
    rw [sessionReleases, if_pos halive] at hp
    exact sessionFreeLoop (h.setLib_of_eq (by simp) (by simp)) hw hp
  · exact h.setLib_of_eq (by simp) (by simp)

theorem createFinish {r : ReqId} {simple : Bool} (hw : PoolsOk m.lib.poolView)
    (hc : simple = true → m.lib.poolView.owner r = none) : (m.createFinish r simple).ScheduleOk := by
  unfold Machine.createFinish
  split_ifs with hs
  · apply requestFree (h.setResult _) hw
    intro p hp
    rw [show m.lib.poolView.owner r = none from hc hs] at hp
    cases hp
  · exact h.of_eq (by simp) (by simp) rfl

theorem createNewRequest {api : Api} {env : CurlEnv} {interp : InterpId} {call : CreateCall}
    {session : Option SesId} (hi : m.PoolInv) :
    (m.createNewRequest api env interp call session).ScheduleOk := by
  have hf : ∀ r s f, .run r s f ∈ m.transfers → r < m.lib.nextRequest :=
    fun r s f hr => (hi.running r s f (mem_transfers.mp hr).1).1
  unfold Machine.createNewRequest
  split
  · exact h
  · rename_i l r simple hc
    obtain ⟨h₁, hp⟩ := Lib.schedule_createNewRequest hi.pools h hf hc
    obtain ⟨hnf, ha, hs⟩ := hp rfl
    apply h₁.push_run simple ha hs
    intro hmem
    obtain ⟨f, hfm, hfr⟩ := List.mem_filterMap.mp hmem
    cases f with
    | run r' s f => cases hfr; exact hnf s f hfm
    | _ => cases hfr
  · rename_i l r simple hc
    obtain ⟨h₁, -⟩ := Lib.schedule_createNewRequest hi.pools h hf hc
    obtain ⟨he, -, ho⟩ := Lib.createNewRequest_pools hi.pools hc
    exact createFinish (m := m.setLib l) h₁ he.ok fun hs => ho (Or.inl hs)

theorem cleanupFinish {r : ReqId} {caller : Caller} (hw : PoolsOk m.lib.poolView)
    (hp : ∀ i, caller = .session i → ∀ r', (m.lib.session i).requests.tail.head? = some r' →
      ∀ p, m.lib.poolView.owner r' = some p → .perform p true ∉ m.transfers) :
    (m.cleanupFinish r caller).ScheduleOk := by
  unfold Machine.cleanupFinish
  cases caller with
  | command => exact h.setLib_of_eq (by simp) (by simp)
  | simple => exact h.setLib_of_eq (by simp) (by simp)
  | session i =>
    have hq : (((m.lib.requestFreeFinish r).dropRequest i).session i).requests =
        (m.lib.session i).requests.tail := by simp [Lib.dropRequest, Lib.modifySession]
    refine sessionFreeLoop (h.setLib_of_eq (by simp) (by simp)) ?_ ?_
    · simpa [Machine.setLib] using hw
    · simpa [Machine.setLib, transfers, hq] using hp i rfl

theorem serviceEvent (b : Bool) : (m.setLib (m.lib.serviceEvent b)).ScheduleOk := by
  simp only [Lib.serviceEvent]
  split
  · exact h.setLib_of_eq (by simp; rfl) (by simp; rfl)
  · exact h.setLib_of_pool (f := fun q => { q with isActive := false }) (by simp; rfl) rfl rfl rfl
  · exact h.setLib_of_eq rfl rfl
  · exact h.setLib_of_eq rfl rfl

theorem poolEventSetup (p : PoolId) (b : Bool) (t : Option ℤ) :
    (m.setLib (m.lib.poolEventSetup p b t).1).ScheduleOk := by
  obtain ⟨v, hv⟩ := m.lib.poolEventSetup_eq p b t
  rw [hv]
  exact h.setLib_of_pool rfl rfl rfl rfl

theorem poolEventCheckStart (p : PoolId) (b : Bool) (w : Option ℕ) :
    (m.setLib (m.lib.poolEventCheckStart p b w).1).ScheduleOk := by
  obtain ⟨v, hv⟩ := m.lib.poolEventCheckStart_eq p b w
  rw [hv]
  exact h.setLib_of_pool rfl rfl rfl rfl

theorem setInCallback (p : PoolId) (b : Bool) :
    (m.setLib (m.lib.setInCallback p b)).ScheduleOk :=
  h.setLib_of_pool rfl rfl rfl rfl

/-- A pool that starts to be performed has not failed yet. -/
theorem perform {p : PoolId} : ScheduleOk { m with stack := .perform p false :: m.stack } :=
  ScheduleInv.congr_frames h (fun r s f hr => by simpa [Machine.transfers, Frame.isTransfer] using hr)
    (fun q _ hq => List.mem_cons_of_mem _ hq) h.frames_nodup

omit h in
theorem msgs_poolComplete (l : Lib) (p : PoolId) (r : ReqId) (result : CURLcode) (q : PoolId) :
    ((l.poolComplete p r result).pool q).curlMulti.msgs =
      if q = p then (l.pool p).curlMulti.msgs ++ [⟨.done, r, result⟩]
      else (l.pool q).curlMulti.msgs := by
  split_ifs with hq
  · subst hq; simp [Lib.poolComplete, Lib.modifyPool, Multi.complete]
  · simp [Lib.poolComplete, Lib.modifyPool, hq]

theorem curlComplete (p : PoolId) (r : ReqId) (result : CURLcode) :
    (m.setLib (m.lib.poolComplete p r result)).ScheduleOk := by
  refine ScheduleInv.congr_pool_of_subset h (u := (m.lib.poolComplete p r result).poolView) rfl
    fun q msg hmsg => ?_
  simp only [Lib.poolView_pool, msgs_poolComplete]
  split_ifs with hq
  · subst hq; exact List.mem_append_left _ hmsg
  · exact hmsg

theorem curlWriteError_perform {p : PoolId} {wf : Bool} {stack : List Frame}
    (hs : m.stack = .perform p wf :: stack) {r : ReqId} (hlt : r < m.lib.nextRequest)
    (hr : m.lib.poolView.owner r = some p) (e : Str) {result : CURLcode} (hres : result ≠ curleOk) :
    ScheduleOk { m with
      lib := (m.lib.requestSetError r e).poolComplete p r result
      stack := .perform p true :: stack } := by
  have hm := msgs_poolComplete (m.lib.requestSetError r e) p r result
  have hpool : (m.lib.requestSetError r e).pool = m.lib.pool := rfl
  rw [hpool] at hm
  have hframes : m.transfers = .perform p wf :: stack.filter Frame.isTransfer := by
    rw [Machine.transfers, hs]; rfl
  have hv : ((m.lib.requestSetError r e).poolComplete p r result).callbackView =
      m.lib.callbackView.setState r .error := by simp
  have ho : ((m.lib.requestSetError r e).poolComplete p r result).poolView.owner =
      m.lib.poolView.owner := by
    have := congrArg PoolView.owner (m.lib.poolView_requestSetError r e)
    exact this
  have hnd := h.frames_nodup
  rw [hframes] at hnd
  unfold ScheduleOk
  rw [hv]
  refine ScheduleInv.writeFailed h ⟨.done, r, result⟩ hlt hr ho (fun q msg hmsg => ?_) ?_
    rfl hres ?_ ?_ (List.mem_cons_self ..) hnd
  · rw [Lib.poolView_pool, hm]
    split_ifs with hq
    · subst hq; exact List.mem_append_left _ hmsg
    · exact hmsg
  · rw [Lib.poolView_pool, hm, if_pos rfl]
    simp
  · intro x s f hx
    rw [hframes]
    simpa [Machine.transfers, Frame.isTransfer] using hx
  · intro q hq
    rw [hframes] at hq
    rcases List.mem_cons.mp hq with hq | hq
    · cases hq; exact List.mem_cons_self ..
    · exact List.mem_cons_of_mem _ hq

/-- A write callback of a sync run fails. -/
theorem curlWriteError_run {r : ReqId} {simple wf : Bool} {stack : List Frame}
    (hs : m.stack = .run r simple wf :: stack) (hlt : r < m.lib.nextRequest) (e : Str) :
    ScheduleOk { m with
      lib := m.lib.requestSetError r e
      stack := .run r simple true :: stack } := by
  have hframes : m.transfers = .run r simple wf :: stack.filter Frame.isTransfer := by
    rw [Machine.transfers, hs]; rfl
  obtain ⟨ha, hst⟩ := h.running r simple wf (by rw [hframes]; exact List.mem_cons_self ..)
  have hmove : (m.lib.callbackView.state r).Moves .error := by
    rcases hst with hst | ⟨hst, -⟩ <;> rw [hst] <;> trivial
  have hnd := h.frames_nodup
  rw [hframes] at hnd
  unfold ScheduleOk
  rw [Lib.callbackView_requestSetError, Lib.poolView_requestSetError]
  refine ScheduleInv.setState_sync h hlt hmove ha (fun x s f hx hne => ?_) (fun s f hx => ?_)
    (fun p hp => ?_) hnd
  · rw [hframes]
    rcases List.mem_cons.mp hx with hx | hx
    · cases hx; exact absurd rfl hne
    · exact List.mem_cons_of_mem _ hx
  · rcases List.mem_cons.mp hx with hx | hx
    · cases hx; exact Or.inr ⟨rfl, rfl⟩
    · exact absurd (mem_runs hx) (List.nodup_cons.mp hnd).1
  · rw [hframes] at hp
    rcases List.mem_cons.mp hp with hp | hp
    · cases hp
    · exact List.mem_cons_of_mem _ hp

/-- A sync run is over. -/
theorem requestRunFinish {r : ReqId} {simple wf : Bool} {stack : List Frame}
    (hs : m.stack = .run r simple wf :: stack) (hlt : r < m.lib.nextRequest) {res : CURLcode}
    (hres : wf = true → res ≠ curleOk) :
    ScheduleOk { m with lib := m.lib.requestRunFinish r res, stack := stack } := by
  have hframes : m.transfers = .run r simple wf :: stack.filter Frame.isTransfer := by
    rw [Machine.transfers, hs]; rfl
  obtain ⟨ha, hst⟩ := h.running r simple wf (by rw [hframes]; exact List.mem_cons_self ..)
  have hmove : (m.lib.callbackView.state r).Moves (if res = curleOk then .done else .error) := by
    rcases hst with hst | ⟨hst, hw⟩
    · rw [hst]; split_ifs <;> trivial
    · rw [hst, if_neg (hres hw)]; trivial
  have hnd := h.frames_nodup
  rw [hframes] at hnd
  unfold ScheduleOk Lib.requestRunFinish
  rw [Lib.callbackView_setState, Lib.poolView_setState]
  refine ScheduleInv.setState_sync h hlt hmove ha (fun x s f hx _ => ?_) (fun s f hx => ?_)
    (fun p hp => ?_) (List.nodup_cons.mp hnd).2
  · rw [hframes]; exact List.mem_cons_of_mem _ hx
  · exact absurd (mem_runs hx) (List.nodup_cons.mp hnd).1
  · rw [hframes] at hp
    rcases List.mem_cons.mp hp with hp | hp
    · cases hp
    · exact hp

/-- A check of a pool is over; a failed one is not followed by a look at the messages,
but then no write callback has failed. -/
theorem performReturn (hi : m.PoolInv) {p : PoolId} {wf : Bool} {stack : List Frame}
    (hs : m.stack = .perform p wf :: stack) {ok : Bool} (hok : (ok || ! wf) = true) :
    let l := m.lib.setInCallback p false
    ScheduleOk { m with
      lib := if ok then l.poolEventCheckFinish p (l.pool p).curlMulti.running else l
      stack := stack } := by
  intro l
  have hframes : m.transfers = .perform p wf :: stack.filter Frame.isTransfer := by
    rw [Machine.transfers, hs]; rfl
  obtain ⟨hi₁, hoff⟩ := hi.performReturn hs
  have hw : PoolsOk l.poolView := hi₁.pools
  have h₁ : ScheduleInv l.callbackView l.poolView m.transfers := h.setInCallback p false
  have hnd := h.frames_nodup
  rw [hframes] at hnd
  have hrun : ∀ r s f, .run r s f ∈ stack.filter Frame.isTransfer → .run r s f ∈ m.transfers :=
    fun r s f hr => by rw [hframes]; exact List.mem_cons_of_mem _ hr
  have hperf : ∀ q, .perform q true ∈ m.transfers → q = p ∧ wf = true ∨
      .perform q true ∈ stack.filter Frame.isTransfer := fun q hq => by
    rw [hframes] at hq
    rcases List.mem_cons.mp hq with hq | hq
    · cases hq; exact Or.inl ⟨rfl, rfl⟩
    · exact Or.inr hq
  cases ok with
  | false =>
    have hwf : wf = false := by simpa using hok
    refine h₁.congr_frames hrun (fun q _ hq => (hperf q hq).resolve_left fun hc => ?_) hnd
    rw [hwf] at hc
    cases hc.2
  | true =>
    have h₂ := Lib.schedule_poolEventCheckFinish h₁ hw hoff (l.pool p).curlMulti.running
    refine h₂.congr_frames hrun (fun q hm hq => (hperf q hq).resolve_left fun hc => hm ?_) hnd
    rw [hc.1]
    exact Lib.msgs_poolEventCheckFinish hw hoff

theorem next {api : Api} {a : Action} (hi : m.PoolInv) (ha : m.enabled a = true)
    (hr : m.Removable a) : (m.next api a).ScheduleOk := by
  have hperf : ∀ r, m.releases a = some r → ∀ p, m.lib.poolView.owner r = some p →
      .perform p true ∉ m.transfers := by
    intro r hrel p ho hp
    have := (hi.callback p).mpr (mem_performing.mpr ⟨true, (mem_transfers.mp hp).1⟩)
    rw [hr r hrel p ho] at this
    cases this
  cases a with
  | sessionCmd interp objv share =>
    simp only [Machine.next]
    split
    · exact h
    · rename_i l i hl
      exact h.of_eq (Lib.callbackView_sessionCmd hl) (Lib.poolView_sessionCmd hl) rfl
  | requestCmd interp name clientData args env =>
    simp only [Machine.next]
    split
    · exact h
    · exact h.createNewRequest hi
  | sessionHandle i name args env =>
    simp only [Machine.next]
    split
    · exact h
    · rename_i hcall
      exact deleteSessionCommand (h.setResult _) hi.pools fun r hhead =>
        hperf r (by simp only [releases, hcall]; exact hhead)
    · exact h.createNewRequest hi
  | requestDestroy r byRename =>
    refine next_requestDestroy_rule ?_ fun _ _ => h.of_eq rfl rfl rfl
    exact deleteRequestCommand (h.setResult _) hi.pools fun ha => hperf r (if_pos ha)
  | poolEventSetup p b t => exact h.poolEventSetup p b t
  | poolEventCheck p b w =>
    have h₁ := h.poolEventCheckStart p b w
    simp only [Machine.next]
    split_ifs
    · exact (h₁.setInCallback p true).perform
    · exact h₁
  | serviceEvent b => exact h.serviceEvent b
  | queueOther b => exact h.setLib_of_eq rfl rfl
  | interpDelete i => exact ScheduleInv.deleteInterp h i
  | interpDeleteCommand tok =>
    cases tok with
    | request r => exact h.deleteRequestCommand hi.pools fun ha => hperf r (if_pos ha)
    | session i => exact h.deleteSessionCommand hi.pools hperf
  | interpDeleteDone =>
    obtain ⟨i, hs, -⟩ := enabled_interpDeleteDone ha
    exact h.of_eq rfl rfl (by simp [Machine.transfers, hs, Frame.isTransfer])
  | threadExit =>
    have hframes : m.transfers = [] := by rw [Machine.transfers, enabled_threadExit ha]; rfl
    apply Lib.schedule_poolThreadExitProc h hi.pools
    intro p
    rw [hframes]
    exact List.not_mem_nil
  | curlComplete r result =>
    simp only [Machine.next]
    split
    · exact h.curlComplete _ r result
    · exact h
  | curlWriteError r size contentSize result =>
    rcases enabled_curlWriteError ha with ⟨p, wf, stack, hs, hmem, hres⟩ | ⟨simple, wf, stack, hs⟩
    · have ho : m.lib.poolView.owner r = some p := by
        rw [← hi.pools.mem_iff, ← (hi.pools.wellFormed p).handles]
        exact hmem.1
      simp only [Machine.next, hs]
      exact h.curlWriteError_perform hs (hi.pools.lt p r ho) ho _ hres
    · simp only [Machine.next, hs]
      exact h.curlWriteError_run hs (hi.running r simple wf (by simp [hs])).1 _
  | performReturn ok =>
    obtain ⟨p, wf, stack, hs, ha⟩ := enabled_performReturn ha
    simp only [Machine.next, hs]
    exact h.performReturn hi hs ha
  | easyPerformReturn res =>
    obtain ⟨r, simple, wf, stack, hs, hres⟩ := enabled_easyPerformReturn ha
    simp only [Machine.next, hs]
    obtain ⟨hlt, ho⟩ := hi.running r simple wf (by simp [hs])
    refine createFinish (h.requestRunFinish hs hlt hres) ?_ fun _ => ?_
    · simpa using hi.pools
    · simpa using ho
  | cleanupReturn =>
    obtain ⟨r, caller, stack, hs⟩ := enabled_cleanupReturn ha
    simp only [Machine.next, hs]
    have hframes : m.transfers = stack.filter Frame.isTransfer := by
      rw [Machine.transfers, hs]; rfl
    apply cleanupFinish (h.of_eq rfl rfl hframes.symm) hi.pools
    rintro i rfl r' hhead p ho
    have := hperf r' (by simp only [releases, hs]; exact hhead) p ho
    rwa [hframes] at this

end Machine.ScheduleOk

/-! ### Runs -/

namespace Machine
variable {api : Api} {as : List Action} {m : Machine}

theorem scheduleOk_init : init.ScheduleOk where
  log := ⟨by simp [init, Lib.init, Lib.callbackView], by simp [init, Lib.init, Lib.callbackView],
    by simp [init, Lib.init, Lib.callbackView],
    by simp [init, Lib.init, Lib.callbackView, CallbackView.statesOf]⟩
  nodup := List.nodup_nil
  scheduled := by simp [init, Lib.init, Lib.callbackView]
  due := by simp [init, Lib.init, Lib.callbackView]
  owned := by simp [init, Lib.init, Lib.poolView, Request.zero]
  running := by simp [init, transfers]
  frames_nodup := List.nodup_nil

theorem scheduleOk_of_noReentrantDestroy
    (hq : Run.Along (step api) NoReentrantDestroy init as) (hr : runOf api as = some m) :
    m.PoolInv ∧ m.ScheduleOk := by
  have hstep : ∀ (s : Machine) (a : Action) (t : Machine), (s.PoolInv ∧ ReleasedOutside s.stack) ∧ s.ScheduleOk →
      s.NoReentrantDestroy a → s.step api a = some t →
      (t.PoolInv ∧ ReleasedOutside t.stack) ∧ t.ScheduleOk := by
    rintro s a t ⟨hs, hok⟩ hd hst
    refine ⟨noReentrantDestroy_invariant hs hd hst, ?_⟩
    obtain ⟨ha, rfl⟩ := step_eq_some.mp hst
    exact hok.next hs.1 ha (removable_of_noReentrantDestroy hs.1 hs.2 ha hd)
  have := Run.exec_preserves hstep ⟨⟨poolInv_init, trivial⟩, scheduleOk_init⟩ hq hr
  exact ⟨this.1.1, this.2⟩

/-- The life of a request as far as its callback is concerned. Its states are moves
from CREATED on, with none after DONE and none but a repeated error after ERROR. A
sync request never queues an event. An async one queues at most one; before it is over
it has queued none, and once it is over it has queued one if its callback is due. The
only delay is between a failed write callback and the end of the perform that reports
the transfer. -/
theorem callback_queued_once (hq : Run.Along (step api) NoReentrantDestroy init as)
    (hr : runOf api as = some m) {r : ReqId} (hlt : r < m.lib.nextRequest) :
    ((m.lib.statesOf r).IsChain RequestState.Moves ∧
      (m.lib.statesOf r).head? = some .created ∧
      (m.lib.statesOf r).getLast? = some (m.lib.request r).state) ∧
    ((m.lib.request r).async = false → m.lib.scheduled.count r = 0) ∧
    ((m.lib.request r).async = true →
      m.lib.scheduled.count r ≤ 1 ∧
      (¬ (m.lib.request r).state.Final → m.lib.scheduled.count r = 0) ∧
      ((m.lib.request r).state.Final → (m.lib.request r).callback ≠ none →
        m.lib.interpDeleted (m.lib.request r).interp = false →
        (∀ p, (m.lib.request r).pool = some p → .perform p true ∉ m.stack) →
        m.lib.scheduled.count r = 1)) := by
  obtain ⟨hi, h⟩ := scheduleOk_of_noReentrantDestroy hq hr
  have hzero : r ∉ m.lib.callbackView.scheduled → m.lib.scheduled.count r = 0 :=
    List.count_eq_zero_of_not_mem
  refine ⟨⟨h.log.chain r hlt, h.log.first r hlt, h.log.last r hlt⟩, fun ha => hzero fun hmem => ?_,
    fun ha => ⟨List.nodup_iff_count_le_one.mp h.nodup r, fun hf => hzero (h.notMem_of_state hf),
      fun hf hc hi hp => ?_⟩⟩
  · have := (h.scheduled r hmem).2.2.1
    rw [show m.lib.callbackView.async r = false from ha] at this
    cases this
  · refine List.count_eq_one_of_mem h.nodup (h.due r hlt ha hf ?_ ⟨hc, hi⟩)
    cases ho : m.lib.poolView.owner r with
    | none => rfl
    | some p =>
      rcases (h.owned p r ho).2 with hs | ⟨-, hpf, -⟩
      · exact absurd hs hf.not_inprogress
      · exact absurd (mem_transfers.mp hpf).1 (hp p ho)

/-- An async request whose transfer succeeds. -/
def completedRun : List Action :=
  [.getAsync, .poolEventCheck 0 true none, .curlComplete 0 0, .performReturn true]

theorem callback_queued_once_completedRun :
    ∃ m, runOf Api.plain completedRun = some m ∧ m.lib.scheduled.count 0 = 1 := by
  obtain ⟨m, hm, hp⟩ := (Option.any_eq_true _ _).mp (show (runOf Api.plain completedRun).any
    (fun m => decide (0 < m.lib.nextRequest ∧ (m.lib.request 0).async = true ∧
      (m.lib.request 0).state = .done ∧ (m.lib.request 0).callback ≠ none ∧
      m.lib.interpDeleted (m.lib.request 0).interp = false ∧ (m.lib.request 0).pool = none)) = true by
    decide +kernel)
  obtain ⟨hlt, ha, hs, hc, hi, ho⟩ := of_decide_eq_true hp
  have h := callback_queued_once (by decide +kernel) hm hlt
  exact ⟨m, hm, (h.2.2 ha).2.2 (Or.inl hs) hc hi fun p hp => by rw [ho] at hp; cases hp⟩

end Machine

end Trequests
