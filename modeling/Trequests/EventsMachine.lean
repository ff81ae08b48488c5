import Trequests.Events

/-! The callback events along the runs of the machine. -/

namespace Trequests

namespace Machine

/-- The request is neither being released nor gone. -/
def Live (m : Machine) (r : ReqId) : Prop :=
  r < m.lib.nextRequest ∧ m.lib.freed r = 0 ∧ ∀ caller, .cleanup r caller ∉ m.stack

/-- The queue, the events the requests point to and the stack are in order. -/
def EventsOk (m : Machine) : Prop := EventInv m.lib.eventView m.lib.scheduled m.Live

/-- Nothing is released whose removal from its pool queues a callback event. -/
def NoAbort (m : Machine) (a : Action) : Prop := ∀ r ∈ m.releases a, m.lib.abortQueues r = false

instance (m : Machine) (a : Action) : Decidable (m.NoAbort a) :=
  inferInstanceAs (Decidable (∀ r ∈ m.releases a, m.lib.abortQueues r = false))

/-- The step leaves nothing behind that refers to freed memory: neither the stack, nor a
list of a session, nor the queue. -/
def Sound (m : Machine) (a : Action) : Prop := m.Safe a ∧ m.NoAbort a

instance (m : Machine) (a : Action) : Decidable (m.Sound a) :=
  inferInstanceAs (Decidable (_ ∧ _))

section Live
variable {m : Machine}

theorem Live.mono {r : ReqId} (h : m.Live r) {l : Lib} {stack : List Frame} {result : CmdResult}
    (hv : l.lifeView = m.lib.lifeView)
    (hs : ∀ caller, .cleanup r caller ∈ stack → .cleanup r caller ∈ m.stack) :
    Live ⟨l, stack, result⟩ r := by
  have hn : l.nextRequest = m.lib.nextRequest := congrArg LifeView.nextRequest hv
  have hf : l.freed = m.lib.freed := congrArg LifeView.freed hv
  exact ⟨hn ▸ h.1, hf ▸ h.2.1, fun caller hm => h.2.2 caller (hs caller hm)⟩

/-- A request in a pool is live. -/
theorem LifeOk.live_of_owner (hi : m.PoolInv) (h : m.LifeOk) {r : ReqId} {p : PoolId}
    (ho : m.lib.poolView.owner r = some p) : m.Live r := by
  refine ⟨hi.pools.lt p r ho, ?_, fun caller hm => ?_⟩
  · by_contra hne
    have := (h.gone r hne).2.2.1
    rw [ho] at this
    cases this
  · have := (h.frames _ hm).2.2.2.1
    rw [ho] at this
    cases this

end Live

/-! ### The procedures that can wait -/

namespace EventsOk
variable {m : Machine} (h : m.EventsOk)
include h

theorem of_eq {l : Lib} {stack : List Frame} {result : CmdResult}
    (he : l.eventView = m.lib.eventView)
    (hs : l.callbackView.scheduled = m.lib.callbackView.scheduled)
    (hl : ∀ r, m.Live r → Live ⟨l, stack, result⟩ r) : EventsOk ⟨l, stack, result⟩ := by
  have hs' : l.scheduled = m.lib.scheduled := hs
  have := EventInv.mono h hl
  simpa only [EventsOk, he, hs'] using this

/-- Another library state under the same frames of releases. -/
theorem of_life {l : Lib} {stack : List Frame} {result : CmdResult}
    (he : l.eventView = m.lib.eventView)
    (hs : l.callbackView.scheduled = m.lib.callbackView.scheduled)
    (hv : l.lifeView = m.lib.lifeView)
    (hst : ∀ r caller, .cleanup r caller ∈ stack → .cleanup r caller ∈ m.stack) :
    EventsOk ⟨l, stack, result⟩ :=
  h.of_eq he hs fun x hx => hx.mono hv (hst x)

theorem setLib {l : Lib} (he : l.eventView = m.lib.eventView)
    (hs : l.callbackView.scheduled = m.lib.callbackView.scheduled)
    (hn : l.nextRequest = m.lib.nextRequest) (hf : l.freed = m.lib.freed) :
    (m.setLib l).EventsOk :=
  h.of_eq he hs fun _ hr => ⟨hn ▸ hr.1, hf ▸ hr.2.1, hr.2.2⟩

/-- A procedure that queues events of requests in pools. -/
theorem of_queues (hi : m.PoolInv) (hl : m.LifeOk) {l : Lib} (hv : l.lifeView = m.lib.lifeView)
    (hs : (m.setLib l).ScheduleOk) (hq : Lib.Queues m.lib.nextRequest m.lib l) :
    (m.setLib l).EventsOk := by
  have hnext : l.nextRequest = m.lib.nextRequest := congrArg LifeView.nextRequest hv
  have hlive : ∀ x, m.Live x → (m.setLib l).Live x := fun x hx => hx.mono hv fun _ hm => hm
  apply hq.eventInv h hs.nodup hlive (fun x p ho => hlive x (hl.live_of_owner hi ho))
  intro x hx hge
  have hlt : x < l.nextRequest := (hs.scheduled x hx).1
  exact absurd hge (Nat.not_le_of_lt (lt_of_lt_of_eq hlt hnext))

theorem requestFree {r : ReqId} {caller : Caller} (hn : m.lib.abortQueues r = false) :
    (m.requestFree r caller).EventsOk := by
  apply EventInv.mono (Lib.eventInv_requestFreeStart h hn)
  intro x hx
  obtain ⟨⟨hlt, hf, hs⟩, hne⟩ := hx
  have hv := m.lib.lifeView_requestFreeStart r
  rw [LifeView.sessionRemove_eq] at hv
  have h₁ : (m.lib.requestFreeStart r).nextRequest = m.lib.nextRequest :=
    congrArg LifeView.nextRequest hv
  have h₂ : (m.lib.requestFreeStart r).freed = m.lib.freed := congrArg LifeView.freed hv
  refine ⟨lt_of_lt_of_eq hlt h₁.symm, (congrFun h₂ x).trans hf, fun c hc => ?_⟩
  rcases List.mem_cons.mp hc with hc | hc
  · cases hc; exact hne rfl
  · exact hs c hc

theorem sessionFreeLoop {i : SesId}
    (hn : ∀ r, (m.lib.session i).requests.head? = some r → m.lib.abortQueues r = false) :
    (m.sessionFreeLoop i).EventsOk := by
  unfold Machine.sessionFreeLoop
  split
  · exact h.setLib (by simp) (by simp) rfl rfl
  · rename_i r rs hrs
    have h₁ : (m.setLib (m.lib.clearSession r)).EventsOk := h.setLib (by simp) (by simp) rfl rfl
    apply h₁.requestFree
    rw [← hn r (by rw [hrs, List.head?_cons])]
    exact Lib.abortQueues_congr (by simp [Machine.setLib]) (by simp [Machine.setLib])

theorem deleteRequestCommand {r : ReqId}
    (hn : m.lib.command (.request r) = .alive → m.lib.abortQueues r = false) :
    (m.deleteRequestCommand r).EventsOk := by
  unfold Machine.deleteRequestCommand
  split
  · rename_i halive
    split_ifs
    · exact h.setLib (by simp) (by simp) rfl rfl
    · have h₁ : (m.setLib ((m.lib.setCommand (.request r) .deleting).clearCmdToken r)).EventsOk :=
        h.setLib (by simp) (by simp) rfl rfl
      apply h₁.requestFree
      rw [← hn halive]
      exact Lib.abortQueues_congr (by simp [Machine.setLib]) (by simp [Machine.setLib])
  · refine h.setLib (by simp) (by simp) ?_ ?_ <;>
    · unfold Lib.deleteCommand
      split <;> rfl

theorem deleteSessionCommand {i : SesId}
    (hn : ∀ r, m.sessionReleases i = some r → m.lib.abortQueues r = false) :
    (m.deleteSessionCommand i).EventsOk := by
  unfold Machine.deleteSessionCommand
  split
  · rename_i halive
    rw [sessionReleases, if_pos halive] at hn
    have h₁ : (m.setLib (m.lib.setCommand (.session i) .deleting)).EventsOk :=
      h.setLib (by simp) (by simp) rfl rfl
    exact h₁.sessionFreeLoop hn
  · refine h.setLib (by simp) (by simp) ?_ ?_ <;>
    · unfold Lib.deleteCommand
      split <;> rfl

theorem createFinish {r : ReqId} {simple : Bool}
    (hc : simple = true → m.lib.poolView.owner r = none) : (m.createFinish r simple).EventsOk := by
  unfold Machine.createFinish
  split_ifs with hs
  · apply requestFree (m := { m with result := _ }) h
    have ho : (m.lib.request r).pool = none := hc hs
    simp [Lib.abortQueues, ho]
  · exact h.of_eq (by simp) (by simp) fun x hx => hx

theorem createNewRequest {api : Api} {env : CurlEnv} {interp : InterpId} {call : CreateCall}
    {session : Option SesId} (hi : m.PoolInv) (hl : m.LifeOk) (hs : m.ScheduleOk) :
    (m.createNewRequest api env interp call session).EventsOk := by
  have hf : ∀ r s f, .run r s f ∈ m.transfers → r < m.lib.nextRequest :=
    fun r s f hr => (hi.running r s f (mem_transfers.mp hr).1).1
  have hcreate : ∀ {l r simple performing},
      m.lib.createNewRequest api env interp call session = .created l r simple performing →
      (m.setLib l).EventsOk := by
    intro l r simple performing hc
    obtain ⟨hr, hv⟩ := m.lib.lifeView_createNewRequest r hc
    have hnext : l.nextRequest = m.lib.nextRequest + 1 := congrArg LifeView.nextRequest hv
    have hfreed : l.freed = m.lib.freed := congrArg LifeView.freed hv
    have hnew := (Lib.schedule_createNewRequest hi.pools hs hf hc).1
    have hlive : ∀ x, m.Live x → (m.setLib l).Live x := fun x hx =>
      ⟨lt_of_lt_of_eq (Nat.lt_succ_of_lt hx.1) hnext.symm, (congrFun hfreed x).trans hx.2.1, hx.2.2⟩
    refine Lib.eventInv_createNewRequest h hi.pools hc hnew.nodup
      (fun x hx => (hnew.scheduled x hx).1) (fun x hx => hx.1) hlive
      (fun x p ho => hlive x (hl.live_of_owner hi ho)) ?_
    refine ⟨lt_of_lt_of_eq (by rw [hr]; exact Nat.lt_succ_self _) hnext.symm, ?_, fun caller hm => ?_⟩
    · exact (congrFun hfreed r).trans (hl.fresh r (Nat.le_of_eq hr.symm)).1
    · have hlt : r < m.lib.nextRequest := hl.lt_of_busy (mem_busy.mpr ⟨_, hm, rfl⟩)
      exact absurd hlt (by rw [hr]; exact Nat.lt_irrefl _)
  unfold Machine.createNewRequest
  split
  · exact h
  · rename_i l r simple hc
    exact (hcreate hc).of_eq rfl rfl fun x hx => hx.mono rfl fun caller hm => by
      rcases List.mem_cons.mp hm with hm | hm
      · cases hm
      · exact hm
  · rename_i l r simple hc
    exact (hcreate hc).createFinish fun hs => (Lib.createNewRequest_pools hi.pools hc).2.2 (Or.inl hs)

omit h in
theorem cleanupFinish {r : ReqId} {caller : Caller}
    (h : EventsOk { m with stack := .cleanup r caller :: m.stack })
    (hn : ∀ i, caller = .session i → ∀ r', (m.lib.session i).requests.tail.head? = some r' →
      m.lib.abortQueues r' = false) :
    (m.cleanupFinish r caller).EventsOk := by
  have hfreed : ∀ x, x ≠ r → (m.lib.requestFreeFinish r).freed x = m.lib.freed x := fun x hx => by
    simp [Lib.requestFreeFinish, hx]
  have hnext : (m.lib.requestFreeFinish r).nextRequest = m.lib.nextRequest :=
    congrArg PoolView.nextRequest (m.lib.poolView_requestFreeFinish r)
  have h₁ : (m.setLib (m.lib.requestFreeFinish r)).EventsOk := by
    refine of_eq (m := { m with stack := .cleanup r caller :: m.stack }) h (by simp) (by simp)
      fun x hx => ?_
    have hne : x ≠ r := fun he => hx.2.2 caller (he ▸ List.mem_cons_self)
    exact ⟨hnext ▸ hx.1, (hfreed x hne).trans hx.2.1, fun c hm => hx.2.2 c (List.mem_cons_of_mem _ hm)⟩
  unfold Machine.cleanupFinish
  cases caller with
  | command => exact h₁.setLib (by simp [Machine.setLib]) (by simp [Machine.setLib]) rfl rfl
  | simple => exact h₁
  | session i =>
    have h₂ : (m.setLib ((m.lib.requestFreeFinish r).dropRequest i)).EventsOk :=
      h₁.setLib (by simp [Machine.setLib]) (by simp [Machine.setLib]) rfl rfl
    have hq : (((m.lib.requestFreeFinish r).dropRequest i).session i).requests =
        (m.lib.session i).requests.tail := by simp [Lib.dropRequest, Lib.modifySession]
    apply h₂.sessionFreeLoop
    intro r' hr'
    rw [← hn i rfl r' (by simpa [Machine.setLib, hq] using hr')]
    exact Lib.abortQueues_congr (by simp [Machine.setLib]) (by simp [Machine.setLib])

theorem serviceEvent (b : Bool) : (m.setLib (m.lib.serviceEvent b)).EventsOk := by
  have hsub : EventInv { m.lib.eventView with queue := m.lib.queue.eraseP (TclEvent.ready b) }
      m.lib.scheduled m.Live := h.sublist List.eraseP_sublist
  have hlive : ∀ l : Lib, l.lifeView = m.lib.lifeView → ∀ x, m.Live x → (m.setLib l).Live x :=
    fun l hv x hx => hx.mono hv fun _ hm => hm
  simp only [Lib.serviceEvent]
  split
  · rename_i id req htaken
    cases req with
    | none => exact hsub.mono (hlive _ rfl)
    | some r =>
      obtain ⟨hready, before, after, hq, hbefore⟩ := List.find?_eq_some_iff_append.mp htaken
      have herase : m.lib.queue.eraseP (TclEvent.ready b) = before ++ after := by
        rw [hq, List.eraseP_append_right _ (by simpa using hbefore), List.eraseP_cons_of_pos hready]
      have hv : (Lib.requestEventProc { m.lib with
            queue := m.lib.queue.eraseP (TclEvent.ready b) } (some r)).eventView =
          EventView.clear { m.lib.eventView with queue := before ++ after } r := by
        have hu := Lib.field_modifyRequest m.lib r Request.callbackEvent fun q =>
          { q with callbackEvent := none }
        rw [herase]
        simp only [Lib.requestEventProc, Lib.eventView, EventView.clear]
        congr 1
      have h₁ := EventInv.service h hq
      rw [← hv] at h₁
      exact h₁.mono (hlive _ (by simp; rfl))
  · exact hsub.mono (hlive _ rfl)
  · exact hsub.mono (hlive _ rfl)
  · exact hsub.mono (hlive _ rfl)

theorem next {api : Api} {a : Action} (hi : m.PoolInv) (hl : m.LifeOk) (hs : m.ScheduleOk)
    (ha : m.enabled a = true) (hsafe : m.Safe a) (hn : m.NoAbort a) : (m.next api a).EventsOk := by
  have hs' : (m.next api a).ScheduleOk := hs.next hi ha (removable_of_safe hi hl ha hsafe)
  cases a with
  | sessionCmd interp objv share =>
    simp only [Machine.next]
    split
    · exact h
    · rename_i l i hc
      have hv := (m.lib.lifeView_sessionCmd _ hc).2
      have hnext : l.nextRequest = m.lib.nextRequest := congrArg LifeView.nextRequest hv
      have hfreed : l.freed = m.lib.freed := congrArg LifeView.freed hv
      exact h.of_eq (Lib.eventView_sessionCmd hc) (by rw [Lib.callbackView_sessionCmd hc]) fun x hx =>
        ⟨hnext ▸ hx.1, hfreed ▸ hx.2.1, hx.2.2⟩
  | requestCmd interp name clientData args env =>
    simp only [Machine.next]
    split
    · exact h
    · exact h.createNewRequest hi hl hs
  | sessionHandle i name args env =>
    simp only [Machine.next]
    split
    · exact h
    · rename_i hcall
      exact deleteSessionCommand (m := { m with result := .empty }) h fun r hr =>
        hn r (by simp only [releases, hcall]; exact hr)
    · exact h.createNewRequest hi hl hs
  | requestDestroy r byRename =>
    refine next_requestDestroy_rule ?_ fun _ _ => ?_
    · exact deleteRequestCommand (m := { m with result := .empty }) h fun halive =>
        hn r (if_pos halive)
    · exact h.of_life rfl rfl rfl fun _ _ hm => by simpa using hm
  | poolEventSetup p b t =>
    exact h.of_life (by simp) (by simp) (by simp) fun _ _ hm => hm
  | poolEventCheck p b w =>
    simp only [Machine.next]
    split_ifs
    · exact h.of_life (by simp) (by simp) (by simp) fun _ _ hm => by simpa using hm
    · exact h.of_life (by simp) (by simp) (by simp) fun _ _ hm => hm
  | serviceEvent b => exact h.serviceEvent b
  | queueOther b =>
    have hp : EventInv { m.lib.eventView with queue := (m.lib.queueEvent b .other).queue }
        m.lib.scheduled m.Live := by
      apply EventInv.push h (e := .other) rfl
      cases b
      · exact Or.inr rfl
      · exact Or.inl rfl
    exact hp
  | interpDelete i =>
    exact h.of_eq rfl rfl fun x hx => ⟨hx.1, hx.2.1, fun c hm => hx.2.2 c (by simpa using hm)⟩
  | interpDeleteCommand tok =>
    cases tok with
    | request r => exact h.deleteRequestCommand fun halive => hn r (if_pos halive)
    | session i => exact h.deleteSessionCommand fun r hr => hn r hr
  | interpDeleteDone =>
    exact h.of_life rfl rfl rfl fun _ _ hm => List.mem_of_mem_tail hm
  | threadExit =>
    exact h.of_queues hi hl (by simp) hs' Lib.queues_poolThreadExitProc
  | curlComplete r result =>
    simp only [Machine.next]
    split
    · exact h.of_life (by simp) (by simp) (by simp) fun _ _ hm => hm
    · exact h
  | curlWriteError r size contentSize result =>
    simp only [Machine.next]
    split
    · rename_i p w stack hstack
      refine h.of_life (by simp) ?_ (by simp) fun _ _ hm => ?_
      · simp; rfl
      · rw [hstack]; simpa using hm
    · rename_i r' simple w stack hstack
      refine h.of_life (by simp) ?_ (by simp) fun _ _ hm => ?_
      · simp; rfl
      · rw [hstack]; simpa using hm
    · exact h
  | performReturn ok =>
    obtain ⟨p, w, stack, hstack, -⟩ := enabled_performReturn ha
    simp only [Machine.next, hstack]
    simp only [Machine.next, hstack] at hs'
    obtain ⟨hi₁, hoff⟩ := hi.performReturn hstack
    set m₁ : Machine := { m with lib := m.lib.setInCallback p false, stack := stack } with hm₁
    have hl₁ : m₁.LifeOk := hl.pop hstack rfl
    have h₁ : m₁.EventsOk := h.of_life (by simp) (by simp) (by simp) fun _ _ hm => by
      rw [hstack]; exact List.mem_cons_of_mem _ hm
    cases ok with
    | false => exact h₁
    | true =>
      have hd := fun hsd => h₁.of_queues hi₁ hl₁ (Lib.lifeView_poolDrain _ p _) hsd
        (Lib.queues_poolDrain hi₁.pools hoff)
      simp only [↓reduceIte, Lib.poolEventCheckFinish, Lib.poolEventCheckDrain] at hs' ⊢
      split_ifs at hs' ⊢
      · exact h₁
      · -- the deactivation event refers to no request
        exact EventInv.push (hd hs') (e := .poolDeactivate p) rfl (Or.inl rfl)
      · exact hd hs'
  | easyPerformReturn res =>
    obtain ⟨r, simple, w, stack, hstack, -⟩ := enabled_easyPerformReturn ha
    simp only [Machine.next, hstack]
    have h₁ : EventsOk { m with lib := m.lib.requestRunFinish r res, stack := stack } := by
      refine h.of_life (by simp) ?_ (by simp) fun _ _ hm => ?_
      · simp [Lib.requestRunFinish]; rfl
      · rw [hstack]; exact List.mem_cons_of_mem _ hm
    apply h₁.createFinish
    intro _
    simpa using (hi.running r simple w (by simp [hstack])).2
  | cleanupReturn =>
    obtain ⟨r, caller, stack, hstack⟩ := enabled_cleanupReturn ha
    simp only [Machine.next, hstack]
    refine cleanupFinish (m := { m with stack := stack }) ?_ ?_
    · have h' := h
      unfold EventsOk Live at h' ⊢
      rwa [hstack] at h'
    · rintro i rfl r' hr'
      exact hn r' (by simp only [releases, hstack]; exact hr')

end EventsOk

/-! ### Runs -/

variable {api : Api} {as : List Action} {m : Machine}

theorem eventsOk_init : init.EventsOk where
  id_lt := by simp [init, Lib.init, Lib.eventView]
  nodup := List.nodup_nil
  pending := by simp [init, Lib.init, Lib.eventView]

/-- What is in order along a sound run. -/
def SoundOk (m : Machine) : Prop := (m.PoolInv ∧ m.LifeOk) ∧ m.ScheduleOk ∧ m.EventsOk

theorem soundOk_init : init.SoundOk :=
  ⟨⟨poolInv_init, lifeOk_init⟩, scheduleOk_init, eventsOk_init⟩

theorem soundOk_step {s t : Machine} {a : Action} (h : s.SoundOk) (hsound : s.Sound a)
    (hst : s.step api a = some t) : t.SoundOk := by
  obtain ⟨hl, hs, he⟩ := h
  obtain ⟨hsafe, hn⟩ := hsound
  refine ⟨lifeOk_step hl hsafe hst, ?_⟩
  obtain ⟨ha, rfl⟩ := step_eq_some.mp hst
  exact ⟨hs.next hl.1 ha (removable_of_safe hl.1 hl.2 ha hsafe),
    he.next hl.1 hl.2 hs ha hsafe hn⟩

theorem soundOk_of_run (hq : Run.Along (step api) Sound init as) (hr : runOf api as = some m) :
    m.SoundOk :=
  Run.exec_preserves (fun _ _ _ h hsound hst => soundOk_step h hsound hst) soundOk_init hq hr

/-- A run without scripts in callbacks, or with safe ones, in which nothing is released
whose removal from its pool queues a callback event: every event in the queue refers to
no request or to one that has not been released, and so does the one that is serviced
next. -/
theorem queued_request_not_freed
    (hq : Run.Along (step api) Quiet init as ∨ Run.Along (step api) Safe init as)
    (hn : Run.Along (step api) NoAbort init as) (hr : runOf api as = some m) :
    (∀ id r, .request id (some r) ∈ m.lib.queue → m.lib.freed r = 0) ∧
      ∀ fileEvents id r, m.lib.queue.find? (TclEvent.ready fileEvents) = some (.request id (some r)) →
        m.lib.freed r = 0 := by
  have hsafe : Run.Along (step api) Safe init as := hq.elim along_safe_of_quiet id
  have h := (soundOk_of_run (hsafe.and hn) hr).2.2
  have hlive : ∀ id r, .request id (some r) ∈ m.lib.queue → m.lib.freed r = 0 :=
    fun id r hm => (h.pending id r hm).2.2.2.1
  exact ⟨hlive, fun b id r hf => hlive id r (List.mem_of_find?_eq_some hf)⟩

theorem queued_request_not_freed_completedRun :
    ∃ m, runOf Api.plain completedRun = some m ∧ m.lib.freed 0 = 0 := by
  obtain ⟨m, hm, hp⟩ := (Option.any_eq_true _ _).mp (show (runOf Api.plain completedRun).any
    (fun m => .request 0 (some 0) ∈ m.lib.queue) = true by decide +kernel)
  exact ⟨m, hm, (queued_request_not_freed (Or.inl (by decide +kernel)) (by decide +kernel) hm).1 0 0
    (of_decide_eq_true hp)⟩

/-- An async request is destroyed while it is in progress. -/
def abortRun : List Action := [.getAsync, .requestDestroy 0 false, .cleanupReturn]

theorem abortRun_queued_request_freed : ¬ ∀ api as m, Run.Along (step api) Quiet init as →
    runOf api as = some m → ∀ id r, .request id (some r) ∈ m.lib.queue → m.lib.freed r = 0 := by
  intro h
  obtain ⟨m, hm, hp⟩ := (Option.any_eq_true _ _).mp (show (runOf Api.plain abortRun).any
    (fun m => .request 0 (some 0) ∈ m.lib.queue ∧ m.lib.freed 0 = 1) = true by decide +kernel)
  obtain ⟨hmem, hfreed⟩ := of_decide_eq_true hp
  have := h _ _ m (by decide +kernel) hm 0 0 hmem
  rw [hfreed] at this
  cases this

end Machine

end Trequests
