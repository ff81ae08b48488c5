import Trequests.Events
import Trequests.ThreadExit

/-! The freed pools over the runs of the machine. A freed pool that nothing refers to stays
so: a pool gets an event source and requests only while it is the default pool of the
thread, and a deactivation is queued only by a check of the pool, which its event source
starts. So a run in which every thread that ends finds its pool idle never has a reference
to a freed pool. -/

namespace Trequests

/-! ### Freed pools -/

/-- No event source and no request refers to a freed pool. -/
structure FreedApart (v : PoolView) : Prop where
  default_live : ∀ p, v.poolDefault = some p → v.poolFreed p = false
  fresh : ∀ p, v.nextPool ≤ p → v.poolFreed p = false
  source : ∀ p, v.poolFreed p = true → p ∉ v.sources
  owner : ∀ p r, v.poolFreed p = true → v.owner r ≠ some p

namespace FreedApart
variable {v : PoolView} (h : FreedApart v)
include h

theorem ne_default {p q : PoolId} (hp : v.poolDefault = some p) (hq : v.poolFreed q = true) :
    q ≠ p := by
  rintro rfl
  rw [h.default_live q hp] at hq
  cases hq

theorem newRequest : FreedApart v.newRequest :=
  { h with
    owner := fun p r hp ho => by
      by_cases hr : r = v.nextRequest
      · simp [PoolView.newRequest, hr] at ho
      · exact h.owner p r hp (by simpa [PoolView.newRequest, hr] using ho) }

theorem newPool : FreedApart v.newPool :=
  { h with
    default_live := fun p hp => by
      cases hp
      exact h.fresh _ (Nat.le_refl _)
    fresh := fun p hp => h.fresh p (Nat.le_of_succ_le hp) }

theorem insert {p : PoolId} (r : ReqId) (hp : v.poolDefault = some p) : FreedApart (v.insert p r) :=
  { h with
    source := fun q hq => by
      have hsource := h.source q hq
      simp only [PoolView.insert]
      split_ifs
      · exact hsource
      · rw [List.mem_cons, not_or]
        exact ⟨h.ne_default hp hq, hsource⟩
    owner := fun q x hq ho => by
      by_cases hx : x = r
      · subst hx
        simp only [PoolView.insert, Function.update_self, Option.some.injEq] at ho
        exact h.ne_default hp hq ho.symm
      · exact h.owner q x hq (by simpa [PoolView.insert, hx] using ho) }

theorem detach (p : PoolId) (r : ReqId) : FreedApart (v.detach p r) :=
  { h with owner := fun q x hq ho => h.owner q x hq (PoolView.owner_of_detach ho) }

theorem modifyPool (p : PoolId) (f : Pool → Pool) : FreedApart (v.modifyPool p f) := { h with }

theorem deactivate (p : PoolId) : FreedApart (v.deactivate p) :=
  { h with source := fun q hq hmem => h.source q hq (List.mem_of_mem_erase hmem) }

end FreedApart

theorem FreedApart.poolRule : PoolRule FreedApart where
  newRequest _ h := h.newRequest
  newPool _ h _ := h.newPool
  insert _ _ r h hp := h.insert r hp
  detach _ p r h _ := h.detach p r
  modifyPool _ p f h _ _ := h.modifyPool p f

/-- The pool of the thread is freed and apart if it is idle when the thread ends. -/
theorem Lib.freedApart_poolThreadExitProc {l : Lib} (hk : PoolsKnown l.poolView)
    (h : FreedApart l.poolView) (hidle : ∀ p ∈ l.poolDefault, l.PoolIdle p) :
    FreedApart l.poolThreadExitProc.poolView := by
  cases hp : l.poolDefault with
  | none =>
    simp only [poolThreadExitProc, hp]
    exact h
  | some p =>
    have hgone := (unreferenced_poolThreadExitProc_iff hk hp).mpr (hidle p hp)
    obtain ⟨pool, owner, hview⟩ := exists_poolView_poolThreadExitProc hp
    set l₁ := l.modifyPool p fun q => { q with isDead := true } with hl₁
    have hdead : FreedApart l₁.poolView := h.modifyPool p fun q => { q with isDead := true }
    have hloop := FreedApart.poolRule.poolFreeLoop hdead p (l₁.pool p).requests
      fun v hv => hv.modifyPool p _
    obtain ⟨pool', owner', hview'⟩ := exists_poolView_poolFreeLoop (l := l₁) (p := p)
      (l₁.pool p).requests
    exact
      { default_live := fun q hq => by
          rw [hview] at hq
          cases hq
        fresh := fun q hle => by
          rw [hview] at hle ⊢
          have hne : q ≠ p := Nat.ne_of_gt (Nat.lt_of_lt_of_le (hk.default_lt p hp) hle)
          rw [← h.fresh q hle]
          exact Function.update_of_ne hne _ _
        source := fun q hq hmem => by
          by_cases hne : q = p
          · subst hne
            exact hgone.source hmem
          · rw [hview] at hq hmem
            exact h.source q ((Function.update_of_ne hne _ _).symm.trans hq) hmem
        owner := fun q r hq ho => by
          by_cases hne : q = p
          · subst hne
            exact hgone.request r ho
          · rw [hview] at hq
            apply hloop.owner q r
            · rw [hview']
              exact (Function.update_of_ne hne _ _).symm.trans hq
            · simp only [poolThreadExitProc, hp] at ho
              exact ho }

/-! ### Deactivation events -/

namespace Lib
variable {l : Lib} {r : ReqId}

theorem deactivations_of_eventView {l' : Lib} (h : l'.eventView = l.eventView) :
    l'.deactivations = l.deactivations := by
  have hq : l'.queue = l.queue := congrArg EventView.queue h
  simp only [deactivations, hq]

theorem deactivations_requestRunError (e : Str) :
    (l.requestRunError r e).deactivations = l.deactivations := by
  have herror := deactivations_of_eventView (l.eventView_requestSetError r e)
  simp only [requestRunError]
  split_ifs
  · rw [deactivations_requestScheduleCallback, herror]
  · exact herror

theorem deactivations_requestRunStart (env : CurlEnv) :
    (l.requestRunStart env r).1.deactivations = l.deactivations := by
  simp only [requestRunStart]
  split
  · rw [deactivations_requestRunError]
    rfl
  · split_ifs
    · exact deactivations_of_eventView (by simp)
    · rw [deactivations_requestRunError]
      exact deactivations_of_eventView (by simp)
    · rfl

theorem deactivations_newRequest {env : CurlEnv} {session : Option SesId} {l' : Lib}
    (h : l.newRequest env session = some (l', r)) : l'.deactivations = l.deactivations := by
  obtain ⟨-, rfl⟩ := newRequest_eq_some h
  cases session <;> rfl

theorem deactivations_createNewRequest {api : Api} {env : CurlEnv} {interp : InterpId}
    {call : CreateCall} {session : Option SesId} {l' : Lib} {simple performing : Bool}
    (h : l.createNewRequest api env interp call session = .created l' r simple performing) :
    l'.deactivations = l.deactivations := by
  obtain ⟨opt, l₁, -, -, hnew, hrun⟩ := createNewRequest_eq_created h
  rw [← show _ = l' from congrArg Prod.fst hrun, deactivations_requestRunStart]
  have hfill := deactivations_newRequest hnew
  exact hfill

theorem deactivations_requestFreeStart : (l.requestFreeStart r).deactivations = l.deactivations := by
  rw [requestFreeStart, deactivations_poolRemoveRequest,
    deactivations_of_eventView (eventView_sessionRemoveRequest _ r)]
  unfold detachCallbackEvent
  split
  · rfl
  · simp only [deactivations, List.filterMap_map]
    congr 1
    funext event
    cases event <;> rfl

theorem deactivations_poolDrain (p : PoolId) (fuel : ℕ) :
    (poolDrain p fuel l).deactivations = l.deactivations := by
  induction fuel generalizing l with
  | zero => rfl
  | succ fuel ih =>
    simp only [poolDrain]
    split
    · rfl
    · split
      · exact ih
      · rw [ih, poolCompleteRequest, deactivations_requestScheduleCallback,
          deactivations_poolRemoveRequest]
        rfl

/-- The check of a pool queues a deactivation of that pool at most. -/
theorem mem_deactivations_poolEventCheckFinish {p q : PoolId} {n : ℕ} (hne : q ≠ p)
    (h : q ∈ (l.poolEventCheckFinish p n).deactivations) : q ∈ l.deactivations := by
  simp only [poolEventCheckFinish, poolEventCheckDrain] at h
  split_ifs at h
  · exact h
  · simp only [deactivations, List.filterMap_cons, List.mem_cons] at h
    rcases h with rfl | h
    · exact absurd rfl hne
    · rw [← deactivations_poolDrain p]
      exact h
  · rwa [deactivations_poolDrain] at h

end Lib

/-- The actions that can queue a deactivation, service it, or start or end a check. -/
def Action.touchesDeactivations : Action → Bool
  | .poolEventCheck .. | .serviceEvent .. | .performReturn .. => true
  | _ => false

namespace Machine

/-- The pools that a queued event deactivates, and those whose check waits and could queue
such an event. -/
def deactivationView (m : Machine) : List PoolId × List PoolId :=
  (m.lib.deactivations, performing m.stack)

section DeactivationView
variable {m : Machine}

theorem deactivationView_setLib {l : Lib} (hl : l.deactivations = m.lib.deactivations) :
    (m.setLib l).deactivationView = m.deactivationView := by
  simp only [deactivationView, setLib, hl]

theorem deactivationView_requestFree (r : ReqId) (caller : Caller) :
    (m.requestFree r caller).deactivationView = m.deactivationView := by
  simp only [deactivationView, requestFree, Lib.deactivations_requestFreeStart, performing_cleanup]

theorem deactivationView_sessionFreeLoop (i : SesId) :
    (m.sessionFreeLoop i).deactivationView = m.deactivationView := by
  unfold sessionFreeLoop
  split
  · rfl
  · exact deactivationView_requestFree _ _

theorem deactivationView_deleteSessionCommand (i : SesId) :
    (m.deleteSessionCommand i).deactivationView = m.deactivationView := by
  unfold deleteSessionCommand
  split
  · exact deactivationView_sessionFreeLoop i
  · exact deactivationView_setLib (Lib.deactivations_of_eventView (by simp))

theorem deactivationView_deleteRequestCommand (r : ReqId) :
    (m.deleteRequestCommand r).deactivationView = m.deactivationView := by
  unfold deleteRequestCommand
  split
  · split_ifs
    · rfl
    · exact deactivationView_requestFree r .command
  · exact deactivationView_setLib (Lib.deactivations_of_eventView (by simp))

theorem deactivationView_createFinish (r : ReqId) (simple : Bool) :
    (m.createFinish r simple).deactivationView = m.deactivationView := by
  unfold createFinish
  split_ifs
  · exact deactivationView_requestFree r .simple
  · rfl

theorem deactivationView_createNewRequest (api : Api) (env : CurlEnv) (interp : InterpId)
    (call : CreateCall) (session : Option SesId) :
    (m.createNewRequest api env interp call session).deactivationView = m.deactivationView := by
  unfold createNewRequest
  split
  · rfl
  · rename_i hc
    simp only [deactivationView, Lib.deactivations_createNewRequest hc, performing_run]
  · rename_i hc
    rw [deactivationView_createFinish]
    exact deactivationView_setLib (Lib.deactivations_createNewRequest hc)

theorem deactivationView_cleanupFinish (r : ReqId) (caller : Caller) :
    (m.cleanupFinish r caller).deactivationView = m.deactivationView := by
  have hfree : (m.setLib (m.lib.requestFreeFinish r)).deactivationView = m.deactivationView :=
    deactivationView_setLib (Lib.deactivations_of_eventView (by simp))
  unfold cleanupFinish
  cases caller with
  | command => exact hfree
  | simple => exact hfree
  | session i => exact (deactivationView_sessionFreeLoop i).trans hfree

/-- Only the event loop deals with deactivations. -/
theorem deactivationView_next (api : Api) {a : Action} (ha : m.enabled a = true)
    (ht : a.touchesDeactivations = false) :
    (m.next api a).deactivationView = m.deactivationView := by
  cases a with
  | poolEventCheck q b w => cases ht
  | serviceEvent b => cases ht
  | performReturn ok => cases ht
  | sessionCmd interp objv share =>
    simp only [next]
    split
    · rfl
    · rename_i hl
      have hl := Lib.deactivations_of_eventView (Lib.eventView_sessionCmd hl)
      exact deactivationView_setLib hl
  | requestCmd interp name clientData args env =>
    simp only [next]
    split
    · rfl
    · exact deactivationView_createNewRequest _ _ _ _ _
  | sessionHandle i name args env =>
    simp only [next]
    split
    · rfl
    · exact deactivationView_deleteSessionCommand i
    · exact deactivationView_createNewRequest _ _ _ _ _
  | requestDestroy r byRename =>
    exact next_requestDestroy_rule (deactivationView_deleteRequestCommand r) fun _ _ => rfl
  | poolEventSetup q b t =>
    exact deactivationView_setLib (Lib.deactivations_of_eventView (by simp))
  | queueOther b =>
    apply deactivationView_setLib
    cases b <;> simp [Lib.queueEvent, Lib.deactivations]
  | interpDelete i => rfl
  | interpDeleteCommand tok =>
    cases tok with
    | request r => exact deactivationView_deleteRequestCommand r
    | session i => exact deactivationView_deleteSessionCommand i
  | interpDeleteDone =>
    obtain ⟨i, hs, -⟩ := enabled_interpDeleteDone ha
    simp [deactivationView, next, hs]
  | threadExit => exact deactivationView_setLib Lib.deactivations_poolThreadExitProc
  | curlComplete r result =>
    simp only [next]
    split <;> rfl
  | curlWriteError r size contentSize result =>
    simp only [next]
    split
    · rename_i hs
      simp only [deactivationView, hs]
      rfl
    · rename_i hs
      simp only [deactivationView, hs]
      rfl
    · rfl
  | easyPerformReturn res =>
    obtain ⟨r, simple, wf, stack, hs, -⟩ := enabled_easyPerformReturn ha
    simp only [next, hs]
    rw [deactivationView_createFinish]
    simp only [deactivationView, hs]
    rfl
  | cleanupReturn =>
    obtain ⟨r, caller, stack, hs⟩ := enabled_cleanupReturn ha
    simp only [next, hs]
    rw [deactivationView_cleanupFinish]
    simp only [deactivationView, hs]
    rfl

end DeactivationView

/-- No deactivation of the pool is queued, and no check of it waits that could queue one. -/
def NoDeactivation (m : Machine) (p : PoolId) : Prop :=
  p ∉ m.lib.deactivations ∧ p ∉ performing m.stack

theorem NoDeactivation.of_view {m m' : Machine} {p : PoolId} (h : m.NoDeactivation p)
    (hv : m'.deactivationView = m.deactivationView) : m'.NoDeactivation p := by
  obtain ⟨hq, hp⟩ := Prod.mk.inj hv
  exact ⟨hq ▸ h.1, hp ▸ h.2⟩

/-- A freed pool is not deactivated later either. -/
theorem noDeactivation_next {m : Machine} {p : PoolId} (h : m.NoDeactivation p) {api : Api}
    {a : Action} (ha : m.enabled a = true) (hf : m.lib.poolFreed p = true) :
    (m.next api a).NoDeactivation p := by
  cases a with
  | poolEventCheck q b w =>
    have hlive : m.lib.poolFreed q = false := by
      simp only [enabled, Bool.and_eq_true, Bool.not_eq_true'] at ha
      exact ha.2
    have hne : p ≠ q := by
      rintro rfl
      rw [hf] at hlive
      cases hlive
    have hstart : (m.setLib (m.lib.poolEventCheckStart q b w).1).NoDeactivation p :=
      h.of_view (deactivationView_setLib (Lib.deactivations_of_eventView (by simp)))
    simp only [next]
    split_ifs
    · refine ⟨hstart.1, ?_⟩
      rw [performing_perform, List.mem_cons, not_or]
      exact ⟨hne, h.2⟩
    · exact hstart
  | serviceEvent b =>
    have herase : p ∉ ({ m.lib with queue := m.lib.queue.eraseP (TclEvent.ready b) } : Lib).deactivations :=
      fun hp => h.1 ((List.eraseP_sublist.filterMap _).subset hp)
    simp only [next, setLib, Lib.serviceEvent]
    split
    · rename_i req _
      cases req <;> exact ⟨herase, h.2⟩
    · exact ⟨herase, h.2⟩
    · exact ⟨herase, h.2⟩
    · exact ⟨herase, h.2⟩
  | performReturn ok =>
    obtain ⟨q, wf, stack, hs, -⟩ := enabled_performReturn ha
    obtain ⟨hq, hp⟩ := h
    rw [hs, performing_perform, List.mem_cons, not_or] at hp
    simp only [next, hs]
    refine ⟨fun hmem => hq ?_, hp.2⟩
    cases ok with
    | false => exact hmem
    | true =>
      have hbefore := Lib.mem_deactivations_poolEventCheckFinish
        (l := m.lib.setInCallback q false) hp.1 hmem
      exact hbefore
  | _ => exact h.of_view (deactivationView_next api ha rfl)

end Machine

/-! ### Runs -/

namespace Machine

/-- A thread that ends has an idle pool, if it has one. -/
def ExitsIdle (m : Machine) : Action → Prop
  | .threadExit => ∀ p ∈ m.lib.poolDefault, m.lib.PoolIdle p
  | _ => True

instance (m : Machine) (a : Action) : Decidable (m.ExitsIdle a) := by
  unfold ExitsIdle
  split <;> infer_instance

theorem poolsKnown_init : PoolsKnown init.lib.poolView := by
  constructor <;> simp [init, Lib.init, Lib.poolView, Pool.zero, Request.zero]

theorem poolsKnown_next {m : Machine} (h : PoolsKnown m.lib.poolView) (api : Api) (a : Action) :
    PoolsKnown (m.next api a).lib.poolView := by
  apply PoolsKnown.poolRule.next h
  · intro _ p _ _
    exact h.deactivate p
  · intro
    exact Lib.known_poolThreadExitProc h

theorem poolsKnown_run {api : Api} {as : List Action} {m : Machine} (hr : runOf api as = some m) :
    PoolsKnown m.lib.poolView := by
  apply Run.exec_invariant (I := fun m : Machine => PoolsKnown m.lib.poolView) _ poolsKnown_init hr
  intro s a t hs hst
  obtain ⟨-, rfl⟩ := step_eq_some.mp hst
  exact poolsKnown_next hs api a

/-- Only the end of the thread frees a pool. -/
theorem poolFreed_next {m : Machine} {api : Api} {a : Action} {p : PoolId}
    (hp : (m.next api a).lib.poolFreed p = true) :
    m.lib.poolFreed p = true ∨ a = .threadExit ∧ m.lib.poolDefault = some p := by
  by_cases ha : a = .threadExit
  · subst ha
    cases hd : m.lib.poolDefault with
    | none =>
      left
      simpa only [next, setLib, Lib.poolThreadExitProc, hd] using hp
    | some q =>
      obtain ⟨pool, owner, hview⟩ := Lib.exists_poolView_poolThreadExitProc hd
      by_cases hne : p = q
      · exact Or.inr ⟨rfl, by rw [hne]⟩
      · have hfreed := congrFun (congrArg PoolView.poolFreed hview) p
        exact Or.inl ((hfreed.trans (Function.update_of_ne hne _ _)).symm.trans hp)
  · left
    have hrule : PoolRule fun v => v.poolFreed = m.lib.poolFreed :=
      ⟨fun _ h => h, fun _ h _ => h, fun _ _ _ h _ => h, fun _ _ _ h _ => h, fun _ _ _ h _ _ => h⟩
    have hsame : (m.next api a).lib.poolView.poolFreed = m.lib.poolFreed :=
      hrule.next rfl (fun _ _ _ _ => rfl) fun he => absurd he ha
    exact (congrFun hsame p).symm.trans hp

/-- A freed pool has left nothing behind. -/
structure FreedGone (m : Machine) : Prop where
  known : PoolsKnown m.lib.poolView
  apart : FreedApart m.lib.poolView
  quiet : ∀ p, m.lib.poolFreed p = true → m.NoDeactivation p

theorem FreedGone.next {m : Machine} (h : m.FreedGone) {api : Api} {a : Action}
    (ha : m.enabled a = true) (hidle : m.ExitsIdle a) : (m.next api a).FreedGone where
  known := poolsKnown_next h.known api a
  apart := by
    apply FreedApart.poolRule.next h.apart
    · intro _ p _ _
      exact h.apart.deactivate p
    · rintro rfl
      exact Lib.freedApart_poolThreadExitProc h.known h.apart hidle
  quiet p hp := by
    rcases poolFreed_next hp with hf | ⟨rfl, hd⟩
    · exact noDeactivation_next (h.quiet p hf) ha hf
    · have hquiet : m.NoDeactivation p := by
        refine ⟨(hidle p hd).2, ?_⟩
        rw [enabled_threadExit ha]
        exact List.not_mem_nil
      exact hquiet.of_view (deactivationView_next api ha rfl)

theorem FreedGone.unreferenced {m : Machine} (h : m.FreedGone) {p : PoolId}
    (hp : m.lib.poolFreed p = true) : m.lib.Unreferenced p :=
  ⟨h.apart.source p hp, (h.quiet p hp).1, fun r => h.apart.owner p r hp⟩

theorem freedGone_init : init.FreedGone := by
  refine ⟨poolsKnown_init, ?_, ?_⟩
  · constructor <;> simp [init, Lib.init, Lib.poolView]
  · simp [init, Lib.init]

/-- In every run: the end of the thread leaves its pool without references exactly if the
pool is idle, and no state of the run has references to a freed pool exactly if the pool
is idle whenever the thread ends. -/
theorem pool_unreferenced_iff {api : Api} {as : List Action} {m : Machine}
    (hr : runOf api as = some m) :
    (∀ p, m.lib.poolDefault = some p →
      (m.lib.poolThreadExitProc.Unreferenced p ↔ m.lib.PoolIdle p)) ∧
    ((∀ bs t, bs <+: as → runOf api bs = some t → ∀ p, t.lib.poolFreed p = true →
      t.lib.Unreferenced p) ↔ Run.Along (step api) ExitsIdle init as) := by
  refine ⟨fun p => Lib.unreferenced_poolThreadExitProc_iff (poolsKnown_run hr), ?_⟩
  constructor
  · intro hgone
    apply Run.along_iff_forall_prefix.mpr
    intro bs a t hpre he
    obtain ⟨u, hst, hu⟩ := Run.step_of_prefix hpre hr he
    obtain ⟨-, rfl⟩ := step_eq_some.mp hst
    cases a with
    | threadExit =>
      intro p hp
      apply (Lib.unreferenced_poolThreadExitProc_iff (poolsKnown_run he) hp).mp
      apply hgone _ _ hpre hu p
      obtain ⟨pool, owner, hview⟩ := Lib.exists_poolView_poolThreadExitProc hp
      have hfreed := congrFun (congrArg PoolView.poolFreed hview) p
      exact hfreed.trans (Function.update_self _ _ _)
    | _ => trivial
  · intro hidle bs t hpre ht p hp
    have hinv : t.FreedGone := by
      apply Run.exec_preserves _ freedGone_init (hidle.of_prefix hpre) ht
      intro s a u hs hok hst
      obtain ⟨ha, rfl⟩ := step_eq_some.mp hst
      exact hs.next ha hok
    exact hinv.unreferenced hp

/-- A thread that ends after the deactivation of its pool. -/
def deactivatedExit : List Action := completedRun ++ [.serviceEvent true, .threadExit]

theorem pool_unreferenced_iff_deactivatedExit : ∃ m, runOf Api.plain deactivatedExit = some m ∧
    m.lib.poolFreed 0 = true ∧ m.lib.Unreferenced 0 := by
  obtain ⟨m, hm, hp⟩ := (Option.any_eq_true _ _).mp (show (runOf Api.plain deactivatedExit).any
    (fun m => m.lib.poolFreed 0) = true by decide +kernel)
  exact ⟨m, hm, hp,
    (pool_unreferenced_iff hm).2.mpr (by decide +kernel) _ m (List.prefix_refl _) hm 0 hp⟩

/-- The thread ends while the transfer of a request goes on. -/
theorem getAsync_pool_referenced : ¬ ∀ api as m p, runOf api as = some m →
    m.lib.poolDefault = some p → m.lib.poolThreadExitProc.Unreferenced p := by
  intro hall
  obtain ⟨m, hm, hp⟩ := (Option.any_eq_true _ _).mp (show (runOf Api.plain [.getAsync]).any
    (fun m => m.lib.poolDefault = some 0 ∧ 0 ∈ m.lib.poolThreadExitProc.sources) = true by
      decide +kernel)
  obtain ⟨hd, hsource⟩ := of_decide_eq_true hp
  exact (hall _ _ m 0 hm hd).source hsource

end Machine

end Trequests
