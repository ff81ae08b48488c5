import Trequests.Completion
import Trequests.FreedPools

/-! Whether a pool without requests comes to rest. A check that finds the last transfer of
a pool over queues the event that deactivates the pool. It first compares the number of
running transfers with that of the connections, though, and these agree also when both
are zero, because a script has destroyed the last request: then the check leaves at once,
and the pool goes on being polled with nothing to do. -/

namespace Trequests

/-- A default pool without requests is inactive, or among those to be deactivated. -/
def PoolView.Settled (v : PoolView) (queued : List PoolId) : Prop :=
  ∀ p, v.poolDefault = some p → (v.pool p).requests = [] →
    (v.pool p).isActive = false ∨ p ∈ queued

namespace PoolView.Settled
variable {v : PoolView} {queued : List PoolId}

theorem newPool : v.newPool.Settled queued := by
  intro p hp _
  cases hp
  left
  simp [PoolView.newPool, Pool.zero]

theorem insert {p : PoolId} (r : ReqId) (hp : v.poolDefault = some p) :
    (v.insert p r).Settled queued := by
  intro q hq hidle
  cases hp.symm.trans hq
  simp [PoolView.insert, Pool.insert] at hidle

variable (h : v.Settled queued)
include h

theorem mono {queued' : List PoolId} (hsub : queued ⊆ queued') : v.Settled queued' :=
  fun p hp hidle => (h p hp hidle).imp_right fun hq => hsub hq

theorem modifyPool {p : PoolId} {f : Pool → Pool}
    (hr : (f (v.pool p)).requests = (v.pool p).requests)
    (ha : (f (v.pool p)).isActive = (v.pool p).isActive) : (v.modifyPool p f).Settled queued := by
  intro q hq hidle
  by_cases hne : q = p
  · subst hne
    simp only [PoolView.modifyPool, Function.update_self] at hidle ⊢
    rw [ha]
    exact h q hq (hr ▸ hidle)
  · simp only [PoolView.modifyPool, Function.update_of_ne hne] at hidle ⊢
    exact h q hq hidle

/-- The last request of a pool can leave it if the pool is inactive or to be deactivated. -/
theorem detach {p : PoolId} {r : ReqId} (hd : (v.pool p).isDead = false)
    (hlast : (v.pool p).requests = [r] → (v.pool p).isActive = false ∨ p ∈ queued)
    (hmem : r ∈ (v.pool p).requests) : (v.detach p r).Settled queued := by
  intro q hq hidle
  by_cases hne : q = p
  · subst hne
    simp only [PoolView.detach, Function.update_self, Pool.detach, hd, Bool.false_eq_true,
      ↓reduceIte, List.erase_eq_nil_iff] at hidle ⊢
    rcases hidle with hnil | hone
    · rw [hnil] at hmem
      cases hmem
    · exact hlast hone
  · simp only [PoolView.detach, Function.update_of_ne hne] at hidle ⊢
    exact h q hq hidle

theorem deactivate {p : PoolId} {queued' : List PoolId}
    (hsub : ∀ q ∈ queued, q = p ∨ q ∈ queued') : (v.deactivate p).Settled queued' := by
  intro q hq hidle
  by_cases hne : q = p
  · subst hne
    simp [PoolView.deactivate]
  · simp only [PoolView.deactivate, Function.update_of_ne hne] at hidle ⊢
    rcases h q hq hidle with hoff | hmem
    · exact Or.inl hoff
    · exact Or.inr ((hsub q hmem).resolve_left hne)

end PoolView.Settled

theorem settled_growthRule (queued : List PoolId) : GrowthRule fun v => v.Settled queued where
  newRequest _ h := h
  newPool _ _ _ := PoolView.Settled.newPool
  insert _ _ r _ hp := PoolView.Settled.insert r hp
  modifyPool _ _ _ h hr ha := h.modifyPool hr ha

/-! ### The end of a check -/

namespace Lib
variable {l : Lib} {p : PoolId}

/-- A pool without requests is inactive, or an event that deactivates it is queued. -/
def IdleSettled (l : Lib) (p : PoolId) : Prop :=
  (l.pool p).requests = [] → (l.pool p).isActive = false ∨ p ∈ l.deactivations

/-- The check changes nothing about whether its pool is settled: it queues an event or
leaves a request in the pool unless the list has been empty before. -/
theorem idleSettled_poolEventCheckFinish_iff (hw : PoolsOk l.poolView)
    (hc : l.poolView.inCallback p = false) :
    (l.poolEventCheckFinish p (l.pool p).curlMulti.running).IdleSettled p ↔ l.IdleSettled p := by
  have hwf : (l.pool p).WellFormed := hw.wellFormed p
  by_cases hn : ((l.pool p).curlMulti.running : ℤ) = (l.pool p).activeConnectionCount
  · rw [poolEventCheckFinish, if_pos hn]
  have hne : (l.pool p).requests ≠ [] := by
    intro hnil
    apply hn
    rw [hwf.count, Multi.running, hwf.handles, hnil]
    rfl
  have hd := drained_poolEventCheckFinish hw hc
  refine iff_of_true (fun hidle => Or.inr ?_) fun hnil => absurd hnil hne
  -- no transfer is running once the list is empty
  have hzero : (l.pool p).curlMulti.running = 0 := by
    rw [hd.requests] at hidle
    rw [Multi.running, hwf.handles, hwf.completed, hidle]
    rfl
  rw [poolEventCheckFinish, if_neg hn, hzero]
  simp only [poolEventCheckDrain, ↓reduceIte, deactivations, List.filterMap_cons, List.mem_cons,
    true_or]

theorem deactivations_subset_poolEventCheckFinish (n : ℕ) :
    l.deactivations ⊆ (l.poolEventCheckFinish p n).deactivations := by
  have hdrain := deactivations_poolDrain (l := l) p (l.pool p).curlMulti.msgs.length
  simp only [poolEventCheckFinish, poolEventCheckDrain]
  split_ifs
  · exact List.Subset.refl _
  · simp only [deactivations, List.filterMap_cons] at hdrain ⊢
    rw [hdrain]
    exact List.subset_cons_self _ _
  · rw [hdrain]
    exact List.Subset.refl _

/-- A deactivation stays queued until it is serviced. -/
theorem mem_deactivations_serviceEvent {b : Bool} (hp : p ∈ l.deactivations) :
    l.queue.find? (TclEvent.ready b) = some (.poolDeactivate p) ∨
      p ∈ ({ l with queue := l.queue.eraseP (TclEvent.ready b) } : Lib).deactivations := by
  cases hf : l.queue.find? (TclEvent.ready b) with
  | none =>
    right
    have hnone := List.find?_eq_none.mp hf
    have hsame : l.queue.eraseP (TclEvent.ready b) = l.queue := List.eraseP_of_forall_not hnone
    rw [hsame]
    exact hp
  | some event =>
    obtain ⟨hready, before, after, hq, hbefore⟩ := List.find?_eq_some_iff_append.mp hf
    have herase : l.queue.eraseP (TclEvent.ready b) = before ++ after := by
      rw [hq, List.eraseP_append_right _ (by simpa using hbefore), List.eraseP_cons_of_pos hready]
    simp only [deactivations, hq, List.filterMap_append, List.filterMap_cons, List.mem_append] at hp
    simp only [deactivations, herase, List.filterMap_append, List.mem_append]
    cases event with
    | poolDeactivate q =>
      rcases hp with hp | hp
      · exact Or.inr (Or.inl hp)
      · rcases List.mem_cons.mp hp with rfl | hp
        · exact Or.inl rfl
        · exact Or.inr (Or.inr hp)
    | request id req => exact Or.inr hp
    | other => exact Or.inr hp

end Lib

/-! ### Steps -/

namespace Machine

/-- The pool whose check goes on after a successful `curl_multi_perform`. -/
def checkedPool (m : Machine) : Action → Option PoolId
  | .performReturn true => match m.stack with
    | .perform p _ :: _ => some p
    | _ => none
  | _ => none

/-- A check finds no connection only in a pool that is inactive or to be deactivated. -/
def NoZeroExit (m : Machine) (a : Action) : Prop :=
  ∀ p ∈ m.checkedPool a, (m.lib.pool p).activeConnectionCount = 0 →
    (m.lib.pool p).isActive = false ∨ p ∈ m.lib.deactivations

/-- No release takes the last request out of a pool, unless the pool is inactive or to be
deactivated. -/
def LastNotReleased (m : Machine) (a : Action) : Prop :=
  ∀ r ∈ m.releases a, ∀ p ∈ (m.lib.request r).pool, (m.lib.pool p).requests = [r] →
    (m.lib.pool p).isActive = false ∨ p ∈ m.lib.deactivations

instance (m : Machine) (a : Action) : Decidable (m.NoZeroExit a) :=
  inferInstanceAs (Decidable (∀ p ∈ m.checkedPool a, (m.lib.pool p).activeConnectionCount = 0 →
    (m.lib.pool p).isActive = false ∨ p ∈ m.lib.deactivations))

instance (m : Machine) (a : Action) : Decidable (m.LastNotReleased a) :=
  inferInstanceAs (Decidable (∀ r ∈ m.releases a, ∀ p ∈ (m.lib.request r).pool,
    (m.lib.pool p).requests = [r] →
      (m.lib.pool p).isActive = false ∨ p ∈ m.lib.deactivations))

variable {m : Machine} {api : Api} {a : Action}

theorem checkedPool_eq_some {p : PoolId} (h : m.checkedPool a = some p) :
    a = .performReturn true ∧ ∃ wf stack, m.stack = .perform p wf :: stack := by
  unfold checkedPool at h
  split at h
  · split at h
    · rename_i hs
      cases h
      exact ⟨rfl, _, _, hs⟩
    · cases h
  · cases h

/-- The pool that a check leaves is settled exactly if the check has found it so. -/
theorem idleSettled_next_iff (hi : m.PoolInv) {p : PoolId} (hp : m.checkedPool a = some p) :
    (m.next api a).lib.IdleSettled p ↔ m.lib.IdleSettled p := by
  obtain ⟨rfl, wf, stack, hs⟩ := checkedPool_eq_some hp
  obtain ⟨hi₁, hoff⟩ := hi.performReturn hs
  have hnext : (m.next api (.performReturn true)).lib =
      (m.lib.setInCallback p false).poolEventCheckFinish p
        ((m.lib.setInCallback p false).pool p).curlMulti.running := by
    simp only [next, hs]
    rfl
  rw [hnext, Lib.idleSettled_poolEventCheckFinish_iff hi₁.pools hoff]
  simp only [Lib.IdleSettled, Lib.setInCallback, Lib.modifyPool, Function.update_self]
  rfl

/-- The counter tells whether the list is empty. -/
theorem noZeroExit_iff (hi : m.PoolInv) :
    m.NoZeroExit a ↔ ∀ p ∈ m.checkedPool a, m.lib.IdleSettled p := by
  have hcount : ∀ p, (m.lib.pool p).activeConnectionCount = 0 ↔ (m.lib.pool p).requests = [] := by
    intro p
    have hwf : (m.lib.pool p).WellFormed := hi.pools.wellFormed p
    rw [hwf.count, Int.natCast_eq_zero, List.length_eq_zero_iff]
  simp only [NoZeroExit, Lib.IdleSettled, hcount]

/-- Deactivations are queued until they are serviced. -/
theorem deactivations_subset_next (api : Api) (ha : m.enabled a = true)
    (hs : ∀ b, a ≠ .serviceEvent b) :
    m.lib.deactivations ⊆ (m.next api a).lib.deactivations := by
  have hsame : ∀ l : Lib, l.deactivations = m.lib.deactivations →
      m.lib.deactivations ⊆ l.deactivations := fun l hl => hl ▸ List.Subset.refl _
  cases a with
  | poolEventCheck p b w =>
    have hstart : (m.lib.poolEventCheckStart p b w).1.deactivations = m.lib.deactivations :=
      Lib.deactivations_of_eventView (by simp)
    simp only [next]
    split_ifs <;> exact hsame _ hstart
  | serviceEvent b => exact absurd rfl (hs b)
  | performReturn ok =>
    obtain ⟨p, wf, stack, hs, -⟩ := enabled_performReturn ha
    simp only [next, hs]
    cases ok with
    | false => exact hsame _ rfl
    | true => exact Lib.deactivations_subset_poolEventCheckFinish (l := m.lib.setInCallback p false) _
  | _ => exact hsame _ (congrArg Prod.fst (deactivationView_next api ha rfl))

/-- The end of a check keeps the default pool settled. A pool that is not the default one
any more has no requests, and its check ends early. -/
theorem settled_poolEventCheckFinish {l : Lib} {p : PoolId} {queued : List PoolId}
    (hw : PoolsOk l.poolView) (hc : l.poolView.inCallback p = false)
    (h : l.poolView.Settled l.deactivations)
    (hsub : (l.poolEventCheckFinish p (l.pool p).curlMulti.running).deactivations ⊆ queued) :
    (l.poolEventCheckFinish p (l.pool p).curlMulti.running).poolView.Settled queued := by
  by_cases hd : l.poolDefault = some p
  · have hrule : PoolRule fun v => v.poolDefault = some p :=
      ⟨fun _ h => h, fun _ h hn => (Option.some_ne_none p (h.symm.trans hn)).elim,
        fun _ _ _ h _ => h, fun _ _ _ h _ => h, fun _ _ _ h _ _ => h⟩
    have hafter := hrule.poolEventCheckFinish hd p (l.pool p).curlMulti.running
    intro q hq hidle
    cases hafter.symm.trans hq
    have hset := (Lib.idleSettled_poolEventCheckFinish_iff hw hc).mpr (h p hd)
    exact (hset hidle).imp_right fun hmem => hsub hmem
  · have hnil : (l.pool p).requests = [] := by
      apply List.eq_nil_iff_forall_not_mem.mpr
      intro r hr
      exact hd (hw.owner_default p r ((hw.mem_iff p r).mp hr))
    have hwf : (l.pool p).WellFormed := hw.wellFormed p
    have hsame : l.poolEventCheckFinish p (l.pool p).curlMulti.running = l := by
      apply if_pos
      rw [hwf.count, Multi.running, hwf.handles, hnil]
      rfl
    rw [hsame] at hsub ⊢
    exact h.mono hsub

theorem settled_serviceEvent (h : m.lib.poolView.Settled m.lib.deactivations) (b : Bool) :
    (m.lib.serviceEvent b).poolView.Settled (m.lib.serviceEvent b).deactivations := by
  have hsub : ∀ p ∈ m.lib.deactivations, _ := fun p => Lib.mem_deactivations_serviceEvent (b := b)
  simp only [Lib.serviceEvent]
  cases hf : m.lib.queue.find? (TclEvent.ready b) with
  | none => exact h.mono fun p hp => (hsub p hp).resolve_left (by simp [hf])
  | some event =>
    cases event with
    | poolDeactivate q =>
      apply h.deactivate
      intro p hp
      refine (hsub p hp).imp_left fun he => ?_
      cases hf.symm.trans he
      rfl
    | request id req =>
      have hkeep := h.mono fun p hp => (hsub p hp).resolve_left (by simp [hf])
      cases req <;> exact hkeep
    | other => exact h.mono fun p hp => (hsub p hp).resolve_left (by simp [hf])

theorem settled_poolThreadExitProc {l : Lib} {queued : List PoolId}
    (h : l.poolView.Settled queued) : l.poolThreadExitProc.poolView.Settled queued := by
  cases hd : l.poolDefault with
  | none =>
    simp only [Lib.poolThreadExitProc, hd]
    exact h
  | some p =>
    obtain ⟨pool, owner, hview⟩ := Lib.exists_poolView_poolThreadExitProc hd
    rw [hview]
    intro q hq
    cases hq

/-- Every action keeps the pools settled if it does not release the last request of one. -/
theorem settled_next (hi : m.PoolInv) (ha : m.enabled a = true) (hl : m.LastNotReleased a)
    (h : m.lib.poolView.Settled m.lib.deactivations) :
    (m.next api a).lib.poolView.Settled (m.next api a).lib.deactivations := by
  by_cases hserve : ∃ b, a = .serviceEvent b
  · obtain ⟨b, rfl⟩ := hserve
    exact settled_serviceEvent h b
  have hsub := deactivations_subset_next api ha fun b hb => hserve ⟨b, hb⟩
  apply (settled_growthRule _).next (h.mono hsub)
  · intro r hr p ho
    have hlive := hi.pools.live_of_owner ho
    apply (h.mono hsub).detach (hi.pools.alive p hlive.2)
    · exact fun hlast => (hl r hr p ho hlast).imp_right fun hq => hsub hq
    · exact (hi.pools.mem_iff p r).mpr ho
  · intro l r _ hnone p ho
    cases (hnone hi).symm.trans ho
  · exact fun b _ hb => absurd ⟨b, hb⟩ hserve
  · rintro p wf stack rfl hs l -
    obtain ⟨hi₁, hoff⟩ := hi.performReturn hs
    have hset : l.poolView.Settled l.deactivations :=
      h.modifyPool (f := fun q => { q with curlMulti := { q.curlMulti with inCallback := false } })
        rfl rfl
    apply settled_poolEventCheckFinish hi₁.pools hoff hset
    · simp only [next, hs]
      exact List.Subset.refl _
  · rintro rfl
    exact settled_poolThreadExitProc (h.mono hsub)

/-! ### Runs -/

theorem settled_init : init.lib.poolView.Settled init.lib.deactivations := by
  intro p hp
  cases hp

/-- In a run that releases no last request, every pool that has not been freed is settled. -/
theorem idleSettled_of_lastNotReleased {as : List Action}
    (hq : Run.Along (step api) Removable init as)
    (hl : Run.Along (step api) LastNotReleased init as) (hr : runOf api as = some m) {p : PoolId}
    (hf : m.lib.poolFreed p = false) : m.lib.IdleSettled p := by
  have hinv : m.PoolInv ∧ m.lib.poolView.Settled m.lib.deactivations := by
    refine Run.exec_preserves
      (I := fun m : Machine => m.PoolInv ∧ m.lib.poolView.Settled m.lib.deactivations)
      (fun s a t hs hok hst => ?_) ⟨poolInv_init, settled_init⟩ (hq.and hl) hr
    obtain ⟨ha, rfl⟩ := step_eq_some.mp hst
    exact ⟨hs.1.next ha hok.1, settled_next hs.1 ha hok.2 hs.2⟩
  obtain ⟨hi, hset⟩ := hinv
  intro hidle
  by_cases hp : p < m.lib.nextPool
  · exact hset p ((hi.pools.default_iff p).mpr ⟨hp, hf⟩) hidle
  · -- a pool that does not exist yet
    have hzero : m.lib.pool p = Pool.zero := (hi.pools.fresh p (Nat.le_of_not_lt hp)).1
    left
    rw [hzero]
    rfl

/-- In every run whose releases libcurl does not refuse: every check whose perform has
succeeded leaves its pool settled if it is idle, exactly if no such check finds no
connection in a pool that is active and not to be deactivated; and this cannot happen
where no release takes the last request out of such a pool. -/
theorem idlePools_settled_iff {as : List Action} (hq : Run.Along (step api) Removable init as)
    (hr : runOf api as = some m) :
    ((∀ bs a t u p, bs ++ [a] <+: as → runOf api bs = some t → runOf api (bs ++ [a]) = some u →
        t.checkedPool a = some p → u.lib.IdleSettled p) ↔
      Run.Along (step api) NoZeroExit init as) ∧
    (Run.Along (step api) LastNotReleased init as →
      ∀ bs t, bs <+: as → runOf api bs = some t → ∀ p, t.lib.poolFreed p = false →
        t.lib.IdleSettled p) := by
  constructor
  · have hstep : ∀ (t : Machine) a u, t.PoolInv → t.step api a = some u →
        ((∀ p, t.checkedPool a = some p → u.lib.IdleSettled p) ↔ t.NoZeroExit a) := by
      intro t a u hi hst
      obtain ⟨-, rfl⟩ := step_eq_some.mp hst
      rw [noZeroExit_iff hi]
      exact forall_congr' fun p => forall_congr' fun hp => idleSettled_next_iff hi hp
    have hinv : ∀ bs t, bs <+: as → runOf api bs = some t → t.PoolInv :=
      fun bs t hpre ht => poolInv_of_removable (hq.of_prefix hpre) ht
    rw [← Run.forall_step_iff_along hstep hinv hr]
    exact ⟨fun h bs a t u hpre ht hu p => h bs a t u p hpre ht hu,
      fun h bs a t u p hpre ht hu => h bs a t u hpre ht hu p⟩
  · exact fun hl bs t hpre ht p hf =>
      idleSettled_of_lastNotReleased (hq.of_prefix hpre) (hl.of_prefix hpre) ht hf

theorem idlePools_settled_iff_completedRun : ∃ m, runOf Api.plain completedRun = some m ∧
    m.lib.IdleSettled 0 := by
  obtain ⟨t, ht, hp⟩ := (Option.any_eq_true _ _).mp (show
    (runOf Api.plain [.getAsync, .poolEventCheck 0 true none, .curlComplete 0 0]).any
      (fun t => t.checkedPool (.performReturn true) = some 0) = true by decide +kernel)
  obtain ⟨m, hm⟩ := Option.isSome_iff_exists.mp
    (show (runOf Api.plain completedRun).isSome = true by decide +kernel)
  have hq := along_removable_of_noReentrantDestroy (by decide +kernel) hm
  have hsettled := (idlePools_settled_iff hq hm).1.mpr (by decide +kernel)
  exact ⟨m, hm, hsettled _ _ t m 0 (List.prefix_refl _) ht hm (of_decide_eq_true hp)⟩

/-- An async request is destroyed before the first check of its pool. -/
def destroyedBeforeCheck : List Action :=
  [.getAsync, .requestDestroy 0 false, .cleanupReturn, .poolEventCheck 0 true none]

theorem destroyedBeforeCheck_not_settled : ¬ ∀ api bs a t u p, runOf api bs = some t →
    runOf api (bs ++ [a]) = some u → t.checkedPool a = some p → u.lib.IdleSettled p := by
  intro hall
  obtain ⟨t, ht, hp⟩ := (Option.any_eq_true _ _).mp (show
    (runOf Api.plain destroyedBeforeCheck).any
      (fun t => t.checkedPool (.performReturn true) = some 0) = true by decide +kernel)
  obtain ⟨u, hu, hbusy⟩ := (Option.any_eq_true _ _).mp (show
    (runOf Api.plain (destroyedBeforeCheck ++ [.performReturn true])).any
      (fun u => (u.lib.pool 0).requests = [] ∧ (u.lib.pool 0).isActive = true ∧
        0 ∉ u.lib.deactivations) = true by decide +kernel)
  obtain ⟨hidle, hactive, hqueue⟩ := of_decide_eq_true hbusy
  rcases hall _ _ _ t u 0 ht hu (of_decide_eq_true hp) hidle with hoff | hmem
  · rw [hactive] at hoff
    cases hoff
  · exact hqueue hmem

end Machine

end Trequests
