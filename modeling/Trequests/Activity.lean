import Trequests.Completion
import Trequests.PoolRule

/-! Whether a pool with requests is driven. The event that deactivates a pool is queued
when its last transfer is over, and serviced later; if meanwhile a request has been
added, which leaves an active pool as it is, the event takes away the source the request
depends on. Any run in which such an event only finds pools without requests, whatever
else happens in it, keeps every pool with requests active. -/

namespace Trequests

/-- A pool that has requests is active, and an active pool is an event source. -/
def ActiveOk (v : PoolView) : Prop :=
  ∀ p, v.poolFreed p = false →
    ((v.pool p).requests ≠ [] → (v.pool p).isActive = true) ∧
      ((v.pool p).isActive = true → p ∈ v.sources)

namespace ActiveOk
variable {v : PoolView} (h : ActiveOk v)
include h

/-- A step that adds no request and takes no source away. -/
theorem of_le {v' : PoolView}
    (hr : ∀ p, (v'.pool p).requests ≠ [] → (v.pool p).requests ≠ [])
    (ha : ∀ p, (v'.pool p).isActive = (v.pool p).isActive) (hs : v'.sources = v.sources)
    (hf : ∀ p, v'.poolFreed p = false → v.poolFreed p = false) : ActiveOk v' := by
  intro p hp
  obtain ⟨h₁, h₂⟩ := h p (hf p hp)
  rw [ha, hs]
  exact ⟨fun hne => h₁ (hr p hne), h₂⟩

theorem modifyPool {p : PoolId} {f : Pool → Pool}
    (hr : (f (v.pool p)).requests ≠ [] → (v.pool p).requests ≠ [])
    (ha : (f (v.pool p)).isActive = (v.pool p).isActive) : ActiveOk (v.modifyPool p f) := by
  refine h.of_le (fun q => ?_) (fun q => ?_) rfl fun _ hq => hq <;>
    by_cases hq : q = p
  · subst hq; simpa [PoolView.modifyPool] using hr
  · simp [PoolView.modifyPool, hq]
  · subst hq; simpa [PoolView.modifyPool] using ha
  · simp [PoolView.modifyPool, hq]

theorem detach (p : PoolId) (r : ReqId) : ActiveOk (v.detach p r) := by
  refine h.modifyPool (p := p) (f := fun q => q.detach r) (fun hne he => hne ?_) rfl
  simp [Pool.detach, he]

theorem newPool : ActiveOk v.newPool := by
  intro p hp
  by_cases he : p = v.nextPool
  · subst he; simp [PoolView.newPool, Pool.zero]
  · simpa [PoolView.newPool, he] using h p hp

theorem insert (p : PoolId) (r : ReqId) : ActiveOk (v.insert p r) := by
  intro q hq
  obtain ⟨h₁, h₂⟩ := h q hq
  by_cases he : q = p
  · subst he
    simp only [PoolView.insert, Function.update_self, Pool.insert, implies_true, true_and]
    intro
    split_ifs with ha
    · exact h₂ ha
    · exact List.mem_cons_self
  · simp only [PoolView.insert, Function.update_of_ne he]
    refine ⟨h₁, fun ha => ?_⟩
    split_ifs
    · exact h₂ ha
    · exact List.mem_cons_of_mem _ (h₂ ha)

/-- The deactivation of a pool that has no requests. -/
theorem deactivate {p : PoolId} (hp : (v.pool p).requests = []) : ActiveOk (v.deactivate p) := by
  intro q hq
  obtain ⟨h₁, h₂⟩ := h q hq
  by_cases he : q = p
  · subst he; simp [PoolView.deactivate, hp]
  · simp only [PoolView.deactivate, Function.update_of_ne he]
    exact ⟨h₁, fun ha => (List.mem_erase_of_ne he).mpr (h₂ ha)⟩

end ActiveOk

/-- The elementary steps on the pools keep it. -/
theorem ActiveOk.poolRule : PoolRule ActiveOk where
  newRequest _ h := h
  newPool _ h _ := h.newPool
  insert _ p r h _ := h.insert p r
  detach _ p r h _ := h.detach p r
  modifyPool v p f h hr ha := h.modifyPool (fun hne => by rwa [← hr]) ha

/-! ### The end of the thread -/

theorem Lib.active_poolThreadExitProc {l : Lib} (h : ActiveOk l.poolView) :
    ActiveOk l.poolThreadExitProc.poolView := by
  unfold poolThreadExitProc
  cases l.poolDefault with
  | none => exact h
  | some p =>
    have hdead := ActiveOk.poolRule.growth.libModifyPool h (p := p)
      (f := fun q => { q with isDead := true }) rfl rfl
    have hloop := ActiveOk.poolRule.poolFreeLoop hdead p
      ((l.modifyPool p fun q => { q with isDead := true }).pool p).requests fun v hv =>
        hv.modifyPool (fun hne he => hne (congrArg List.tail he)) rfl
    refine hloop.of_le (fun _ hq => hq) (fun _ => rfl) rfl fun q hq => ?_
    by_cases he : q = p
    · subst he; simp [poolView, poolFree] at hq
    · simpa [poolView, poolFree, he] using hq

/-! ### Steps -/

namespace Machine

/-- The pool of the deactivation event that is serviced has no requests. -/
def DeactivatesIdle (m : Machine) : Action → Prop
  | .serviceEvent b => match m.lib.queue.find? (TclEvent.ready b) with
    | some (.poolDeactivate p) => (m.lib.pool p).requests = []
    | _ => True
  | _ => True

instance (m : Machine) (a : Action) : Decidable (m.DeactivatesIdle a) := by
  unfold DeactivatesIdle
  split
  · split <;> infer_instance
  · infer_instance

variable {m : Machine}

theorem active_next (h : ActiveOk m.lib.poolView) {api : Api} {a : Action}
    (hd : m.DeactivatesIdle a) : ActiveOk (m.next api a).lib.poolView := by
  apply ActiveOk.poolRule.next h
  · rintro b p rfl hq
    simp only [DeactivatesIdle, hq] at hd
    exact h.deactivate hd
  · intro
    exact Lib.active_poolThreadExitProc h

/-! ### Runs -/

theorem activeOk_init : ActiveOk init.lib.poolView := by
  intro p _
  simp [init, Lib.init, Lib.poolView, Pool.zero]

/-- Every pool that has requests is active and an event source. -/
def PoolsActive (m : Machine) : Prop :=
  ∀ p, m.lib.poolFreed p = false → (m.lib.pool p).requests ≠ [] →
    (m.lib.pool p).isActive = true ∧ p ∈ m.lib.sources

theorem activeOk_of_deactivatesIdle {api : Api} {as : List Action}
    (hd : Run.Along (step api) DeactivatesIdle init as) (hr : runOf api as = some m) :
    ActiveOk m.lib.poolView := by
  refine Run.exec_preserves (I := fun m : Machine => ActiveOk m.lib.poolView)
    (fun s a t hs hok hst => ?_) activeOk_init hd hr
  obtain ⟨-, rfl⟩ := step_eq_some.mp hst
  exact active_next hs hok

/-- The pools with requests stay active over a run exactly if every deactivation event
that is serviced in it finds its pool without requests. -/
theorem pools_active_iff_deactivatesIdle {api : Api} {as : List Action}
    (hr : runOf api as = some m) :
    (∀ bs t, bs <+: as → runOf api bs = some t → t.PoolsActive) ↔
      Run.Along (step api) DeactivatesIdle init as := by
  constructor
  · intro hact
    apply Run.along_iff_forall_prefix.mpr
    intro bs a t hp he
    obtain ⟨u, hst, hu⟩ := Run.step_of_prefix hp hr he
    obtain ⟨ha, rfl⟩ := step_eq_some.mp hst
    have hafter := hact _ _ hp hu
    cases a with
    | serviceEvent b =>
      simp only [DeactivatesIdle]
      split
      · rename_i p hq
        -- after the event the pool is not active
        by_contra hne
        simp only [enabled, hq, Bool.and_eq_true, Bool.not_eq_true'] at ha
        have := hafter p
          (by simpa [next, setLib, Lib.serviceEvent, hq, Lib.poolDeactivate, Lib.modifyPool] using ha.2)
          (by simpa [next, setLib, Lib.serviceEvent, hq, Lib.poolDeactivate, Lib.modifyPool] using hne)
        simp [next, setLib, Lib.serviceEvent, hq, Lib.poolDeactivate, Lib.modifyPool] at this
      · trivial
    | _ => trivial
  · intro hd bs t hp ht p hf hne
    obtain ⟨h₁, h₂⟩ := activeOk_of_deactivatesIdle (hd.of_prefix hp) ht p hf
    exact ⟨h₁ hne, h₂ (h₁ hne)⟩

theorem pools_active_iff_deactivatesIdle_completedRun : ∃ m, runOf Api.plain completedRun = some m ∧
    ∀ bs t, bs <+: completedRun → runOf Api.plain bs = some t → t.PoolsActive := by
  obtain ⟨m, hm⟩ := Option.isSome_iff_exists.mp
    (show (runOf Api.plain completedRun).isSome = true by decide +kernel)
  exact ⟨m, hm, (pools_active_iff_deactivatesIdle hm).mpr (by decide +kernel)⟩

/-- A script that is evaluated ahead of the deactivation event adds a request. -/
def staleDeactivationRun : List Action :=
  completedRun ++ [.queueOther true, .serviceEvent true, .getAsync, .serviceEvent true]

theorem staleDeactivationRun_not_active :
    ¬ ∀ api as m, runOf api as = some m → m.PoolsActive := by
  intro hact
  obtain ⟨m, hm, hp⟩ := (Option.any_eq_true _ _).mp (show (runOf Api.plain staleDeactivationRun).any
    (fun m => m.lib.poolFreed 0 = false ∧ (m.lib.pool 0).requests ≠ [] ∧
      (m.lib.pool 0).isActive = false) = true by decide +kernel)
  obtain ⟨hf, hne, hoff⟩ := of_decide_eq_true hp
  have := (hact _ _ m hm 0 hf hne).1
  rw [hoff] at this
  cases this

end Machine

end Trequests
