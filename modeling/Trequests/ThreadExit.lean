import Trequests.PoolRule

/-! What still refers to the pool when the thread has ended. `treq_PoolFree` takes the
requests out of the pool, so that no request refers to it, but it leaves the event source
of an active pool where it is, and the deactivation events in the queue: a pool is only
freed for good if it is not active and no such event is queued. -/

namespace Trequests

/-- Enough of the order of the pools to hold in every run: a request is in the list of its
pool, and a pool is an event source once if it is active and not at all otherwise. -/
structure PoolsKnown (v : PoolView) : Prop where
  mem : ∀ p r, v.owner r = some p → r ∈ (v.pool p).requests
  source : ∀ p, v.sources.count p = if (v.pool p).isActive then 1 else 0
  fresh : ∀ p, v.nextPool ≤ p → (v.pool p).requests = [] ∧ (v.pool p).isActive = false
  default_lt : ∀ p, v.poolDefault = some p → p < v.nextPool

namespace PoolsKnown
variable {v : PoolView} (h : PoolsKnown v)
include h

theorem mem_sources_iff (p : PoolId) : p ∈ v.sources ↔ (v.pool p).isActive = true := by
  rw [← List.count_pos_iff, h.source p]
  split_ifs with ha <;> simp [ha]

theorem newRequest : PoolsKnown v.newRequest where
  mem p r ho := by
    by_cases hr : r = v.nextRequest
    · simp [PoolView.newRequest, hr] at ho
    · exact h.mem p r (by simpa [PoolView.newRequest, hr] using ho)
  source := h.source
  fresh := h.fresh
  default_lt := h.default_lt

theorem newPool : PoolsKnown v.newPool where
  mem p r ho := by
    have hmem := h.mem p r ho
    by_cases hp : p = v.nextPool
    · rw [hp, (h.fresh _ (Nat.le_refl _)).1] at hmem
      cases hmem
    · simpa [PoolView.newPool, hp] using hmem
  source p := by
    by_cases hp : p = v.nextPool
    · subst hp
      simpa [PoolView.newPool, Pool.zero, (h.fresh _ (Nat.le_refl _)).2] using h.source v.nextPool
    · simpa [PoolView.newPool, hp] using h.source p
  fresh p hp := by
    have hne : p ≠ v.nextPool := Nat.ne_of_gt hp
    simpa [PoolView.newPool, hne] using h.fresh p (Nat.le_of_succ_le hp)
  default_lt p hp := by
    cases hp
    exact Nat.lt_succ_self _

/-- Pools with the same lists and the same activity. -/
theorem of_same {v' : PoolView} (hr : ∀ p, (v'.pool p).requests = (v.pool p).requests)
    (ha : ∀ p, (v'.pool p).isActive = (v.pool p).isActive) (ho : v'.owner = v.owner)
    (hs : v'.sources = v.sources) (hn : v'.nextPool = v.nextPool)
    (hd : ∀ p, v'.poolDefault = some p → v.poolDefault = some p) : PoolsKnown v' where
  mem p r h' := by
    rw [hr]
    exact h.mem p r (ho ▸ h')
  source p := by rw [hs, ha, h.source p]
  fresh p hle := by
    rw [hr, ha]
    exact h.fresh p (hn ▸ hle)
  default_lt p hp := by
    rw [hn]
    exact h.default_lt p (hd p hp)

theorem modifyPool {p : PoolId} {f : Pool → Pool}
    (hr : (f (v.pool p)).requests = (v.pool p).requests)
    (ha : (f (v.pool p)).isActive = (v.pool p).isActive) : PoolsKnown (v.modifyPool p f) := by
  refine h.of_same (fun q => ?_) (fun q => ?_) rfl rfl rfl fun _ hq => hq <;>
    by_cases hq : q = p
  · subst hq; simpa [PoolView.modifyPool] using hr
  · simp [PoolView.modifyPool, hq]
  · subst hq; simpa [PoolView.modifyPool] using ha
  · simp [PoolView.modifyPool, hq]

theorem insert {p : PoolId} (r : ReqId) (hp : v.poolDefault = some p) :
    PoolsKnown (v.insert p r) where
  mem q x ho := by
    by_cases hx : x = r
    · subst hx
      have hq : p = q := by simpa [PoolView.insert] using ho
      subst hq
      simp [PoolView.insert, Pool.insert]
    · have hmem := h.mem q x (by simpa [PoolView.insert, hx] using ho)
      by_cases hq : q = p
      · subst hq; simp [PoolView.insert, Pool.insert, hmem]
      · simpa [PoolView.insert, hq] using hmem
  source q := by
    by_cases hq : q = p
    · subst hq
      have hcount := h.source q
      cases ha : (v.pool q).isActive <;>
        simpa [PoolView.insert, Pool.insert, ha] using hcount
    · have hsources : (v.insert p r).sources.count q = v.sources.count q := by
        simp only [PoolView.insert]
        split_ifs
        · rfl
        · exact List.count_cons_of_ne (Ne.symm hq)
      rw [hsources, h.source q]
      simp [PoolView.insert, hq]
  fresh q hle := by
    have hq : q ≠ p := Nat.ne_of_gt (Nat.lt_of_lt_of_le (h.default_lt p hp) hle)
    simpa [PoolView.insert, hq] using h.fresh q hle
  default_lt := h.default_lt

theorem detach (p : PoolId) (r : ReqId) : PoolsKnown (v.detach p r) where
  mem q x ho := by
    have hx : x ≠ r := by
      rintro rfl
      simp [PoolView.detach] at ho
    have hmem := h.mem q x (PoolView.owner_of_detach ho)
    by_cases hq : q = p
    · subst hq
      simp only [PoolView.detach, Function.update_self, Pool.detach]
      split_ifs
      · exact hmem
      · exact (List.mem_erase_of_ne hx).mpr hmem
    · simpa [PoolView.detach, hq] using hmem
  source q := by
    by_cases hq : q = p
    · subst hq; simpa [PoolView.detach, Pool.detach] using h.source q
    · simpa [PoolView.detach, hq] using h.source q
  fresh q hle := by
    have hfresh := h.fresh q hle
    by_cases hq : q = p
    · subst hq; simp [PoolView.detach, Pool.detach, hfresh]
    · simpa [PoolView.detach, hq] using hfresh
  default_lt := h.default_lt

theorem deactivate (p : PoolId) : PoolsKnown (v.deactivate p) where
  mem q r ho := by
    by_cases hq : q = p
    · subst hq; simpa [PoolView.deactivate] using h.mem q r ho
    · simpa [PoolView.deactivate, hq] using h.mem q r ho
  source q := by
    have hcount := h.source q
    by_cases hq : q = p
    · subst hq
      cases ha : (v.pool q).isActive <;> simp [PoolView.deactivate, hcount, ha]
    · simpa [PoolView.deactivate, hq, List.count_erase_of_ne hq] using hcount
  fresh q hle := by
    have hfresh := h.fresh q hle
    by_cases hq : q = p
    · subst hq; simp [PoolView.deactivate, hfresh]
    · simpa [PoolView.deactivate, hq] using hfresh
  default_lt := h.default_lt

/-- The first request of a list goes when it is in no pool any more. -/
theorem dropHead {p : PoolId} {r : ReqId} {rs : List ReqId} (hq : (v.pool p).requests = r :: rs)
    (hr : v.owner r = none) :
    PoolsKnown (v.modifyPool p fun q => { q with requests := q.requests.tail }) where
  mem q x ho := by
    have hmem := h.mem q x ho
    by_cases hq' : q = p
    · subst hq'
      have hx : x ≠ r := by
        rintro rfl
        rw [show v.owner x = some q from ho] at hr
        cases hr
      rw [hq] at hmem
      simpa [PoolView.modifyPool, hq] using List.mem_of_ne_of_mem hx hmem
    · simpa [PoolView.modifyPool, hq'] using hmem
  source q := by
    by_cases hq' : q = p
    · subst hq'; simpa [PoolView.modifyPool] using h.source q
    · simpa [PoolView.modifyPool, hq'] using h.source q
  fresh q hle := by
    have hfresh := h.fresh q hle
    by_cases hq' : q = p
    · subst hq'; simp [PoolView.modifyPool, hfresh]
    · simpa [PoolView.modifyPool, hq'] using hfresh
  default_lt := h.default_lt

end PoolsKnown

theorem PoolsKnown.poolRule : PoolRule PoolsKnown where
  newRequest _ h := h.newRequest
  newPool _ h _ := h.newPool
  insert _ _ r h hp := h.insert r hp
  detach _ p r h _ := h.detach p r
  modifyPool _ _ _ h hr ha := h.modifyPool hr ha

/-! ### The end of the thread -/

namespace Lib

/-- The pools of the queued `treq_PoolDeactivateEvent`s. -/
def deactivations (l : Lib) : List PoolId :=
  l.queue.filterMap fun
    | .poolDeactivate p => some p
    | _ => none

/-- Nothing that outlives the pool refers to it. -/
structure Unreferenced (l : Lib) (p : PoolId) : Prop where
  source : p ∉ l.sources
  deactivation : p ∉ l.deactivations
  request : ∀ r, (l.request r).pool ≠ some p

/-- The pool is not active, and no deactivation of it is queued. -/
def PoolIdle (l : Lib) (p : PoolId) : Prop :=
  (l.pool p).isActive = false ∧ p ∉ l.deactivations

instance (l : Lib) (p : PoolId) : Decidable (l.PoolIdle p) := inferInstanceAs (Decidable (_ ∧ _))

variable {l : Lib} {p : PoolId} {r : ReqId}

@[simp] theorem deactivations_requestScheduleCallback :
    (l.requestScheduleCallback r).deactivations = l.deactivations := by
  unfold requestScheduleCallback
  split_ifs <;> simp [deactivations]

@[simp] theorem deactivations_poolRemoveRequest :
    (l.poolRemoveRequest r).deactivations = l.deactivations := by
  unfold poolRemoveRequest
  cases (l.request r).pool with
  | none => rfl
  | some p =>
    simp only [poolAbort]
    split_ifs
    · rfl
    · rw [deactivations_requestScheduleCallback]
      rfl
    · rfl

theorem deactivations_poolFreeLoop (rs : List ReqId) :
    (poolFreeLoop p rs l).deactivations = l.deactivations := by
  induction rs generalizing l with
  | nil => rfl
  | cons r rs ih =>
    rw [poolFreeLoop, ih]
    exact deactivations_poolRemoveRequest

/-- The loop of `treq_PoolFree` changes the pools and who is in them, and nothing else. -/
theorem exists_poolView_poolFreeLoop (rs : List ReqId) :
    ∃ pool owner, (poolFreeLoop p rs l).poolView = { l.poolView with pool, owner } := by
  induction rs generalizing l with
  | nil => exact ⟨_, _, rfl⟩
  | cons r rs ih =>
    obtain ⟨pool, owner, hloop⟩ := ih (l := (l.poolRemoveRequest r).modifyPool p fun q =>
      { q with requests := q.requests.tail })
    refine ⟨pool, owner, ?_⟩
    rw [poolFreeLoop, hloop, poolView_modifyPool, poolView_poolRemoveRequest]
    cases l.poolView.owner r <;> rfl

theorem exists_poolView_poolThreadExitProc (hp : l.poolDefault = some p) :
    ∃ pool owner, l.poolThreadExitProc.poolView =
      { l.poolView with
        pool, owner, poolFreed := Function.update l.poolFreed p true, poolDefault := none } := by
  set l₁ := l.modifyPool p fun q => { q with isDead := true } with hl₁
  set l₂ := poolFreeLoop p (l₁.pool p).requests l₁ with hl₂
  obtain ⟨pool, owner, hloop⟩ : ∃ pool owner, l₂.poolView = { l₁.poolView with pool, owner } :=
    exists_poolView_poolFreeLoop (l₁.pool p).requests
  have hexit : l.poolThreadExitProc.poolView =
      { l₂.poolView with
        poolFreed := Function.update l₂.poolView.poolFreed p true, poolDefault := none } := by
    simp only [poolThreadExitProc, hp]
    rfl
  exact ⟨pool, owner, by rw [hexit, hloop]; rfl⟩

/-- A removal from a dead pool leaves the list alone. -/
theorem poolRemoveRequest_of_isDead (hd : (l.pool p).isDead = true) :
    ((l.poolRemoveRequest r).pool p).requests = (l.pool p).requests ∧
      ((l.poolRemoveRequest r).pool p).isDead = true ∧
      (l.poolRemoveRequest r).poolView.owner r = none := by
  rw [← poolView_pool, poolView_poolRemoveRequest]
  cases ho : l.poolView.owner r with
  | none => exact ⟨rfl, hd, ho⟩
  | some q =>
    by_cases hq : p = q
    · subst hq
      simp [PoolView.detach, Pool.detach, hd]
    · simp [PoolView.detach, hq, hd]

/-- The loop of `treq_PoolFree` empties the list. -/
theorem known_poolFreeLoop {rs : List ReqId} (h : PoolsKnown l.poolView)
    (hrs : (l.pool p).requests = rs) (hd : (l.pool p).isDead = true) :
    PoolsKnown (poolFreeLoop p rs l).poolView ∧ ((poolFreeLoop p rs l).pool p).requests = [] := by
  induction rs generalizing l with
  | nil => exact ⟨h, hrs⟩
  | cons r rs ih =>
    obtain ⟨hrequests, hdead, howner⟩ := poolRemoveRequest_of_isDead (r := r) hd
    have hremove := PoolsKnown.poolRule.poolRemoveRequest h r
    rw [hrs] at hrequests
    apply ih (l := (l.poolRemoveRequest r).modifyPool p fun q =>
      { q with requests := q.requests.tail })
    · exact hremove.dropHead hrequests howner
    · simp [modifyPool, hrequests]
    · simpa [modifyPool] using hdead

theorem known_poolFree (h : PoolsKnown l.poolView) :
    PoolsKnown (l.poolFree p).poolView ∧ ((l.poolFree p).pool p).requests = [] := by
  have hdead := PoolsKnown.poolRule.growth.libModifyPool h (p := p)
    (f := fun q => { q with isDead := true }) rfl rfl
  obtain ⟨hknown, hrequests⟩ := known_poolFreeLoop (p := p) hdead rfl (by simp [modifyPool])
  exact ⟨hknown.of_same (fun _ => rfl) (fun _ => rfl) rfl rfl rfl fun _ hq => hq, hrequests⟩

theorem known_poolThreadExitProc (h : PoolsKnown l.poolView) :
    PoolsKnown l.poolThreadExitProc.poolView := by
  unfold poolThreadExitProc
  cases l.poolDefault with
  | none => exact h
  | some p =>
    exact (known_poolFree h).1.of_same (fun _ => rfl) (fun _ => rfl) rfl rfl rfl
      fun _ hq => by cases hq

theorem deactivations_poolThreadExitProc : l.poolThreadExitProc.deactivations = l.deactivations := by
  unfold poolThreadExitProc
  cases l.poolDefault with
  | none => rfl
  | some p => exact deactivations_poolFreeLoop (l := l.modifyPool p _) _

/-- The end of the thread takes the pool from its requests, and from nothing else. -/
theorem unreferenced_poolThreadExitProc_iff (h : PoolsKnown l.poolView)
    (hp : l.poolDefault = some p) :
    l.poolThreadExitProc.Unreferenced p ↔ l.PoolIdle p := by
  have hexit : l.poolThreadExitProc = { l.poolFree p with poolDefault := none } := by
    simp only [poolThreadExitProc, hp]
  have hsources : l.poolThreadExitProc.sources = l.sources := by
    obtain ⟨pool, owner, hview⟩ := exists_poolView_poolThreadExitProc hp
    exact congrArg PoolView.sources hview
  have hdeactivations := deactivations_poolThreadExitProc (l := l)
  have howner : ∀ r, (l.poolThreadExitProc.request r).pool ≠ some p := by
    intro r ho
    rw [hexit] at ho
    obtain ⟨hknown, hrequests⟩ := known_poolFree (p := p) h
    have hmem := hknown.mem p r ho
    rw [poolView_pool, hrequests] at hmem
    cases hmem
  have hactive : p ∈ l.sources ↔ (l.pool p).isActive = true := h.mem_sources_iff p
  rw [PoolIdle, ← Bool.not_eq_true, ← hactive]
  constructor
  · rintro ⟨hs, hq, -⟩
    exact ⟨hsources ▸ hs, hdeactivations ▸ hq⟩
  · rintro ⟨hs, hq⟩
    exact ⟨hsources ▸ hs, hdeactivations ▸ hq, howner⟩

end Lib

end Trequests
