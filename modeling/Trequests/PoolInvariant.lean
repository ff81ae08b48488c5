import Mathlib.Data.List.Nodup
import Trequests.Views

/-! The bookkeeping of the pool. A pool is well formed when its list of requests, its
counter and the handles attached to its multi handle agree, and the messages not
yet read are those of the finished handles. The pools of a thread are in order
when moreover the pool field of a request tells which list it is in, only the
default pool is in use, and a pool is registered as an event source once if it is
active and not at all otherwise. -/

namespace Trequests

structure Pool.WellFormed (q : Pool) : Prop where
  handles : q.curlMulti.handles = q.requests
  nodup : q.requests.Nodup
  count : q.activeConnectionCount = q.requests.length
  completed : q.curlMulti.completed = q.curlMulti.msgs.map CURLMsg.easyHandle
  completed_sub : ∀ r ∈ q.curlMulti.completed, r ∈ q.requests
  completed_nodup : q.curlMulti.completed.Nodup
  done : ∀ msg ∈ q.curlMulti.msgs, msg.msg = .done

/-- The part of the order that also holds while `treq_PoolFree` takes a pool apart. -/
structure PoolsCore (v : PoolView) : Prop where
  wellFormed : ∀ p, (v.pool p).WellFormed
  mem_iff : ∀ p r, r ∈ (v.pool p).requests ↔ v.owner r = some p
  lt : ∀ p r, v.owner r = some p → r < v.nextRequest
  default_iff : ∀ p, v.poolDefault = some p ↔ p < v.nextPool ∧ v.poolFreed p = false
  owner_default : ∀ p r, v.owner r = some p → v.poolDefault = some p
  source : ∀ p, v.poolFreed p = false →
    v.sources.count p = if (v.pool p).isActive then 1 else 0
  fresh : ∀ p, v.nextPool ≤ p → v.pool p = Pool.zero ∧ v.poolFreed p = false

structure PoolsOk (v : PoolView) : Prop extends PoolsCore v where
  alive : ∀ p, v.poolFreed p = false → (v.pool p).isDead = false

/-! ### One pool -/

namespace Pool

/-- What `treq_PoolAddRequest` makes of a pool. -/
def insert (q : Pool) (r : ReqId) : Pool :=
  { q with
    curlMulti := q.curlMulti.addHandle r
    requests := r :: q.requests
    isActive := true
    activeConnectionCount := q.activeConnectionCount + 1
    needRefresh := true }

/-- What `treq_PoolRemoveRequest` makes of a pool. -/
def detach (q : Pool) (r : ReqId) : Pool :=
  { q with
    curlMulti := q.curlMulti.removeHandle r
    requests := if q.isDead then q.requests else q.requests.erase r
    activeConnectionCount := q.activeConnectionCount - 1 }

/-- A message has been read. -/
def setMsgs (q : Pool) (msgs : List CURLMsg) : Pool :=
  { q with curlMulti := { q.curlMulti with msgs } }

theorem zero_wellFormed : zero.WellFormed where
  handles := rfl
  nodup := List.nodup_nil
  count := rfl
  completed := rfl
  completed_sub := by simp [zero, Multi.init]
  completed_nodup := List.nodup_nil
  done := by simp [zero, Multi.init]

namespace WellFormed
variable {q : Pool} (h : q.WellFormed)
include h

theorem insert {r : ReqId} (hr : r ∉ q.requests) : (q.insert r).WellFormed where
  handles := congrArg (r :: ·) h.handles
  nodup := List.nodup_cons.mpr ⟨hr, h.nodup⟩
  count := by simp [Pool.insert, h.count]
  completed := h.completed
  completed_sub x hx := List.mem_cons_of_mem r (h.completed_sub x hx)
  completed_nodup := h.completed_nodup
  done := h.done

theorem length_erase {r : ReqId} (hr : r ∈ q.requests) :
    q.activeConnectionCount - 1 = (q.requests.erase r).length := by
  have hpos := List.length_pos_of_mem hr
  rw [h.count, List.length_erase_of_mem hr]
  omega

/-- Outside a callback, removing a request from a pool in use keeps it well formed. -/
theorem detach {r : ReqId} (hr : r ∈ q.requests) (hd : q.isDead = false)
    (hc : q.curlMulti.inCallback = false) : (q.detach r).WellFormed := by
  have hh := h.handles
  constructor <;>
    simp only [Pool.detach, Multi.removeHandle, hc, hd, Bool.false_eq_true, ↓reduceIte]
  · rw [hh]
  · exact h.nodup.erase r
  · exact h.length_erase hr
  · rw [h.completed_nodup.erase_eq_filter, h.completed, List.filter_map]
    congr 1
    apply List.filter_congr
    intro msg _
    simp [bne, beq_eq_decide]
  · intro x hx
    have hx' := (h.completed_nodup.mem_erase_iff).mp hx
    exact (h.nodup.mem_erase_iff).mpr ⟨hx'.1, h.completed_sub x hx'.2⟩
  · exact h.completed_nodup.erase r
  · exact fun msg hmsg => h.done msg (List.mem_of_mem_filter hmsg)

/-- No other message belongs to the handle of the first one. -/
theorem filter_msgs {msg : CURLMsg} {msgs : List CURLMsg} (hm : q.curlMulti.msgs = msg :: msgs) :
    msgs.filter (fun m => m.easyHandle ≠ msg.easyHandle) = msgs := by
  have hnodup := h.completed_nodup
  rw [h.completed, hm] at hnodup
  apply List.filter_eq_self.mpr
  intro m hmem
  have : m.easyHandle ≠ msg.easyHandle := fun he =>
    (List.nodup_cons.mp hnodup).1 (he ▸ List.mem_map_of_mem hmem)
  simpa using this

/-- A pass of the loop of `treq_PoolEventCheck`: the message of a finished handle is
read and the handle is removed. -/
theorem detach_setMsgs {msg : CURLMsg} {msgs : List CURLMsg} (hm : q.curlMulti.msgs = msg :: msgs)
    (hd : q.isDead = false) (hc : q.curlMulti.inCallback = false) :
    ((q.setMsgs msgs).detach msg.easyHandle).WellFormed := by
  have hcompl : q.curlMulti.completed = msg.easyHandle :: msgs.map CURLMsg.easyHandle := by
    rw [h.completed, hm, List.map_cons]
  have hnodup := h.completed_nodup
  rw [hcompl] at hnodup
  obtain ⟨hnotin, hnodup⟩ := List.nodup_cons.mp hnodup
  have hr : msg.easyHandle ∈ q.requests := h.completed_sub _ (by rw [hcompl]; simp)
  have hfilter := h.filter_msgs hm
  constructor <;>
    simp only [Pool.detach, Pool.setMsgs, Multi.removeHandle, hc, hd, Bool.false_eq_true,
      ↓reduceIte]
  · rw [h.handles]
  · exact h.nodup.erase _
  · exact h.length_erase hr
  · rw [hfilter, hcompl, List.erase_cons_head]
  · intro x hx
    rw [hcompl, List.erase_cons_head] at hx
    refine (h.nodup.mem_erase_iff).mpr ⟨fun he => hnotin (he ▸ hx), h.completed_sub x ?_⟩
    rw [hcompl]
    exact List.mem_cons_of_mem _ hx
  · rw [hcompl, List.erase_cons_head]
    exact hnodup
  · rw [hfilter]
    exact fun m hmem => h.done m (by rw [hm]; exact List.mem_cons_of_mem _ hmem)

/-- A pass of the loop of `treq_PoolFree`. -/
theorem free_pass {r : ReqId} {rs : List ReqId} (hq : q.requests = r :: rs)
    (hd : q.isDead = true) (hc : q.curlMulti.inCallback = false) :
    Pool.WellFormed { q.detach r with requests := (q.detach r).requests.tail } := by
  -- on a list with this head, taking the tail is erasing the head
  have he : q.requests.tail = q.requests.erase r := by rw [hq, List.erase_cons_head, List.tail_cons]
  have hr : r ∈ q.requests := by rw [hq]; exact List.mem_cons_self
  have := WellFormed.detach (q := { q with isDead := false })
    ⟨h.handles, h.nodup, h.count, h.completed, h.completed_sub, h.completed_nodup, h.done⟩ hr rfl hc
  simp only [Pool.detach, hd, Bool.false_eq_true, ↓reduceIte] at this ⊢
  rw [he]
  exact ⟨this.handles, this.nodup, this.count, this.completed, this.completed_sub,
    this.completed_nodup, this.done⟩

/-- What the bookkeeping reads does not include the flags. -/
theorem of_flags {t : Pool} (hm : t.curlMulti.handles = q.curlMulti.handles)
    (hc : t.curlMulti.completed = q.curlMulti.completed)
    (hs : t.curlMulti.msgs = q.curlMulti.msgs) (hr : t.requests = q.requests)
    (hn : t.activeConnectionCount = q.activeConnectionCount) : t.WellFormed where
  handles := by rw [hm, hr, h.handles]
  nodup := hr ▸ h.nodup
  count := by rw [hn, hr, h.count]
  completed := by rw [hc, hs, h.completed]
  completed_sub := by rw [hc, hr]; exact h.completed_sub
  completed_nodup := hc ▸ h.completed_nodup
  done := hs ▸ h.done

/-- A running transfer ends. -/
theorem complete {r : ReqId} (hr : r ∈ q.curlMulti.handles) (hn : r ∉ q.curlMulti.completed)
    (result : CURLcode) :
    Pool.WellFormed { q with curlMulti := q.curlMulti.complete r result } where
  handles := h.handles
  nodup := h.nodup
  count := h.count
  completed := by simp [Multi.complete, h.completed]
  completed_sub x hx := by
    rcases List.mem_append.mp hx with hx | hx
    · exact h.completed_sub x hx
    · rw [List.mem_singleton.mp hx, ← h.handles]
      exact hr
  completed_nodup := by
    refine List.nodup_append.mpr ⟨h.completed_nodup, List.nodup_singleton r, ?_⟩
    rintro a ha b hb rfl
    exact hn (List.mem_singleton.mp hb ▸ ha)
  done msg hmsg := by
    rcases List.mem_append.mp hmsg with hmsg | hmsg
    · exact h.done msg hmsg
    · rw [List.mem_singleton.mp hmsg]

/-- A pool has as many running transfers as its counter says exactly when no transfer
has finished unnoticed. -/
theorem running_eq_count_iff :
    (q.curlMulti.running : ℤ) = q.activeConnectionCount ↔ q.curlMulti.completed = [] := by
  rw [h.count, Multi.running, h.handles, Int.natCast_inj, List.length_filter_eq_length_iff]
  constructor
  · intro hall
    apply List.eq_nil_iff_forall_not_mem.mpr
    intro r hr
    simpa [hr] using hall r (h.completed_sub r hr)
  · intro he r _
    simp [he]

end WellFormed

end Pool

/-! ### All pools -/

namespace PoolView
variable (v : PoolView)

/-- `treq_PoolAddRequest` on a pool that exists. -/
def insert (p : PoolId) (r : ReqId) : PoolView :=
  { v with
    pool := Function.update v.pool p ((v.pool p).insert r)
    owner := Function.update v.owner r (some p)
    sources := if (v.pool p).isActive then v.sources else p :: v.sources }

/-- `treq_PoolRemoveRequest`, as far as the pool is concerned. -/
def detach (p : PoolId) (r : ReqId) : PoolView :=
  { v with
    pool := Function.update v.pool p ((v.pool p).detach r)
    owner := Function.update v.owner r none }

/-- `treq_PoolInit` for the default pool. -/
def newPool : PoolView :=
  { v with
    pool := Function.update v.pool v.nextPool Pool.zero
    nextPool := v.nextPool + 1
    poolDefault := some v.nextPool }

/-- A new request. -/
def newRequest : PoolView :=
  { v with
    owner := Function.update v.owner v.nextRequest none
    nextRequest := v.nextRequest + 1 }

def deactivate (p : PoolId) : PoolView :=
  { v with
    pool := Function.update v.pool p { v.pool p with isActive := false }
    sources := v.sources.erase p }

def modifyPool (p : PoolId) (f : Pool → Pool) : PoolView :=
  { v with pool := Function.update v.pool p (f (v.pool p)) }

/-- A callback of a transfer of the pool is running. -/
def inCallback (p : PoolId) : Bool := (v.pool p).curlMulti.inCallback

end PoolView

namespace PoolsCore
variable {v : PoolView} (h : PoolsCore v)
include h

/-- Replacing a pool by a well formed one whose list has lost exactly the request that
loses its pool. -/
theorem replace {p : PoolId} {r : ReqId} {q : Pool} (hr : v.owner r = some p) (hq : q.WellFormed)
    (hreq : q.requests = (v.pool p).requests.erase r) (ha : q.isActive = (v.pool p).isActive) :
    PoolsCore { v with
      pool := Function.update v.pool p q, owner := Function.update v.owner r none } where
  wellFormed x := by
    by_cases hx : x = p
    · subst hx; simpa using hq
    · simpa [hx] using h.wellFormed x
  mem_iff x y := by
    have hnodup := (h.wellFormed p).nodup
    by_cases hy : y = r
    · subst hy
      by_cases hx : x = p
      · subst hx
        simp [hreq, hnodup.mem_erase_iff]
      · simp [hx, h.mem_iff, hr, Ne.symm hx]
    · by_cases hx : x = p
      · subst hx
        simp [hreq, hnodup.mem_erase_iff, hy, h.mem_iff]
      · simp [hx, hy, h.mem_iff]
  lt x y hy := by
    by_cases he : y = r
    · simp [he] at hy
    · simp only [Function.update_of_ne he] at hy
      exact h.lt x y hy
  default_iff := h.default_iff
  owner_default x y hy := by
    by_cases he : y = r
    · simp [he] at hy
    · simp only [Function.update_of_ne he] at hy
      exact h.owner_default x y hy
  source x hx := by
    by_cases he : x = p
    · subst he; simpa [ha] using h.source x hx
    · simpa [he] using h.source x hx
  fresh x hx := by
    have hp := ((h.default_iff p).mp (h.owner_default p r hr)).1
    have he : x ≠ p := fun he => Nat.not_le_of_lt hp (he ▸ hx)
    simpa [he] using h.fresh x hx

/-- A change of a pool in use that concerns neither its list nor its
activity. -/
theorem modifyPool {p : PoolId} {f : Pool → Pool} (hp : p < v.nextPool)
    (hq : (f (v.pool p)).WellFormed) (hreq : (f (v.pool p)).requests = (v.pool p).requests)
    (ha : (f (v.pool p)).isActive = (v.pool p).isActive) : PoolsCore (v.modifyPool p f) where
  wellFormed x := by
    by_cases hx : x = p
    · subst hx; simpa [PoolView.modifyPool] using hq
    · simpa [PoolView.modifyPool, hx] using h.wellFormed x
  mem_iff x y := by
    by_cases hx : x = p
    · subst hx; simpa [PoolView.modifyPool, hreq] using h.mem_iff x y
    · simpa [PoolView.modifyPool, hx] using h.mem_iff x y
  lt := h.lt
  default_iff := h.default_iff
  owner_default := h.owner_default
  source x hx := by
    by_cases he : x = p
    · subst he; simpa [PoolView.modifyPool, ha] using h.source x hx
    · simpa [PoolView.modifyPool, he] using h.source x hx
  fresh x hx := by
    have he : x ≠ p := fun he => Nat.not_le_of_lt hp (he ▸ hx)
    simpa [PoolView.modifyPool, he] using h.fresh x hx

/-- One pass of the loop of `treq_PoolFree`. -/
theorem free_pass {p : PoolId} {r : ReqId} {rs : List ReqId} (hq : (v.pool p).requests = r :: rs)
    (hd : (v.pool p).isDead = true) (hc : v.inCallback p = false) :
    PoolsCore ((v.detach p r).modifyPool p fun q => { q with requests := q.requests.tail }) := by
  have hr : v.owner r = some p := (h.mem_iff p r).mp (by rw [hq]; exact List.mem_cons_self)
  have := h.replace hr ((h.wellFormed p).free_pass hq hd hc)
    (by simp [Pool.detach, hd, hq]) rfl
  simpa [PoolView.detach, PoolView.modifyPool] using this

/-- Once its list is empty, the default pool can go. -/
theorem free {p : PoolId} (hp : v.poolDefault = some p) (hq : (v.pool p).requests = [])
    (ha : ∀ x, x ≠ p → v.poolFreed x = false → (v.pool x).isDead = false) :
    PoolsOk { v with poolFreed := Function.update v.poolFreed p true, poolDefault := none } where
  wellFormed := h.wellFormed
  mem_iff := h.mem_iff
  lt := h.lt
  default_iff x := by
    simp only [reduceCtorEq, false_iff, not_and]
    intro hlt hx
    by_cases he : x = p
    · simp [he] at hx
    · rw [Function.update_of_ne he] at hx
      have := (h.default_iff x).mpr ⟨hlt, hx⟩
      rw [hp, Option.some.injEq] at this
      exact he this.symm
  owner_default x r hr := by
    have hx := h.owner_default x r hr
    rw [hp, Option.some.injEq] at hx
    have hmem := (h.mem_iff x r).mpr hr
    rw [← hx, hq] at hmem
    exact absurd hmem List.not_mem_nil
  source x hx := by
    by_cases he : x = p
    · simp [he] at hx
    · exact h.source x (by simpa [he] using hx)
  fresh x hx := by
    have hlt := ((h.default_iff p).mp hp).1
    have he : x ≠ p := fun he => Nat.not_le_of_lt hlt (he ▸ hx)
    simpa [he] using h.fresh x hx
  alive x hx := by
    by_cases he : x = p
    · simp [he] at hx
    · exact ha x he (by simpa [he] using hx)

end PoolsCore

namespace PoolsOk
variable {v : PoolView} (h : PoolsOk v)
include h

theorem notMem_of_owner_none {p : PoolId} {r : ReqId} (hr : v.owner r = none) :
    r ∉ (v.pool p).requests := by
  rw [h.mem_iff, hr]; simp

theorem newRequest : PoolsOk v.newRequest where
  wellFormed := h.wellFormed
  mem_iff p r := by
    by_cases hr : r = v.nextRequest
    · subst hr
      have hn : v.nextRequest ∉ (v.pool p).requests := fun hm =>
        Nat.lt_irrefl _ (h.lt p _ ((h.mem_iff p _).mp hm))
      simp [PoolView.newRequest, hn]
    · simp [PoolView.newRequest, hr, h.mem_iff]
  lt p r hr := by
    by_cases he : r = v.nextRequest
    · simp [PoolView.newRequest, he] at hr
    · simp only [PoolView.newRequest, Function.update_of_ne he] at hr
      exact Nat.lt_succ_of_lt (h.lt p r hr)
  default_iff := h.default_iff
  owner_default p r hr := by
    by_cases he : r = v.nextRequest
    · simp [PoolView.newRequest, he] at hr
    · simp only [PoolView.newRequest, Function.update_of_ne he] at hr
      exact h.owner_default p r hr
  source := h.source
  fresh := h.fresh
  alive := h.alive

theorem newPool (hd : v.poolDefault = none) : PoolsOk v.newPool := by
  have hz : Function.update v.pool v.nextPool Pool.zero = v.pool :=
    Function.update_eq_self_iff.mpr (h.fresh _ (Nat.le_refl _)).1.symm
  have hv : v.newPool = { v with nextPool := v.nextPool + 1, poolDefault := some v.nextPool } := by
    rw [PoolView.newPool, hz]
  have hnone : ∀ p r, v.owner r ≠ some p := fun p r hr => by
    have := h.owner_default p r hr
    rw [hd] at this
    cases this
  rw [hv]
  exact
    { wellFormed := h.wellFormed
      mem_iff := h.mem_iff
      lt := h.lt
      default_iff := fun p => by
        have hold := h.default_iff p
        simp only [hd, reduceCtorEq, false_iff, not_and] at hold
        have hf := h.fresh v.nextPool (Nat.le_refl _)
        constructor
        · rintro ⟨⟩
          exact ⟨Nat.lt_succ_self _, hf.2⟩
        · rintro ⟨hlt, hp⟩
          rcases Nat.lt_succ_iff_lt_or_eq.mp hlt with hlt | rfl
          · exact absurd hp (hold hlt)
          · rfl
      owner_default := fun p r hr => absurd hr (hnone p r)
      source := h.source
      fresh := fun p hp => h.fresh p (Nat.le_of_succ_le hp)
      alive := h.alive }

theorem insert {p : PoolId} {r : ReqId} (hp : v.poolDefault = some p) (hr : v.owner r = none)
    (hlt : r < v.nextRequest) : PoolsOk (v.insert p r) where
  wellFormed x := by
    by_cases hx : x = p
    · subst hx
      simpa [PoolView.insert] using (h.wellFormed x).insert (h.notMem_of_owner_none hr)
    · simpa [PoolView.insert, hx] using h.wellFormed x
  mem_iff x y := by
    by_cases hy : y = r
    · subst hy
      by_cases hx : x = p
      · subst hx
        simp [PoolView.insert, Pool.insert]
      · simp [PoolView.insert, hx, h.notMem_of_owner_none hr, Ne.symm hx]
    · by_cases hx : x = p
      · subst hx
        simp [PoolView.insert, Pool.insert, hy, h.mem_iff]
      · simp [PoolView.insert, hx, hy, h.mem_iff]
  lt x y hy := by
    by_cases he : y = r
    · exact he ▸ hlt
    · simp only [PoolView.insert, Function.update_of_ne he] at hy
      exact h.lt x y hy
  default_iff := h.default_iff
  owner_default x y hy := by
    by_cases he : y = r
    · subst he
      simp only [PoolView.insert, Function.update_self] at hy
      exact hp.trans hy
    · simp only [PoolView.insert, Function.update_of_ne he] at hy
      exact h.owner_default x y hy
  source x hx := by
    have hs := h.source x hx
    by_cases he : x = p
    · subst he
      by_cases ha : (v.pool x).isActive <;>
        simp [PoolView.insert, Pool.insert, ha] at hs ⊢ <;> exact hs
    · by_cases ha : (v.pool p).isActive <;>
        simp [PoolView.insert, ha, he, Ne.symm he, hs]
  fresh x hx := by
    have hp' := ((h.default_iff p).mp hp).1
    have he : x ≠ p := fun he => Nat.not_le_of_lt hp' (he ▸ hx)
    simpa [PoolView.insert, he] using h.fresh x hx
  alive x hx := by
    by_cases he : x = p
    · subst he
      simpa [PoolView.insert, Pool.insert] using h.alive x hx
    · simpa [PoolView.insert, he] using h.alive x hx

theorem replace {p : PoolId} {r : ReqId} {q : Pool} (hr : v.owner r = some p) (hq : q.WellFormed)
    (hreq : q.requests = (v.pool p).requests.erase r) (ha : q.isActive = (v.pool p).isActive)
    (hd : q.isDead = (v.pool p).isDead) :
    PoolsOk { v with
      pool := Function.update v.pool p q, owner := Function.update v.owner r none } where
  toPoolsCore := h.toPoolsCore.replace hr hq hreq ha
  alive x hx := by
    by_cases he : x = p
    · subst he; simpa [hd] using h.alive x hx
    · simpa [he] using h.alive x hx

theorem lt_of_mem_sources {p : PoolId} (hp : p ∈ v.sources) (hf : v.poolFreed p = false) :
    p < v.nextPool := by
  by_contra hlt
  have hs := h.source p hf
  rw [(h.fresh p (Nat.le_of_not_lt hlt)).1] at hs
  exact List.count_eq_zero.mp hs hp

theorem lt_of_inCallback {p : PoolId} (hp : v.inCallback p = true) : p < v.nextPool := by
  by_contra hlt
  simp [PoolView.inCallback, (h.fresh p (Nat.le_of_not_lt hlt)).1, Pool.zero, Multi.init] at hp

theorem live_of_owner {p : PoolId} {r : ReqId} (hr : v.owner r = some p) :
    p < v.nextPool ∧ v.poolFreed p = false :=
  (h.default_iff p).mp (h.owner_default p r hr)

theorem detach {p : PoolId} {r : ReqId} (hr : v.owner r = some p)
    (hc : v.inCallback p = false) : PoolsOk (v.detach p r) := by
  have hd := h.alive p (h.live_of_owner hr).2
  have hq := (h.wellFormed p).detach ((h.mem_iff p r).mpr hr) hd hc
  exact h.replace hr hq (by simp [Pool.detach, hd]) rfl rfl

/-- One pass of the loop over the messages. -/
theorem detach_setMsgs {p : PoolId} {msg : CURLMsg} {msgs : List CURLMsg}
    (hm : (v.pool p).curlMulti.msgs = msg :: msgs) (hc : v.inCallback p = false) :
    v.owner msg.easyHandle = some p ∧
      PoolsOk ((v.modifyPool p fun q => q.setMsgs msgs).detach p msg.easyHandle) := by
  have hw := h.wellFormed p
  have hr : v.owner msg.easyHandle = some p := by
    refine (h.mem_iff p _).mp (hw.completed_sub _ ?_)
    rw [hw.completed, hm]; simp
  have hd := h.alive p (h.live_of_owner hr).2
  refine ⟨hr, ?_⟩
  have := h.replace hr (hw.detach_setMsgs hm hd hc) (by simp [Pool.detach, Pool.setMsgs, hd]) rfl rfl
  simpa [PoolView.detach, PoolView.modifyPool] using this

theorem modifyPool {p : PoolId} {f : Pool → Pool} (hp : p < v.nextPool)
    (hq : (f (v.pool p)).WellFormed) (hreq : (f (v.pool p)).requests = (v.pool p).requests)
    (ha : (f (v.pool p)).isActive = (v.pool p).isActive)
    (hd : (f (v.pool p)).isDead = (v.pool p).isDead) : PoolsOk (v.modifyPool p f) where
  toPoolsCore := h.toPoolsCore.modifyPool hp hq hreq ha
  alive x hx := by
    by_cases he : x = p
    · subst he; simpa [PoolView.modifyPool, hd] using h.alive x hx
    · simpa [PoolView.modifyPool, he] using h.alive x hx

theorem deactivate (p : PoolId) : PoolsOk (v.deactivate p) where
  wellFormed x := by
    by_cases hx : x = p
    · subst hx
      simpa [PoolView.deactivate] using
        (h.wellFormed x).of_flags (t := { v.pool x with isActive := false })
          rfl rfl rfl rfl rfl
    · simpa [PoolView.deactivate, hx] using h.wellFormed x
  mem_iff x y := by
    by_cases hx : x = p
    · subst hx; simpa [PoolView.deactivate] using h.mem_iff x y
    · simpa [PoolView.deactivate, hx] using h.mem_iff x y
  lt := h.lt
  default_iff := h.default_iff
  owner_default := h.owner_default
  source x hx := by
    have hs := h.source x hx
    by_cases he : x = p
    · subst he
      rw [PoolView.deactivate, List.count_erase_self, hs]
      by_cases ha : (v.pool x).isActive <;> simp [ha]
    · simpa [PoolView.deactivate, he, List.count_erase_of_ne (Ne.symm he)] using hs
  fresh x hx := by
    have hf := h.fresh x hx
    by_cases he : x = p
    · subst he; simpa [PoolView.deactivate, hf.1, Pool.zero] using hf.2
    · simpa [PoolView.deactivate, he] using hf
  alive x hx := by
    by_cases he : x = p
    · subst he; simpa [PoolView.deactivate] using h.alive x hx
    · simpa [PoolView.deactivate, he] using h.alive x hx

end PoolsOk

end Trequests
