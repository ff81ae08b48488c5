import Trequests.PoolInvariant

/-! The pools over the runs of the machine. Every procedure keeps the pools in order
and changes neither which multi handles have a callback running nor the pool of an
older request that has none, provided that a request is released only while no
callback of its pool runs. -/

namespace Trequests

/-! ### The procedures on the view of the pools -/

namespace Lib
variable (l : Lib) (r : ReqId) (p : PoolId)

@[simp] theorem poolView_pool : l.poolView.pool = l.pool := rfl

@[simp] theorem poolView_modifyPool (f : Pool → Pool) :
    (l.modifyPool p f).poolView = l.poolView.modifyPool p f := rfl

@[simp] theorem poolView_poolComplete (result : CURLcode) :
    (l.poolComplete p r result).poolView =
      l.poolView.modifyPool p fun q => { q with curlMulti := q.curlMulti.complete r result } := rfl

@[simp] theorem poolView_setInCallback (b : Bool) :
    (l.setInCallback p b).poolView =
      l.poolView.modifyPool p fun q =>
        { q with curlMulti := { q.curlMulti with inCallback := b } } := rfl

theorem nextPool_poolEventCheckStart (b : Bool) (w : Option ℕ) :
    (l.poolEventCheckStart p b w).1.poolView.nextPool = l.nextPool := by
  obtain ⟨v, hv⟩ := l.poolEventCheckStart_eq p b w
  rw [hv]
  rfl

theorem owner_modifyRequest (f : Request → Request) :
    (l.modifyRequest r f).poolView =
      { l.poolView with
        owner := Function.update l.poolView.owner r (f (l.request r)).pool } := by
  have ho := field_modifyRequest l r Request.pool f
  simp only [poolView, ho]
  rfl

@[simp] theorem poolView_poolInsert : (l.poolInsert p r).poolView = l.poolView.insert p r := by
  simp only [poolInsert, poolView_modifyPool]
  split_ifs with ha
  · have hact : (l.pool p).isActive = true := by simpa [modifyRequest, modifyPool] using ha
    simp only [owner_modifyRequest, poolView_modifyPool]
    simp [PoolView.modifyPool, PoolView.insert, Pool.insert, poolView, hact]
  · have hact : (l.pool p).isActive = false := by simpa [modifyRequest, modifyPool] using ha
    have hv : ∀ l' : Lib, (l'.poolActivate p).poolView =
        { l'.poolView.modifyPool p fun q => { q with isActive := true } with
          sources := p :: l'.sources } := fun _ => rfl
    simp only [hv, owner_modifyRequest, poolView_modifyPool]
    simp [PoolView.modifyPool, PoolView.insert, Pool.insert, poolView, hact, modifyRequest, modifyPool]

@[simp] theorem poolView_poolDetach : (l.poolDetach p r).poolView = l.poolView.detach p r := by
  simp only [poolDetach, owner_modifyRequest, poolView_modifyPool, linkedListRemoveByItem_eq_erase]
  rfl

theorem poolView_poolRemoveRequest :
    (l.poolRemoveRequest r).poolView =
      (match l.poolView.owner r with
        | none => l.poolView
        | some p => l.poolView.detach p r) := by
  have ho : l.poolView.owner r = (l.request r).pool := rfl
  rw [ho, poolRemoveRequest]
  cases (l.request r).pool <;> simp

theorem poolView_initRequest : l.initRequest.poolView = l.poolView.newRequest := by
  have ho := Function.comp_update Request.pool l.request l.nextRequest
    { Request.zero with curlEasy := initCalls }
  simp only [poolView, PoolView.newRequest]
  congr 1

theorem poolView_newRequest {env : CurlEnv} {session : Option SesId} {l' : Lib}
    (h : l.newRequest env session = some (l', r)) :
    r = l.nextRequest ∧ l'.poolView = l.poolView.newRequest := by
  obtain ⟨hr, rfl⟩ := newRequest_eq_some h
  rw [← poolView_initRequest]
  cases session <;> simp [hr]

end Lib

/-! ### What every procedure keeps -/

/-- The pools after a procedure, seen from before it; `n` bounds the requests that
were there. -/
structure PoolView.Evolves (n : ReqId) (v v' : PoolView) : Prop where
  ok : PoolsOk v'
  inCallback : ∀ p, v'.inCallback p = v.inCallback p
  owner : ∀ r p, v'.owner r = some p → v.owner r = some p ∨ n ≤ r ∧ v.inCallback p = false
  next : v.nextRequest ≤ v'.nextRequest

theorem PoolView.Evolves.owner_none {n : ReqId} {v v' : PoolView} (h : v.Evolves n v') {r : ReqId}
    (hr : r < n) (ho : v.owner r = none) : v'.owner r = none := by
  apply Option.eq_none_iff_forall_ne_some.mpr
  intro p hp
  rcases h.owner r p hp with hp | ⟨hn, -⟩
  · rw [ho] at hp; cases hp
  · exact Nat.not_le_of_lt hr hn

namespace PoolsOk
variable {v : PoolView} (h : PoolsOk v) {n : ReqId} {p : PoolId} {r : ReqId}
include h

theorem evolves_refl : v.Evolves n v := ⟨h, fun _ => rfl, fun _ _ hr => Or.inl hr, Nat.le_refl _⟩

theorem evolves_newRequest : v.Evolves n v.newRequest where
  ok := h.newRequest
  inCallback _ := rfl
  owner x p ho := by
    by_cases hx : x = v.nextRequest
    · simp [PoolView.newRequest, hx] at ho
    · exact Or.inl (by simpa [PoolView.newRequest, hx] using ho)
  next := Nat.le_succ _

theorem evolves_newPool (hd : v.poolDefault = none) : v.Evolves n v.newPool where
  ok := h.newPool hd
  inCallback p := by
    by_cases hp : p = v.nextPool
    · subst hp
      simp [PoolView.inCallback, PoolView.newPool, (h.fresh _ (Nat.le_refl _)).1]
    · simp [PoolView.inCallback, PoolView.newPool, hp]
  owner _ _ ho := Or.inl ho
  next := Nat.le_refl _

theorem evolves_insert (hp : v.poolDefault = some p) (hr : v.owner r = none)
    (hlt : r < v.nextRequest) (hn : n ≤ r) (hc : v.inCallback p = false) :
    v.Evolves n (v.insert p r) where
  ok := h.insert hp hr hlt
  inCallback x := by
    by_cases hx : x = p
    · subst hx; simp [PoolView.inCallback, PoolView.insert, Pool.insert, Multi.addHandle]
    · simp [PoolView.inCallback, PoolView.insert, hx]
  owner x q ho := by
    by_cases hx : x = r
    · subst hx
      simp only [PoolView.insert, Function.update_self, Option.some.injEq] at ho
      exact Or.inr ⟨hn, ho ▸ hc⟩
    · exact Or.inl (by simpa [PoolView.insert, hx] using ho)
  next := Nat.le_refl _

end PoolsOk

theorem PoolView.Evolves.trans {n : ReqId} {v v' v'' : PoolView} (h : v.Evolves n v')
    (h' : v'.Evolves n v'') : v.Evolves n v'' where
  ok := h'.ok
  inCallback p := (h'.inCallback p).trans (h.inCallback p)
  owner r p ho := by
    rcases h'.owner r p ho with ho | ⟨hn, hc⟩
    · exact h.owner r p ho
    · exact Or.inr ⟨hn, (h.inCallback p).symm.trans hc⟩
  next := Nat.le_trans h.next h'.next

theorem PoolView.inCallback_detach (v : PoolView) (p x : PoolId) (r : ReqId) :
    (v.detach p r).inCallback x = v.inCallback x := by
  by_cases hx : x = p
  · subst hx
    simp only [inCallback, detach, Function.update_self, Pool.detach, Multi.removeHandle]
    split_ifs <;> rfl
  · simp [inCallback, detach, hx]

theorem PoolView.owner_of_detach {v : PoolView} {x : ReqId} {p q : PoolId} {r : ReqId}
    (h : (v.detach p r).owner x = some q) : v.owner x = some q := by
  by_cases hx : x = r
  · simp [detach, hx] at h
  · simpa [detach, hx] using h

theorem PoolView.owner_detach_of_none {v : PoolView} {x : ReqId} (p : PoolId) (r : ReqId)
    (h : v.owner x = none) : (v.detach p r).owner x = none := by
  by_cases hx : x = r
  · simp [detach, hx]
  · simpa [detach, hx] using h

namespace Lib
variable {l : Lib} (h : PoolsOk l.poolView) {n : ReqId} {p : PoolId} {r : ReqId}
include h

theorem evolves_poolRemoveRequest
    (hc : ∀ p, l.poolView.owner r = some p → l.poolView.inCallback p = false) :
    l.poolView.Evolves n (l.poolRemoveRequest r).poolView := by
  rw [poolView_poolRemoveRequest]
  cases ho : l.poolView.owner r with
  | none => exact h.evolves_refl
  | some p =>
    exact
      { ok := h.detach ho (hc p ho)
        inCallback := fun x => l.poolView.inCallback_detach p x r
        owner := fun x q hx => Or.inl (PoolView.owner_of_detach hx)
        next := Nat.le_refl _ }

theorem evolves_requestFreeStart
    (hc : ∀ p, l.poolView.owner r = some p → l.poolView.inCallback p = false) :
    l.poolView.Evolves n (l.requestFreeStart r).poolView := by
  have hv : ((l.detachCallbackEvent r).sessionRemoveRequest r).poolView = l.poolView := by simp
  have := evolves_poolRemoveRequest (l := (l.detachCallbackEvent r).sessionRemoveRequest r)
    (n := n) (r := r) (by rw [hv]; exact h) (by rw [hv]; exact hc)
  rwa [hv] at this

theorem evolves_poolTryInsert (env : CurlEnv) (hp : l.poolView.poolDefault = some p)
    (hr : l.poolView.owner r = none) (hlt : r < l.poolView.nextRequest) (hn : n ≤ r) :
    l.poolView.Evolves n (l.poolTryInsert env p r).1.poolView := by
  unfold poolTryInsert
  split_ifs with hc
  · simpa using h.evolves_insert hp hr hlt hn ((Bool.not_eq_true _).mp hc.2)
  · exact h.evolves_refl

theorem evolves_poolAddRequest (env : CurlEnv) (hr : l.poolView.owner r = none)
    (hlt : r < l.poolView.nextRequest) (hn : n ≤ r) :
    l.poolView.Evolves n (l.poolAddRequest env r).1.poolView := by
  unfold poolAddRequest
  split
  · rename_i p hp
    exact evolves_poolTryInsert h env hp hr hlt hn
  · rename_i hd
    split_ifs
    · have h₁ := h.evolves_newPool (n := n) hd
      exact h₁.trans (evolves_poolTryInsert (l := l.poolInit.1) h₁.ok env rfl hr hlt hn)
    · exact h.evolves_refl

theorem evolves_requestRunStart (env : CurlEnv) (hr : l.poolView.owner r = none)
    (hlt : r < l.poolView.nextRequest) (hn : n ≤ r) :
    l.poolView.Evolves n (l.requestRunStart env r).1.poolView := by
  simp only [requestRunStart]
  split
  · simpa using h.evolves_refl
  · set l₁ := (l.modifyRequest r _).setState r .inprogress with hl₁
    have hv : l₁.poolView = l.poolView := by simp [hl₁]
    have := evolves_poolAddRequest (l := l₁) (n := n) (r := r) (by rw [hv]; exact h)
      env (by rw [hv]; exact hr) (by rw [hv]; exact hlt) hn
    rw [hv] at this
    split_ifs
    · exact this
    · simpa using this
    · rw [hv]; exact h.evolves_refl

omit h in
theorem poolView_requestRunStart_sync (env : CurlEnv) (ha : (l.request r).async = false) :
    (l.requestRunStart env r).1.poolView = l.poolView := by
  simp only [requestRunStart]
  split
  · simp
  · rw [if_neg]
    · simp
    · simp [setState, modifyRequest, ha]

end Lib

/-! ### The loop over the messages -/

namespace Lib
variable {l : Lib} {n : ReqId} {p : PoolId}

/-- One pass of the loop, for the message of a finished transfer. -/
def poolDrainPass (l : Lib) (p : PoolId) (msg : CURLMsg) (msgs : List CURLMsg) : Lib :=
  (l.modifyPool p fun q => q.setMsgs msgs).poolCompleteRequest msg

theorem poolDrain_cons {msg : CURLMsg} {msgs : List CURLMsg} (fuel : ℕ)
    (hm : (l.pool p).curlMulti.msgs = msg :: msgs) (hd : msg.msg = .done) :
    poolDrain p (fuel + 1) l = poolDrain p fuel (l.poolDrainPass p msg msgs) := by
  simp only [poolDrain, hm, hd]
  rfl

theorem poolView_poolDrainPass {msg : CURLMsg} {msgs : List CURLMsg} (h : PoolsOk l.poolView)
    (hm : (l.pool p).curlMulti.msgs = msg :: msgs) (hc : l.poolView.inCallback p = false) :
    (l.poolDrainPass p msg msgs).poolView =
      (l.poolView.modifyPool p fun q => q.setMsgs msgs).detach p msg.easyHandle := by
  obtain ⟨ho, -⟩ := h.detach_setMsgs hm hc
  have ho' : (l.poolView.modifyPool p fun q => q.setMsgs msgs).owner msg.easyHandle = some p := ho
  simp only [poolDrainPass, poolCompleteRequest, poolView_requestScheduleCallback,
    poolView_poolRemoveRequest, poolView_setState, poolView_modifyPool, ho']

theorem evolves_poolDrainPass {msg : CURLMsg} {msgs : List CURLMsg} (h : PoolsOk l.poolView)
    (hm : (l.pool p).curlMulti.msgs = msg :: msgs) (hc : l.poolView.inCallback p = false) :
    l.poolView.Evolves n (l.poolDrainPass p msg msgs).poolView := by
  rw [poolView_poolDrainPass h hm hc]
  refine ⟨(h.detach_setMsgs hm hc).2, fun x => ?_,
    fun x q hx => Or.inl (PoolView.owner_of_detach (p := p) hx), Nat.le_refl _⟩
  rw [PoolView.inCallback_detach]
  by_cases hx : x = p
  · subst hx; simp [PoolView.inCallback, PoolView.modifyPool, Pool.setMsgs]
  · simp [PoolView.inCallback, PoolView.modifyPool, hx]

theorem msgs_poolDrainPass {msg : CURLMsg} {msgs : List CURLMsg} (h : PoolsOk l.poolView)
    (hm : (l.pool p).curlMulti.msgs = msg :: msgs) (hc : l.poolView.inCallback p = false) :
    ((l.poolDrainPass p msg msgs).pool p).curlMulti.msgs = msgs := by
  have hv := congrArg (fun v => (v.pool p).curlMulti.msgs) (poolView_poolDrainPass h hm hc)
  have hc' : (l.pool p).curlMulti.inCallback = false := hc
  have hf := (h.wellFormed p).filter_msgs hm
  simp only [poolView, PoolView.detach, PoolView.modifyPool, Function.update_self, Pool.detach,
    Pool.setMsgs, Multi.removeHandle, hc', Bool.false_eq_true, ↓reduceIte, hf] at hv
  exact hv

/-- The rule of the loop: what every pass keeps, on its way through the messages, holds
in the end with no message left. -/
theorem poolDrain_rule {I : List CURLMsg → Lib → Prop}
    (hpass : ∀ l msg msgs, PoolsOk l.poolView → l.poolView.inCallback p = false →
      (l.pool p).curlMulti.msgs = msg :: msgs → I (msg :: msgs) l →
      I msgs (l.poolDrainPass p msg msgs))
    (h : PoolsOk l.poolView) (hc : l.poolView.inCallback p = false)
    (hI : I (l.pool p).curlMulti.msgs l) :
    I [] (poolDrain p (l.pool p).curlMulti.msgs.length l) ∧
      ((poolDrain p (l.pool p).curlMulti.msgs.length l).pool p).curlMulti.msgs = [] := by
  generalize hm : (l.pool p).curlMulti.msgs = msgs at hI ⊢
  induction msgs generalizing l with
  | nil => exact ⟨hI, hm⟩
  | cons msg msgs ih =>
    have hd : msg.msg = .done := (h.wellFormed p).done msg (by
      have : (l.poolView.pool p).curlMulti.msgs = msg :: msgs := hm
      rw [this]; exact List.mem_cons_self)
    have he := evolves_poolDrainPass (n := 0) h hm hc
    rw [List.length_cons, poolDrain_cons _ hm hd]
    exact ih he.ok ((he.inCallback p).trans hc) (msgs_poolDrainPass h hm hc)
      (hpass l msg msgs h hc hm hI)

theorem evolves_poolDrain (h : PoolsOk l.poolView) (hc : l.poolView.inCallback p = false) :
    l.poolView.Evolves n (poolDrain p (l.pool p).curlMulti.msgs.length l).poolView := by
  refine (poolDrain_rule (I := fun _ l' => l.poolView.Evolves n l'.poolView) ?_ h hc
    h.evolves_refl).1
  intro l' msg msgs hok hc' hm hI
  exact hI.trans (evolves_poolDrainPass hok hm hc')

theorem evolves_poolEventCheckFinish (h : PoolsOk l.poolView)
    (hc : l.poolView.inCallback p = false) (numfds : ℕ) :
    l.poolView.Evolves n (l.poolEventCheckFinish p numfds).poolView := by
  have hd := evolves_poolDrain (n := n) h hc
  simp only [poolEventCheckFinish, poolEventCheckDrain]
  split_ifs
  · exact h.evolves_refl
  · exact hd
  · exact hd

/-! ### The end of the thread -/

/-- What the loop of `treq_PoolFree` does to the pools. -/
structure PoolFreed (p : PoolId) (v v' : PoolView) : Prop where
  core : PoolsCore v'
  requests : (v'.pool p).requests = []
  pool : ∀ x, x ≠ p → v'.pool x = v.pool x
  poolFreed : v'.poolFreed = v.poolFreed
  poolDefault : v'.poolDefault = v.poolDefault
  nextRequest : v'.nextRequest = v.nextRequest
  inCallback : v'.inCallback p = v.inCallback p
  owner : ∀ x q, v'.owner x = some q → v.owner x = some q

theorem poolFreeLoop_spec {rs : List ReqId} (h : PoolsCore l.poolView)
    (hrs : (l.pool p).requests = rs) (hd : (l.pool p).isDead = true)
    (hc : l.poolView.inCallback p = false) :
    PoolFreed p l.poolView (poolFreeLoop p rs l).poolView := by
  induction rs generalizing l with
  | nil => exact ⟨h, hrs, fun _ _ => rfl, rfl, rfl, rfl, rfl, fun _ _ hx => hx⟩
  | cons r rs ih =>
    have hr : l.poolView.owner r = some p := (h.mem_iff p r).mp (by simp [hrs])
    set l' := (l.poolRemoveRequest r).modifyPool p fun q => { q with requests := q.requests.tail }
      with hl'
    have hv : l'.poolView =
        (l.poolView.detach p r).modifyPool p fun q => { q with requests := q.requests.tail } := by
      rw [hl', poolView_modifyPool, poolView_poolRemoveRequest, hr]
    have hp : l'.pool p =
        { (l.pool p).detach r with requests := ((l.pool p).detach r).requests.tail } := by
      rw [← poolView_pool l', hv]
      simp [PoolView.modifyPool, PoolView.detach]
    have hcall : l'.poolView.inCallback p = l.poolView.inCallback p := by
      rw [← l.poolView.inCallback_detach p p r, hv]
      simp [PoolView.inCallback, PoolView.modifyPool]
    have hrest := ih (l := l') (hv ▸ h.free_pass hrs hd hc) (by rw [hp]; simp [Pool.detach, hd, hrs])
      (by rw [hp]; exact hd) (hcall.trans hc)
    exact
      { core := hrest.core
        requests := hrest.requests
        pool := fun x hx => by
          rw [poolFreeLoop, hrest.pool x hx, hv]
          simp [PoolView.modifyPool, PoolView.detach, hx]
        poolFreed := hrest.poolFreed.trans (by rw [hv]; rfl)
        poolDefault := hrest.poolDefault.trans (by rw [hv]; rfl)
        nextRequest := hrest.nextRequest.trans (by rw [hv]; rfl)
        inCallback := hrest.inCallback.trans hcall
        owner := fun x q ho => by
          have := hrest.owner x q ho
          rw [hv] at this
          exact PoolView.owner_of_detach (p := p) (r := r) this }

theorem evolves_poolThreadExitProc (h : PoolsOk l.poolView)
    (hc : ∀ p, l.poolView.inCallback p = false) :
    l.poolView.Evolves n l.poolThreadExitProc.poolView := by
  unfold poolThreadExitProc
  cases hp : l.poolDefault with
  | none => exact h.evolves_refl
  | some p =>
    have hlive : p < l.nextPool ∧ l.poolFreed p = false := (h.default_iff p).mp hp
    set l₁ := l.modifyPool p fun q => { q with isDead := true } with hl₁
    have hp₁ : l₁.pool p = { l.pool p with isDead := true } := by simp [hl₁, modifyPool]
    have hcore : PoolsCore (l.poolView.modifyPool p fun q => { q with isDead := true }) :=
      h.toPoolsCore.modifyPool hlive.1 ((h.wellFormed p).of_flags rfl rfl rfl rfl rfl) rfl rfl
    have hcall : ∀ x, l₁.poolView.inCallback x = false := fun x => by
      by_cases hx : x = p
      · subst hx; simpa [PoolView.inCallback, hp₁] using hc x
      · simpa [PoolView.inCallback, hl₁, modifyPool, hx] using hc x
    have hf := poolFreeLoop_spec (l := l₁) hcore rfl (by rw [hp₁]) (hcall p)
    set l₂ := poolFreeLoop p (l₁.pool p).requests l₁ with hl₂
    refine ⟨hf.core.free (hf.poolDefault.trans hp) hf.requests ?_, ?_, ?_, ?_⟩
    · intro x hx hx'
      rw [hf.pool x hx]
      rw [hf.poolFreed] at hx'
      simpa [hl₁, modifyPool, hx] using h.alive x hx'
    · intro x
      have hx : l₂.poolView.inCallback x = false := by
        by_cases he : x = p
        · rw [he, hf.inCallback]; exact hcall p
        · rw [PoolView.inCallback, hf.pool x he]; exact hcall x
      exact hx.trans (hc x).symm
    · exact fun x q ho => Or.inl (hf.owner x q ho)
    · exact Nat.le_of_eq hf.nextRequest.symm

end Lib

end Trequests
