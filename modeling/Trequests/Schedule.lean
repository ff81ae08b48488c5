import Mathlib.Data.List.Chain
import Trequests.Runs

/-! The states of the requests and their callback events. A request that is over has
left the pool, and if its callback is due the event has been queued exactly then; a
request that is not over, or is sync, has had no event. The exception is a request
whose write callback has failed: it is in error already, but stays in the pool until
the perform that reports it returns. -/

namespace Trequests

/-- The moves of a request's state. An error may be recorded again. -/
def RequestState.Moves : RequestState → RequestState → Prop
  | .created, .inprogress | .created, .error => True
  | .inprogress, .done | .inprogress, .error => True
  | .error, .error => True
  | _, _ => False

def RequestState.Final (s : RequestState) : Prop := s = .done ∨ s = .error

/-- The frames of transfers. -/
def Frame.isTransfer : Frame → Bool
  | .run .. | .perform .. => true
  | _ => false

/-- The request of a frame of `curl_easy_perform`. -/
def Frame.runs : Frame → Option ReqId
  | .run r _ _ => some r
  | _ => none

namespace CallbackView
variable (v : CallbackView)

/-- The states written to one request. -/
def statesOf (r : ReqId) : List RequestState :=
  (v.stateLog.filter fun e => e.1 = r).map Prod.snd

/-- `treq_RequestScheduleCallback` -/
def schedule (r : ReqId) : CallbackView :=
  if v.callback r = none then v
  else if v.interpDeleted (v.interp r) then v
  else { v with scheduled := v.scheduled ++ [r] }

/-- A new request with what decides about its callback. -/
def create (async : Bool) (callback : Option Str) (interp : InterpId) : CallbackView :=
  { v with
    async := Function.update v.async v.nextRequest async
    callback := Function.update v.callback v.nextRequest callback
    interp := Function.update v.interp v.nextRequest interp
    state := Function.update v.state v.nextRequest .created
    stateLog := v.stateLog ++ [(v.nextRequest, .created)]
    nextRequest := v.nextRequest + 1 }

/-- The callback of the request runs when the request is over. -/
def Due (r : ReqId) : Prop := v.callback r ≠ none ∧ v.interpDeleted (v.interp r) = false

end CallbackView

/-- The recorded states of every request are moves from the first to the present one. -/
structure LogOk (v : CallbackView) : Prop where
  chain : ∀ r < v.nextRequest, (v.statesOf r).IsChain RequestState.Moves
  first : ∀ r < v.nextRequest, (v.statesOf r).head? = some .created
  last : ∀ r < v.nextRequest, (v.statesOf r).getLast? = some (v.state r)
  fresh : ∀ r, v.nextRequest ≤ r → v.statesOf r = []

structure ScheduleInv (v : CallbackView) (w : PoolView) (frames : List Frame) : Prop where
  log : LogOk v
  nodup : v.scheduled.Nodup
  scheduled : ∀ r ∈ v.scheduled,
    r < v.nextRequest ∧ (v.state r).Final ∧ v.async r = true ∧ w.owner r = none
  due : ∀ r < v.nextRequest, v.async r = true → (v.state r).Final → w.owner r = none →
    v.Due r → r ∈ v.scheduled
  owned : ∀ p r, w.owner r = some p → v.async r = true ∧
    (v.state r = .inprogress ∨ v.state r = .error ∧ .perform p true ∈ frames ∧
      ∃ msg ∈ (w.pool p).curlMulti.msgs, msg.easyHandle = r ∧ msg.result ≠ curleOk)
  running : ∀ r s f, .run r s f ∈ frames → v.async r = false ∧
    (v.state r = .inprogress ∨ v.state r = .error ∧ f = true)
  frames_nodup : (frames.filterMap Frame.runs).Nodup

/-! ### The log -/

theorem RequestState.Final.not_inprogress {s : RequestState} (h : s.Final) : s ≠ .inprogress := by
  rintro rfl
  rcases h with h | h <;> cases h

theorem CallbackView.statesOf_append (v : CallbackView) (r x : ReqId) (s : RequestState) :
    { v with stateLog := v.stateLog ++ [(r, s)] }.statesOf x =
      if x = r then v.statesOf r ++ [s] else v.statesOf x := by
  by_cases hx : x = r
  · subst hx
    simp [statesOf]
  · simp [statesOf, hx, Ne.symm hx]

theorem LogOk.setState {v : CallbackView} (h : LogOk v) {r : ReqId} {s : RequestState}
    (hr : r < v.nextRequest) (hm : (v.state r).Moves s) : LogOk (v.setState r s) := by
  have hs : ∀ x, (v.setState r s).statesOf x = if x = r then v.statesOf r ++ [s] else v.statesOf x :=
    fun x => v.statesOf_append r x s
  constructor
  · intro x hx
    rw [hs]
    split_ifs
    · refine List.isChain_append.mpr ⟨h.chain r hr, List.isChain_singleton _, ?_⟩
      intro a ha b hb
      rw [h.last r hr] at ha
      cases ha
      cases hb
      exact hm
    · exact h.chain x hx
  · intro x hx
    rw [hs]
    split_ifs
    · rw [List.head?_append, h.first r hr]; rfl
    · exact h.first x hx
  · intro x hx
    rw [hs]
    split_ifs with he
    · subst he; simp [CallbackView.setState]
    · simpa [CallbackView.setState, he] using h.last x hx
  · intro x hx
    rw [hs, if_neg, h.fresh x hx]
    exact fun he => Nat.not_le_of_lt hr (he ▸ hx)

/-- The log only concerns the states. -/
theorem LogOk.congr {v v' : CallbackView} (h : LogOk v) (hs : v'.state = v.state)
    (hl : v'.stateLog = v.stateLog) (hn : v'.nextRequest = v.nextRequest) : LogOk v' := by
  have hst : ∀ r, v'.statesOf r = v.statesOf r := fun r => by simp only [CallbackView.statesOf, hl]
  refine ⟨fun r hr => ?_, fun r hr => ?_, fun r hr => ?_, fun r hr => ?_⟩
  · rw [hst]; exact h.chain r (hn ▸ hr)
  · rw [hst]; exact h.first r (hn ▸ hr)
  · rw [hst, hs]; exact h.last r (hn ▸ hr)
  · rw [hst]; exact h.fresh r (hn ▸ hr)

/-! ### Steps of the views -/

namespace ScheduleInv
variable {v : CallbackView} {w : PoolView} {frames : List Frame} (h : ScheduleInv v w frames)
include h

theorem notMem_of_state {r : ReqId} (hs : ¬ (v.state r).Final) : r ∉ v.scheduled :=
  fun hr => hs (h.scheduled r hr).2.1

theorem notMem_of_owner {p : PoolId} {r : ReqId} (ho : w.owner r = some p) : r ∉ v.scheduled :=
  fun hr => by
    have := (h.scheduled r hr).2.2.2
    rw [ho] at this
    cases this

/-- Of the pools only the owners and the messages count, and messages may come. -/
theorem congr_pool_of_subset {u : PoolView} (ho : u.owner = w.owner)
    (hm : ∀ p, ∀ msg ∈ (w.pool p).curlMulti.msgs, msg ∈ (u.pool p).curlMulti.msgs) :
    ScheduleInv v u frames where
  log := h.log
  nodup := h.nodup
  scheduled := by rw [ho]; exact h.scheduled
  due := by rw [ho]; exact h.due
  owned p r hr := by
    refine (h.owned p r (by rwa [ho] at hr)).imp_right fun hst => hst.imp_right ?_
    rintro ⟨he, hp, msg, hmsg, hres⟩
    exact ⟨he, hp, msg, hm p msg hmsg, hres⟩
  running := h.running
  frames_nodup := h.frames_nodup

theorem congr_pool {u : PoolView} (ho : u.owner = w.owner)
    (hm : ∀ p, (u.pool p).curlMulti.msgs = (w.pool p).curlMulti.msgs) :
    ScheduleInv v u frames :=
  h.congr_pool_of_subset ho fun p msg hmsg => by rwa [hm p]

/-- A transfer whose write callback has failed is in error, and the message that
reports it is queued. -/
theorem writeFailed {r : ReqId} {p : PoolId} {w' : PoolView} {frames' : List Frame}
    (msg : CURLMsg) (hlt : r < v.nextRequest) (hr : w.owner r = some p) (ho : w'.owner = w.owner)
    (hm : ∀ p, ∀ msg ∈ (w.pool p).curlMulti.msgs, msg ∈ (w'.pool p).curlMulti.msgs)
    (hmsg : msg ∈ (w'.pool p).curlMulti.msgs) (hx : msg.easyHandle = r)
    (hres : msg.result ≠ curleOk) (hrun : ∀ x s f, .run x s f ∈ frames' → .run x s f ∈ frames)
    (hperf : ∀ p, .perform p true ∈ frames → .perform p true ∈ frames')
    (hp : .perform p true ∈ frames') (hnd : (frames'.filterMap Frame.runs).Nodup) :
    ScheduleInv (v.setState r .error) w' frames' := by
  obtain ⟨ha, hst⟩ := h.owned p r hr
  have hmove : (v.state r).Moves .error := by
    rcases hst with hst | ⟨hst, -⟩ <;> rw [hst] <;> trivial
  constructor
  · exact h.log.setState hlt hmove
  · exact h.nodup
  · intro x hxs
    have hne : x ≠ r := fun he => h.notMem_of_owner hr (he ▸ hxs)
    simpa [CallbackView.setState, ho, hne] using h.scheduled x hxs
  · intro x hxn hax hf hox hd
    rw [ho] at hox
    have hne : x ≠ r := fun he => by rw [he, hr] at hox; cases hox
    simp only [CallbackView.setState, Function.update_of_ne hne] at hf
    exact h.due x hxn hax hf hox hd
  · intro q x hxq
    rw [ho] at hxq
    by_cases hne : x = r
    · subst hne
      rw [hr] at hxq
      cases hxq
      exact ⟨ha, Or.inr ⟨by simp [CallbackView.setState], hp, msg, hmsg, hx, hres⟩⟩
    · simp only [CallbackView.setState, Function.update_of_ne hne]
      refine (h.owned q x hxq).imp_right fun hs => hs.imp_right ?_
      rintro ⟨he, hq, msg', hmsg', hres'⟩
      exact ⟨he, hperf q hq, msg', hm q msg' hmsg', hres'⟩
  · intro x s f hxf
    obtain ⟨hax, hs⟩ := h.running x s f (hrun x s f hxf)
    have hne : x ≠ r := fun he => by rw [he, ha] at hax; cases hax
    simpa [CallbackView.setState, hne] using ⟨hax, hs⟩
  · exact hnd

/-- The views do not see a change of the queue, so only the log has to be looked at. -/
theorem setState_sync {r : ReqId} {s : RequestState} (hr : r < v.nextRequest)
    (hm : (v.state r).Moves s) (ha : v.async r = false) {frames' : List Frame}
    (hsub : ∀ x s f, .run x s f ∈ frames' → x ≠ r → .run x s f ∈ frames)
    (hown : ∀ s' f, .run r s' f ∈ frames' → s = .inprogress ∨ s = .error ∧ f = true)
    (hperf : ∀ p, .perform p true ∈ frames → .perform p true ∈ frames')
    (hnd : (frames'.filterMap Frame.runs).Nodup) : ScheduleInv (v.setState r s) w frames' where
  log := h.log.setState hr hm
  nodup := h.nodup
  scheduled x hx := by
    obtain ⟨hlt, hf, hax, ho⟩ := h.scheduled x hx
    have hne : x ≠ r := fun he => by rw [he, ha] at hax; cases hax
    exact ⟨hlt, by simpa [CallbackView.setState, hne] using hf, hax, ho⟩
  due x hx hax hf ho hd := by
    have hne : x ≠ r := fun he => by rw [he] at hax; exact absurd (hax.symm.trans ha) (by simp)
    exact h.due x hx hax (by simpa [CallbackView.setState, hne] using hf) ho hd
  owned p x hx := by
    obtain ⟨hax, hst⟩ := h.owned p x hx
    have hne : x ≠ r := fun he => by rw [he, ha] at hax; cases hax
    refine ⟨hax, ?_⟩
    simp only [CallbackView.setState, Function.update_of_ne hne]
    exact hst.imp_right fun hst => ⟨hst.1, hperf p hst.2.1, hst.2.2⟩
  running x s' f hx := by
    by_cases hne : x = r
    · subst hne
      refine ⟨ha, ?_⟩
      simpa [CallbackView.setState] using hown s' f hx
    · simpa [CallbackView.setState, hne] using h.running x s' f (hsub x s' f hx hne)
  frames_nodup := hnd

/-- An async request is over: it is out of the pool, its state is final, and its
callback is scheduled if it is due. -/
theorem finish {r : ReqId} {s : RequestState} (log : List (ReqId × RequestState))
    (w' : PoolView) (hr : r < v.nextRequest) (ha : v.async r = true) (hn : r ∉ v.scheduled) (hs : s.Final)
    (hlog : LogOk { v with state := Function.update v.state r s, stateLog := log })
    (ho : w'.owner = Function.update w.owner r none)
    (hm : ∀ p x, w.owner x = some p → x ≠ r → ∀ msg ∈ (w.pool p).curlMulti.msgs,
      msg.easyHandle = x → msg ∈ (w'.pool p).curlMulti.msgs) :
    ScheduleInv
      (CallbackView.schedule
        { v with state := Function.update v.state r s, stateLog := log } r) w' frames := by
  have howned : ∀ p x, w'.owner x = some p → v.async x = true ∧
      (Function.update v.state r s x = .inprogress ∨
        Function.update v.state r s x = .error ∧ .perform p true ∈ frames ∧
        ∃ msg ∈ (w'.pool p).curlMulti.msgs, msg.easyHandle = x ∧ msg.result ≠ curleOk) := by
    intro p x hx
    rw [ho] at hx
    by_cases hne : x = r
    · simp [hne] at hx
    rw [Function.update_of_ne hne] at hx
    obtain ⟨hax, hst⟩ := h.owned p x hx
    rw [Function.update_of_ne hne]
    refine ⟨hax, hst.imp_right ?_⟩
    rintro ⟨he, hp, msg, hmsg, hmx, hres⟩
    exact ⟨he, hp, msg, hm p x hx hne msg hmsg hmx, hmx, hres⟩
  have hrunning : ∀ x s' f, .run x s' f ∈ frames → v.async x = false ∧
      (Function.update v.state r s x = .inprogress ∨
        Function.update v.state r s x = .error ∧ f = true) := by
    intro x s' f hx
    obtain ⟨hax, hst⟩ := h.running x s' f hx
    have hne : x ≠ r := fun he => by rw [he, ha] at hax; cases hax
    rw [Function.update_of_ne hne]
    exact ⟨hax, hst⟩
  have hold : ∀ x ∈ v.scheduled, x < v.nextRequest ∧ (Function.update v.state r s x).Final ∧
      v.async x = true ∧ w'.owner x = none := by
    intro x hx
    obtain ⟨hlt, hf, hax, hox⟩ := h.scheduled x hx
    have hne : x ≠ r := fun he => hn (he ▸ hx)
    rw [ho, Function.update_of_ne hne, Function.update_of_ne hne]
    exact ⟨hlt, hf, hax, hox⟩
  have hdue : ∀ x < v.nextRequest, x ≠ r → v.async x = true →
      (Function.update v.state r s x).Final → w'.owner x = none → v.Due x → x ∈ v.scheduled := by
    intro x hx hne hax hf hox hd
    rw [Function.update_of_ne hne] at hf
    rw [ho, Function.update_of_ne hne] at hox
    exact h.due x hx hax hf hox hd
  by_cases hd : v.Due r
  · have hsch : CallbackView.schedule
        { v with state := Function.update v.state r s, stateLog := log } r =
        { v with
          state := Function.update v.state r s, stateLog := log
          scheduled := v.scheduled ++ [r] } := by
      simp [CallbackView.schedule, hd.1, hd.2]
    rw [hsch]
    refine ⟨hlog.congr rfl rfl rfl, ?_, ?_, ?_, howned, hrunning, h.frames_nodup⟩
    · refine List.nodup_append.mpr ⟨h.nodup, List.nodup_singleton r, ?_⟩
      rintro a ha' b hb rfl
      exact hn (List.mem_singleton.mp hb ▸ ha')
    · intro x hx
      rcases List.mem_append.mp hx with hx | hx
      · exact hold x hx
      · rw [List.mem_singleton.mp hx]
        exact ⟨hr, by simpa using hs, ha, by rw [ho]; simp⟩
    · intro x hx hax hf hox hdx
      by_cases hne : x = r
      · rw [hne]; simp
      · exact List.mem_append_left _ (hdue x hx hne hax hf hox hdx)
  · have hsch : CallbackView.schedule
        { v with state := Function.update v.state r s, stateLog := log } r =
        { v with state := Function.update v.state r s, stateLog := log } := by
      unfold CallbackView.schedule
      split_ifs with hc hi
      · rfl
      · rfl
      · exact absurd ⟨hc, by simpa using hi⟩ hd
    rw [hsch]
    refine ⟨hlog, h.nodup, hold, ?_, howned, hrunning, h.frames_nodup⟩
    intro x hx hax hf hox hdx
    by_cases hne : x = r
    · exact absurd (hne ▸ hdx) hd
    · exact hdue x hx hne hax hf hox hdx

/-- A new request. -/
theorem create (hn : w.nextRequest = v.nextRequest)
    (hf : ∀ r s f, .run r s f ∈ frames → r < v.nextRequest) (async : Bool) (callback : Option Str)
    (interp : InterpId) : ScheduleInv (v.create async callback interp) w.newRequest frames := by
  have hst : ∀ r, (v.create async callback interp).statesOf r =
      if r = v.nextRequest then v.statesOf v.nextRequest ++ [.created] else v.statesOf r :=
    fun r => v.statesOf_append v.nextRequest r .created
  have hnone := h.log.fresh v.nextRequest (Nat.le_refl _)
  rw [hnone] at hst
  have hlt : ∀ {r}, r < v.nextRequest + 1 → r ≠ v.nextRequest → r < v.nextRequest :=
    fun hr hne => Nat.lt_of_le_of_ne (Nat.le_of_lt_succ hr) hne
  have howner : ∀ {p r}, w.newRequest.owner r = some p → r ≠ v.nextRequest ∧ w.owner r = some p := by
    intro p r hr
    by_cases hne : r = v.nextRequest
    · simp [PoolView.newRequest, hne, hn] at hr
    · exact ⟨hne, by simpa [PoolView.newRequest, hn, hne] using hr⟩
  constructor
  · constructor
    · intro r hr
      rw [hst]
      split_ifs with hne
      · exact List.isChain_singleton _
      · exact h.log.chain r (hlt hr hne)
    · intro r hr
      rw [hst]
      split_ifs with hne
      · rfl
      · exact h.log.first r (hlt hr hne)
    · intro r hr
      rw [hst]
      split_ifs with hne
      · subst hne; simp [CallbackView.create]
      · simpa [CallbackView.create, hne] using h.log.last r (hlt hr hne)
    · intro r hr
      rw [hst, if_neg, h.log.fresh r (Nat.le_of_succ_le hr)]
      exact Nat.ne_of_gt hr
  · exact h.nodup
  · intro r hr
    obtain ⟨hr', hfin, ha, ho⟩ := h.scheduled r hr
    have hne : r ≠ v.nextRequest := Nat.ne_of_lt hr'
    refine ⟨Nat.lt_succ_of_lt hr', ?_⟩
    simpa [CallbackView.create, PoolView.newRequest, hn, hne] using ⟨hfin, ha, ho⟩
  · intro r hr ha hfin ho hd
    by_cases hne : r = v.nextRequest
    · subst hne
      simp [CallbackView.create, RequestState.Final] at hfin
    · simp only [CallbackView.create, CallbackView.Due, PoolView.newRequest, hn,
        Function.update_of_ne hne] at ha hfin ho hd
      exact h.due r (hlt hr hne) ha hfin ho hd
  · intro p r hr
    obtain ⟨hne, hr⟩ := howner hr
    simpa [CallbackView.create, PoolView.newRequest, hne] using h.owned p r hr
  · intro r s f hr
    have hne : r ≠ v.nextRequest := Nat.ne_of_lt (hf r s f hr)
    simpa [CallbackView.create, hne] using h.running r s f hr
  · exact h.frames_nodup

theorem deleteInterp (i : InterpId) :
    ScheduleInv { v with interpDeleted := Function.update v.interpDeleted i true } w frames where
  log := h.log.congr rfl rfl rfl
  nodup := h.nodup
  scheduled := h.scheduled
  due r hr ha hf ho hd := by
    refine h.due r hr ha hf ho ⟨hd.1, ?_⟩
    have hi := hd.2
    by_cases he : v.interp r = i
    · simp [he] at hi
    · simpa [he] using hi
  owned := h.owned
  running := h.running
  frames_nodup := h.frames_nodup

/-- A request that is in no pool and has no frame moves on, but is not over. -/
theorem start {r : ReqId} {s : RequestState} (hr : r < v.nextRequest) (hm : (v.state r).Moves s)
    (hs : ¬ s.Final) (hn : r ∉ v.scheduled) (ho : w.owner r = none)
    (hf : ∀ s f, .run r s f ∉ frames) : ScheduleInv (v.setState r s) w frames where
  log := h.log.setState hr hm
  nodup := h.nodup
  scheduled x hx := by
    have hne : x ≠ r := fun he => hn (he ▸ hx)
    simpa [CallbackView.setState, hne] using h.scheduled x hx
  due x hx ha hfin hox hd := by
    have hne : x ≠ r := fun he => by
      subst he; simp only [CallbackView.setState, Function.update_self] at hfin; exact hs hfin
    simp only [CallbackView.setState, Function.update_of_ne hne] at hfin
    exact h.due x hx ha hfin hox hd
  owned p x hx := by
    have hne : x ≠ r := fun he => by rw [he, ho] at hx; cases hx
    simpa [CallbackView.setState, hne] using h.owned p x hx
  running x s' f hx := by
    have hne : x ≠ r := fun he => hf s' f (he ▸ hx)
    simpa [CallbackView.setState, hne] using h.running x s' f hx
  frames_nodup := h.frames_nodup

/-- An async request in progress enters a pool. -/
theorem own {r : ReqId} {p : PoolId} {w' : PoolView} (ha : v.async r = true)
    (hs : v.state r = .inprogress) (ho : w'.owner = Function.update w.owner r (some p))
    (hm : ∀ p, (w'.pool p).curlMulti.msgs = (w.pool p).curlMulti.msgs) :
    ScheduleInv v w' frames where
  log := h.log
  nodup := h.nodup
  scheduled x hx := by
    obtain ⟨h₁, h₂, h₃, h₄⟩ := h.scheduled x hx
    have hne : x ≠ r := fun he => h₂.not_inprogress (he ▸ hs)
    exact ⟨h₁, h₂, h₃, by rw [ho, Function.update_of_ne hne]; exact h₄⟩
  due x hx hax hf hox hd := by
    have hne : x ≠ r := fun he => hf.not_inprogress (he ▸ hs)
    rw [ho, Function.update_of_ne hne] at hox
    exact h.due x hx hax hf hox hd
  owned q x hx := by
    by_cases hne : x = r
    · subst hne; exact ⟨ha, Or.inl hs⟩
    · rw [ho, Function.update_of_ne hne] at hx
      rw [hm q]
      exact h.owned q x hx
  running := h.running
  frames_nodup := h.frames_nodup

/-- Frames may go, except the ones that perform a pool with messages. -/
theorem congr_frames {frames' : List Frame} (hrun : ∀ r s f, .run r s f ∈ frames' → .run r s f ∈ frames)
    (hperf : ∀ p, (w.pool p).curlMulti.msgs ≠ [] → .perform p true ∈ frames →
      .perform p true ∈ frames')
    (hnd : (frames'.filterMap Frame.runs).Nodup) : ScheduleInv v w frames' where
  log := h.log
  nodup := h.nodup
  scheduled := h.scheduled
  due := h.due
  owned p r hr := by
    refine (h.owned p r hr).imp_right fun hst => hst.imp_right ?_
    rintro ⟨he, hp, msg, hmsg, hm⟩
    exact ⟨he, hperf p (List.ne_nil_of_mem hmsg) hp, msg, hmsg, hm⟩
  running r s f hr := h.running r s f (hrun r s f hr)
  frames_nodup := hnd

/-- A sync request enters `curl_easy_perform`. -/
theorem push_run {r : ReqId} (s : Bool) (ha : v.async r = false) (hs : v.state r = .inprogress)
    (hr : r ∉ frames.filterMap Frame.runs) : ScheduleInv v w (.run r s false :: frames) where
  log := h.log
  nodup := h.nodup
  scheduled := h.scheduled
  due := h.due
  owned p x hx := by
    refine (h.owned p x hx).imp_right fun hst => hst.imp_right ?_
    exact fun ⟨he, hp, hm⟩ => ⟨he, List.mem_cons_of_mem _ hp, hm⟩
  running x s' f hx := by
    rcases List.mem_cons.mp hx with hx | hx
    · cases hx; exact ⟨ha, Or.inl hs⟩
    · exact h.running x s' f hx
  frames_nodup := List.nodup_cons.mpr ⟨hr, h.frames_nodup⟩

end ScheduleInv

/-! ### The procedures -/

namespace Lib
variable (l : Lib) (r : ReqId)

@[simp] theorem callbackView_requestScheduleCallback :
    (l.requestScheduleCallback r).callbackView = l.callbackView.schedule r := by
  unfold requestScheduleCallback CallbackView.schedule
  have hc : l.callbackView.callback r = (l.request r).callback := rfl
  have hi : l.callbackView.interpDeleted (l.callbackView.interp r) =
    l.interpDeleted (l.request r).interp := rfl
  rw [hc, hi]
  split_ifs
  · rfl
  · rfl
  · have hv := l.callbackView_modifyRequest r
      (fun q => { q with callbackEvent := some l.nextEvent }) rfl rfl rfl rfl
    simp only [callbackView] at hv ⊢
    injection hv with h₁ h₂ h₃ h₄
    simp only [h₁, h₂, h₃, h₄]
    rfl

theorem callbackView_poolAbort :
    (l.poolAbort r).callbackView =
      if (l.request r).state = .inprogress ∧ l.interpDeleted (l.request r).interp = false then
        ((l.callbackView.setState r .error).setState r .error).schedule r
      else l.callbackView := by
  unfold poolAbort
  by_cases hs : (l.request r).state = .inprogress
  · cases hi : l.interpDeleted (l.request r).interp <;> simp [hs]
  · simp [hs]

theorem callbackView_requestRunError (e : Str) :
    (l.requestRunError r e).callbackView =
      if (l.request r).async = true then (l.callbackView.setState r .error).schedule r
      else l.callbackView.setState r .error := by
  have ha : ((l.requestSetError r e).request r).async = (l.request r).async := by
    simp [requestSetError, setState, modifyRequest]
  unfold requestRunError
  simp only [ha]
  split_ifs <;> simp

variable {l r} {frames : List Frame} (h : ScheduleInv l.callbackView l.poolView frames)
include h

/-- Removing a request from its pool, while no perform of the pool has failed. -/
theorem schedule_poolRemoveRequest
    (hw : ∀ p r, l.poolView.owner r = some p → r < l.nextRequest)
    (hp : ∀ p, l.poolView.owner r = some p → .perform p true ∉ frames) :
    ScheduleInv (l.poolRemoveRequest r).callbackView (l.poolRemoveRequest r).poolView frames := by
  rw [poolView_poolRemoveRequest]
  cases ho : l.poolView.owner r with
  | none =>
    have hl : l.poolRemoveRequest r = l := by
      unfold poolRemoveRequest
      rw [show (l.request r).pool = none from ho]
    rw [hl]; exact h
  | some p =>
    have hl : l.poolRemoveRequest r = (l.poolDetach p r).poolAbort r := by
      unfold poolRemoveRequest
      rw [show (l.request r).pool = some p from ho]
    obtain ⟨ha, hst⟩ := h.owned p r ho
    have hst : l.callbackView.state r = .inprogress := hst.resolve_right fun hst =>
      hp p ho hst.2.1
    have hlt := hw p r ho
    have hsame : ∀ q x, l.poolView.owner x = some q → x ≠ r →
        ∀ msg ∈ (l.poolView.pool q).curlMulti.msgs, msg.easyHandle = x →
          msg ∈ ((l.poolView.detach p r).pool q).curlMulti.msgs := by
      intro q x _ hne msg hmsg hx
      by_cases hq : q = p
      · subst hq
        simp only [PoolView.detach, Function.update_self, Pool.detach, Multi.removeHandle]
        split_ifs
        · exact hmsg
        · exact List.mem_filter.mpr ⟨hmsg, by simpa [hx] using hne⟩
      · simpa [PoolView.detach, hq] using hmsg
    have hr : (l.poolDetach p r).request r = { l.request r with pool := none } := by
      simp [poolDetach, modifyRequest, modifyPool]
    have hst' : ((l.poolDetach p r).request r).state = .inprogress := by rw [hr]; exact hst
    rw [hl, callbackView_poolAbort, callbackView_poolDetach]
    split_ifs with hc
    · have hlog := (h.log.setState (s := .error) hlt (by rw [hst]; trivial)).setState
        (r := r) (s := .error) hlt (by simp [CallbackView.setState, RequestState.Moves])
      have := h.finish (s := .error) (l.callbackView.stateLog ++ [(r, .error)] ++ [(r, .error)])
        (l.poolView.detach p r) hlt ha (h.notMem_of_owner ho) (Or.inr rfl) (hlog.congr (by simp [CallbackView.setState]) rfl rfl)
        rfl hsame
      simpa [CallbackView.setState] using this
    · -- the interpreter is deleted, and the request stays as it is
      have hnf : ¬ (l.callbackView.state r).Final := fun hf => hf.not_inprogress hst
      exact
        { log := h.log
          nodup := h.nodup
          scheduled := fun x hx => by
            obtain ⟨h₁, h₂, h₃, h₄⟩ := h.scheduled x hx
            exact ⟨h₁, h₂, h₃, PoolView.owner_detach_of_none p r h₄⟩
          due := fun x hx hax hf hox hd => by
            have hne : x ≠ r := fun he => hnf (he ▸ hf)
            exact h.due x hx hax hf (by simpa [PoolView.detach, hne] using hox) hd
          owned := fun q x hx => by
            have hne : x ≠ r := fun he => by simp [PoolView.detach, he] at hx
            have hx' : l.poolView.owner x = some q := by simpa [PoolView.detach, hne] using hx
            refine (h.owned q x hx').imp_right fun hs => hs.imp_right ?_
            rintro ⟨he, hf, msg, hmsg, hm, hres⟩
            exact ⟨he, hf, msg, hsame q x hx' hne msg hmsg hm, hm, hres⟩
          running := h.running
          frames_nodup := h.frames_nodup }

theorem schedule_requestFreeStart (hw : PoolsOk l.poolView)
    (hp : ∀ p, l.poolView.owner r = some p → .perform p true ∉ frames) :
    ScheduleInv (l.requestFreeStart r).callbackView (l.requestFreeStart r).poolView frames := by
  have hv : ((l.detachCallbackEvent r).sessionRemoveRequest r).poolView = l.poolView := by simp
  have hc : ((l.detachCallbackEvent r).sessionRemoveRequest r).callbackView = l.callbackView := by
    simp
  have hn : ((l.detachCallbackEvent r).sessionRemoveRequest r).nextRequest = l.nextRequest :=
    congrArg PoolView.nextRequest hv
  exact schedule_poolRemoveRequest (l := (l.detachCallbackEvent r).sessionRemoveRequest r)
    (by rw [hv, hc]; exact h) (by rw [hv, hn]; exact hw.lt) (by rw [hv]; exact hp)

omit h in
/-- A request that is over is removed without a further word. -/
theorem poolRemoveRequest_of_state (hs : (l.request r).state ≠ .inprogress) :
    l.poolRemoveRequest r = l ∨ ∃ p, l.poolRemoveRequest r = l.poolDetach p r := by
  unfold poolRemoveRequest
  cases (l.request r).pool with
  | none => exact Or.inl rfl
  | some p =>
    refine Or.inr ⟨p, ?_⟩
    have hr : ((l.poolDetach p r).request r).state = (l.request r).state := by
      simp [poolDetach, modifyRequest, modifyPool]
    exact if_neg (hr ▸ hs)

omit h in
theorem callbackView_poolDrainPass (p : PoolId) (msg : CURLMsg) (msgs : List CURLMsg) :
    (l.poolDrainPass p msg msgs).callbackView =
      (l.callbackView.setState msg.easyHandle (if msg.result = curleOk then .done else .error)).schedule
        msg.easyHandle := by
  simp only [poolDrainPass, poolCompleteRequest, callbackView_requestScheduleCallback]
  set l₁ := (l.modifyPool p fun q => q.setMsgs msgs).setState msg.easyHandle
    (if msg.result = curleOk then .done else .error) with hl₁
  have hs : (l₁.request msg.easyHandle).state ≠ .inprogress := by
    simp only [hl₁, setState, modifyRequest, Function.update_self]
    split_ifs <;> simp
  have hv : (l₁.poolRemoveRequest msg.easyHandle).callbackView = l₁.callbackView := by
    rcases poolRemoveRequest_of_state hs with h | ⟨q, h⟩ <;> rw [h]
    exact callbackView_poolDetach l₁ msg.easyHandle q
  rw [hv, hl₁, callbackView_setState, callbackView_modifyPool]

/-- One pass of the loop over the messages. -/
theorem schedule_poolDrainPass (hw : PoolsOk l.poolView) {p : PoolId} {msg : CURLMsg}
    {msgs : List CURLMsg} (hm : (l.pool p).curlMulti.msgs = msg :: msgs)
    (hc : l.poolView.inCallback p = false) :
    ScheduleInv (l.poolDrainPass p msg msgs).callbackView (l.poolDrainPass p msg msgs).poolView
      frames := by
  obtain ⟨ho, -⟩ := hw.detach_setMsgs hm hc
  obtain ⟨ha, hst⟩ := h.owned p _ ho
  have hlt := hw.lt p _ ho
  set r := msg.easyHandle with hr
  set s : RequestState := if msg.result = curleOk then .done else .error with hs
  have hfinal : s.Final := by rw [hs]; split_ifs <;> simp [RequestState.Final]
  have hmove : (l.callbackView.state r).Moves s := by
    rcases hst with hst | ⟨hst, -, msg', hmsg', hr', hres⟩
    · rw [hst, hs]; split_ifs <;> trivial
    · -- the message that reports the failed write is this one
      have hnd := (hw.wellFormed p).completed_nodup
      rw [(hw.wellFormed p).completed] at hnd
      have heq : msg' = msg := List.inj_on_of_nodup_map hnd hmsg'
        (by simp [hm]) (hr'.trans hr)
      rw [hst, hs, if_neg (heq ▸ hres)]
      trivial
  rw [callbackView_poolDrainPass, poolView_poolDrainPass hw hm hc, ← hr, ← hs]
  apply h.finish _ _ hlt ha (h.notMem_of_owner ho) hfinal (h.log.setState hlt hmove) rfl
  intro q x hx hne m' hm' hx'
  by_cases hq : q = p
  · subst hq
    have hc' : (l.pool q).curlMulti.inCallback = false := hc
    rw [poolView_pool, hm] at hm'
    have htail : m' ∈ msgs := (List.mem_cons.mp hm').resolve_left fun he => hne (by
      rw [← hx', he])
    simp only [PoolView.detach, PoolView.modifyPool, Function.update_self, Pool.detach, Pool.setMsgs,
      Multi.removeHandle, poolView_pool, hc', Bool.false_eq_true, ↓reduceIte]
    exact List.mem_filter.mpr ⟨htail, by simpa [hx'] using hne⟩
  · simpa [PoolView.detach, PoolView.modifyPool, hq] using hm'

theorem schedule_poolEventCheckFinish (hw : PoolsOk l.poolView) {p : PoolId}
    (hc : l.poolView.inCallback p = false) (n : ℕ) :
    ScheduleInv (l.poolEventCheckFinish p n).callbackView (l.poolEventCheckFinish p n).poolView
      frames := by
  have hd := (poolDrain_rule (I := fun _ l' => ScheduleInv l'.callbackView l'.poolView frames)
    (fun l' msg msgs hok hc' hm hI => schedule_poolDrainPass hI hok hm hc') hw hc h).1
  simp only [poolEventCheckFinish, poolEventCheckDrain]
  split_ifs
  · exact h
  · exact hd
  · exact hd

omit h in
/-- After the check no message is left. -/
theorem msgs_poolEventCheckFinish (hw : PoolsOk l.poolView) {p : PoolId}
    (hc : l.poolView.inCallback p = false) :
    ((l.poolEventCheckFinish p (l.pool p).curlMulti.running).pool p).curlMulti.msgs = [] := by
  have hd := (poolDrain_rule (I := fun _ _ => True) (fun _ _ _ _ _ _ _ => trivial) hw hc trivial).2
  simp only [poolEventCheckFinish, poolEventCheckDrain]
  split_ifs with hn
  · have hwf := hw.wellFormed p
    have := hwf.running_eq_count_iff.mp hn
    rw [hwf.completed] at this
    exact List.map_eq_nil_iff.mp this
  · exact hd
  · exact hd

theorem schedule_poolFreeLoop {p : PoolId} {rs : List ReqId}
    (hw : ∀ p r, l.poolView.owner r = some p → r < l.nextRequest)
    (hp : ∀ p, .perform p true ∉ frames) :
    ScheduleInv (poolFreeLoop p rs l).callbackView (poolFreeLoop p rs l).poolView frames := by
  induction rs generalizing l with
  | nil => exact h
  | cons r rs ih =>
    have h₁ := schedule_poolRemoveRequest (r := r) h hw fun q _ => hp q
    have hnext : (l.poolRemoveRequest r).nextRequest = l.nextRequest :=
      congrArg LifeView.nextRequest (l.lifeView_poolRemoveRequest r)
    refine ih (l := (l.poolRemoveRequest r).modifyPool p fun q =>
      { q with requests := q.requests.tail }) ?_ ?_
    · refine h₁.congr_pool rfl fun q => ?_
      by_cases hq : q = p
      · subst hq; simp [PoolView.modifyPool]
      · simp [PoolView.modifyPool, hq]
    · intro q x hx
      have hx' : (l.poolRemoveRequest r).poolView.owner x = some q := hx
      rw [poolView_poolRemoveRequest] at hx'
      apply hnext ▸ hw q x
      cases ho : l.poolView.owner r with
      | none => rwa [ho] at hx'
      | some p' =>
        rw [ho] at hx'
        by_cases hne : x = r
        · simp [PoolView.detach, hne] at hx'
        · simpa [PoolView.detach, hne] using hx'

theorem schedule_poolThreadExitProc (hw : PoolsOk l.poolView) (hp : ∀ p, .perform p true ∉ frames) :
    ScheduleInv l.poolThreadExitProc.callbackView l.poolThreadExitProc.poolView frames := by
  unfold poolThreadExitProc
  cases l.poolDefault with
  | none => exact h
  | some p =>
    have h₁ : ScheduleInv (l.modifyPool p fun q => { q with isDead := true }).callbackView
        (l.modifyPool p fun q => { q with isDead := true }).poolView frames := by
      refine h.congr_pool rfl fun q => ?_
      by_cases hq : q = p
      · subst hq; simp [PoolView.modifyPool]
      · simp [PoolView.modifyPool, hq]
    exact (schedule_poolFreeLoop h₁ hw.lt hp).congr_pool rfl fun _ => rfl

end Lib

/-! ### Creation -/

namespace Lib
variable {l : Lib} {r : ReqId} {frames : List Frame}

theorem callbackView_newRequest {env : CurlEnv} {session : Option SesId} {l' : Lib}
    (h : l.newRequest env session = some (l', r)) :
    l'.callbackView = l.callbackView.create false none 0 := by
  obtain ⟨-, rfl⟩ := newRequest_eq_some h
  have hinit : l.initRequest.callbackView = l.callbackView.create false none 0 := by
    have hu := fun {α : Type} (g : Request → α) => Function.comp_update g l.request l.nextRequest
      { Request.zero with curlEasy := initCalls }
    have h₁ := hu (fun q => q.async)
    have h₂ := hu (fun q => q.callback)
    have h₃ := hu Request.interp
    have h₄ := hu Request.state
    simp only [callbackView, CallbackView.create]
    congr 1
  rw [← hinit]
  cases session <;> simp

theorem callbackView_fillRequest {params : RequestParams} {interp : InterpId} {v : CallbackView}
    {a : Bool} {c : Option Str} {i : InterpId} (h : l.callbackView = v.create a c i)
    (hr : r = v.nextRequest) :
    (l.fillRequest r params interp).callbackView =
      v.create params.async params.callback interp := by
  have hf := fun {α : Type} (g : Request → α) => field_modifyRequest l r g fun q =>
    { q with toRequestParams := params, interp }
  have ha := hf fun q => q.async
  have hc := hf fun q => q.callback
  have hi := hf Request.interp
  have hst := field_modifyRequest_of_eq l r Request.state (fun q =>
    { q with toRequestParams := params, interp }) rfl
  have h₁ : (l.fillRequest r params interp).callbackView =
      { l.callbackView with
        async := Function.update l.callbackView.async r params.async
        callback := Function.update l.callbackView.callback r params.callback
        interp := Function.update l.callbackView.interp r interp } := by
    simp only [callbackView, fillRequest, ha, hc, hi, hst]
    rfl
  rw [h₁, h]
  simp [CallbackView.create, hr]

/-- An accepted request is in the default pool, a refused one in none, and no message
is lost or made up. -/
structure Adds (v v' : PoolView) (r : ReqId) (accepted : Bool) : Prop where
  msgs : ∀ q, (v'.pool q).curlMulti.msgs = (v.pool q).curlMulti.msgs
  owner : v'.owner = if accepted then Function.update v.owner r v'.poolDefault else v.owner

theorem adds_poolTryInsert (env : CurlEnv) {p : PoolId} (hp : l.poolDefault = some p) :
    Adds l.poolView (l.poolTryInsert env p r).1.poolView r (l.poolTryInsert env p r).2 := by
  unfold poolTryInsert
  by_cases hc : env.multiAdd = true ∧ ¬ (l.pool p).curlMulti.inCallback = true
  · rw [if_pos hc, poolView_poolInsert]
    refine ⟨fun q => ?_, ?_⟩
    · by_cases hq : q = p
      · subst hq; simp [PoolView.insert, Pool.insert, Multi.addHandle]
      · simp [PoolView.insert, hq]
    · simp [PoolView.insert, show l.poolView.poolDefault = some p from hp]
  · rw [if_neg hc]
    exact ⟨fun _ => rfl, rfl⟩

theorem adds_poolAddRequest (env : CurlEnv) (hw : PoolsOk l.poolView) :
    Adds l.poolView (l.poolAddRequest env r).1.poolView r (l.poolAddRequest env r).2 := by
  unfold poolAddRequest
  split
  · rename_i p hp
    exact adds_poolTryInsert env hp
  · by_cases hi : env.multiInit = true
    · rw [if_pos hi]
      have h := adds_poolTryInsert (l := l.poolInit.1) (r := r) env (p := l.poolInit.2) rfl
      refine ⟨fun q => (h.msgs q).trans ?_, h.owner⟩
      by_cases hq : q = l.nextPool
      · subst hq
        have hz : l.poolView.pool l.nextPool = Pool.zero := (hw.fresh _ (Nat.le_refl _)).1
        rw [hz]
        simp [poolInit]
      · simp [poolInit, hq]
    · rw [if_neg hi]
      exact ⟨fun _ => rfl, rfl⟩

/-- An async request that is in no pool fails: at once, or because the pool refuses it. -/
theorem schedule_requestRunError (e : Str)
    (h : ScheduleInv l.callbackView l.poolView frames) (hr : r < l.nextRequest)
    (hs : (l.request r).state = .created ∨ (l.request r).state = .inprogress)
    (ho : l.poolView.owner r = none) (hf : ∀ s f, .run r s f ∉ frames) :
    ScheduleInv (l.requestRunError r e).callbackView (l.requestRunError r e).poolView frames := by
  have hm : (l.callbackView.state r).Moves .error := by
    rcases hs with hs | hs <;> rw [show l.callbackView.state r = _ from hs] <;> trivial
  have hn : r ∉ l.callbackView.scheduled := h.notMem_of_state <| by
    rcases hs with hs | hs <;> rw [show l.callbackView.state r = _ from hs] <;>
      simp [RequestState.Final]
  rw [callbackView_requestRunError, poolView_requestRunError]
  split_ifs with ha
  · have howner : l.poolView.owner = Function.update l.poolView.owner r none := by
      rw [← ho, Function.update_eq_self]
    exact h.finish _ _ hr ha hn (Or.inr rfl) (h.log.setState hr hm) howner
      fun p x _ _ msg hmsg _ => hmsg
  · refine h.setState_sync hr hm ((Bool.not_eq_true _).mp ha) (fun x s f hx _ => hx)
      (fun s f hx => absurd hx (hf s f)) (fun p hp => hp) h.frames_nodup

/-- What the start of a new request does to the callbacks. -/
theorem schedule_requestRunStart (env : CurlEnv) (hw : PoolsOk l.poolView)
    (h : ScheduleInv l.callbackView l.poolView frames) (hr : r < l.nextRequest)
    (hs : (l.request r).state = .created) (ho : l.poolView.owner r = none)
    (hf : ∀ s f, .run r s f ∉ frames) :
    ScheduleInv (l.requestRunStart env r).1.callbackView (l.requestRunStart env r).1.poolView frames ∧
      ((l.requestRunStart env r).2 = true →
        ((l.requestRunStart env r).1.request r).async = false ∧
          ((l.requestRunStart env r).1.request r).state = .inprogress) := by
  simp only [requestRunStart]
  set l₁ := l.modifyRequest r fun q =>
    { q with curlEasy := q.curlEasy ++ (requestSetup env (l.request r).toRequestParams).1 } with hl₁
  have hv₁ : l₁.poolView = l.poolView := by simp [hl₁]
  have h₁ : ScheduleInv l₁.callbackView l₁.poolView frames := by simpa [hl₁] using h
  have hs₁ : (l₁.request r).state = .created := by simpa [hl₁, modifyRequest] using hs
  split
  · exact ⟨schedule_requestRunError _ h₁ hr (Or.inl hs₁) (hv₁ ▸ ho) hf,
      fun hp => by cases hp⟩
  · set l₂ := l₁.setState r .inprogress with hl₂
    have hv₂ : l₂.poolView = l.poolView := by simp [hl₂, hv₁]
    have hs₂ : (l₂.request r).state = .inprogress := by simp [hl₂, setState, modifyRequest]
    have h₂ : ScheduleInv l₂.callbackView l₂.poolView frames := by
      rw [hl₂, callbackView_setState, poolView_setState]
      refine h₁.start hr ?_ ?_ (h₁.notMem_of_state ?_) (hv₁ ▸ ho) hf
      · rw [show l₁.callbackView.state r = _ from hs₁]; trivial
      · simp [RequestState.Final]
      · rw [show l₁.callbackView.state r = _ from hs₁]; simp [RequestState.Final]
    split_ifs with ha hok
    · -- accepted by the pool
      obtain ⟨hm, hown⟩ := adds_poolAddRequest (l := l₂) (r := r) env (hv₂ ▸ hw)
      rw [if_pos hok] at hown
      rw [callbackView_poolAddRequest]
      refine ⟨?_, fun hp => by cases hp⟩
      cases hd : (l₂.poolAddRequest env r).1.poolView.poolDefault with
      | none =>
        rw [hd, ← show l₂.poolView.owner r = none from hv₂ ▸ ho, Function.update_eq_self] at hown
        exact h₂.congr_pool hown hm
      | some p =>
        rw [hd] at hown
        exact h₂.own ha hs₂ hown hm
    · -- refused
      obtain ⟨hm, hown⟩ := adds_poolAddRequest (l := l₂) (r := r) env (hv₂ ▸ hw)
      rw [if_neg hok] at hown
      have h₃ : ScheduleInv (l₂.poolAddRequest env r).1.callbackView
          (l₂.poolAddRequest env r).1.poolView frames := by
        rw [callbackView_poolAddRequest]
        exact h₂.congr_pool hown hm
      have hc₃ := l₂.callbackView_poolAddRequest r env
      refine ⟨schedule_requestRunError _ h₃ ?_ (Or.inr ?_) ?_ hf, fun hp => by cases hp⟩
      · have := congrArg CallbackView.nextRequest hc₃
        exact lt_of_lt_of_eq hr this.symm
      · exact (congrFun (congrArg CallbackView.state hc₃) r).trans hs₂
      · rw [hown]; exact hv₂ ▸ ho
    · exact ⟨h₂, fun _ => ⟨(Bool.not_eq_true _).mp ha, hs₂⟩⟩

/-- What the creation of a request does to the callbacks. -/
theorem schedule_createNewRequest {api : Api} {env : CurlEnv} {interp : InterpId}
    {call : CreateCall} {session : Option SesId} {l' : Lib} {simple performing : Bool}
    (hw : PoolsOk l.poolView) (h : ScheduleInv l.callbackView l.poolView frames)
    (hf : ∀ r s f, .run r s f ∈ frames → r < l.nextRequest)
    (hc : l.createNewRequest api env interp call session = .created l' r simple performing) :
    ScheduleInv l'.callbackView l'.poolView frames ∧
      (performing = true → (∀ s f, .run r s f ∉ frames) ∧
        (l'.request r).async = false ∧ (l'.request r).state = .inprogress) := by
  obtain ⟨opt, l₁, -, -, hnew, hrun⟩ := createNewRequest_eq_created hc
  obtain ⟨hr, hv₁⟩ := l.poolView_newRequest _ hnew
  have hc₁ := callbackView_newRequest hnew
  set params := requestParams (l₁.inherited session) call.method call.customMethod
    (call.objv.headD []) opt
  set l₂ := l₁.fillRequest r params interp with hl₂
  have hv₂ : l₂.poolView = l.poolView.newRequest := by rw [hl₂, fillRequest, ← hv₁]; simp
  have hc₂ : l₂.callbackView = l.callbackView.create params.async params.callback interp :=
    callbackView_fillRequest hc₁ hr
  have h₂ : ScheduleInv l₂.callbackView l₂.poolView frames := by
    rw [hv₂, hc₂]
    exact h.create rfl hf _ _ _
  have hnf : ∀ s f, .run r s f ∉ frames := fun s f hx =>
    absurd (hf r s f hx) (by rw [hr]; exact Nat.lt_irrefl _)
  have hs₂ : (l₂.request r).state = .created :=
    (congrFun (congrArg CallbackView.state hc₂) r).trans (by simp [CallbackView.create, hr, callbackView])
  have hn₂ : r < l₂.nextRequest := by
    have := congrArg PoolView.nextRequest hv₂
    exact lt_of_lt_of_eq (by rw [hr]; exact Nat.lt_succ_self _) this.symm
  have ho₂ : l₂.poolView.owner r = none := by rw [hv₂, hr]; simp [PoolView.newRequest, poolView]
  obtain ⟨h₃, hst⟩ := schedule_requestRunStart env (hv₂ ▸ hw.newRequest) h₂ hn₂ hs₂ ho₂ hnf
  rw [hrun] at h₃ hst
  exact ⟨h₃, fun hp => ⟨hnf, hst hp⟩⟩

end Lib

end Trequests
