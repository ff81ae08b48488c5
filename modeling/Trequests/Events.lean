import Trequests.Completion
import Trequests.Release

/-! The callback events in the queue. Releasing a request detaches its pending event,
but the removal from the pool comes afterwards and can queue another one, which nobody
detaches. As long as no request is released that its removal from the pool would queue
an event for, every event in the queue refers to no request or to one that is there. -/

namespace Trequests

/-- The identity of a callback event. -/
def TclEvent.id : TclEvent → Option EventId
  | .request id _ => some id
  | _ => none

/-! ### The invariant -/

/-- Every queued event that refers to a request is the one the request points to; the
request has had its event scheduled, and is live. -/
structure EventInv (v : EventView) (scheduled : List ReqId) (live : ReqId → Prop) : Prop where
  id_lt : ∀ id req, .request id req ∈ v.queue → id < v.nextEvent
  nodup : (v.queue.filterMap TclEvent.id).Nodup
  pending : ∀ id r, .request id (some r) ∈ v.queue →
    v.callbackEvent r = some id ∧ r ∈ scheduled ∧ live r

namespace EventView
variable (v : EventView) (r : ReqId)

/-- A new callback event. -/
def schedule : EventView where
  callbackEvent := Function.update v.callbackEvent r (some v.nextEvent)
  queue := v.queue ++ [.request v.nextEvent (some r)]
  nextEvent := v.nextEvent + 1

/-- The pending event of a request no longer refers to it. -/
def detach : EventView :=
  match v.callbackEvent r with
  | none => v
  | some e =>
    { v with queue := v.queue.map fun
        | .request id req => .request id (if id = e then none else req)
        | event => event }

/-- The pending event of a request is serviced, or the request is new. -/
def clear : EventView := { v with callbackEvent := Function.update v.callbackEvent r none }

end EventView

namespace EventInv
variable {v : EventView} {scheduled : List ReqId} {live : ReqId → Prop}
  (h : EventInv v scheduled live)
include h

theorem mono {live' : ReqId → Prop} (hl : ∀ r, live r → live' r) : EventInv v scheduled live' where
  id_lt := h.id_lt
  nodup := h.nodup
  pending id r hm := (h.pending id r hm).imp_right fun hs => hs.imp_right (hl r)

theorem schedule {r : ReqId} (hr : r ∉ scheduled) (hl : live r) :
    EventInv (v.schedule r) (scheduled ++ [r]) live where
  id_lt id req hm := by
    rcases List.mem_append.mp hm with hm | hm
    · exact Nat.lt_succ_of_lt (h.id_lt id req hm)
    · cases List.mem_singleton.mp hm
      exact Nat.lt_succ_self _
  nodup := by
    rw [EventView.schedule, List.filterMap_append]
    refine List.nodup_append.mpr ⟨h.nodup, List.nodup_singleton _, ?_⟩
    rintro a ha b hb rfl
    rw [show a = v.nextEvent from List.mem_singleton.mp hb] at ha
    obtain ⟨e, he, hid⟩ := List.mem_filterMap.mp ha
    cases e with
    | request id req =>
      cases hid
      exact Nat.lt_irrefl _ (h.id_lt _ _ he)
    | _ => cases hid
  pending id x hm := by
    rcases List.mem_append.mp hm with hm | hm
    · obtain ⟨h₁, h₂, h₃⟩ := h.pending id x hm
      have hne : x ≠ r := fun he => hr (he ▸ h₂)
      exact ⟨by simpa [EventView.schedule, hne] using h₁, List.mem_append_left _ h₂, h₃⟩
    · cases List.mem_singleton.mp hm
      exact ⟨by simp [EventView.schedule], by simp, hl⟩

/-- After the detachment no event refers to the request. -/
theorem detach {r : ReqId} : EventInv (v.detach r) scheduled fun x => live x ∧ x ≠ r := by
  unfold EventView.detach
  cases hc : v.callbackEvent r with
  | none =>
    refine ⟨h.id_lt, h.nodup, fun id x hm => ?_⟩
    obtain ⟨h₁, h₂, h₃⟩ := h.pending id x hm
    exact ⟨h₁, h₂, h₃, fun he => by rw [he, hc] at h₁; cases h₁⟩
  | some e =>
    have hmem : ∀ id req, TclEvent.request id req ∈ (v.queue.map fun
        | .request id req => TclEvent.request id (if id = e then none else req)
        | event => event) →
        ∃ req', TclEvent.request id req' ∈ v.queue ∧ req = if id = e then none else req' := by
      intro id req hm
      obtain ⟨ev, hev, heq⟩ := List.mem_map.mp hm
      cases ev with
      | request id' req' => cases heq; exact ⟨req', hev, rfl⟩
      | _ => cases heq
    refine ⟨fun id req hm => ?_, ?_, fun id x hm => ?_⟩
    · obtain ⟨req', hm', -⟩ := hmem id req hm
      exact h.id_lt id req' hm'
    · rw [List.filterMap_map]
      refine (List.filterMap_congr fun ev _ => ?_) ▸ h.nodup
      cases ev <;> rfl
    · obtain ⟨req', hm', heq⟩ := hmem id (some x) hm
      split_ifs at heq with hid
      subst heq
      obtain ⟨h₁, h₂, h₃⟩ := h.pending id x hm'
      refine ⟨h₁, h₂, h₃, fun he => hid ?_⟩
      rw [he, hc] at h₁
      exact (Option.some.inj h₁).symm

/-- Another event is queued. -/
theorem push {e : TclEvent} (he : e.id = none) {queue : List TclEvent}
    (hq : queue = e :: v.queue ∨ queue = v.queue ++ [e]) :
    EventInv { v with queue } scheduled live := by
  have hmem : ∀ id req, .request id req ∈ queue → .request id req ∈ v.queue := by
    intro id req hm
    rcases hq with rfl | rfl
    · rcases List.mem_cons.mp hm with rfl | hm
      · cases he
      · exact hm
    · rcases List.mem_append.mp hm with hm | hm
      · exact hm
      · cases List.mem_singleton.mp hm; cases he
  refine ⟨fun id req hm => h.id_lt id req (hmem id req hm), ?_, fun id r hm =>
    h.pending id r (hmem id _ hm)⟩
  rcases hq with rfl | rfl
  · rw [List.filterMap_cons_none he]; exact h.nodup
  · rw [List.filterMap_append]
    simpa [he] using h.nodup

/-- An event is taken from the queue. -/
theorem sublist {queue : List TclEvent} (hq : queue.Sublist v.queue) :
    EventInv { v with queue } scheduled live where
  id_lt id req hm := h.id_lt id req (hq.subset hm)
  nodup := h.nodup.sublist (hq.filterMap _)
  pending id r hm := h.pending id r (hq.subset hm)

/-- A request that no event refers to points to none. -/
theorem clear {r : ReqId} (hr : ∀ id, .request id (some r) ∉ v.queue) :
    EventInv (v.clear r) scheduled live where
  id_lt := h.id_lt
  nodup := h.nodup
  pending id x hm := by
    have hne : x ≠ r := fun he => hr id (he ▸ hm)
    simpa [EventView.clear, hne] using h.pending id x hm

/-- The event of a request is serviced. -/
theorem service {id : EventId} {r : ReqId} {before after : List TclEvent}
    (hq : v.queue = before ++ .request id (some r) :: after) :
    EventInv (EventView.clear { v with queue := before ++ after } r) scheduled live := by
  have hsub : (before ++ after).Sublist v.queue := by
    rw [hq]
    exact List.Sublist.append_left (List.sublist_cons_self _ _) _
  apply (h.sublist hsub).clear
  intro id' hm
  have hid : id' = id := by
    have h₁ := (h.pending id r (by rw [hq]; simp)).1
    have h₂ := (h.pending id' r (hsub.subset hm)).1
    rw [h₁] at h₂
    exact (Option.some.inj h₂).symm
  have hnd := h.nodup
  rw [hq, List.filterMap_append, List.filterMap_cons_some (f := TclEvent.id) rfl,
    List.nodup_middle] at hnd
  apply (List.nodup_cons.mp hnd).1
  rw [← List.filterMap_append]
  exact List.mem_filterMap.mpr ⟨_, hm, by rw [hid]; rfl⟩

end EventInv

/-! ### The procedures -/

/-- A procedure only queues new callback events, of requests that were in a pool before
it or are not older than `n`. -/
structure Lib.Queues (n : ReqId) (l l' : Lib) : Prop where
  owner : ∀ r p, l'.poolView.owner r = some p → l.poolView.owner r = some p ∨ n ≤ r
  queued : ∃ rs : List ReqId, l'.scheduled = l.scheduled ++ rs ∧
    l'.eventView = rs.foldl EventView.schedule l.eventView ∧
    ∀ r ∈ rs, (∃ p, l.poolView.owner r = some p) ∨ n ≤ r

namespace Lib
variable {l l' l'' : Lib} {n : ReqId} {r : ReqId} {p : PoolId}

theorem Queues.of_eq (ho : ∀ r p, l'.poolView.owner r = some p → l.poolView.owner r = some p ∨ n ≤ r)
    (hs : l'.scheduled = l.scheduled) (he : l'.eventView = l.eventView) : Queues n l l' :=
  ⟨ho, [], by rw [hs, List.append_nil], he, by simp⟩

theorem Queues.trans (h : Queues n l l') (h' : Queues n l' l'') : Queues n l l'' := by
  obtain ⟨rs, h₁, h₂, h₃⟩ := h.queued
  obtain ⟨rs', h₁', h₂', h₃'⟩ := h'.queued
  refine ⟨fun r p ho => ?_, rs ++ rs', ?_, ?_, fun r hr => ?_⟩
  · rcases h'.owner r p ho with ho | hn
    · exact h.owner r p ho
    · exact Or.inr hn
  · rw [h₁', h₁, List.append_assoc]
  · rw [h₂', h₂, List.foldl_append]
  · rcases List.mem_append.mp hr with hr | hr
    · exact h₃ r hr
    · rcases h₃' r hr with ⟨p, ho⟩ | hn
      · exact (h.owner r p ho).imp_left fun ho => ⟨p, ho⟩
      · exact Or.inr hn

/-- New events of live requests that had none keep the queue in order. -/
theorem Queues.eventInv {live live' : ReqId → Prop} (h : Queues n l l')
    (hi : EventInv l.eventView l.scheduled live) (hnd : l'.scheduled.Nodup)
    (hl : ∀ r, live r → live' r) (ho : ∀ r p, l.poolView.owner r = some p → live' r)
    (hn : ∀ r ∈ l'.scheduled, n ≤ r → live' r) : EventInv l'.eventView l'.scheduled live' := by
  obtain ⟨rs, h₁, h₂, h₃⟩ := h.queued
  have hlive : ∀ r ∈ rs, live' r := fun r hr => by
    rcases h₃ r hr with ⟨p, hp⟩ | hge
    · exact ho r p hp
    · exact hn r (by rw [h₁]; exact List.mem_append_right _ hr) hge
  rw [h₁] at hnd
  rw [h₁, h₂]
  clear h₁ h₂ h₃ hn
  have hi := hi.mono hl
  generalize l.eventView = v at hi ⊢
  generalize l.scheduled = sch at hi hnd ⊢
  induction rs generalizing v sch with
  | nil => rwa [List.append_nil]
  | cons r rs ih =>
    have hr : r ∉ sch := fun hr =>
      (List.nodup_append.mp hnd).2.2 r hr r List.mem_cons_self rfl
    have h₁ := hi.schedule hr (hlive r List.mem_cons_self)
    rw [← List.singleton_append, ← List.append_assoc] at hnd ⊢
    exact ih (fun x hx => hlive x (List.mem_cons_of_mem _ hx)) _ _ h₁ hnd

theorem eventView_requestScheduleCallback :
    (l.requestScheduleCallback r).eventView =
        (if l.callbackDue r then l.eventView.schedule r else l.eventView) ∧
      (l.requestScheduleCallback r).scheduled =
        l.scheduled ++ if l.callbackDue r then [r] else [] := by
  unfold requestScheduleCallback callbackDue
  have hf := field_modifyRequest l r Request.callbackEvent fun q =>
    { q with callbackEvent := some l.nextEvent }
  split_ifs with hc hd <;> simp_all [eventView, EventView.schedule]

theorem Queues.schedule (h : Queues n l l') (hr : (∃ p, l.poolView.owner r = some p) ∨ n ≤ r) :
    Queues n l (l'.requestScheduleCallback r) := by
  obtain ⟨rs, h₁, h₂, h₃⟩ := h.queued
  obtain ⟨he, hs⟩ := eventView_requestScheduleCallback (l := l') (r := r)
  refine ⟨fun x p ho => h.owner x p (by simpa using ho),
    rs ++ if l'.callbackDue r then [r] else [], ?_, ?_, fun x hx => ?_⟩
  · rw [hs, h₁, List.append_assoc]
  · rw [he, h₂, List.foldl_append]
    split_ifs <;> rfl
  · rcases List.mem_append.mp hx with hx | hx
    · exact h₃ x hx
    · split_ifs at hx
      · rwa [List.mem_singleton.mp hx]
      · cases hx

theorem Queues.congr (h : Queues n l l') (hv : l''.poolView.owner = l'.poolView.owner)
    (hs : l''.scheduled = l'.scheduled) (he : l''.eventView = l'.eventView) : Queues n l l'' := by
  refine ⟨fun r p ho => h.owner r p (hv ▸ ho), ?_⟩
  rw [hs, he]
  exact h.queued

theorem queues_poolRemoveRequest : Queues n l (l.poolRemoveRequest r) := by
  unfold poolRemoveRequest
  cases ho : (l.request r).pool with
  | none => exact Queues.of_eq (fun _ _ h => Or.inl h) rfl rfl
  | some p =>
    have hdetach : Queues n l (l.poolDetach p r) := by
      refine Queues.of_eq (fun x q hx => Or.inl ?_) rfl (by simp)
      rw [poolView_poolDetach] at hx
      exact PoolView.owner_of_detach hx
    simp only [poolAbort]
    split_ifs
    · exact hdetach
    · refine Queues.schedule (hdetach.congr ?_ rfl ?_) (Or.inl ⟨p, ho⟩)
      · simp only [poolView_requestSetError, poolView_setState]
      · simp only [eventView_requestSetError, eventView_setState]
    · exact hdetach

theorem queues_poolDrainPass {msg : CURLMsg} (msgs : List CURLMsg)
    (ho : l.poolView.owner msg.easyHandle = some p) :
    Queues n l (l.poolDrainPass p msg msgs) := by
  simp only [poolDrainPass, poolCompleteRequest]
  set l₁ := (l.modifyPool p fun q => q.setMsgs msgs).setState msg.easyHandle
    (if msg.result = curleOk then .done else .error) with hl₁
  have h₁ : Queues n l l₁ := by
    refine Queues.of_eq (fun x q hx => Or.inl ?_) rfl ?_
    · rw [hl₁, poolView_setState] at hx
      exact hx
    · rw [hl₁, eventView_setState]
      rfl
  exact (h₁.trans queues_poolRemoveRequest).schedule (Or.inl ⟨p, ho⟩)

theorem queues_poolDrain (hw : PoolsOk l.poolView) (hc : l.poolView.inCallback p = false) :
    Queues n l (poolDrain p (l.pool p).curlMulti.msgs.length l) := by
  refine (poolDrain_rule (I := fun _ l' => Queues n l l') ?_ hw hc
    (Queues.of_eq (fun _ _ h => Or.inl h) rfl rfl)).1
  intro l' msg msgs hok hc' hm hI
  exact hI.trans (queues_poolDrainPass msgs (hok.detach_setMsgs hm hc').1)

theorem queues_poolFreeLoop (rs : List ReqId) : Queues n l (poolFreeLoop p rs l) := by
  induction rs generalizing l with
  | nil => exact Queues.of_eq (fun _ _ h => Or.inl h) rfl rfl
  | cons r rs ih =>
    have h₁ : Queues n l ((l.poolRemoveRequest r).modifyPool p fun q =>
        { q with requests := q.requests.tail }) := queues_poolRemoveRequest.congr rfl rfl rfl
    exact h₁.trans ih

theorem queues_poolThreadExitProc : Queues n l l.poolThreadExitProc := by
  unfold poolThreadExitProc
  cases l.poolDefault with
  | none => exact Queues.of_eq (fun _ _ h => Or.inl h) rfl rfl
  | some p =>
    have h : Queues n l (l.modifyPool p fun q => { q with isDead := true }) :=
      Queues.of_eq (fun _ _ h => Or.inl h) rfl rfl
    exact (h.trans (queues_poolFreeLoop _)).congr rfl rfl rfl

theorem Queues.requestRunError (h : Queues n l l')
    (hr : (∃ p, l.poolView.owner r = some p) ∨ n ≤ r) (e : Str) :
    Queues n l (l'.requestRunError r e) := by
  have h₁ : Queues n l (l'.requestSetError r e) := h.congr (by simp) rfl (by simp)
  simp only [Lib.requestRunError]
  split_ifs
  · exact h₁.schedule hr
  · exact h₁

/-- A new request that cannot be started queues its event at once. -/
theorem queues_requestRunStart (env : CurlEnv) (hw : PoolsOk l.poolView)
    (ho : l.poolView.owner r = none) (hlt : r < l.nextRequest) (hr : n ≤ r) :
    Queues n l (l.requestRunStart env r).1 := by
  simp only [requestRunStart]
  set l₁ := l.modifyRequest r fun q =>
    { q with curlEasy := q.curlEasy ++ (requestSetup env (l.request r).toRequestParams).1 } with hl₁
  have hv₁ : l₁.poolView = l.poolView := by simp [hl₁]
  have h₁ : Queues n l l₁ :=
    Queues.of_eq (fun x p hx => Or.inl (hv₁ ▸ hx)) rfl (by simp [hl₁])
  split
  · exact h₁.requestRunError (Or.inr hr) _
  · set l₂ := l₁.setState r .inprogress with hl₂
    have hv₂ : l₂.poolView = l.poolView := by simp [hl₂, hv₁]
    have h₂ : Queues n l l₂ := h₁.congr (by rw [hv₂, hv₁]) rfl (by simp [hl₂])
    have h₃ : Queues n l (l₂.poolAddRequest env r).1 := by
      have he := evolves_poolAddRequest (l := l₂) (n := n) (hv₂ ▸ hw) env (hv₂ ▸ ho)
        (hv₂ ▸ hlt) hr
      refine h₂.trans (Queues.of_eq (fun x p hx => (he.owner x p hx).imp_right And.left) ?_ (by simp))
      exact congrArg CallbackView.scheduled (l₂.callbackView_poolAddRequest r env)
    split_ifs
    · exact h₃
    · exact h₃.requestRunError (Or.inr hr) _
    · exact h₂

/-- The allocation of a request, of which no event knows. -/
theorem eventInv_fillRequest {live : ReqId → Prop} {env : CurlEnv} {session : Option SesId}
    (hi : EventInv l.eventView l.scheduled live) (hlt : ∀ x, live x → x < l.nextRequest)
    (h : l.newRequest env session = some (l', r)) (params : RequestParams) (interp : InterpId) :
    let l₂ := l'.fillRequest r params interp
    EventInv l₂.eventView l₂.scheduled live := by
  obtain ⟨hr, hl⟩ := newRequest_eq_some h
  have he : l'.eventView = l.eventView.clear r := by
    have hinit : l.initRequest.eventView = l.eventView.clear l.nextRequest := by
      have hu := Function.comp_update Request.callbackEvent l.request l.nextRequest
        { Request.zero with curlEasy := initCalls }
      simp only [eventView, EventView.clear]
      congr 1
    rw [hl, hr, ← hinit]
    cases session <;> simp
  have hs : l'.scheduled = l.scheduled := by
    rw [hl]
    cases session <;> rfl
  have hfill : (l'.fillRequest r params interp).eventView = l'.eventView :=
    l'.eventView_modifyRequest r (fun q => { q with toRequestParams := params, interp }) rfl
  intro l₂
  rw [show l₂.eventView = l.eventView.clear r from hfill.trans he, show l₂.scheduled = _ from hs]
  apply hi.clear
  intro id hm
  have := hlt r (hi.pending id r hm).2.2
  rw [hr] at this
  exact Nat.lt_irrefl _ this

/-- The event that the creation of a request queues is the one of that request. -/
theorem eventInv_createNewRequest {live live' : ReqId → Prop} {api : Api} {env : CurlEnv}
    {interp : InterpId} {call : CreateCall} {session : Option SesId} {simple performing : Bool}
    (hi : EventInv l.eventView l.scheduled live) (hw : PoolsOk l.poolView)
    (hc : l.createNewRequest api env interp call session = .created l' r simple performing)
    (hnd : l'.scheduled.Nodup) (hlt' : ∀ x ∈ l'.scheduled, x < l'.nextRequest)
    (hlt : ∀ x, live x → x < l.nextRequest) (hl : ∀ x, live x → live' x)
    (ho : ∀ x p, l.poolView.owner x = some p → live' x) (hr : live' r) :
    EventInv l'.eventView l'.scheduled live' := by
  have hnext : l'.nextRequest = l.nextRequest + 1 :=
    congrArg LifeView.nextRequest (l.lifeView_createNewRequest r hc).2
  obtain ⟨opt, l₁, -, -, hnew, hrun⟩ := createNewRequest_eq_created hc
  obtain ⟨rfl, hv₁⟩ := l.poolView_newRequest r hnew
  have h₂ := eventInv_fillRequest hi hlt hnew (requestParams (l₁.inherited session) call.method
    call.customMethod (call.objv.headD []) opt) interp
  set l₂ := l₁.fillRequest l.nextRequest (requestParams (l₁.inherited session) call.method
    call.customMethod (call.objv.headD []) opt) interp with hl₂
  have hv₂ : l₂.poolView = l.poolView.newRequest := by rw [hl₂, fillRequest, ← hv₁]; simp
  have hq : Queues l.nextRequest l₂ l' := by
    have := queues_requestRunStart (l := l₂) env (hv₂ ▸ hw.newRequest) (r := l.nextRequest)
      (by rw [hv₂]; simp [PoolView.newRequest, poolView])
      (lt_of_lt_of_eq (Nat.lt_succ_self _) (congrArg PoolView.nextRequest hv₂).symm) (Nat.le_refl _)
    rwa [hrun] at this
  refine hq.eventInv h₂ hnd hl (fun x p hx => ?_) fun x hx hn => ?_
  · rw [hv₂] at hx
    by_cases he : x = l.nextRequest
    · exact he ▸ hr
    · apply ho x p
      simpa [PoolView.newRequest, he, poolView] using hx
  · have := hlt' x hx
    rw [hnext] at this
    exact Nat.le_antisymm (Nat.le_of_lt_succ this) hn ▸ hr

theorem eventView_sessionCmd {api : Api} {interp : InterpId} {objv : List Str}
    {share : Bool} {i : SesId} (h : l.sessionCmd api interp objv share = .ok (l', i)) :
    l'.eventView = l.eventView := by
  unfold sessionCmd at h
  split at h
  · cases h
  · split_ifs at h
    cases h
    rfl

/-! ### The release -/

/-- The removal of the request from its pool queues its callback event. -/
def abortQueues (l : Lib) (r : ReqId) : Bool :=
  (l.request r).pool ≠ none ∧ (l.request r).state = .inprogress ∧ l.callbackDue r

theorem abortQueues_congr (hp : l'.poolView = l.poolView) (hc : l'.callbackView = l.callbackView) :
    l'.abortQueues r = l.abortQueues r := by
  have hpool : (l'.request r).pool = (l.request r).pool := congrFun (congrArg PoolView.owner hp) r
  have hstate : (l'.request r).state = (l.request r).state :=
    congrFun (congrArg CallbackView.state hc) r
  have hdue : l'.callbackDue = l.callbackDue :=
    callbackDue_eq_of_callbackView (by rw [hc]) (by rw [hc]) (by rw [hc])
  unfold abortQueues
  rw [hpool, hstate, hdue]

theorem eventView_detachCallbackEvent :
    (l.detachCallbackEvent r).eventView = l.eventView.detach r := by
  unfold detachCallbackEvent EventView.detach
  rw [show l.eventView.callbackEvent r = (l.request r).callbackEvent from rfl]
  cases (l.request r).callbackEvent <;> rfl

/-- The removal queues nothing else. -/
theorem eventView_poolRemoveRequest (hn : l.abortQueues r = false) :
    (l.poolRemoveRequest r).eventView = l.eventView ∧
      (l.poolRemoveRequest r).scheduled = l.scheduled := by
  unfold poolRemoveRequest
  cases ho : (l.request r).pool with
  | none => exact ⟨rfl, rfl⟩
  | some p =>
    have hsame : (l.poolDetach p r).eventView = l.eventView ∧
        (l.poolDetach p r).scheduled = l.scheduled := ⟨by simp, rfl⟩
    have hstate : ((l.poolDetach p r).request r).state = (l.request r).state :=
      congrFun (congrArg CallbackView.state (l.callbackView_poolDetach r p)) r
    simp only [poolAbort]
    split_ifs with hs
    · exact hsame
    · set l₁ := ((l.poolDetach p r).setState r .error).requestSetError r
        (lit "the request has been removed from async pool") with hl₁
      have hv : l₁.callbackView = (l.callbackView.setState r .error).setState r .error := by
        simp [hl₁]
      have hdue : l₁.callbackDue r = false := by
        rw [callbackDue_eq_of_callbackView (l := l) (by rw [hv]; rfl) (by rw [hv]; rfl)
          (by rw [hv]; rfl)]
        simpa [abortQueues, ho, ← hstate, hs] using hn
      obtain ⟨h₁, h₂⟩ := eventView_requestScheduleCallback (l := l₁) (r := r)
      rw [h₁, h₂, if_neg (by simp [hdue]), if_neg (by simp [hdue]), List.append_nil]
      exact ⟨by rw [hl₁]; simp, rfl⟩
    · exact hsame

theorem eventInv_requestFreeStart {live : ReqId → Prop}
    (hi : EventInv l.eventView l.scheduled live) (hn : l.abortQueues r = false) :
    EventInv (l.requestFreeStart r).eventView (l.requestFreeStart r).scheduled
      fun x => live x ∧ x ≠ r := by
  set l₁ := (l.detachCallbackEvent r).sessionRemoveRequest r with hl₁
  have hc : l₁.callbackView = l.callbackView := by simp [hl₁]
  have hp : l₁.poolView = l.poolView := by simp [hl₁]
  have he : l₁.eventView = l.eventView.detach r := by
    rw [hl₁, eventView_sessionRemoveRequest, eventView_detachCallbackEvent]
  have hn₁ : l₁.abortQueues r = false := (abortQueues_congr hp hc).trans hn
  obtain ⟨h₁, h₂⟩ := eventView_poolRemoveRequest hn₁
  rw [requestFreeStart, ← hl₁, h₁, h₂, he, show l₁.scheduled = l.scheduled from
    congrArg CallbackView.scheduled hc]
  exact hi.detach

end Lib

end Trequests
