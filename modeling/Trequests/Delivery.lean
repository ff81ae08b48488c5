import Mathlib.Logic.Relation
import Trequests.EventsMachine

/-! The delivery of the callbacks. The queue of a thread holds the callback events among
others, and other events overtake them; the events of requests that are released in the
meantime are emptied where they are. Still no callback is lost, run twice or overtaken by
another: the ones that have run, followed by the ones that wait, are those that were
queued, in the same order and without those of the released requests. -/

namespace Trequests

/-- The request whose callback an event runs. -/
def TclEvent.target : TclEvent → Option ReqId
  | .request _ req => req
  | _ => none

def EventView.pending (v : EventView) : List ReqId := v.queue.filterMap TclEvent.target

/-- The callback events, and the requests they were queued for. -/
structure Inbox where
  events : EventView
  scheduled : List ReqId

/-- What a procedure other than that of an event does to the callback events; only those
of a request that is `gone` are detached. -/
inductive Inbox.Move (gone : ReqId → Prop) : Inbox → Inbox → Prop
  | schedule (x : Inbox) (r : ReqId) : Move gone x ⟨x.events.schedule r, x.scheduled ++ [r]⟩
  | detach (x : Inbox) (r : ReqId) (h : gone r) : Move gone x { x with events := x.events.detach r }
  | clear (x : Inbox) (r : ReqId) : Move gone x { x with events := x.events.clear r }
  | push (x : Inbox) (e : TclEvent) (queue : List TclEvent) (he : e.id = none)
      (hq : queue = e :: x.events.queue ∨ queue = x.events.queue ++ [e]) :
      Move gone x { x with events := { x.events with queue } }

/-! ### The invariant -/

/-- The callbacks in `done` have run. -/
structure DeliveryInv (done : List ReqId) (gone : ReqId → Prop) (x : Inbox) : Prop where
  id_lt : ∀ id req, .request id req ∈ x.events.queue → id < x.events.nextEvent
  event_lt : ∀ r id, x.events.callbackEvent r = some id → id < x.events.nextEvent
  target : ∀ id r r', .request id (some r) ∈ x.events.queue →
    x.events.callbackEvent r' = some id → r' = r
  order : (done ++ x.events.pending).Sublist x.scheduled
  kept : ∀ r, ¬ gone r → (done ++ x.events.pending).count r = x.scheduled.count r

/-- The events of a queue that have the identity `e`, all of the request `r`, are emptied. -/
theorem pending_emptied {queue : List TclEvent} {e : EventId} {r : ReqId}
    (hr : ∀ id x, .request id (some x) ∈ queue → id = e → x = r) :
    let emptied := (queue.map fun
      | .request id req => TclEvent.request id (if id = e then none else req)
      | event => event).filterMap TclEvent.target
    emptied.Sublist (queue.filterMap TclEvent.target) ∧
      ∀ x, x ≠ r → emptied.count x = (queue.filterMap TclEvent.target).count x := by
  induction queue with
  | nil => exact ⟨List.Sublist.refl _, fun _ _ => rfl⟩
  | cons ev queue ih =>
    obtain ⟨hsub, hcount⟩ := ih fun id x hm => hr id x (List.mem_cons_of_mem _ hm)
    cases ev with
    | request id req =>
      cases req with
      | none =>
        simpa [TclEvent.target] using ⟨hsub, hcount⟩
      | some y =>
        by_cases hid : id = e
        · have hy := hr id y List.mem_cons_self hid
          refine ⟨?_, fun x hx => ?_⟩
          · simpa [List.filterMap_cons, TclEvent.target, hid] using hsub.cons y
          · have hxy : y ≠ x := fun he => hx (he ▸ hy)
            simpa [List.filterMap_cons, TclEvent.target, hid, List.count_cons_of_ne hxy]
              using hcount x hx
        · refine ⟨?_, fun x hx => ?_⟩
          · simpa [List.filterMap_cons, TclEvent.target, hid] using hsub
          · simpa [List.filterMap_cons, TclEvent.target, hid, List.count_cons] using hcount x hx
    | _ => simpa [TclEvent.target] using ⟨hsub, hcount⟩

namespace DeliveryInv
variable {done : List ReqId} {gone : ReqId → Prop} {x : Inbox} (h : DeliveryInv done gone x)
include h

theorem mono {gone' : ReqId → Prop} (hg : ∀ r, gone r → gone' r) : DeliveryInv done gone' x :=
  ⟨h.id_lt, h.event_lt, h.target, h.order, fun r hr => h.kept r fun hgr => hr (hg r hgr)⟩

theorem schedule (r : ReqId) :
    DeliveryInv done gone ⟨x.events.schedule r, x.scheduled ++ [r]⟩ where
  id_lt id req hm := by
    rcases List.mem_append.mp hm with hm | hm
    · exact Nat.lt_succ_of_lt (h.id_lt id req hm)
    · cases List.mem_singleton.mp hm
      exact Nat.lt_succ_self _
  event_lt r' id he := by
    by_cases hr : r' = r
    · subst hr
      simp only [EventView.schedule, Function.update_self, Option.some.injEq] at he
      exact he ▸ Nat.lt_succ_self _
    · simp only [EventView.schedule, Function.update_of_ne hr] at he
      exact Nat.lt_succ_of_lt (h.event_lt r' id he)
  target id r₁ r₂ hm he := by
    rcases List.mem_append.mp hm with hq | hq
    · have hlt := h.id_lt id _ hq
      by_cases hr : r₂ = r
      · subst hr
        simp only [EventView.schedule, Function.update_self, Option.some.injEq] at he
        exact absurd he (Nat.ne_of_gt hlt)
      · simp only [EventView.schedule, Function.update_of_ne hr] at he
        exact h.target id r₁ r₂ hq he
    · cases List.mem_singleton.mp hq
      by_contra hr
      simp only [EventView.schedule, Function.update_of_ne hr] at he
      exact Nat.lt_irrefl _ (h.event_lt r₂ _ he)
  order := by
    have hp : (x.events.schedule r).pending = x.events.pending ++ [r] := by
      simp [EventView.pending, EventView.schedule, TclEvent.target]
    rw [hp, ← List.append_assoc]
    exact h.order.append (List.Sublist.refl _)
  kept r' hr' := by
    have hp : (x.events.schedule r).pending = x.events.pending ++ [r] := by
      simp [EventView.pending, EventView.schedule, TclEvent.target]
    rw [hp, ← List.append_assoc, List.count_append, h.kept r' hr', ← List.count_append]

theorem clear (r : ReqId) : DeliveryInv done gone { x with events := x.events.clear r } where
  id_lt := h.id_lt
  event_lt r' id he := by
    by_cases hr : r' = r
    · subst hr
      simp [EventView.clear] at he
    · simp only [EventView.clear, Function.update_of_ne hr] at he
      exact h.event_lt r' id he
  target id r₁ r₂ hm he := by
    by_cases hr : r₂ = r
    · subst hr
      simp [EventView.clear] at he
    · simp only [EventView.clear, Function.update_of_ne hr] at he
      exact h.target id r₁ r₂ hm he
  order := h.order
  kept := h.kept

theorem push {e : TclEvent} (he : e.id = none) {queue : List TclEvent}
    (hq : queue = e :: x.events.queue ∨ queue = x.events.queue ++ [e]) :
    DeliveryInv done gone { x with events := { x.events with queue } } := by
  have hmem : ∀ id req, .request id req ∈ queue → .request id req ∈ x.events.queue := by
    intro id req hm
    have hne : TclEvent.request id req ≠ e := by
      rintro rfl
      cases he
    rcases hq with rfl | rfl
    · exact (List.mem_cons.mp hm).resolve_left hne
    · exact (List.mem_append.mp hm).resolve_right fun hm => hne (List.mem_singleton.mp hm)
  have htarget : e.target = none := by
    cases e with
    | request id req => cases he
    | _ => rfl
  have hp : EventView.pending { x.events with queue } = x.events.pending := by
    rcases hq with rfl | rfl <;> simp [EventView.pending, htarget]
  refine ⟨fun id req hm => h.id_lt id req (hmem id req hm), h.event_lt,
    fun id r r' hm => h.target id r r' (hmem id _ hm), ?_, ?_⟩
  · rw [hp]; exact h.order
  · rw [hp]; exact h.kept

theorem detach {r : ReqId} (hr : gone r) :
    DeliveryInv done gone { x with events := x.events.detach r } := by
  unfold EventView.detach
  cases hc : x.events.callbackEvent r with
  | none => exact h
  | some e =>
    have htarget : ∀ id y, .request id (some y) ∈ x.events.queue → id = e → y = r :=
      fun id y hm hid => (h.target id y r hm (hid ▸ hc)).symm
    obtain ⟨hsub, hcount⟩ := pending_emptied htarget
    have hmem : ∀ id req, TclEvent.request id req ∈ (x.events.queue.map fun
        | .request id req => TclEvent.request id (if id = e then none else req)
        | event => event) →
        ∃ req', .request id req' ∈ x.events.queue ∧ ∀ y, req = some y → req' = some y := by
      intro id req hm
      obtain ⟨ev, hev, heq⟩ := List.mem_map.mp hm
      cases ev with
      | request id' req' =>
        cases heq
        refine ⟨req', hev, fun y hy => ?_⟩
        split_ifs at hy
        exact hy
      | _ => cases heq
    refine ⟨fun id req hm => ?_, h.event_lt, fun id r₁ r₂ hm he => ?_, ?_, fun y hy => ?_⟩
    · obtain ⟨req', hm', -⟩ := hmem id req hm
      exact h.id_lt id req' hm'
    · obtain ⟨req', hm', hreq⟩ := hmem id (some r₁) hm
      rw [hreq r₁ rfl] at hm'
      exact h.target id r₁ r₂ hm' he
    · exact (hsub.append_left done).trans h.order
    · have hyr : y ≠ r := fun he => hy (he ▸ hr)
      have hold := h.kept y hy
      rw [List.count_append] at hold ⊢
      rw [← hold]
      exact congrArg _ (hcount y hyr)

/-- All that the procedures do. -/
theorem moves {x' : Inbox} (hm : Relation.ReflTransGen (Inbox.Move gone) x x') :
    DeliveryInv done gone x' := by
  induction hm with
  | refl => exact h
  | tail _ hm ih =>
    cases hm with
    | schedule r => exact ih.schedule r
    | detach r hr => exact ih.detach hr
    | clear r => exact ih.clear r
    | push e queue he hq => exact ih.push he hq

/-- The procedure of an event runs: the callback that the event is for joins those that
have run, and the request points to no event any more. -/
theorem service {e : TclEvent} {before after : List TclEvent}
    (hq : x.events.queue = before ++ e :: after)
    (hb : e.target ≠ none → ∀ b ∈ before, b.target = none) :
    DeliveryInv (done ++ e.target.toList) gone
      { x with events := { x.events with queue := before ++ after } } := by
  have hsub : (before ++ after).Sublist x.events.queue := by
    rw [hq]
    exact List.Sublist.append_left (List.sublist_cons_self _ _) _
  have hp : e.target.toList ++ EventView.pending { x.events with queue := before ++ after } =
      x.events.pending := by
    simp only [EventView.pending, hq, List.filterMap_append, List.filterMap_cons]
    cases ht : e.target with
    | none => rfl
    | some r =>
      have hnil : before.filterMap TclEvent.target = [] :=
        List.filterMap_eq_nil_iff.mpr (hb (by simp [ht]))
      rw [hnil]
      rfl
  refine ⟨fun id req hm => h.id_lt id req (hsub.subset hm), h.event_lt,
    fun id r r' hm => h.target id r r' (hsub.subset hm), ?_, ?_⟩
  · rw [List.append_assoc, hp]
    exact h.order
  · rw [List.append_assoc, hp]
    exact h.kept

end DeliveryInv

/-! ### The procedures -/

namespace Lib
variable (l : Lib) (r : ReqId)

def inbox : Inbox := ⟨l.eventView, l.callbackView.scheduled⟩

/-- What a procedure does to the callback events. -/
def Moves (gone : ReqId → Prop) (l l' : Lib) : Prop :=
  Relation.ReflTransGen (Inbox.Move gone) l.inbox l'.inbox

variable {l r} {l' l'' : Lib} {gone : ReqId → Prop} {p : PoolId}

theorem Moves.of_eq (he : l'.eventView = l.eventView)
    (hs : l'.callbackView.scheduled = l.callbackView.scheduled) : Moves gone l l' := by
  unfold Moves inbox
  rw [he, hs]

theorem Moves.trans (h : Moves gone l l') (h' : Moves gone l' l'') : Moves gone l l'' :=
  Relation.ReflTransGen.trans h h'

theorem moves_requestScheduleCallback : Moves gone l (l.requestScheduleCallback r) := by
  obtain ⟨he, hs⟩ := eventView_requestScheduleCallback (l := l) (r := r)
  have hinbox : (l.requestScheduleCallback r).inbox =
      if l.callbackDue r then ⟨l.eventView.schedule r, l.scheduled ++ [r]⟩ else l.inbox := by
    unfold inbox
    rw [he, show (l.requestScheduleCallback r).callbackView.scheduled = _ from hs]
    split_ifs
    · rfl
    · rw [List.append_nil]
      rfl
  unfold Moves
  rw [hinbox]
  split_ifs
  · exact Relation.ReflTransGen.single (.schedule l.inbox r)
  · exact Relation.ReflTransGen.refl

theorem moves_requestSetError (e : Str) : Moves gone l (l.requestSetError r e) :=
  Moves.of_eq (by simp) (by rw [callbackView_requestSetError]; rfl)

theorem moves_setState (s : RequestState) : Moves gone l (l.setState r s) :=
  Moves.of_eq (by simp) (by rw [callbackView_setState]; rfl)

theorem moves_poolRemoveRequest : Moves gone l (l.poolRemoveRequest r) := by
  unfold poolRemoveRequest
  cases (l.request r).pool with
  | none => exact Moves.of_eq rfl rfl
  | some p =>
    have hdetach : Moves gone l (l.poolDetach p r) := Moves.of_eq (by simp) (by simp)
    simp only [poolAbort]
    split_ifs
    · exact hdetach
    · exact hdetach.trans ((moves_setState _).trans ((moves_requestSetError _).trans
        moves_requestScheduleCallback))
    · exact hdetach

theorem moves_poolCompleteRequest (msg : CURLMsg) : Moves gone l (l.poolCompleteRequest msg) :=
  (moves_setState _).trans (moves_poolRemoveRequest.trans moves_requestScheduleCallback)

theorem moves_poolDrain (fuel : ℕ) : Moves gone l (poolDrain p fuel l) := by
  induction fuel generalizing l with
  | zero => exact Moves.of_eq rfl rfl
  | succ fuel ih =>
    simp only [poolDrain]
    split
    · exact Moves.of_eq rfl rfl
    · rename_i msg msgs _
      have hread : Moves gone l (l.modifyPool p fun q =>
          { q with curlMulti := { q.curlMulti with msgs } }) := Moves.of_eq rfl rfl
      split
      · exact hread.trans ih
      · exact hread.trans ((moves_poolCompleteRequest msg).trans ih)

theorem moves_poolEventCheckFinish (n : ℕ) : Moves gone l (l.poolEventCheckFinish p n) := by
  have hdrain : Moves gone l (poolDrain p (l.pool p).curlMulti.msgs.length l) := moves_poolDrain _
  simp only [poolEventCheckFinish, poolEventCheckDrain]
  split_ifs
  · exact Moves.of_eq rfl rfl
  · -- the deactivation event overtakes the callback events
    exact hdrain.trans
      (Relation.ReflTransGen.single (.push _ (.poolDeactivate p) _ rfl (Or.inl rfl)))
  · exact hdrain

theorem moves_poolFreeLoop (rs : List ReqId) : Moves gone l (poolFreeLoop p rs l) := by
  induction rs generalizing l with
  | nil => exact Moves.of_eq rfl rfl
  | cons r rs ih =>
    have hpass : Moves gone l ((l.poolRemoveRequest r).modifyPool p fun q =>
        { q with requests := q.requests.tail }) :=
      moves_poolRemoveRequest.trans (Moves.of_eq rfl rfl)
    exact hpass.trans ih

theorem moves_poolThreadExitProc : Moves gone l l.poolThreadExitProc := by
  unfold poolThreadExitProc
  cases l.poolDefault with
  | none => exact Moves.of_eq rfl rfl
  | some p =>
    have hdead : Moves gone l (l.modifyPool p fun q => { q with isDead := true }) :=
      Moves.of_eq rfl rfl
    exact hdead.trans ((moves_poolFreeLoop _).trans (Moves.of_eq rfl rfl))

theorem moves_requestRunError (e : Str) : Moves gone l (l.requestRunError r e) := by
  simp only [requestRunError]
  split_ifs
  · exact (moves_requestSetError e).trans moves_requestScheduleCallback
  · exact moves_requestSetError e

theorem moves_requestRunStart (env : CurlEnv) : Moves gone l (l.requestRunStart env r).1 := by
  simp only [requestRunStart]
  set l₁ := l.modifyRequest r _ with hl₁
  have h₁ : Moves gone l l₁ := Moves.of_eq (by simp [hl₁]) (by simp [hl₁])
  split
  · exact h₁.trans (moves_requestRunError _)
  · set l₂ := l₁.setState r .inprogress with hl₂
    have h₂ : Moves gone l l₂ := h₁.trans (moves_setState _)
    have h₃ : Moves gone l (l₂.poolAddRequest env r).1 :=
      h₂.trans (Moves.of_eq (by simp) (by simp))
    split_ifs
    · exact h₃
    · exact h₃.trans (moves_requestRunError _)
    · exact h₂

theorem moves_createNewRequest {api : Api} {env : CurlEnv} {interp : InterpId} {call : CreateCall}
    {session : Option SesId} {simple performing : Bool}
    (hc : l.createNewRequest api env interp call session = .created l' r simple performing) :
    Moves gone l l' := by
  obtain ⟨opt, l₁, -, -, hnew, hrun⟩ := createNewRequest_eq_created hc
  obtain ⟨rfl, rfl⟩ := newRequest_eq_some hnew
  set l₁ := session.elim l.initRequest fun i => l.initRequest.sessionInsert i l.nextRequest with hl₁
  -- no event is pending for a request that is new
  have hinit : l.initRequest.eventView = l.eventView.clear l.nextRequest := by
    have hu := Function.comp_update Request.callbackEvent l.request l.nextRequest
      { Request.zero with curlEasy := initCalls }
    simp only [eventView, EventView.clear]
    congr 1
  have h₁ : Moves gone l l₁ := by
    have hclear : Moves gone l l.initRequest := by
      unfold Moves inbox
      rw [hinit]
      exact Relation.ReflTransGen.single (.clear l.inbox _)
    refine hclear.trans ?_
    cases session with
    | none => exact Moves.of_eq rfl rfl
    | some i =>
      have hinsert : l₁ = l.initRequest.sessionInsert i l.nextRequest := hl₁
      rw [hinsert]
      exact Moves.of_eq (by simp) (by simp)
  have h₂ : Moves gone l₁ (l₁.fillRequest l.nextRequest (requestParams (l₁.inherited session)
      call.method call.customMethod (call.objv.headD []) opt) interp) :=
    Moves.of_eq (by simp [fillRequest]) rfl
  rw [← show _ = l' from congrArg Prod.fst hrun]
  exact h₁.trans (h₂.trans (moves_requestRunStart env))

theorem moves_requestFreeStart (hr : gone r) : Moves gone l (l.requestFreeStart r) := by
  have hdetach : Moves gone l (l.detachCallbackEvent r) := by
    unfold Moves inbox
    rw [eventView_detachCallbackEvent, callbackView_detachCallbackEvent]
    exact Relation.ReflTransGen.single (.detach l.inbox r hr)
  exact hdetach.trans ((Moves.of_eq (by simp) (by simp)).trans moves_poolRemoveRequest)

end Lib

/-! ### The machine -/

namespace Machine

/-- The release of the request has begun. -/
def Gone (m : Machine) (r : ReqId) : Prop :=
  m.lib.freed r ≠ 0 ∨ ∃ caller, .cleanup r caller ∈ m.stack

/-- What is left of a release after `curl_easy_cleanup` brings nothing back. -/
theorem gone_requestFreeFinish {m : Machine} {r x : ReqId} {caller : Caller} {stack : List Frame}
    (hs : m.stack = .cleanup r caller :: stack) (hx : m.Gone x) :
    Gone ⟨m.lib.requestFreeFinish r, stack, m.result⟩ x := by
  have hf : (m.lib.requestFreeFinish r).freed =
      Function.update m.lib.freed r (m.lib.freed r + 1) := rfl
  by_cases hxr : x = r
  · subst hxr
    exact Or.inl (by simp [hf])
  · rcases hx with hx | ⟨c, hc⟩
    · exact Or.inl (by simpa [hf, hxr] using hx)
    · rw [hs] at hc
      have hne : Frame.cleanup x c ≠ .cleanup r caller := by simp [hxr]
      exact Or.inr ⟨c, (List.mem_cons.mp hc).resolve_left hne⟩

/-- A step that runs no callback, as far as the callback events are concerned. -/
structure Advances (m m' : Machine) : Prop where
  moves : Lib.Moves m'.Gone m.lib m'.lib
  gone : ∀ r, m.Gone r → m'.Gone r

namespace Advances
variable {m m' m'' : Machine}

theorem trans (h : Advances m m') (h' : Advances m' m'') : Advances m m'' where
  moves := by
    have hlift : Lib.Moves m''.Gone m.lib m'.lib := by
      refine Relation.ReflTransGen.mono (fun x y hxy => ?_) _ _ h.moves
      cases hxy with
      | schedule r => exact .schedule x r
      | detach r hr => exact .detach x r (h'.gone r hr)
      | clear r => exact .clear x r
      | push e queue he hq => exact .push x e queue he hq
    exact hlift.trans h'.moves
  gone r hr := h'.gone r (h.gone r hr)

/-- A step that releases nothing. -/
theorem of_moves {l : Lib} {stack : List Frame} {result : CmdResult}
    (hm : Lib.Moves (Gone ⟨l, stack, result⟩) m.lib l) (hf : l.freed = m.lib.freed)
    (hs : ∀ r caller, .cleanup r caller ∈ m.stack → .cleanup r caller ∈ stack) :
    Advances m ⟨l, stack, result⟩ :=
  ⟨hm, fun r hr => hr.imp (fun h => by rwa [hf]) fun ⟨caller, h⟩ => ⟨caller, hs r caller h⟩⟩

theorem of_eq {l : Lib} {stack : List Frame} {result : CmdResult}
    (he : l.eventView = m.lib.eventView)
    (hc : l.callbackView.scheduled = m.lib.callbackView.scheduled) (hf : l.freed = m.lib.freed)
    (hs : ∀ r caller, .cleanup r caller ∈ m.stack → .cleanup r caller ∈ stack) :
    Advances m ⟨l, stack, result⟩ :=
  of_moves (Lib.Moves.of_eq he hc) hf hs

theorem refl (m : Machine) : Advances m m := of_eq rfl rfl rfl fun _ _ h => h

theorem setLib {l : Lib} (he : l.eventView = m.lib.eventView)
    (hc : l.callbackView.scheduled = m.lib.callbackView.scheduled) (hf : l.freed = m.lib.freed) :
    Advances m (m.setLib l) :=
  of_eq he hc hf fun _ _ h => h

theorem requestFree (r : ReqId) (caller : Caller) : Advances m (m.requestFree r caller) where
  moves := Lib.moves_requestFreeStart (Or.inr ⟨caller, List.mem_cons_self⟩)
  gone x hx := by
    have hv := m.lib.lifeView_requestFreeStart r
    rw [LifeView.sessionRemove_eq] at hv
    have hf : (m.lib.requestFreeStart r).freed = m.lib.freed := congrArg LifeView.freed hv
    exact hx.imp (fun h => by rwa [Machine.requestFree, hf]) fun ⟨c, h⟩ =>
      ⟨c, List.mem_cons_of_mem _ h⟩

theorem sessionFreeLoop (i : SesId) : Advances m (m.sessionFreeLoop i) := by
  unfold Machine.sessionFreeLoop
  split
  · exact setLib (by simp) (by simp) rfl
  · rename_i r rs _
    have hclear : Advances m (m.setLib (m.lib.clearSession r)) := setLib (by simp) (by simp) rfl
    exact hclear.trans (requestFree r (.session i))

theorem deleteCommand (tok : CmdToken) : Advances m (m.setLib (m.lib.deleteCommand tok)) := by
  refine setLib (by simp) (by simp) ?_
  unfold Lib.deleteCommand
  split <;> rfl

theorem deleteRequestCommand (r : ReqId) : Advances m (m.deleteRequestCommand r) := by
  unfold Machine.deleteRequestCommand
  split
  · split_ifs
    · exact setLib (by simp) (by simp) rfl
    · have hclear : Advances m (m.setLib
          ((m.lib.setCommand (.request r) .deleting).clearCmdToken r)) :=
        setLib (by simp) (by simp) rfl
      exact hclear.trans (requestFree r .command)
  · exact deleteCommand _

theorem deleteSessionCommand (i : SesId) : Advances m (m.deleteSessionCommand i) := by
  unfold Machine.deleteSessionCommand
  split
  · have hdelete : Advances m (m.setLib (m.lib.setCommand (.session i) .deleting)) :=
      setLib (by simp) (by simp) rfl
    exact hdelete.trans (sessionFreeLoop i)
  · exact deleteCommand _

theorem createFinish (r : ReqId) (simple : Bool) : Advances m (m.createFinish r simple) := by
  unfold Machine.createFinish
  split_ifs
  · exact (of_eq (m := m) rfl rfl rfl fun _ _ h => h).trans (requestFree r .simple)
  · exact of_eq (by simp) (by simp) rfl fun _ _ h => h

theorem createNewRequest (api : Api) (env : CurlEnv) (interp : InterpId) (call : CreateCall)
    (session : Option SesId) : Advances m (m.createNewRequest api env interp call session) := by
  have hfreed : ∀ {l r simple performing},
      m.lib.createNewRequest api env interp call session = .created l r simple performing →
      l.freed = m.lib.freed := fun hc =>
    congrArg LifeView.freed (m.lib.lifeView_createNewRequest _ hc).2
  unfold Machine.createNewRequest
  split
  · exact of_eq rfl rfl rfl fun _ _ h => h
  · rename_i l r simple hc
    exact of_moves (Lib.moves_createNewRequest hc) (hfreed hc) fun _ _ h => List.mem_cons_of_mem _ h
  · rename_i l r simple hc
    exact (of_moves (Lib.moves_createNewRequest hc) (hfreed hc) fun _ _ h => h).trans
      (createFinish r simple)

/-- The end of a release. -/
theorem cleanupFinish {r : ReqId} {caller : Caller} {stack : List Frame}
    (hs : m.stack = .cleanup r caller :: stack) :
    Advances m (({ m with stack := stack } : Machine).cleanupFinish r caller) := by
  set l := m.lib.requestFreeFinish r with hl
  have hfree : Advances m { m with lib := l, stack := stack } :=
    ⟨Lib.Moves.of_eq (by simp [hl]) (by simp [hl]), fun x hx => gone_requestFreeFinish hs hx⟩
  unfold Machine.cleanupFinish
  cases caller with
  | command =>
    have hdelete : Advances { m with lib := l, stack := stack }
        { m with lib := l.setCommand (.request r) .deleted, stack := stack } :=
      setLib (l := l.setCommand (.request r) .deleted) (by simp) (by simp) rfl
    exact hfree.trans hdelete
  | simple => exact hfree
  | session i =>
    have hdrop : Advances { m with lib := l, stack := stack }
        { m with lib := l.dropRequest i, stack := stack } :=
      setLib (l := l.dropRequest i) (by simp) (by simp) rfl
    exact hfree.trans (hdrop.trans (sessionFreeLoop i))

end Advances

variable {m : Machine} {api : Api} {a : Action}

theorem advances_next (ha : m.enabled a = true) (hs : ∀ b, a ≠ .serviceEvent b) :
    Advances m (m.next api a) := by
  cases a with
  | sessionCmd interp objv share =>
    simp only [next]
    split
    · exact Advances.of_eq rfl rfl rfl fun _ _ h => h
    · rename_i l i hc
      exact Advances.of_eq (Lib.eventView_sessionCmd hc) (by rw [Lib.callbackView_sessionCmd hc])
        (congrArg LifeView.freed (m.lib.lifeView_sessionCmd _ hc).2) fun _ _ h => h
  | requestCmd interp name clientData args env =>
    simp only [next]
    split
    · exact Advances.of_eq rfl rfl rfl fun _ _ h => h
    · exact Advances.createNewRequest ..
  | sessionHandle i name args env =>
    simp only [next]
    split
    · exact Advances.of_eq rfl rfl rfl fun _ _ h => h
    · exact (Advances.of_eq (m := m) rfl rfl rfl fun _ _ h => h).trans
        (Advances.deleteSessionCommand i)
    · exact Advances.createNewRequest ..
  | requestDestroy r byRename =>
    refine next_requestDestroy_rule ?_ fun _ _ => ?_
    · exact (Advances.of_eq (m := m) rfl rfl rfl fun _ _ h => h).trans
        (Advances.deleteRequestCommand r)
    · exact Advances.of_eq rfl rfl rfl fun _ _ h => List.mem_cons_of_mem _ h
  | poolEventSetup p b t =>
    exact Advances.setLib (by simp) (by simp)
      (congrArg LifeView.freed (m.lib.lifeView_poolEventSetup ..))
  | poolEventCheck p b w =>
    have hf : (m.lib.poolEventCheckStart p b w).1.freed = m.lib.freed :=
      congrArg LifeView.freed (m.lib.lifeView_poolEventCheckStart ..)
    simp only [next]
    split_ifs
    · exact Advances.of_eq (by simp) (by simp) hf fun _ _ h => List.mem_cons_of_mem _ h
    · exact Advances.setLib (by simp) (by simp) hf
  | serviceEvent b => exact absurd rfl (hs b)
  | queueOther b =>
    refine Advances.of_moves (Relation.ReflTransGen.single
      (.push m.lib.inbox .other (m.lib.queueEvent b .other).queue rfl ?_)) rfl fun _ _ h => h
    cases b
    · exact Or.inr rfl
    · exact Or.inl rfl
  | interpDelete i => exact Advances.of_eq rfl rfl rfl fun _ _ h => List.mem_cons_of_mem _ h
  | interpDeleteCommand tok =>
    cases tok with
    | request r => exact Advances.deleteRequestCommand r
    | session i => exact Advances.deleteSessionCommand i
  | interpDeleteDone =>
    obtain ⟨i, hstack, -⟩ := enabled_interpDeleteDone ha
    refine Advances.of_eq rfl rfl rfl fun _ _ h => ?_
    simp [hstack] at h
  | threadExit =>
    exact Advances.of_moves Lib.moves_poolThreadExitProc
      (congrArg LifeView.freed m.lib.lifeView_poolThreadExitProc) fun _ _ h => h
  | curlComplete r result =>
    simp only [next]
    split
    · exact Advances.setLib (by simp) (by simp) rfl
    · exact Advances.refl m
  | curlWriteError r size contentSize result =>
    simp only [next]
    split
    · rename_i p wf stack hstack
      refine Advances.of_eq (by simp) (by simp; rfl) rfl fun _ _ h => ?_
      rw [hstack] at h
      simpa using h
    · rename_i r' simple wf stack hstack
      refine Advances.of_eq (by simp) (by simp; rfl) rfl fun _ _ h => ?_
      rw [hstack] at h
      simpa using h
    · exact Advances.refl m
  | performReturn ok =>
    obtain ⟨p, wf, stack, hstack, -⟩ := enabled_performReturn ha
    have hpop : ∀ r caller, .cleanup r caller ∈ m.stack → .cleanup r caller ∈ stack := by
      intro r caller h
      rw [hstack] at h
      simpa using h
    simp only [next, hstack]
    split_ifs
    · refine Advances.of_moves ((Lib.Moves.of_eq (by simp) (by simp)).trans
        (Lib.moves_poolEventCheckFinish _)) ?_ hpop
      exact congrArg LifeView.freed
        ((m.lib.setInCallback p false).lifeView_poolEventCheckFinish p _)
    · exact Advances.of_eq (by simp) (by simp) rfl hpop
  | easyPerformReturn res =>
    obtain ⟨r, simple, wf, stack, hstack, -⟩ := enabled_easyPerformReturn ha
    simp only [next, hstack]
    have hrun : Advances m { m with lib := m.lib.requestRunFinish r res, stack := stack } := by
      refine Advances.of_moves (Lib.moves_setState _) rfl fun x caller h => ?_
      rw [hstack] at h
      simpa using h
    exact hrun.trans (Advances.createFinish r simple)
  | cleanupReturn =>
    obtain ⟨r, caller, stack, hstack⟩ := enabled_cleanupReturn ha
    simp only [next, hstack]
    exact Advances.cleanupFinish hstack

/-! ### Runs -/

/-- The callbacks that an action runs, by their requests. -/
def delivers (m : Machine) : Action → List ReqId
  | .serviceEvent fileEvents =>
    ((m.lib.queue.find? (TclEvent.ready fileEvents)).bind TclEvent.target).toList
  | _ => []

/-- Events overtake others only where they do not overtake a callback event. -/
theorem target_of_notReady {b : Bool} {e e' : TclEvent} (he : e.ready b = true)
    (he' : e'.ready b = false) (ht : e.target ≠ none) : e'.target = none := by
  cases e' with
  | request id req =>
    cases e with
    | request id' req' =>
      simp only [TclEvent.ready] at he he'
      rw [he] at he'
      cases he'
    | _ => exact absurd rfl ht
  | _ => rfl

theorem delivery_serviceEvent {done : List ReqId} (h : DeliveryInv done m.Gone m.lib.inbox)
    (b : Bool) :
    DeliveryInv (done ++ m.delivers (.serviceEvent b)) (m.setLib (m.lib.serviceEvent b)).Gone
      (m.lib.serviceEvent b).inbox := by
  have hgone : (m.setLib (m.lib.serviceEvent b)).Gone = m.Gone := by
    funext r
    have hf : (m.lib.serviceEvent b).freed = m.lib.freed := by
      simp only [Lib.serviceEvent]
      split
      · rename_i id req _
        cases req <;> rfl
      · rfl
      · rfl
      · rfl
    simp only [Gone, setLib, hf]
  rw [hgone]
  cases hf : m.lib.queue.find? (TclEvent.ready b) with
  | none =>
    have hsame : m.lib.queue.eraseP (TclEvent.ready b) = m.lib.queue :=
      List.eraseP_of_forall_not (List.find?_eq_none.mp hf)
    simpa [delivers, Lib.serviceEvent, hf, hsame] using h
  | some e =>
    obtain ⟨hready, before, after, hq, hbefore⟩ := List.find?_eq_some_iff_append.mp hf
    have herase : m.lib.queue.eraseP (TclEvent.ready b) = before ++ after := by
      rw [hq, List.eraseP_append_right _ (by simpa using hbefore), List.eraseP_cons_of_pos hready]
    have h₁ := h.service (x := m.lib.inbox) hq fun ht x hx =>
      target_of_notReady hready (by simpa using hbefore x hx) ht
    simp only [delivers, hf, Option.bind_some, Lib.serviceEvent, herase]
    cases e with
    | request id req =>
      cases req with
      | none => exact h₁
      | some r =>
        have hclear := h₁.clear r
        have hview : (Lib.requestEventProc { m.lib with queue := before ++ after } (some r)).eventView =
            EventView.clear { m.lib.eventView with queue := before ++ after } r := by
          have hu := Lib.field_modifyRequest m.lib r Request.callbackEvent fun q =>
            { q with callbackEvent := none }
          simp only [Lib.requestEventProc, Lib.eventView, EventView.clear]
          congr 1
        have hinbox : (Lib.requestEventProc { m.lib with queue := before ++ after } (some r)).inbox =
            ⟨EventView.clear { m.lib.eventView with queue := before ++ after } r,
              m.lib.callbackView.scheduled⟩ := by
          unfold Lib.inbox
          rw [hview, Lib.callbackView_requestEventProc]
          rfl
        rw [hinbox]
        exact hclear
    | poolDeactivate p => exact h₁
    | other => exact h₁

theorem delivery_step {done : List ReqId} {s t : Machine} (h : DeliveryInv done s.Gone s.lib.inbox)
    (hst : s.step api a = some t) : DeliveryInv (done ++ s.delivers a) t.Gone t.lib.inbox := by
  obtain ⟨ha, rfl⟩ := step_eq_some.mp hst
  by_cases hs : ∃ b, a = .serviceEvent b
  · obtain ⟨b, rfl⟩ := hs
    exact delivery_serviceEvent h b
  · have hadv : Advances s (s.next api a) := advances_next ha fun b hb => hs ⟨b, hb⟩
    have hnone : s.delivers a = [] := by
      cases a with
      | serviceEvent b => exact absurd ⟨b, rfl⟩ hs
      | _ => rfl
    rw [hnone, List.append_nil]
    exact (h.mono hadv.gone).moves hadv.moves

end Machine

end Trequests
