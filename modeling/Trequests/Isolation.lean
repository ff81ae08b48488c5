import Trequests.InFlight

/-! The interpreters of a thread share its pool and its event queue. The deletion of one of
them releases its requests and sessions one after the other, in the order in which Tcl
deletes the commands, and takes each out of what is shared; nothing else happens until it
is over, and it leaves all that belongs to the others as it was. -/

namespace Trequests

/-- Some of the requests and of the sessions. -/
structure Part where
  request : ReqId → Bool
  session : SesId → Bool

namespace Part
variable (o : Part)

def command : CmdToken → Bool
  | .request r => o.request r
  | .session i => o.session i

/-- A list of requests without those of the part. -/
def others (rs : List ReqId) : List ReqId := rs.filter fun r => ! o.request r

/-- A pool without the requests of the part. The counter, which is the length of the list,
is left out. -/
def otherPool (q : Pool) : Pool :=
  { q with
    curlMulti :=
      { q.curlMulti with
        handles := o.others q.curlMulti.handles
        completed := o.others q.curlMulti.completed
        msgs := q.curlMulti.msgs.filter fun msg => ! o.request msg.easyHandle }
    requests := o.others q.requests
    activeConnectionCount := 0 }

/-- The event is not for the part, nor has it been emptied. -/
def otherEvent : TclEvent → Bool
  | .request _ none => false
  | .request _ (some r) => ! o.request r
  | .poolDeactivate _ | .other => true

/-- What the library is without the part. -/
structure Keeps (l l' : Lib) : Prop where
  request : ∀ r, o.request r = false → l'.request r = l.request r ∧ l'.freed r = l.freed r
  session : ∀ i, o.session i = false →
    l'.session i = l.session i ∧ l'.sessionFreed i = l.sessionFreed i
  command : ∀ tok, o.command tok = false → l'.command tok = l.command tok
  pool : ∀ p, o.otherPool (l'.pool p) = o.otherPool (l.pool p)
  queue : l'.queue.filter o.otherEvent = l.queue.filter o.otherEvent
  sources : l'.sources = l.sources
  poolDefault : l'.poolDefault = l.poolDefault
  poolFreed : l'.poolFreed = l.poolFreed
  interpDeleted : l'.interpDeleted = l.interpDeleted
  nextRequest : l'.nextRequest = l.nextRequest
  nextSession : l'.nextSession = l.nextSession

variable {o} {l l' l'' : Lib} {r : ReqId} {i : SesId} {p : PoolId}

theorem others_erase (hr : o.request r = true) (rs : List ReqId) :
    o.others (rs.erase r) = o.others rs := by
  induction rs with
  | nil => rfl
  | cons x rs ih =>
    by_cases hx : x = r
    · subst hx
      simp [others, hr]
    · rw [List.erase_cons_tail (by simpa using hx)]
      simp only [others, List.filter_cons] at ih ⊢
      rw [ih]

/-- The removal of a request of the part from its pool. -/
theorem otherPool_detach (hr : o.request r = true) (q : Pool) :
    o.otherPool (q.detach r) = o.otherPool q := by
  have hmsgs : ∀ msgs : List CURLMsg,
      ((msgs.filter fun msg => msg.easyHandle ≠ r).filter fun msg => ! o.request msg.easyHandle) =
        msgs.filter fun msg => ! o.request msg.easyHandle := by
    intro msgs
    rw [List.filter_filter]
    refine List.filter_congr fun msg _ => ?_
    by_cases he : msg.easyHandle = r
    · simp [he, hr]
    · simp [he]
  unfold otherPool Pool.detach Multi.removeHandle
  split_ifs <;> simp only [others_erase hr, hmsgs]

/-- Only events of the part are emptied. -/
theorem filter_emptied {queue : List TclEvent} {e : EventId}
    (ho : ∀ id x, .request id (some x) ∈ queue → id = e → o.request x = true) :
    (queue.map fun
      | .request id req => TclEvent.request id (if id = e then none else req)
      | event => event).filter o.otherEvent = queue.filter o.otherEvent := by
  induction queue with
  | nil => rfl
  | cons event queue ih =>
    rw [List.map_cons, List.filter_cons, List.filter_cons,
      ih fun id x hm => ho id x (List.mem_cons_of_mem _ hm)]
    cases event with
    | request id req =>
      cases req with
      | none => simp [otherEvent]
      | some x =>
        by_cases hid : id = e
        · simp [otherEvent, hid, ho id x List.mem_cons_self hid]
        · simp [otherEvent, hid]
    | _ => rfl

namespace Keeps

theorem refl (o : Part) (l : Lib) : o.Keeps l l :=
  ⟨fun _ _ => ⟨rfl, rfl⟩, fun _ _ => ⟨rfl, rfl⟩, fun _ _ => rfl, fun _ => rfl, rfl, rfl, rfl, rfl,
    rfl, rfl, rfl⟩

theorem trans (h : o.Keeps l l') (h' : o.Keeps l' l'') : o.Keeps l l'' where
  request r hr := ⟨(h'.request r hr).1.trans (h.request r hr).1,
    (h'.request r hr).2.trans (h.request r hr).2⟩
  session i hi := ⟨(h'.session i hi).1.trans (h.session i hi).1,
    (h'.session i hi).2.trans (h.session i hi).2⟩
  command tok ht := (h'.command tok ht).trans (h.command tok ht)
  pool p := (h'.pool p).trans (h.pool p)
  queue := h'.queue.trans h.queue
  sources := h'.sources.trans h.sources
  poolDefault := h'.poolDefault.trans h.poolDefault
  poolFreed := h'.poolFreed.trans h.poolFreed
  interpDeleted := h'.interpDeleted.trans h.interpDeleted
  nextRequest := h'.nextRequest.trans h.nextRequest
  nextSession := h'.nextSession.trans h.nextSession

/-! ### Writes to the part -/

theorem modifyRequest (hr : o.request r = true) (f : Request → Request) :
    o.Keeps l (l.modifyRequest r f) where
  __ := refl o l
  request x hx := by
    have hne : x ≠ r := fun he => by rw [he, hr] at hx; cases hx
    exact ⟨Function.update_of_ne hne _ _, rfl⟩

theorem modifySession (hi : o.session i = true) (f : Session → Session) :
    o.Keeps l (l.modifySession i f) where
  __ := refl o l
  session x hx := by
    have hne : x ≠ i := fun he => by rw [he, hi] at hx; cases hx
    exact ⟨Function.update_of_ne hne _ _, rfl⟩

theorem setCommand {tok : CmdToken} (ht : o.command tok = true) (status : CmdStatus) :
    o.Keeps l (l.setCommand tok status) where
  __ := refl o l
  command x hx := by
    have hne : x ≠ tok := fun he => by rw [he, ht] at hx; cases hx
    exact Function.update_of_ne hne _ _

theorem modifyPool {f : Pool → Pool} (hp : o.otherPool (f (l.pool p)) = o.otherPool (l.pool p)) :
    o.Keeps l (l.modifyPool p f) where
  __ := refl o l
  pool x := by
    by_cases hx : x = p
    · subst hx
      simpa [Lib.modifyPool] using hp
    · simp [Lib.modifyPool, hx]

/-- What is written behind the state: the log of the states is not part of the library. -/
theorem setState (hr : o.request r = true) (s : RequestState) : o.Keeps l (l.setState r s) where
  __ := modifyRequest hr fun q => { q with state := s }

/-! ### The procedures of a release -/

theorem requestSetError (hr : o.request r = true) (e : Str) : o.Keeps l (l.requestSetError r e) :=
  (modifyRequest hr _).trans (setState hr _)

theorem requestScheduleCallback (hr : o.request r = true) :
    o.Keeps l (l.requestScheduleCallback r) := by
  unfold Lib.requestScheduleCallback
  split_ifs
  · exact refl o l
  · exact refl o l
  · exact {
      modifyRequest hr fun q => { q with callbackEvent := some l.nextEvent } with
      queue := by simp [otherEvent, hr] }

theorem poolRemoveRequest (hr : o.request r = true) : o.Keeps l (l.poolRemoveRequest r) := by
  unfold Lib.poolRemoveRequest
  cases (l.request r).pool with
  | none => exact refl o l
  | some p =>
    have hdetach : o.Keeps l (l.poolDetach p r) := by
      simp only [Lib.poolDetach, linkedListRemoveByItem_eq_erase]
      exact (modifyPool (f := fun q => q.detach r) (otherPool_detach hr _)).trans
        (modifyRequest hr _)
    simp only [Lib.poolAbort]
    split_ifs
    · exact hdetach
    · exact hdetach.trans ((setState hr _).trans ((requestSetError hr _).trans
        (requestScheduleCallback hr)))
    · exact hdetach

/-- The event that the request points to is its own. -/
theorem detachCallbackEvent (ht : ∀ id x, .request id (some x) ∈ l.queue →
    (l.request r).callbackEvent = some id → o.request x = true) :
    o.Keeps l (l.detachCallbackEvent r) := by
  unfold Lib.detachCallbackEvent
  cases hc : (l.request r).callbackEvent with
  | none => exact refl o l
  | some e =>
    refine { refl o l with queue := filter_emptied fun id x hm hid => ?_ }
    exact ht id x hm (hid ▸ hc)

theorem sessionRemoveRequest (hr : o.request r = true)
    (hs : ∀ i, (l.request r).session = some i → o.session i = true) :
    o.Keeps l (l.sessionRemoveRequest r) := by
  unfold Lib.sessionRemoveRequest
  cases hi : (l.request r).session with
  | none => exact refl o l
  | some i => exact (modifyRequest hr _).trans (modifySession (hs i hi) _)

theorem requestFreeStart (hr : o.request r = true)
    (ht : ∀ id x, .request id (some x) ∈ l.queue →
      (l.request r).callbackEvent = some id → o.request x = true)
    (hs : ∀ i, (l.request r).session = some i → o.session i = true) :
    o.Keeps l (l.requestFreeStart r) := by
  have hsession : ((l.detachCallbackEvent r).request r).session = (l.request r).session := by
    unfold Lib.detachCallbackEvent
    cases (l.request r).callbackEvent <;> rfl
  refine (detachCallbackEvent ht).trans (Keeps.trans (sessionRemoveRequest hr ?_)
    (poolRemoveRequest hr))
  rwa [hsession]

theorem deleteCommand {tok : CmdToken} (ht : o.command tok = true) :
    o.Keeps l (l.deleteCommand tok) := by
  unfold Lib.deleteCommand
  split
  · exact setCommand ht _
  · exact setCommand ht _
  · exact refl o l

theorem requestFreeFinish (hr : o.request r = true) : o.Keeps l (l.requestFreeFinish r) := by
  have hcommand : o.Keeps l (l.requestFreeCommand r) := by
    unfold Lib.requestFreeCommand
    split_ifs
    · exact (modifyRequest hr _).trans (deleteCommand hr)
    · exact refl o l
  refine { hcommand with request := fun x hx => ?_ }
  have hne : x ≠ r := fun he => by rw [he, hr] at hx; cases hx
  exact ⟨(hcommand.request x hx).1, Function.update_of_ne hne _ _⟩

theorem sessionFreeFinish (hi : o.session i = true) : o.Keeps l (l.sessionFreeFinish i) := by
  have ht : o.command (.session i) = true := hi
  have hcommand : o.Keeps l (l.setCommand (.session i) .deleted) := setCommand ht _
  refine { hcommand with session := fun x hx => ?_ }
  have hne : x ≠ i := fun he => by rw [he, hi] at hx; cases hx
  exact ⟨rfl, Function.update_of_ne hne _ _⟩

end Keeps

end Part

/-! ### What belongs to an interpreter -/

/-- The requests and sessions of the interpreter. -/
def LifeView.partOf (v : LifeView) (k : InterpId) : Part where
  request r := v.interp r = k
  session i := v.sesInterp i = k

/-- Only what belongs to the interpreter has been worked on. -/
structure Lib.Deletes (k : InterpId) (l l' : Lib) : Prop where
  keeps : (l.lifeView.partOf k).Keeps l l'
  within : l.lifeView.Within l'.lifeView

/-- No request points to the event of another one. -/
def EventView.Own (v : EventView) : Prop :=
  ∀ id r r', .request id (some r) ∈ v.queue → v.callbackEvent r' = some id → r' = r

namespace Lib.Deletes
variable {l l' l'' : Lib} {k : InterpId}

theorem refl (k : InterpId) (l : Lib) : Deletes k l l := ⟨.refl _ l, .refl _⟩

theorem trans (h : Deletes k l l') (h' : Deletes k l' l'') : Deletes k l l'' := by
  have hpart : l'.lifeView.partOf k = l.lifeView.partOf k := by
    simp only [LifeView.partOf, h.within.interp, h.within.sesInterp]
  exact ⟨h.keeps.trans (hpart ▸ h'.keeps), h.within.trans h'.within⟩

end Lib.Deletes

namespace Machine
variable {m : Machine} {k : InterpId} {api : Api} {a : Action}

theorem deletes_requestFree {r : ReqId} {caller : Caller} (hown : m.lib.eventView.Own)
    (hr : m.lib.lifeView.interp r = k)
    (hs : ∀ i, m.lib.lifeView.session r = some i → m.lib.lifeView.sesInterp i = k) :
    Lib.Deletes k m.lib (m.requestFree r caller).lib := by
  refine ⟨.requestFreeStart (decide_eq_true hr) (fun id x hm hc => ?_)
    fun i hi => decide_eq_true (hs i hi), m.lib.within_requestFreeStart r⟩
  cases hown id x r hm hc
  exact decide_eq_true hr

theorem deletes_sessionFreeLoop {i : SesId} (hown : m.lib.eventView.Own)
    (hi : m.lib.lifeView.sesInterp i = k)
    (hr : ∀ r ∈ m.lib.lifeView.requests i, m.lib.lifeView.interp r = k) :
    Lib.Deletes k m.lib (m.sessionFreeLoop i).lib := by
  unfold sessionFreeLoop
  split
  · refine ⟨.sessionFreeFinish (decide_eq_true hi), ?_⟩
    exact ⟨rfl, rfl, rfl, rfl, fun _ => List.Subset.refl _⟩
  · rename_i r rs hrs
    have hint : m.lib.lifeView.interp r = k := by
      refine hr r ?_
      change r ∈ (m.lib.session i).requests
      rw [hrs]
      exact List.mem_cons_self
    have hclear : Lib.Deletes k m.lib (m.lib.clearSession r) :=
      ⟨.modifyRequest (decide_eq_true hint) _, m.lib.within_clearSession r⟩
    refine hclear.trans (deletes_requestFree (m := m.setLib (m.lib.clearSession r)) ?_ ?_ ?_)
    · change (m.lib.clearSession r).eventView.Own
      rwa [Lib.eventView_clearSession]
    · exact (congrFun hclear.within.interp r).trans hint
    · intro j hj
      change ((m.lib.clearSession r).request r).session = some j at hj
      simp [Lib.clearSession, Lib.modifyRequest] at hj

theorem deletes_deleteCommand {tok : CmdToken} (ht : (m.lib.lifeView.partOf k).command tok = true) :
    Lib.Deletes k m.lib (m.lib.deleteCommand tok) :=
  ⟨.deleteCommand ht, m.lib.within_deleteCommand tok⟩

theorem deletes_setCommand {tok : CmdToken} (ht : (m.lib.lifeView.partOf k).command tok = true)
    (status : CmdStatus) : Lib.Deletes k m.lib (m.lib.setCommand tok status) :=
  ⟨.setCommand ht status, .setCommand tok status⟩

theorem deletes_deleteRequestCommand {r : ReqId} (hown : m.lib.eventView.Own)
    (hr : m.lib.lifeView.interp r = k)
    (hs : ∀ i, m.lib.lifeView.session r = some i → m.lib.lifeView.sesInterp i = k) :
    Lib.Deletes k m.lib (m.deleteRequestCommand r).lib := by
  have ht : (m.lib.lifeView.partOf k).command (.request r) = true := decide_eq_true hr
  unfold deleteRequestCommand
  split
  · split_ifs
    · exact deletes_setCommand ht _
    · set l := (m.lib.setCommand (.request r) .deleting).clearCmdToken r with hl
      have hclear : Lib.Deletes k m.lib l := by
        refine (deletes_setCommand ht .deleting).trans ⟨?_, Lib.within_clearCmdToken _ r⟩
        exact .modifyRequest (decide_eq_true hr) _
      refine hclear.trans (deletes_requestFree (m := m.setLib l) ?_ ?_ ?_)
      · change l.eventView.Own
        rwa [hl, Lib.eventView_clearCmdToken, Lib.eventView_setCommand]
      · exact (congrFun hclear.within.interp r).trans hr
      · intro i hi
        have hsame : l.lifeView.session r = m.lib.lifeView.session r := by
          rw [hl, Lib.lifeView_clearCmdToken]
          rfl
        exact (congrFun hclear.within.sesInterp i).trans (hs i (hsame ▸ hi))
  · exact deletes_deleteCommand ht

theorem deletes_deleteSessionCommand {i : SesId} (hown : m.lib.eventView.Own)
    (hi : m.lib.lifeView.sesInterp i = k)
    (hr : ∀ r ∈ m.lib.lifeView.requests i, m.lib.lifeView.interp r = k) :
    Lib.Deletes k m.lib (m.deleteSessionCommand i).lib := by
  have ht : (m.lib.lifeView.partOf k).command (.session i) = true := decide_eq_true hi
  unfold deleteSessionCommand
  split
  · exact (deletes_setCommand ht .deleting).trans
      (deletes_sessionFreeLoop (m := m.setLib (m.lib.setCommand (.session i) .deleting)) hown hi hr)
  · exact deletes_deleteCommand ht

theorem deletes_cleanupFinish {r : ReqId} {caller : Caller} (hown : m.lib.eventView.Own)
    (hr : m.lib.lifeView.interp r = k)
    (hs : ∀ i, caller = .session i → m.lib.lifeView.sesInterp i = k)
    (hall : ∀ i, ∀ x ∈ m.lib.lifeView.requests i, m.lib.lifeView.interp x =
      m.lib.lifeView.sesInterp i) :
    Lib.Deletes k m.lib (m.cleanupFinish r caller).lib := by
  have hfree : Lib.Deletes k m.lib (m.lib.requestFreeFinish r) :=
    ⟨.requestFreeFinish (decide_eq_true hr), m.lib.within_requestFreeFinish r⟩
  cases caller with
  | command =>
    refine hfree.trans (deletes_setCommand (m := m.setLib (m.lib.requestFreeFinish r)) ?_ .deleted)
    exact decide_eq_true ((congrFun hfree.within.interp r).trans hr)
  | simple => exact hfree
  | session i =>
    have hi := hs i rfl
    have hdrop : Lib.Deletes k m.lib ((m.lib.requestFreeFinish r).dropRequest i) := by
      refine hfree.trans ⟨.modifySession ?_ _, ?_⟩
      · exact decide_eq_true ((congrFun hfree.within.sesInterp i).trans hi)
      · rw [Lib.lifeView_dropRequest]
        exact .dropRequest i
    refine hdrop.trans (deletes_sessionFreeLoop
      (m := m.setLib ((m.lib.requestFreeFinish r).dropRequest i)) ?_ ?_ fun x hx => ?_)
    · change ((m.lib.requestFreeFinish r).dropRequest i).eventView.Own
      rwa [Lib.eventView_dropRequest, Lib.eventView_requestFreeFinish]
    · exact (congrFun hdrop.within.sesInterp i).trans hi
    · have hold := hall i x (hdrop.within.requests i hx)
      exact (congrFun hdrop.within.interp x).trans (hold.trans hi)

/-! ### Steps -/

/-- While the interpreter is being deleted, until its deletion is over, only what belongs
to it is worked on. -/
theorem deletes_next (api : Api) (hdel : m.DeletionOk) (hl : m.LifeOk) (hown : m.lib.eventView.Own)
    (hk : .interpDelete k ∈ m.stack) (ha : m.enabled a = true) (hd : a ≠ .interpDeleteDone) :
    a.isScript = false ∧ .interpDelete k ∈ (m.next api a).stack ∧
      Lib.Deletes k m.lib (m.next api a).lib := by
  obtain ⟨-, hframes⟩ := hdel.deleting k hk
  have hscript : a.isScript = false := by
    by_contra hs
    have hmay := DeletionOk.scriptMayRun_of_enabled ha (Bool.of_not_eq_false hs)
    exact hdel.no_deletion hmay k hk
  refine ⟨hscript, ?_⟩
  cases a with
  | interpDelete j =>
    rw [(enabled_interpDelete ha).1] at hk
    cases hk
  | threadExit =>
    rw [enabled_threadExit ha] at hk
    cases hk
  | interpDeleteDone => exact absurd rfl hd
  | interpDeleteCommand tok =>
    obtain ⟨j, hs, halive, hj⟩ := enabled_interpDeleteCommand ha
    rw [hs, List.mem_singleton, Frame.interpDelete.injEq] at hk
    subst hk
    cases tok with
    | request r =>
      refine ⟨?_, deletes_deleteRequestCommand hown hj fun i hi => ?_⟩
      · rcases m.deleteRequestCommand_stack r with h | h <;>
          exact h ▸ by simp [hs]
      · have hmem := (hl.mem_iff i r).mpr (Or.inl hi)
        exact (hdel.interp i r hmem).symm.trans hj
    | session i =>
      refine ⟨?_, deletes_deleteSessionCommand hown hj fun r hr => (hdel.interp i r hr).trans hj⟩
      rcases m.deleteSessionCommand_stack i with h | ⟨r, -, h⟩ <;>
        exact h ▸ by simp [hs]
  | cleanupReturn =>
    obtain ⟨r, caller, stack, hs⟩ := enabled_cleanupReturn ha
    have htop := hframes (.cleanup r caller) (hs ▸ List.mem_cons_self)
    have hbelow : .interpDelete k ∈ stack := by simpa [hs] using hk
    simp only [next, hs]
    refine ⟨?_, deletes_cleanupFinish (m := { m with stack := stack }) hown htop.1 htop.2
      hdel.interp⟩
    rcases cleanupFinish_stack (m := { m with stack := stack }) r caller with h | ⟨x, i, -, h⟩ <;>
      exact h ▸ by simp [hbelow]
  | curlComplete r result =>
    obtain ⟨p, wf, stack, hs, -⟩ := enabled_curlComplete ha
    exact (hframes (.perform p wf) (hs ▸ List.mem_cons_self)).elim
  | curlWriteError r size contentSize result =>
    rcases enabled_curlWriteError ha with ⟨p, wf, stack, hs, -⟩ | ⟨simple, wf, stack, hs⟩
    · exact (hframes (.perform p wf) (hs ▸ List.mem_cons_self)).elim
    · exact (hframes (.run r simple wf) (hs ▸ List.mem_cons_self)).elim
  | performReturn ok =>
    obtain ⟨p, wf, stack, hs, -⟩ := enabled_performReturn ha
    exact (hframes (.perform p wf) (hs ▸ List.mem_cons_self)).elim
  | easyPerformReturn res =>
    obtain ⟨r, simple, wf, stack, hs, -⟩ := enabled_easyPerformReturn ha
    exact (hframes (.run r simple wf) (hs ▸ List.mem_cons_self)).elim
  | _ => cases hscript

/-! ### Runs -/

variable {as : List Action}

/-- What is in order while the interpreter is being deleted, with the library at the
beginning. -/
structure Deleting (k : InterpId) (l : Lib) (m : Machine) : Prop where
  life : (m.PoolInv ∧ m.LifeOk) ∧ m.OneWaits
  deletion : m.DeletionOk
  events : ∃ done, DeliveryInv done m.Gone m.lib.inbox
  frame : .interpDelete k ∈ m.stack
  deletes : Lib.Deletes k l m.lib

theorem Deleting.step {l : Lib} {t : Machine} (h : m.Deleting k l) (hd : a ≠ .interpDeleteDone)
    (hst : m.step api a = some t) : t.Deleting k l := by
  obtain ⟨done, hevents⟩ := h.events
  obtain ⟨ha, rfl⟩ := step_eq_some.mp hst
  have hown : m.lib.eventView.Own := fun id r r' => hevents.target id r r'
  obtain ⟨hscript, hframe, hdeletes⟩ := deletes_next api h.deletion h.life.1.2 hown h.frame ha hd
  have hquiet : m.Quiet a := fun hs => by
    rw [hscript] at hs
    cases hs
  exact ⟨quiet_step h.life hquiet hst, h.deletion.next ha, ⟨_, delivery_step hevents hst⟩, hframe,
    h.deletes.trans hdeletes⟩

end Machine

end Trequests
