import Trequests.LifetimeMachine

/-! The release of requests without scripts inside callbacks. Then at most one procedure
waits, besides the deletion of an interpreter, so that every quiet run is safe; and when
nothing waits, a request has been released exactly if its command is gone, which its
session and its interpreter take with them. -/

namespace Trequests

namespace Machine

/-! ### Quiet runs are safe -/

/-- One procedure waits, possibly called by the deletion of an interpreter. A request
that its session releases is the first one of the session. -/
def OneWaits (m : Machine) : Prop :=
  match m.stack with
  | [] | [.run ..] | [.perform ..] | [.interpDelete _] => True
  | [.cleanup r caller] | [.cleanup r caller, .interpDelete _] =>
    ∀ i, caller = .session i → (m.lib.session i).requests.head? = some r
  | _ => False

theorem safe_of_quiet {m : Machine} {a : Action} (hl : m.LifeOk) (h : m.OneWaits)
    (hq : m.Quiet a) : m.Safe a := by
  have hempty : m.stack = [] → ∀ r, ¬ m.OnStack r := fun hs r => by simp [OnStack, hs]
  cases a with
  | requestDestroy r byRename =>
    refine ⟨fun _ => hempty (hq rfl) r, fun hdeleting => ?_⟩
    have hbusy := hl.busy_of_deleting hdeleting
    simp [hq rfl] at hbusy
  | sessionHandle i name args env => exact fun _ _ r _ => hempty (hq rfl) r
  | cleanupReturn =>
    simp only [Safe]
    split
    · rename_i r i stack hs
      unfold OneWaits at h
      rw [hs] at h
      cases stack with
      | nil => exact h i rfl
      | cons f stack =>
        cases f with
        | interpDelete j =>
          cases stack with
          | nil => exact h i rfl
          | cons => exact h.elim
        | _ => exact h.elim
    · trivial
  | _ => trivial

section Stack
variable {m : Machine}

/-- What the loop of `treq_SessionFree` waits for is the first request of the session. -/
theorem sessionFreeLoop_head (i : SesId) :
    (m.sessionFreeLoop i).stack = m.stack ∨
      ∃ r, (m.sessionFreeLoop i).stack = .cleanup r (.session i) :: m.stack ∧
        ((m.sessionFreeLoop i).lib.session i).requests.head? = some r := by
  unfold sessionFreeLoop
  split
  · exact Or.inl rfl
  · rename_i r rs hrs
    refine Or.inr ⟨r, rfl, ?_⟩
    have hv : ((m.lib.clearSession r).requestFreeStart r).lifeView = m.lib.lifeView.clearSession r := by
      rw [Lib.lifeView_requestFreeStart, Lib.lifeView_clearSession]
      simp [LifeView.sessionRemove, LifeView.clearSession]
    have hreq := congrFun (congrArg LifeView.requests hv) i
    change (((m.lib.clearSession r).requestFreeStart r).session i).requests = (m.lib.session i).requests
      at hreq
    change (((m.lib.clearSession r).requestFreeStart r).session i).requests.head? = some r
    rw [hreq, hrs, List.head?_cons]

theorem deleteSessionCommand_head (i : SesId) :
    (m.deleteSessionCommand i).stack = m.stack ∨
      ∃ r, (m.deleteSessionCommand i).stack = .cleanup r (.session i) :: m.stack ∧
        ((m.deleteSessionCommand i).lib.session i).requests.head? = some r := by
  unfold deleteSessionCommand
  split
  · exact sessionFreeLoop_head i
  · exact Or.inl rfl

/-- With nothing, or the deletion of an interpreter, below, one more procedure waits. -/
theorem oneWaits_of_cleanup {t : Machine} (hs : m.stack = [] ∨ ∃ j, m.stack = [.interpDelete j])
    (hf : t.stack = m.stack ∨ ∃ r caller, t.stack = .cleanup r caller :: m.stack ∧
      ∀ i, caller = .session i → (t.lib.session i).requests.head? = some r) : t.OneWaits := by
  unfold OneWaits
  rcases hf with hf | ⟨r, caller, hf, hhead⟩ <;> rcases hs with hs | ⟨j, hs⟩ <;> rw [hf, hs]
  · trivial
  · trivial
  · exact hhead
  · exact hhead

theorem oneWaits_of_nil (hs : m.stack = []) : m.OneWaits := by unfold OneWaits; rw [hs]; trivial

theorem OneWaits.below_cleanup (h : m.OneWaits) {r : ReqId} {caller : Caller} {stack : List Frame}
    (hs : m.stack = .cleanup r caller :: stack) : stack = [] ∨ ∃ j, stack = [.interpDelete j] := by
  unfold OneWaits at h
  rw [hs] at h
  match stack with
  | [] => exact Or.inl rfl
  | [.interpDelete j] => exact Or.inr ⟨j, rfl⟩
  | .run .. :: _ => exact h.elim
  | .perform .. :: _ => exact h.elim
  | .cleanup .. :: _ => exact h.elim
  | .interpDelete _ :: _ :: _ => exact h.elim

theorem OneWaits.below_run (h : m.OneWaits) {r : ReqId} {s w : Bool} {stack : List Frame}
    (hs : m.stack = .run r s w :: stack) : stack = [] := by
  unfold OneWaits at h
  rw [hs] at h
  cases stack with
  | nil => rfl
  | cons => exact h.elim

theorem OneWaits.below_perform (h : m.OneWaits) {p : PoolId} {w : Bool} {stack : List Frame}
    (hs : m.stack = .perform p w :: stack) : stack = [] := by
  unfold OneWaits at h
  rw [hs] at h
  cases stack with
  | nil => rfl
  | cons => exact h.elim

theorem oneWaits_createNewRequest (hs : m.stack = []) (api : Api) (env : CurlEnv)
    (interp : InterpId) (call : CreateCall) (session : Option SesId) :
    (m.createNewRequest api env interp call session).OneWaits := by
  rcases m.createNewRequest_stack api env interp call session with h | ⟨r, s, h⟩ | ⟨r, h⟩
  · exact oneWaits_of_nil (h.trans hs)
  · unfold OneWaits; rw [h, hs]; trivial
  · exact oneWaits_of_cleanup (Or.inl hs) (Or.inr ⟨r, .simple, h, by simp⟩)

theorem oneWaits_next {api : Api} {a : Action} (hl : m.LifeOk) (h : m.OneWaits)
    (ha : m.enabled a = true) (hq : m.Quiet a) : (m.next api a).OneWaits := by
  have hrequest : ∀ {t : Machine}, t.stack = [] ∨ (∃ j, t.stack = [.interpDelete j]) → ∀ r,
      (t.deleteRequestCommand r).OneWaits := by
    intro t hs r
    refine oneWaits_of_cleanup hs ((t.deleteRequestCommand_stack r).imp_right fun hc => ?_)
    exact ⟨r, .command, hc, by simp⟩
  have hsession : ∀ {t : Machine}, t.stack = [] ∨ (∃ j, t.stack = [.interpDelete j]) → ∀ i,
      (t.deleteSessionCommand i).OneWaits := by
    intro t hs i
    refine oneWaits_of_cleanup hs ((t.deleteSessionCommand_head i).imp_right fun hc => ?_)
    obtain ⟨r, hc, hhead⟩ := hc
    exact ⟨r, .session i, hc, fun j hj => by cases hj; exact hhead⟩
  cases a with
  | sessionCmd interp objv share =>
    have hs : m.stack = [] := hq rfl
    simp only [next]
    split <;> exact oneWaits_of_nil hs
  | requestCmd interp name clientData args env =>
    have hs : m.stack = [] := hq rfl
    simp only [next]
    split
    · exact oneWaits_of_nil hs
    · exact oneWaits_createNewRequest hs _ _ _ _ _
  | sessionHandle i name args env =>
    have hs : m.stack = [] := hq rfl
    simp only [next]
    split
    · exact oneWaits_of_nil hs
    · exact hsession (t := { m with result := .empty }) (Or.inl hs) i
    · exact oneWaits_createNewRequest hs _ _ _ _ _
  | requestDestroy r byRename =>
    refine next_requestDestroy_rule ?_ fun hb ht => ?_
    · exact hrequest (t := { m with result := .empty }) (Or.inl (hq rfl)) r
    · subst hb
      rw [hl.cmdToken_of_safe ha (safe_of_quiet hl h hq)] at ht
      cases ht
  | poolEventSetup p b t => exact oneWaits_of_nil (hq rfl)
  | poolEventCheck p b w =>
    have hs : m.stack = [] := hq rfl
    simp only [next]
    split_ifs
    · unfold OneWaits; simp only [hs]
    · exact oneWaits_of_nil hs
  | serviceEvent b => exact oneWaits_of_nil (hq rfl)
  | queueOther b => exact oneWaits_of_nil (hq rfl)
  | interpDelete i =>
    unfold OneWaits
    simp only [next, (enabled_interpDelete ha).1]
  | interpDeleteCommand tok =>
    obtain ⟨j, hs, -⟩ := enabled_interpDeleteCommand ha
    cases tok with
    | request r => exact hrequest (Or.inr ⟨j, hs⟩) r
    | session i => exact hsession (Or.inr ⟨j, hs⟩) i
  | interpDeleteDone =>
    obtain ⟨j, hs, -⟩ := enabled_interpDeleteDone ha
    exact oneWaits_of_nil (by simp only [next, hs, List.tail_cons])
  | threadExit => exact oneWaits_of_nil (enabled_threadExit ha)
  | curlComplete r result =>
    simp only [next]
    split <;> exact h
  | curlWriteError r size contentSize result =>
    simp only [next]
    split
    · rename_i hs
      unfold OneWaits
      simp only [h.below_perform hs]
    · rename_i hs
      unfold OneWaits
      simp only [h.below_run hs]
    · exact h
  | performReturn ok =>
    obtain ⟨_, _, _, hs, -⟩ := enabled_performReturn ha
    simp only [next, hs]
    exact oneWaits_of_nil (h.below_perform hs)
  | easyPerformReturn res =>
    obtain ⟨r, simple, w, stack, hs, -⟩ := enabled_easyPerformReturn ha
    simp only [next, hs]
    have hnil := h.below_run hs
    refine oneWaits_of_cleanup (m := { m with lib := m.lib.requestRunFinish r res, stack := stack })
      (Or.inl hnil) ((createFinish_stack r simple).imp_right fun hc => ?_)
    exact ⟨r, .simple, hc, by simp⟩
  | cleanupReturn =>
    obtain ⟨r, caller, stack, hs⟩ := enabled_cleanupReturn ha
    simp only [next, hs]
    apply oneWaits_of_cleanup (m := { m with stack := stack }) (h.below_cleanup hs)
    unfold cleanupFinish
    cases caller with
    | command => exact Or.inl rfl
    | simple => exact Or.inl rfl
    | session i =>
      apply (sessionFreeLoop_head i).imp_right
      rintro ⟨r', hc, hhead⟩
      exact ⟨r', .session i, hc, fun j hj => by cases hj; exact hhead⟩

end Stack

theorem quiet_step {api : Api} {s t : Machine} {a : Action}
    (h : (s.PoolInv ∧ s.LifeOk) ∧ s.OneWaits) (hq : s.Quiet a) (hst : s.step api a = some t) :
    (t.PoolInv ∧ t.LifeOk) ∧ t.OneWaits := by
  refine ⟨lifeOk_step h.1 (safe_of_quiet h.1.2 h.2 hq) hst, ?_⟩
  obtain ⟨ha, rfl⟩ := step_eq_some.mp hst
  exact oneWaits_next h.1.2 h.2 ha hq

theorem along_safe_of_quiet {api : Api} {as : List Action}
    (hq : Run.Along (step api) Quiet init as) : Run.Along (step api) Safe init as :=
  Run.Along.of_preserves (I := fun s => (s.PoolInv ∧ s.LifeOk) ∧ s.OneWaits)
    (fun _ _ _ h hq hst => quiet_step h hq hst) (fun _ _ h hq => safe_of_quiet h.1.2 h.2 hq)
    ⟨⟨poolInv_init, lifeOk_init⟩, oneWaits_of_nil rfl⟩ hq

end Machine

/-! ### Commands, sessions and interpreters -/

/-- The commands of a deleted interpreter are gone once its deletion is over, and a
session with requests has its command unless it is being released; `except` tells a
session whose release has not reached its next request. -/
structure CommandInv (v : LifeView) (stack : List Frame) (except : Option SesId) : Prop where
  request : ∀ r, v.command (.request r) = .alive → v.interpDeleted (v.interp r) = true →
    .interpDelete (v.interp r) ∈ stack
  run : ∀ r s w, .run r s w ∈ stack → v.interpDeleted (v.interp r) = false
  session : ∀ i, except ≠ some i → v.requests i ≠ [] →
    v.command (.session i) = .alive ∨ ∃ r, .cleanup r (.session i) ∈ stack
  releasing : ∀ i, except ≠ some i →
    v.command (.session i) = .deleting ∨ v.command (.session i) = .unlinked →
    ∃ r, .cleanup r (.session i) ∈ stack

/-- No command appears and no list of a session gets requests. -/
structure LifeView.Shrinks (v v' : LifeView) : Prop where
  interp : v'.interp = v.interp
  interpDeleted : v'.interpDeleted = v.interpDeleted
  request : ∀ r, v'.command (.request r) = .alive → v.command (.request r) = .alive
  session : ∀ i, v'.command (.session i) = v.command (.session i)
  requests : ∀ i, v'.requests i ≠ [] → v.requests i ≠ []

theorem LifeView.Shrinks.trans {v v' v'' : LifeView} (h : v.Shrinks v') (h' : v'.Shrinks v'') :
    v.Shrinks v'' where
  interp := h'.interp.trans h.interp
  interpDeleted := h'.interpDeleted.trans h.interpDeleted
  request r hr := h.request r (h'.request r hr)
  session i := (h'.session i).trans (h.session i)
  requests i hi := h.requests i (h'.requests i hi)

theorem LifeView.shrinks_sessionRemove (v : LifeView) (r : ReqId) : v.Shrinks (v.sessionRemove r) := by
  have h := v.sessionRemove_eq r
  exact
    { interp := by rw [h]
      interpDeleted := by rw [h]
      request := by rw [h]; exact fun _ hr => hr
      session := by rw [h]; exact fun _ => rfl
      requests := fun i hi hn => hi (List.sublist_nil.mp (hn ▸ v.sublist_sessionRemove r i)) }

theorem LifeView.shrinks_clearSession (v : LifeView) (r : ReqId) : v.Shrinks (v.clearSession r) :=
  ⟨rfl, rfl, fun _ hr => hr, fun _ => rfl, fun _ hr => hr⟩

theorem LifeView.shrinks_clearCmdToken (v : LifeView) (r : ReqId) : v.Shrinks (v.clearCmdToken r) :=
  ⟨rfl, rfl, fun _ hr => hr, fun _ => rfl, fun _ hr => hr⟩

theorem LifeView.shrinks_setCommand (v : LifeView) (r : ReqId) {status : CmdStatus}
    (hs : status ≠ .alive) : v.Shrinks (v.setCommand (.request r) status) where
  interp := rfl
  interpDeleted := rfl
  request x hx := by
    by_cases he : x = r
    · subst he
      simp only [LifeView.setCommand, Function.update_self] at hx
      exact absurd hx hs
    · simpa [LifeView.setCommand, he] using hx
  session i := by simp [LifeView.setCommand]
  requests _ hi := hi

namespace CommandInv
variable {v v' : LifeView} {stack stack' : List Frame} {except : Option SesId}

theorem mono (h : CommandInv v stack except) (hv : v.Shrinks v')
    (hi : ∀ i, .interpDelete i ∈ stack → .interpDelete i ∈ stack')
    (hrun : ∀ r s w, .run r s w ∈ stack' → ∃ w', .run r s w' ∈ stack)
    (hclean : ∀ i r, except ≠ some i → .cleanup r (.session i) ∈ stack →
      .cleanup r (.session i) ∈ stack') : CommandInv v' stack' except where
  request r hr hd := by
    rw [hv.interpDeleted, hv.interp] at hd
    rw [hv.interp]
    exact hi _ (h.request r (hv.request r hr) hd)
  run r s w hr := by
    obtain ⟨w', hr⟩ := hrun r s w hr
    rw [hv.interpDeleted, hv.interp]
    exact h.run r s w' hr
  session i he hr := by
    rw [hv.session]
    apply (h.session i he (hv.requests i hr)).imp_right
    exact Exists.imp fun r => hclean i r he
  releasing i he hs := by
    rw [hv.session] at hs
    obtain ⟨r, hm⟩ := h.releasing i he hs
    exact ⟨r, hclean i r he hm⟩

/-- A frame on top. -/
theorem push (h : CommandInv v stack except) (hv : v.Shrinks v') {f : Frame}
    (hf : ∀ r s w, f ≠ .run r s w) : CommandInv v' (f :: stack) except :=
  h.mono hv (fun _ hm => List.mem_cons_of_mem _ hm)
    (fun r s w hm => ⟨w, (List.mem_cons.mp hm).resolve_left fun he => hf r s w he.symm⟩)
    fun _ _ _ hm => List.mem_cons_of_mem _ hm

/-- The session whose release has got to a request, or is over. -/
theorem settle {i : SesId} (h : CommandInv v stack (some i))
    (hs : (∃ r, .cleanup r (.session i) ∈ stack) ∨
      v.requests i = [] ∧ v.command (.session i) = .deleted) : CommandInv v stack none where
  request := h.request
  run := h.run
  session j _ hj := by
    by_cases he : i = j
    · subst he
      rcases hs with hs | ⟨hnil, -⟩
      · exact Or.inr hs
      · exact absurd hnil hj
    · exact h.session j (by simpa using he) hj
  releasing j _ hj := by
    by_cases he : i = j
    · subst he
      rcases hs with hs | ⟨-, hc⟩
      · exact hs
      · rw [hc] at hj; rcases hj with hj | hj <;> cases hj
    · exact h.releasing j (by simpa using he) hj

/-- A session, whatever becomes of its command. -/
theorem setSession {i : SesId} (h : CommandInv v stack except) (he : except = none ∨ except = some i)
    (status : CmdStatus) : CommandInv (v.setCommand (.session i) status) stack (some i) where
  request r hr := h.request r (by simpa [LifeView.setCommand] using hr)
  run := h.run
  session j hj hr := by
    have hne : j ≠ i := fun he => hj (congrArg some he.symm)
    have hex : except ≠ some j := by rcases he with rfl | rfl <;> simp [Ne.symm hne]
    simpa [LifeView.setCommand, hne] using h.session j hex hr
  releasing j hj hs := by
    have hne : j ≠ i := fun he => hj (congrArg some he.symm)
    have hex : except ≠ some j := by rcases he with rfl | rfl <;> simp [Ne.symm hne]
    exact h.releasing j hex (by simpa [LifeView.setCommand, hne] using hs)

/-- A new request in an interpreter that is there, in a session that has its command or
is being released. -/
theorem create (h : CommandInv v stack none) {session : Option SesId} {interp : InterpId}
    (hi : v.interpDeleted interp = false)
    (hs : ∀ i, session = some i →
      v.command (.session i) = .alive ∨ ∃ r, .cleanup r (.session i) ∈ stack)
    (hn : v.command (.request v.nextRequest) = .absent)
    (hrun : ∀ r s w, .run r s w ∈ stack → r < v.nextRequest) (s w : Bool) :
    CommandInv (v.create session interp) (.run v.nextRequest s w :: stack) none where
  request r hr hd := by
    have hne : r ≠ v.nextRequest := fun he => by
      have : v.command (.request r) = .alive := hr
      rw [he, hn] at this
      cases this
    simp only [LifeView.create, Function.update_of_ne hne] at hd ⊢
    exact List.mem_cons_of_mem _ (h.request r hr hd)
  run r s' w' hr := by
    rcases List.mem_cons.mp hr with hr | hr
    · cases hr
      simpa [LifeView.create] using hi
    · have hne : r ≠ v.nextRequest := Nat.ne_of_lt (hrun r s' w' hr)
      simpa [LifeView.create, hne] using h.run r s' w' hr
  session i _ hr := by
    have hor : session = some i ∨ v.requests i ≠ [] := by
      refine or_iff_not_imp_left.mpr fun hne hnil => hr ?_
      cases session with
      | none => exact hnil
      | some j =>
        have hj : i ≠ j := fun he => hne (congrArg some he.symm)
        simpa [LifeView.create, hj] using hnil
    have hcmd : v.command (.session i) = .alive ∨ ∃ r, .cleanup r (.session i) ∈ stack :=
      hor.elim (hs i) (h.session i (by simp))
    exact hcmd.imp_right (Exists.imp fun _ => List.mem_cons_of_mem _)
  releasing i _ hc := by
    obtain ⟨r, hm⟩ := h.releasing i (by simp) hc
    exact ⟨r, List.mem_cons_of_mem _ hm⟩

theorem createHandle {r : ReqId} {s w : Bool} (h : CommandInv v (.run r s w :: stack) none) :
    CommandInv (v.createHandle r) stack none where
  request x hx hd := by
    by_cases he : x = r
    · subst he
      have hf := h.run x s w List.mem_cons_self
      have : v.interpDeleted (v.interp x) = true := hd
      rw [hf] at this
      cases this
    · have := h.request x (by simpa [LifeView.createHandle, he] using hx) hd
      exact (List.mem_cons.mp this).resolve_left (by simp)
  run x s' w' hx := h.run x s' w' (List.mem_cons_of_mem _ hx)
  session i _ hr := by
    apply (h.session i (by simp) hr).imp (by simp [LifeView.createHandle])
    exact Exists.imp fun _ hm => (List.mem_cons.mp hm).resolve_left (by simp)
  releasing i _ hc := by
    obtain ⟨x, hm⟩ := h.releasing i (by simp) (by simpa [LifeView.createHandle] using hc)
    exact ⟨x, (List.mem_cons.mp hm).resolve_left (by simp)⟩

end CommandInv

namespace Machine

/-- The view of the lifetimes and the stack are in order, as far as commands go. -/
def CommandsOk (m : Machine) : Prop := CommandInv m.lib.lifeView m.stack none

section Commands
variable {m : Machine}

theorem commands_sessionFreeLoop {i : SesId} (h : CommandInv m.lib.lifeView m.stack (some i)) :
    (m.sessionFreeLoop i).CommandsOk := by
  unfold sessionFreeLoop
  split
  · rename_i hnil
    have h₁ := (h.setSession (Or.inr rfl) .deleted).settle (Or.inr ⟨hnil, by simp [LifeView.setCommand]⟩)
    exact ⟨h₁.request, h₁.run, h₁.session, h₁.releasing⟩
  · rename_i r rs hrs
    have hv : ((m.lib.clearSession r).requestFreeStart r).lifeView =
        (m.lib.lifeView.clearSession r).sessionRemove r := by
      rw [Lib.lifeView_requestFreeStart, Lib.lifeView_clearSession]
    have hsh : m.lib.lifeView.Shrinks ((m.lib.lifeView.clearSession r).sessionRemove r) :=
      (LifeView.shrinks_clearSession _ r).trans (LifeView.shrinks_sessionRemove _ r)
    unfold CommandsOk requestFree setLib
    rw [hv]
    refine (h.push hsh (f := .cleanup r (.session i)) (by simp)).settle (Or.inl ⟨r, List.mem_cons_self⟩)

theorem commands_deleteSessionCommand (h : m.CommandsOk) (i : SesId) :
    (m.deleteSessionCommand i).CommandsOk := by
  unfold deleteSessionCommand
  split
  · exact commands_sessionFreeLoop (m := m.setLib _) (h.setSession (Or.inl rfl) .deleting)
  · unfold Lib.deleteCommand
    split
    · rename_i hc _ hc'
      exact absurd hc' hc
    · rename_i hc
      obtain ⟨r, hm⟩ := h.releasing i (by simp) (Or.inl hc)
      exact (h.setSession (Or.inl rfl) .unlinked).settle (Or.inl ⟨r, hm⟩)
    · exact h

theorem commands_deleteRequestCommand (h : m.CommandsOk) (r : ReqId) :
    (m.deleteRequestCommand r).CommandsOk := by
  have hset : ∀ {status : CmdStatus}, status ≠ .alive →
      (m.setLib (m.lib.setCommand (.request r) status)).CommandsOk := fun hs =>
    CommandInv.mono h (LifeView.shrinks_setCommand _ r hs) (fun _ hm => hm)
      (fun _ _ w hm => ⟨w, hm⟩) fun _ _ _ hm => hm
  unfold deleteRequestCommand
  split
  · split_ifs
    · exact hset (by simp)
    · have hsh : m.lib.lifeView.Shrinks
          (((m.lib.lifeView.setCommand (.request r) .deleting).clearCmdToken r).sessionRemove r) :=
        (LifeView.shrinks_setCommand _ r (by decide)).trans
          ((LifeView.shrinks_clearCmdToken _ r).trans (LifeView.shrinks_sessionRemove _ r))
      unfold CommandsOk requestFree setLib
      rw [Lib.lifeView_requestFreeStart, Lib.lifeView_clearCmdToken, Lib.lifeView_setCommand]
      exact CommandInv.push h hsh (by simp)
  · unfold Lib.deleteCommand
    split
    · rename_i hc _ hc'
      exact absurd hc' hc
    · exact hset (by simp)
    · exact h

theorem commands_createFinish {r : ReqId} {simple s w : Bool}
    (h : CommandInv m.lib.lifeView (.run r s w :: m.stack) none) :
    (m.createFinish r simple).CommandsOk := by
  unfold createFinish
  split_ifs
  · unfold CommandsOk requestFree
    rw [Lib.lifeView_requestFreeStart]
    refine h.mono (LifeView.shrinks_sessionRemove _ r) (fun i hm => ?_) (fun x s' w' hm => ⟨w', ?_⟩)
      fun i x _ hm => ?_
    · exact List.mem_cons_of_mem _ ((List.mem_cons.mp hm).resolve_left (by simp))
    · exact List.mem_cons_of_mem _ ((List.mem_cons.mp hm).resolve_left (by simp))
    · exact List.mem_cons_of_mem _ ((List.mem_cons.mp hm).resolve_left (by simp))
  · unfold CommandsOk
    rw [Lib.lifeView_createHandle]
    exact h.createHandle

theorem commands_createNewRequest (h : m.CommandsOk) (hl : m.LifeOk) {api : Api} {env : CurlEnv}
    {interp : InterpId} {call : CreateCall} {session : Option SesId}
    (hi : m.lib.interpDeleted interp = false)
    (hs : ∀ i, session = some i → m.lib.command (.session i) = .alive ∨
      ∃ r, .cleanup r (.session i) ∈ m.stack) :
    (m.createNewRequest api env interp call session).CommandsOk := by
  have hcreate : ∀ {l r simple performing}, m.lib.createNewRequest api env interp call session =
      .created l r simple performing → CommandInv l.lifeView (.run r simple false :: m.stack) none := by
    intro l r simple performing hc
    obtain ⟨hr, hv⟩ := m.lib.lifeView_createNewRequest r hc
    rw [hv, hr]
    exact CommandInv.create h hi hs (hl.fresh _ (Nat.le_refl _)).2.2
      (fun r s w hr => hl.lt_of_busy (mem_busy.mpr ⟨_, hr, rfl⟩)) simple false
  unfold Machine.createNewRequest
  split
  · exact h
  · rename_i hc
    exact hcreate hc
  · rename_i hc
    exact commands_createFinish (m := m.setLib _) (hcreate hc)

theorem commands_cleanupFinish {r : ReqId} {caller : Caller}
    (h : CommandInv m.lib.lifeView (.cleanup r caller :: m.stack) none)
    (hl : LifeInv m.lib.lifeView m.lib.poolView.owner (.cleanup r caller :: m.stack)) :
    (m.cleanupFinish r caller).CommandsOk := by
  obtain ⟨-, -, -, -, hc⟩ := hl.frames _ List.mem_cons_self
  have hfree : m.lib.lifeView.Shrinks (m.lib.lifeView.free r) :=
    ⟨rfl, rfl, fun _ hr => hr, fun _ => rfl, fun _ hr => hr⟩
  have htail : ∀ {f : Frame}, f ∈ Frame.cleanup r caller :: m.stack → f ≠ .cleanup r caller →
      f ∈ m.stack := fun hm hne => (List.mem_cons.mp hm).resolve_left hne
  have hmono : ∀ {v' : LifeView}, m.lib.lifeView.Shrinks v' → (∀ i, caller ≠ .session i) →
      CommandInv v' m.stack none := fun hv hcaller =>
    h.mono hv (fun _ hm => htail hm (by simp)) (fun _ _ w hm => ⟨w, List.mem_cons_of_mem _ hm⟩)
      fun i x _ hm => htail hm fun he => hcaller i (Frame.cleanup.inj he).2.symm
  unfold cleanupFinish
  cases caller with
  | command =>
    unfold CommandsOk setLib
    rw [Lib.lifeView_setCommand, m.lib.lifeView_requestFreeFinish_of_noToken r hc.2]
    exact hmono (hfree.trans (LifeView.shrinks_setCommand _ r (by decide))) (by simp)
  | simple =>
    unfold CommandsOk setLib
    rw [m.lib.lifeView_requestFreeFinish_of_noToken r hc.2]
    exact hmono hfree (by simp)
  | session i =>
    have hv : (m.setLib ((m.lib.requestFreeFinish r).dropRequest i)).lib.lifeView =
        (m.lib.lifeView.freeWithCommand r).dropRequest i := by
      unfold setLib
      rw [Lib.lifeView_dropRequest, m.lib.lifeView_requestFreeFinish_of_token r hc.2.1 hc.1]
    apply commands_sessionFreeLoop (m := m.setLib ((m.lib.requestFreeFinish r).dropRequest i))
    rw [hv]
    have hdrop : m.lib.lifeView.Shrinks ((m.lib.lifeView.freeWithCommand r).dropRequest i) := by
      refine ⟨rfl, rfl, fun x hx => ?_, fun j => ?_, fun j hj hnil => hj ?_⟩
      · by_cases he : x = r
        · simp [LifeView.freeWithCommand, LifeView.dropRequest, he] at hx
        · simpa [LifeView.freeWithCommand, LifeView.dropRequest, he] using hx
      · simp [LifeView.freeWithCommand, LifeView.dropRequest]
      · by_cases he : j = i
        · subst he; simp [LifeView.freeWithCommand, LifeView.dropRequest, hnil]
        · simpa [LifeView.freeWithCommand, LifeView.dropRequest, he] using hnil
    -- the session that goes on is the only one whose frame is gone
    have hex : CommandInv m.lib.lifeView (.cleanup r (.session i) :: m.stack) (some i) :=
      ⟨h.request, h.run, fun j _ => h.session j (by simp), fun j _ => h.releasing j (by simp)⟩
    refine hex.mono hdrop (fun _ hm => htail hm (by simp))
      (fun _ _ w hm => ⟨w, List.mem_cons_of_mem _ hm⟩) fun j x hj hm => htail hm fun he => ?_
    cases he
    exact hj rfl

theorem commands_next {api : Api} {a : Action} (h : m.CommandsOk) (hl : m.LifeOk)
    (ha : m.enabled a = true) : (m.next api a).CommandsOk := by
  have hsame : ∀ {l : Lib}, l.lifeView = m.lib.lifeView → (m.setLib l).CommandsOk := fun hv => by
    simpa only [CommandsOk, setLib, hv] using h
  -- frames that neither run nor release come and go
  have hframe : ∀ {l : Lib} {stack : List Frame} {result : CmdResult}, l.lifeView = m.lib.lifeView →
      (∀ i, .interpDelete i ∈ m.stack → .interpDelete i ∈ stack) →
      (∀ r s w, .run r s w ∈ stack → ∃ w', .run r s w' ∈ m.stack) →
      (∀ i r, .cleanup r (.session i) ∈ m.stack → .cleanup r (.session i) ∈ stack) →
      CommandsOk ⟨l, stack, result⟩ := by
    intro l stack result hv h₁ h₂ h₃
    unfold CommandsOk
    rw [hv]
    exact CommandInv.mono h ⟨rfl, rfl, fun _ hr => hr, fun _ => rfl, fun _ hr => hr⟩ h₁ h₂
      fun i r _ hm => h₃ i r hm
  cases a with
  | sessionCmd interp objv share =>
    simp only [next]
    split
    · exact h
    · rename_i l i hl'
      obtain ⟨rfl, hv⟩ := m.lib.lifeView_sessionCmd _ hl'
      have hnil := (hl.fresh_session m.lib.nextSession (Nat.le_refl _)).1
      have hreq : Function.update m.lib.lifeView.requests m.lib.nextSession [] =
          m.lib.lifeView.requests := Function.update_eq_self_iff.mpr hnil.symm
      have h₁ := CommandInv.setSession (i := m.lib.nextSession) h (Or.inl rfl) .alive
      unfold CommandsOk
      rw [hv]
      refine ⟨h₁.request, h₁.run, fun j _ hj => ?_, fun j _ hj => ?_⟩
      · by_cases he : m.lib.nextSession = j
        · subst he; exact Or.inl (by simp [LifeView.setCommand])
        · exact h₁.session j (by simpa using he) (by rw [hreq] at hj; exact hj)
      · by_cases he : m.lib.nextSession = j
        · subst he; simp [LifeView.setCommand] at hj
        · exact h₁.releasing j (by simpa using he) hj
  | requestCmd interp name clientData args env =>
    simp only [enabled, Bool.and_eq_true, Bool.not_eq_true'] at ha
    simp only [next]
    split
    · exact h
    · exact commands_createNewRequest h hl ha.2 (by simp)
  | sessionHandle i name args env =>
    simp only [enabled, Bool.and_eq_true, Bool.not_eq_true'] at ha
    have hcmd : m.lib.command (.session i) = .alive ∨ ∃ r, .cleanup r (.session i) ∈ m.stack := by
      have hf := ha.1.2
      simp only [commandFound, Bool.decide_or, Bool.or_eq_true, decide_eq_true_eq] at hf
      exact hf.imp_right fun hc => h.releasing i (by simp) (Or.inl hc)
    simp only [next]
    split
    · exact h
    · exact commands_deleteSessionCommand (m := { m with result := .empty }) h i
    · apply commands_createNewRequest h hl ha.2
      intro j hj
      split_ifs at hj
      cases hj
      exact hcmd
  | requestDestroy r byRename =>
    refine next_requestDestroy_rule ?_ fun _ _ => ?_
    · exact commands_deleteRequestCommand (m := { m with result := .empty }) h r
    · exact hframe rfl (fun _ hm => List.mem_cons_of_mem _ hm)
        (fun _ _ w hm => ⟨w, (List.mem_cons.mp hm).resolve_left (by simp)⟩)
        fun _ _ hm => List.mem_cons_of_mem _ hm
  | poolEventSetup p b t => exact hsame (by simp)
  | poolEventCheck p b w =>
    simp only [next]
    split_ifs
    · exact hframe (by simp) (fun _ hm => List.mem_cons_of_mem _ hm)
        (fun _ _ w hm => ⟨w, (List.mem_cons.mp hm).resolve_left (by simp)⟩)
        fun _ _ hm => List.mem_cons_of_mem _ hm
    · exact hsame (by simp)
  | serviceEvent b =>
    simp only [next, Lib.serviceEvent]
    split
    · exact hsame (by simp; rfl)
    · exact h
    · exact h
    · exact h
  | queueOther b => exact h
  | interpDelete i =>
    refine ⟨fun r hr hd => ?_, fun r s w hr => ?_, fun j _ hj => ?_, fun j _ hj => ?_⟩
    · by_cases hi : m.lib.lifeView.interp r = i
      · exact hi ▸ List.mem_cons_self
      · refine List.mem_cons_of_mem _ (h.request r hr ?_)
        have : Function.update m.lib.interpDeleted i true (m.lib.lifeView.interp r) = true := hd
        rwa [Function.update_of_ne hi] at this
    · simp [next, (enabled_interpDelete ha).1] at hr
    · exact (h.session j (by simp) hj).imp_right (Exists.imp fun _ => List.mem_cons_of_mem _)
    · obtain ⟨r, hm⟩ := h.releasing j (by simp) hj
      exact ⟨r, List.mem_cons_of_mem _ hm⟩
  | interpDeleteCommand tok =>
    cases tok with
    | request r => exact commands_deleteRequestCommand h r
    | session i => exact commands_deleteSessionCommand h i
  | interpDeleteDone =>
    obtain ⟨i, hs, ha⟩ := enabled_interpDeleteDone ha
    have hnext : (m.next api .interpDeleteDone).stack = [] := by simp [next, hs]
    refine ⟨fun r hr hd => ?_, fun r s w hr => ?_, fun j _ hj => ?_, fun j _ hj => ?_⟩
    · -- no command of the interpreter is left
      have hm := h.request r hr hd
      rw [hs, List.mem_singleton, Frame.interpDelete.injEq] at hm
      have hlt := (hl.of_alive hr).1
      simp only [Lib.interpEmpty, Bool.and_eq_true, List.all_eq_true, List.mem_range,
        decide_eq_true_eq] at ha
      rcases ha.1 r hlt with hne | hne
      · exact absurd hm hne
      · exact absurd hr hne
    · rw [hnext] at hr; cases hr
    · rcases h.session j (by simp) hj with hc | ⟨r, hm⟩
      · exact Or.inl hc
      · simp [hs] at hm
    · obtain ⟨r, hm⟩ := h.releasing j (by simp) hj
      simp [hs] at hm
  | threadExit => exact hsame (by simp)
  | curlComplete r result =>
    simp only [next]
    split <;> exact h
  | curlWriteError r size contentSize result =>
    have hv : (m.lib.requestSetError r (writeErrorText size contentSize)).lifeView =
      m.lib.lifeView := by simp
    simp only [next]
    split
    · rename_i hs
      refine hframe (by simp) ?_ (fun x s w hx => ⟨w, by simpa [hs] using hx⟩) ?_ <;> simp [hs]
    · rename_i r' simple w stack hs
      refine hframe hv ?_ (fun x s w' hx => ?_) ?_
      · simp [hs]
      · rcases List.mem_cons.mp hx with hx | hx
        · cases hx
          exact ⟨w, by simp [hs]⟩
        · exact ⟨w', by simp [hs, hx]⟩
      · simp [hs]
    · exact h
  | performReturn ok =>
    obtain ⟨_, _, _, hs, -⟩ := enabled_performReturn ha
    simp only [next, hs]
    refine hframe (by cases ok <;> simp) ?_ (fun r s w hr => ⟨w, by simp [hs, hr]⟩) ?_ <;> simp [hs]
  | easyPerformReturn res =>
    obtain ⟨r, simple, w, stack, hs, -⟩ := enabled_easyPerformReturn ha
    simp only [next, hs]
    refine commands_createFinish (m := { m with lib := m.lib.requestRunFinish r res, stack := stack })
      (s := simple) (w := w) ?_
    have := h
    unfold CommandsOk at this
    simpa [hs] using this
  | cleanupReturn =>
    obtain ⟨r, caller, stack, hs⟩ := enabled_cleanupReturn ha
    simp only [next, hs]
    have h' := h
    have hl' := hl
    unfold CommandsOk at h'
    unfold LifeOk at hl'
    rw [hs] at h' hl'
    exact commands_cleanupFinish (m := { m with stack := stack }) h' hl'

end Commands

/-! ### The release of a session -/

section Session
variable (api : Api) {m : Machine}

/-- The loop of `treq_SessionFree`, with `curl_easy_cleanup` returning each time, releases
the requests of the list and deletes their commands. -/
theorem exec_sessionFreeLoop {i : SesId} {rs : List ReqId} (hrs : (m.lib.session i).requests = rs)
    (hnd : rs.Nodup)
    (hcmd : ∀ r ∈ rs, m.lib.command (.request r) = .alive ∧ (m.lib.request r).cmdToken = true) :
    ∃ m', Run.exec (step api) (m.sessionFreeLoop i) (List.replicate rs.length .cleanupReturn) =
        some m' ∧ m'.stack = m.stack ∧ m'.lib.command (.session i) = .deleted ∧
      ∀ r, m'.lib.freed r = m.lib.freed r + (if r ∈ rs then 1 else 0) ∧
        m'.lib.command (.request r) = if r ∈ rs then .deleted else m.lib.command (.request r) := by
  induction rs generalizing m with
  | nil =>
    refine ⟨m.setLib (m.lib.sessionFreeFinish i), ?_, rfl, ?_, fun r => ⟨by simp [setLib]; rfl, ?_⟩⟩
    · simp [sessionFreeLoop, hrs]
    · simp [setLib, Lib.sessionFreeFinish, Lib.setCommand]
    · simp [setLib, Lib.sessionFreeFinish, Lib.setCommand]
  | cons r rs ih =>
    obtain ⟨hnotin, hnd⟩ := List.nodup_cons.mp hnd
    obtain ⟨halive, htok⟩ := hcmd r List.mem_cons_self
    set l₁ := (m.lib.clearSession r).requestFreeStart r with hl₁
    have hv₁ : l₁.lifeView = m.lib.lifeView.clearSession r := by
      rw [hl₁, Lib.lifeView_requestFreeStart, Lib.lifeView_clearSession]
      simp [LifeView.sessionRemove, LifeView.clearSession]
    set m₂ : Machine := m.setLib ((l₁.requestFreeFinish r).dropRequest i) with hm₂
    have hv₂ : m₂.lib.lifeView = ((m.lib.lifeView.clearSession r).freeWithCommand r).dropRequest i := by
      rw [hm₂, setLib, Lib.lifeView_dropRequest, Lib.lifeView_requestFreeFinish_of_token, hv₁]
      · exact (congrFun (congrArg LifeView.cmdToken hv₁) r).trans htok
      · exact (congrFun (congrArg LifeView.command hv₁) (.request r)).trans halive
    have hstep : (m.sessionFreeLoop i).step api .cleanupReturn = some (m₂.sessionFreeLoop i) := by
      have hloop : m.sessionFreeLoop i = ⟨l₁, .cleanup r (.session i) :: m.stack, m.result⟩ := by
        simp only [sessionFreeLoop, hrs]
        rfl
      rw [hloop]
      rfl
    have hcommand : ∀ x, m₂.lib.command (.request x) =
        if x = r then .deleted else m.lib.command (.request x) := fun x => by
      have := congrFun (congrArg LifeView.command hv₂) (.request x)
      refine Eq.trans this ?_
      by_cases hx : x = r
      · simp [LifeView.dropRequest, LifeView.freeWithCommand, hx]
      · simp [LifeView.dropRequest, LifeView.freeWithCommand, LifeView.clearSession, hx, Lib.lifeView]
    have hfreed : ∀ x, m₂.lib.freed x = m.lib.freed x + if x = r then 1 else 0 := fun x => by
      have := congrFun (congrArg LifeView.freed hv₂) x
      refine Eq.trans this ?_
      by_cases hx : x = r
      · simp [LifeView.dropRequest, LifeView.freeWithCommand, LifeView.clearSession, hx, Lib.lifeView]
      · simp [LifeView.dropRequest, LifeView.freeWithCommand, LifeView.clearSession, hx, Lib.lifeView]
    have hrs₂ : (m₂.lib.session i).requests = rs := by
      have := congrFun (congrArg LifeView.requests hv₂) i
      refine Eq.trans this ?_
      simp [LifeView.dropRequest, LifeView.freeWithCommand, LifeView.clearSession, Lib.lifeView, hrs]
    have htok₂ : ∀ x, (m₂.lib.request x).cmdToken = (m.lib.request x).cmdToken := fun x =>
      congrFun (congrArg LifeView.cmdToken hv₂) x
    obtain ⟨m', hexec, hstack, hses, hall⟩ := ih (m := m₂) hrs₂ hnd fun x hx => by
      have hne : x ≠ r := fun he => hnotin (he ▸ hx)
      rw [hcommand, htok₂, if_neg hne]
      exact hcmd x (List.mem_cons_of_mem _ hx)
    refine ⟨m', ?_, hstack, hses, fun x => ?_⟩
    · rw [List.length_cons, List.replicate_succ, Run.exec_cons, hstep]
      exact hexec
    · obtain ⟨h₁, h₂⟩ := hall x
      rw [h₁, h₂, hcommand, hfreed]
      by_cases hx : x = r
      · subst hx; simp [hnotin]
      · simp [hx]

end Session

/-! ### Runs -/

variable {api : Api} {as : List Action} {m : Machine}

theorem commandsOk_init : init.CommandsOk where
  request := by simp [init, Lib.init, Lib.lifeView]
  run := by simp [init]
  session := by simp [init, Lib.init, Lib.lifeView, Session.zero]
  releasing := by simp [init, Lib.init, Lib.lifeView]

theorem released_of_quiet (hq : Run.Along (step api) Quiet init as) (hr : runOf api as = some m) :
    (m.PoolInv ∧ m.LifeOk) ∧ m.OneWaits ∧ m.CommandsOk := by
  have hstep : ∀ (s : Machine) (a : Action) (t : Machine),
      ((s.PoolInv ∧ s.LifeOk) ∧ s.OneWaits) ∧ s.CommandsOk → s.Quiet a → s.step api a = some t →
      ((t.PoolInv ∧ t.LifeOk) ∧ t.OneWaits) ∧ t.CommandsOk := by
    rintro s a t ⟨h, hc⟩ hq hst
    refine ⟨quiet_step h hq hst, ?_⟩
    obtain ⟨ha, rfl⟩ := step_eq_some.mp hst
    exact commands_next hc h.1.2 ha
  have := Run.exec_preserves hstep
    ⟨⟨⟨poolInv_init, lifeOk_init⟩, oneWaits_of_nil rfl⟩, commandsOk_init⟩ hq hr
  exact ⟨this.1.1, this.1.2, this.2⟩

/-! ### When nothing waits -/

section Waitless
variable (hl : m.LifeOk) (hs : m.stack = [])
include hl

theorem freed_of_session {i : SesId} {r : ReqId} (hi : (m.lib.request r).session = some i) :
    m.lib.freed r = 0 := by
  by_contra hne
  have : (m.lib.request r).session = none := (hl.gone r hne).2.1
  rw [hi] at this
  cases this

theorem lt_of_session {i : SesId} {r : ReqId} (hi : (m.lib.request r).session = some i) :
    r < m.lib.nextRequest := by
  by_contra hn
  have : (m.lib.request r).session = none := (hl.fresh r (Nat.le_of_not_lt hn)).2.1
  rw [hi] at this
  cases this

include hs

theorem alive_of_notFreed {r : ReqId} (hlt : r < m.lib.nextRequest) (hr : m.lib.freed r = 0) :
    m.lib.command (.request r) = .alive ∧ (m.lib.request r).cmdToken = true := by
  obtain ⟨hcommand, htoken, -⟩ := hl.idle r hlt hr (by simp [hs])
  exact ⟨hcommand, htoken⟩

theorem mem_requests_iff (i : SesId) (r : ReqId) :
    r ∈ (m.lib.session i).requests ↔ m.lib.freed r = 0 ∧ (m.lib.request r).session = some i := by
  have hmem : r ∈ (m.lib.session i).requests ↔ (m.lib.request r).session = some i :=
    (hl.mem_iff i r).trans (or_iff_left (by simp [hs]))
  constructor
  · intro hr
    exact ⟨freed_of_session hl (hmem.mp hr), hmem.mp hr⟩
  · rintro ⟨-, hi⟩
    exact hmem.mpr hi

theorem count_requests (i : SesId) (r : ReqId) : (m.lib.session i).requests.count r =
    if m.lib.freed r = 0 ∧ (m.lib.request r).session = some i then 1 else 0 := by
  have hnodup := hl.nodup i
  rw [← if_congr (mem_requests_iff hl hs i r) rfl rfl]
  split_ifs with hr
  · exact List.count_eq_one_of_mem hnodup hr
  · exact List.count_eq_zero_of_not_mem hr

theorem freed_iff_command {r : ReqId} (hlt : r < m.lib.nextRequest) :
    m.lib.freed r = 1 ↔ m.lib.command (.request r) ≠ .alive := by
  constructor
  · intro hone halive
    have hzero := (hl.of_alive halive).2.1
    exact absurd (hone.symm.trans hzero) (by decide)
  · intro hne
    have hle : m.lib.freed r ≤ 1 := hl.freed_le_one r
    have hnz : m.lib.freed r ≠ 0 := fun hzero => hne (alive_of_notFreed hl hs hlt hzero).1
    omega

variable (hc : m.CommandsOk)
include hc

/-- The destruction of a session releases its live requests and deletes their commands. -/
theorem exec_sessionDestroy {i : SesId} {name : Str} {args : List Str} {env : CurlEnv}
    (ha : m.enabled (.sessionHandle i name args env) = true)
    (hcall : sessionHandleCall name args = .ok .destroy) :
    ∃ m', Run.exec (step api) m (.sessionHandle i name args env ::
        List.replicate (m.lib.session i).requests.length .cleanupReturn) = some m' ∧
      m'.stack = [] ∧ m'.lib.command (.session i) = .deleted ∧
      ∀ r, (m'.lib.freed r = m.lib.freed r +
          if m.lib.freed r = 0 ∧ (m.lib.request r).session = some i then 1 else 0) ∧
        m'.lib.command (.request r) =
          if m.lib.freed r = 0 ∧ (m.lib.request r).session = some i then .deleted
          else m.lib.command (.request r) := by
  have halive : m.lib.command (.session i) = .alive := by
    simp only [enabled, Bool.and_eq_true, commandFound, Bool.decide_or, Bool.or_eq_true,
      decide_eq_true_eq] at ha
    apply ha.1.2.resolve_right
    intro hd
    obtain ⟨r, hm⟩ := hc.releasing i (by simp) (Or.inl hd)
    simp [hs] at hm
  set m₁ : Machine := { m with result := .empty }.setLib (m.lib.setCommand (.session i) .deleting)
    with hm₁
  have hfirst : m.step api (.sessionHandle i name args env) = some (m₁.sessionFreeLoop i) := by
    refine step_eq_some.mpr ⟨ha, ?_⟩
    simp only [next, hcall, deleteSessionCommand, halive]
    rfl
  have hcmd₁ : ∀ r, m₁.lib.command (.request r) = m.lib.command (.request r) := fun r => by
    simp [hm₁, setLib, Lib.setCommand]
  obtain ⟨m', hexec, hstack, hses, hall⟩ := exec_sessionFreeLoop api (m := m₁) (i := i) rfl
    (hl.nodup i) fun r hm => by
      obtain ⟨hzero, hi⟩ := (mem_requests_iff hl hs i r).mp hm
      obtain ⟨hcommand, htoken⟩ := alive_of_notFreed hl hs (lt_of_session hl hi) hzero
      exact ⟨(hcmd₁ r).trans hcommand, htoken⟩
  refine ⟨m', ?_, hstack.trans hs, hses, fun r => ?_⟩
  · rw [Run.exec_cons, hfirst]
    exact hexec
  · obtain ⟨h₁, h₂⟩ := hall r
    have hiff : r ∈ (m₁.lib.session i).requests ↔ _ := mem_requests_iff hl hs i r
    rw [h₁, h₂, hcmd₁, if_congr hiff rfl rfl, if_congr hiff rfl rfl]
    exact ⟨rfl, rfl⟩

end Waitless

/-- In a quiet run no request is released twice. When nothing waits, a request has been
released exactly if it has no command; the command of its session is then still there if
it has a session, and one whose interpreter is deleted is released. The list of a session
has the live requests of the session, once each, and the destruction of the session
releases exactly these and deletes their commands. -/
theorem requests_released_with_owners (hq : Run.Along (step api) Quiet init as)
    (hr : runOf api as = some m) :
    (∀ r, m.lib.freed r ≤ 1) ∧ (m.stack = [] →
      (∀ r < m.lib.nextRequest,
        (m.lib.freed r = 1 ↔ m.lib.command (.request r) ≠ .alive) ∧
        (∀ i, (m.lib.request r).session = some i →
          m.lib.freed r = 0 ∧ m.lib.command (.session i) = .alive) ∧
        (m.lib.interpDeleted (m.lib.request r).interp = true → m.lib.freed r = 1)) ∧
      (∀ i r, (m.lib.session i).requests.count r =
        if m.lib.freed r = 0 ∧ (m.lib.request r).session = some i then 1 else 0) ∧
      ∀ i name args env, m.enabled (.sessionHandle i name args env) = true →
        sessionHandleCall name args = .ok .destroy →
        ∃ m', Run.exec (step api) m (.sessionHandle i name args env ::
            List.replicate (m.lib.session i).requests.length .cleanupReturn) = some m' ∧
          m'.stack = [] ∧ m'.lib.command (.session i) = .deleted ∧
          ∀ r, (m'.lib.freed r = m.lib.freed r +
              if m.lib.freed r = 0 ∧ (m.lib.request r).session = some i then 1 else 0) ∧
            m'.lib.command (.request r) =
              if m.lib.freed r = 0 ∧ (m.lib.request r).session = some i then .deleted
              else m.lib.command (.request r)) := by
  obtain ⟨⟨-, hl⟩, -, hc⟩ := released_of_quiet hq hr
  refine ⟨hl.freed_le_one, fun hs => ⟨fun r hlt => ⟨freed_iff_command hl hs hlt, ?_, ?_⟩,
    count_requests hl hs, fun _ _ _ _ => exec_sessionDestroy hl hs hc⟩⟩
  · intro i hi
    have hr := freed_of_session hl hi
    have hmem := (mem_requests_iff hl hs i r).mpr ⟨hr, hi⟩
    refine ⟨hr, (hc.session i (by simp) (List.ne_nil_of_mem hmem)).resolve_right ?_⟩
    simp [hs]
  · intro hd
    apply (freed_iff_command hl hs hlt).mpr
    intro halive
    have := hc.request r halive hd
    simp [hs] at this

/-- An async request of a session. -/
def sessionRun : List Action :=
  [.sessionCmd 0 [lit "session"] true,
   .sessionHandle 0 (lit "s")
     [lit "get", lit "http://localhost", lit "-async", lit "-callback", lit "foo"] .willing]

theorem requests_released_with_owners_sessionRun : ∃ m, runOf Api.plain sessionRun = some m ∧
    (m.lib.session 0).requests.count 0 = 1 := by
  obtain ⟨m, hm, hp⟩ := (Option.any_eq_true _ _).mp (show (runOf Api.plain sessionRun).any
    (fun m => m.stack = [] ∧ m.lib.freed 0 = 0 ∧ (m.lib.request 0).session = some 0) = true by
    decide +kernel)
  obtain ⟨hs, hlive⟩ := of_decide_eq_true hp
  have h := ((requests_released_with_owners (by decide +kernel) hm).2 hs).2.1 0 0
  exact ⟨m, hm, h.trans (if_pos hlive)⟩

end Machine

end Trequests
