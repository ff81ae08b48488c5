import Trequests.Delivery

/-! What a callback finds when it runs. `treq_RequestEventProc` evaluates the callback
without looking whether the interpreter is still there: it relies on the deletion of an
interpreter to delete the handle commands first, which releases the requests and detaches
their events. The deletion begins while no call waits, so every call that waits until it is
over is one of the deletion, and no script gets a chance to run in between. -/

namespace Trequests

/-! ### The deletion of an interpreter -/

/-- The call belongs to the deletion of the commands of an interpreter. -/
def Frame.InDeletion (v : LifeView) (i : InterpId) : Frame → Prop
  | .interpDelete j => j = i
  | .cleanup r caller => v.interp r = i ∧ ∀ j, caller = .session j → v.sesInterp j = i
  | .run _ _ _ | .perform _ _ | .crash => False

/-- A session has requests of its own interpreter only, and while an interpreter is being
deleted every call that waits belongs to its deletion. -/
structure DeletionInv (v : LifeView) (stack : List Frame) : Prop where
  lt : ∀ j, ∀ r ∈ v.requests j, r < v.nextRequest
  interp : ∀ j, ∀ r ∈ v.requests j, v.interp r = v.sesInterp j
  deleting : ∀ i, .interpDelete i ∈ stack →
    v.interpDeleted i = true ∧ ∀ f ∈ stack, f.InDeletion v i

namespace LifeView
variable {v v' v'' : LifeView}

/-- No request changes its interpreter or gets into a session. -/
structure Within (v v' : LifeView) : Prop where
  nextRequest : v'.nextRequest = v.nextRequest
  interp : v'.interp = v.interp
  sesInterp : v'.sesInterp = v.sesInterp
  interpDeleted : v'.interpDeleted = v.interpDeleted
  requests : ∀ i, v'.requests i ⊆ v.requests i

namespace Within

theorem refl (v : LifeView) : Within v v := ⟨rfl, rfl, rfl, rfl, fun _ => List.Subset.refl _⟩

theorem trans (h : Within v v') (h' : Within v' v'') : Within v v'' where
  nextRequest := h'.nextRequest.trans h.nextRequest
  interp := h'.interp.trans h.interp
  sesInterp := h'.sesInterp.trans h.sesInterp
  interpDeleted := h'.interpDeleted.trans h.interpDeleted
  requests i _ hr := h.requests i (h'.requests i hr)

theorem setCommand (tok : CmdToken) (status : CmdStatus) : Within v (v.setCommand tok status) :=
  ⟨rfl, rfl, rfl, rfl, fun _ => List.Subset.refl _⟩

theorem sessionRemove (r : ReqId) : Within v (v.sessionRemove r) := by
  rw [sessionRemove_eq]
  exact ⟨rfl, rfl, rfl, rfl, fun i => (v.sublist_sessionRemove r i).subset⟩

theorem dropRequest (i : SesId) : Within v (v.dropRequest i) where
  nextRequest := rfl
  interp := rfl
  sesInterp := rfl
  interpDeleted := rfl
  requests j := by
    by_cases hj : j = i
    · subst hj
      simpa [LifeView.dropRequest] using (List.tail_sublist _).subset
    · simp [LifeView.dropRequest, hj]

end Within

theorem mem_create {session : Option SesId} {interp : InterpId} {j : SesId} {r : ReqId} :
    r ∈ (v.create session interp).requests j ↔
      r ∈ v.requests j ∨ r = v.nextRequest ∧ session = some j := by
  cases session with
  | none => simp [LifeView.create]
  | some i =>
    by_cases hj : j = i
    · subst hj
      simp [LifeView.create, or_comm]
    · simp [LifeView.create, hj, Ne.symm hj]

end LifeView

theorem Frame.InDeletion.within {v v' : LifeView} {i : InterpId} {f : Frame}
    (h : f.InDeletion v i) (hv : v.Within v') : f.InDeletion v' i := by
  cases f with
  | cleanup r caller =>
    simp only [Frame.InDeletion, hv.interp, hv.sesInterp] at h ⊢
    exact h
  | _ => exact h

namespace DeletionInv
variable {v v' : LifeView} {stack : List Frame} (h : DeletionInv v stack)
include h

theorem within (hv : v.Within v') : DeletionInv v' stack where
  lt j r hr := by
    rw [hv.nextRequest]
    exact h.lt j r (hv.requests j hr)
  interp j r hr := by
    rw [hv.interp, hv.sesInterp]
    exact h.interp j r (hv.requests j hr)
  deleting i hi := by
    obtain ⟨hd, hf⟩ := h.deleting i hi
    rw [hv.interpDeleted]
    exact ⟨hd, fun f hm => (hf f hm).within hv⟩

/-- Frames that are not the deletion of an interpreter come and go. -/
theorem frames {stack' : List Frame}
    (hs : ∀ i, .interpDelete i ∈ stack' → .interpDelete i ∈ stack ∧
      ∀ f ∈ stack', f ∈ stack ∨ f.InDeletion v i) : DeletionInv v stack' where
  lt := h.lt
  interp := h.interp
  deleting i hi := by
    obtain ⟨hmem, hf⟩ := hs i hi
    obtain ⟨hd, hold⟩ := h.deleting i hmem
    exact ⟨hd, fun f hm => (hf f hm).elim (hold f) id⟩

/-- The release of a request, of the interpreter that is being deleted if there is one. -/
theorem cleanup {r : ReqId} {caller : Caller}
    (hi : ∀ i, .interpDelete i ∈ stack → (Frame.cleanup r caller).InDeletion v i) :
    DeletionInv v (.cleanup r caller :: stack) := by
  refine h.frames fun i hm => ?_
  have hm' := (List.mem_cons.mp hm).resolve_left (by simp)
  refine ⟨hm', fun f hf => ?_⟩
  rcases List.mem_cons.mp hf with rfl | hf
  · exact Or.inr (hi i hm')
  · exact Or.inl hf

theorem tail {f : Frame} {stack' : List Frame} (hs : stack = f :: stack') :
    DeletionInv v stack' := by
  subst hs
  exact h.frames fun i hm =>
    ⟨List.mem_cons_of_mem _ hm, fun g hg => Or.inl (List.mem_cons_of_mem _ hg)⟩

/-- Where no interpreter is being deleted. -/
theorem free (hn : ∀ i, .interpDelete i ∉ stack) {f : Frame} (hf : ∀ i, f ≠ .interpDelete i) :
    DeletionInv v (f :: stack) := by
  refine h.frames fun i hm => ?_
  rcases List.mem_cons.mp hm with he | hm
  · exact absurd he.symm (hf i)
  · exact absurd hm (hn i)

/-- A new request, in a session of the same interpreter if in any. -/
theorem create (hn : ∀ i, .interpDelete i ∉ stack) {session : Option SesId} {interp : InterpId}
    (hses : ∀ j, session = some j → v.sesInterp j = interp) :
    DeletionInv (v.create session interp) stack where
  lt j r hr := by
    rcases LifeView.mem_create.mp hr with hr | ⟨rfl, -⟩
    · exact Nat.lt_succ_of_lt (h.lt j r hr)
    · exact Nat.lt_succ_self _
  interp j r hr := by
    rcases LifeView.mem_create.mp hr with hr | ⟨rfl, hj⟩
    · have hne : r ≠ v.nextRequest := Nat.ne_of_lt (h.lt j r hr)
      simpa [LifeView.create, hne] using h.interp j r hr
    · simpa [LifeView.create] using (hses j hj).symm
  deleting i hi := absurd hi (hn i)

end DeletionInv

/-! ### The procedures that can wait -/

namespace Lib
variable (l : Lib) (r : ReqId)

theorem within_deleteCommand (tok : CmdToken) :
    l.lifeView.Within (l.deleteCommand tok).lifeView := by
  unfold deleteCommand
  split
  · exact .setCommand tok .deleted
  · exact .setCommand tok .unlinked
  · exact .refl _

theorem within_requestFreeStart : l.lifeView.Within (l.requestFreeStart r).lifeView := by
  rw [lifeView_requestFreeStart]
  exact .sessionRemove r

theorem within_clearSession : l.lifeView.Within (l.clearSession r).lifeView := by
  rw [lifeView_clearSession]
  exact ⟨rfl, rfl, rfl, rfl, fun _ => List.Subset.refl _⟩

theorem within_clearCmdToken : l.lifeView.Within (l.clearCmdToken r).lifeView := by
  rw [lifeView_clearCmdToken]
  exact ⟨rfl, rfl, rfl, rfl, fun _ => List.Subset.refl _⟩

theorem within_createHandle : l.lifeView.Within (l.createHandle r).lifeView := by
  rw [lifeView_createHandle]
  exact ⟨rfl, rfl, rfl, rfl, fun _ => List.Subset.refl _⟩

theorem within_requestFreeFinish : l.lifeView.Within (l.requestFreeFinish r).lifeView := by
  have hcommand : l.lifeView.Within (l.requestFreeCommand r).lifeView := by
    unfold requestFreeCommand
    split_ifs
    · have hdead : l.lifeView.Within
          (l.modifyRequest r fun q => { q with isDead := true }).lifeView := by
        rw [lifeView_update]
        simp only [lifeView, Function.update_eq_self]
        exact ⟨rfl, rfl, rfl, rfl, fun _ => List.Subset.refl _⟩
      exact hdead.trans (within_deleteCommand _ _)
    · exact .refl _
  exact ⟨hcommand.nextRequest, hcommand.interp, hcommand.sesInterp, hcommand.interpDeleted,
    hcommand.requests⟩

end Lib

namespace Machine

def DeletionOk (m : Machine) : Prop := DeletionInv m.lib.lifeView m.stack

namespace DeletionOk
variable {m : Machine} (h : m.DeletionOk)
include h

/-- No script runs while an interpreter is being deleted. -/
theorem no_script {i : InterpId} (hi : .interpDelete i ∈ m.stack) : m.scriptMayRun = false := by
  obtain ⟨hd, hf⟩ := h.deleting i hi
  cases hs : m.stack with
  | nil =>
    rw [hs] at hi
    cases hi
  | cons f stack =>
    have htop := hf f (hs ▸ List.mem_cons_self)
    cases f with
    | cleanup r caller =>
      have hint : m.lib.interpDeleted (m.lib.request r).interp = true := by
        rw [show (m.lib.request r).interp = i from htop.1]
        exact hd
      simp [scriptMayRun, hs, Lib.runsScript, hint]
    | interpDelete j => simp [scriptMayRun, hs]
    | _ => exact htop.elim

omit h in
theorem scriptMayRun_of_enabled {a : Action} (ha : m.enabled a = true) (hs : a.isScript = true) :
    m.scriptMayRun = true := by
  cases a with
  | sessionCmd _ _ _ | requestCmd _ _ _ _ _ | serviceEvent _ => exact (Bool.and_eq_true_iff.mp ha).1
  | sessionHandle _ _ _ _ | requestDestroy _ _ | poolEventSetup _ _ _ | poolEventCheck _ _ _ =>
    exact (Bool.and_eq_true_iff.mp (Bool.and_eq_true_iff.mp ha).1).1
  | queueOther _ => exact ha
  | _ => cases hs

theorem no_deletion (hs : m.scriptMayRun = true) (i : InterpId) : .interpDelete i ∉ m.stack := by
  intro hi
  rw [h.no_script hi] at hs
  cases hs

theorem of_within {l : Lib} {result : CmdResult} (hv : m.lib.lifeView.Within l.lifeView) :
    DeletionOk ⟨l, m.stack, result⟩ := DeletionInv.within h hv

theorem of_eq {l : Lib} {result : CmdResult} (hv : l.lifeView = m.lib.lifeView) :
    DeletionOk ⟨l, m.stack, result⟩ := h.of_within (hv ▸ .refl _)

theorem requestFree {r : ReqId} {caller : Caller} (hi : ∀ i, .interpDelete i ∈ m.stack →
    (Frame.cleanup r caller).InDeletion m.lib.lifeView i) :
    (m.requestFree r caller).DeletionOk := by
  have hv := m.lib.within_requestFreeStart r
  exact DeletionInv.cleanup (DeletionInv.within h hv) fun i hm => (hi i hm).within hv

theorem sessionFreeLoop {i : SesId}
    (hi : ∀ k, .interpDelete k ∈ m.stack → (m.lib.session i).interp = k) :
    (m.sessionFreeLoop i).DeletionOk := by
  unfold Machine.sessionFreeLoop
  split
  · exact h.of_within ⟨rfl, rfl, rfl, rfl, fun _ => List.Subset.refl _⟩
  · rename_i r rs hrs
    have hr : r ∈ m.lib.lifeView.requests i := by
      change r ∈ (m.lib.session i).requests
      rw [hrs]
      exact List.mem_cons_self
    have hv := m.lib.within_clearSession r
    have hclear : (m.setLib (m.lib.clearSession r)).DeletionOk := h.of_within hv
    refine hclear.requestFree fun k hk => Frame.InDeletion.within ?_ hv
    refine ⟨(h.interp i r hr).trans (hi k hk), fun j hj => ?_⟩
    cases hj
    exact hi k hk

theorem deleteRequestCommand {r : ReqId}
    (hi : ∀ k, .interpDelete k ∈ m.stack → (m.lib.request r).interp = k) :
    (m.deleteRequestCommand r).DeletionOk := by
  unfold Machine.deleteRequestCommand
  split
  · split_ifs
    · exact h.of_within (.setCommand (.request r) .deleted)
    · have hset : m.lib.lifeView.Within (m.lib.setCommand (.request r) .deleting).lifeView :=
        .setCommand (.request r) .deleting
      have hv := hset.trans (Lib.within_clearCmdToken _ r)
      have hclear :
          (m.setLib ((m.lib.setCommand (.request r) .deleting).clearCmdToken r)).DeletionOk :=
        h.of_within hv
      refine hclear.requestFree fun k hk => Frame.InDeletion.within ?_ hv
      exact ⟨hi k hk, by simp⟩
  · exact h.of_within (m.lib.within_deleteCommand _)

theorem deleteSessionCommand {i : SesId}
    (hi : ∀ k, .interpDelete k ∈ m.stack → (m.lib.session i).interp = k) :
    (m.deleteSessionCommand i).DeletionOk := by
  unfold Machine.deleteSessionCommand
  split
  · have hdelete : (m.setLib (m.lib.setCommand (.session i) .deleting)).DeletionOk :=
      h.of_within (.setCommand (.session i) .deleting)
    exact hdelete.sessionFreeLoop hi
  · exact h.of_within (m.lib.within_deleteCommand _)

theorem createFinish (hn : ∀ i, .interpDelete i ∉ m.stack) (r : ReqId) (simple : Bool) :
    (m.createFinish r simple).DeletionOk := by
  unfold Machine.createFinish
  split_ifs
  · exact requestFree (m := { m with result := _ }) h fun i hi => absurd hi (hn i)
  · exact h.of_within (m.lib.within_createHandle r)

theorem createNewRequest (hn : ∀ i, .interpDelete i ∉ m.stack) {api : Api} {env : CurlEnv}
    {interp : InterpId} {call : CreateCall} {session : Option SesId}
    (hses : ∀ j, session = some j → (m.lib.session j).interp = interp) :
    (m.createNewRequest api env interp call session).DeletionOk := by
  have hcreated : ∀ {l r simple performing},
      m.lib.createNewRequest api env interp call session = .created l r simple performing →
      (m.setLib l).DeletionOk := by
    intro l r simple performing hc
    obtain ⟨-, hv⟩ := m.lib.lifeView_createNewRequest _ hc
    unfold DeletionOk setLib
    rw [hv]
    exact DeletionInv.create h hn hses
  unfold Machine.createNewRequest
  split
  · exact h.of_eq rfl
  · rename_i l r simple hc
    exact DeletionInv.free (hcreated hc) hn (by simp)
  · rename_i l r simple hc
    exact (hcreated hc).createFinish hn r simple

theorem cleanupFinish {r : ReqId} {caller : Caller} {stack : List Frame}
    (hs : m.stack = .cleanup r caller :: stack) :
    (({ m with stack := stack } : Machine).cleanupFinish r caller).DeletionOk := by
  have hpop : DeletionOk { m with stack := stack } := DeletionInv.tail h hs
  have hfree : DeletionOk ⟨m.lib.requestFreeFinish r, stack, m.result⟩ :=
    hpop.of_within (m.lib.within_requestFreeFinish r)
  cases caller with
  | command => exact hfree.of_within (.setCommand (.request r) .deleted)
  | simple => exact hfree
  | session i =>
    have hv : m.lib.lifeView.Within ((m.lib.requestFreeFinish r).dropRequest i).lifeView := by
      rw [Lib.lifeView_dropRequest]
      exact (m.lib.within_requestFreeFinish r).trans (.dropRequest i)
    have hdrop : DeletionOk ⟨(m.lib.requestFreeFinish r).dropRequest i, stack, m.result⟩ :=
      hpop.of_within hv
    refine hdrop.sessionFreeLoop fun k hk => ?_
    -- the release of the request belongs to the same deletion
    have hmem : .interpDelete k ∈ m.stack := hs ▸ List.mem_cons_of_mem _ hk
    have hframe := (h.deleting k hmem).2 (.cleanup r (.session i)) (hs ▸ List.mem_cons_self)
    exact (congrFun hv.sesInterp i).trans (hframe.2 i rfl)

theorem next {api : Api} {a : Action} (ha : m.enabled a = true) : (m.next api a).DeletionOk := by
  have hpush : ∀ {l : Lib} {f : Frame}, l.lifeView = m.lib.lifeView → m.scriptMayRun = true →
      (∀ i, f ≠ .interpDelete i) → DeletionOk { m with lib := l, stack := f :: m.stack } := by
    intro l f hv hs hf
    have hl : (m.setLib l).DeletionOk := h.of_eq hv
    exact DeletionInv.free hl (h.no_deletion hs) hf
  have hreplace : ∀ {f g : Frame} {l : Lib} {stack : List Frame}, m.stack = f :: stack →
      (∀ v i, ¬ f.InDeletion v i) → (∀ i, g ≠ .interpDelete i) → l.lifeView = m.lib.lifeView →
      DeletionOk { m with lib := l, stack := g :: stack } ∧
        DeletionOk { m with lib := l, stack := stack } ∧ ∀ i, .interpDelete i ∉ stack := by
    intro f g l stack hs hf hg hv
    have hn : ∀ i, .interpDelete i ∉ stack := fun i hi =>
      hf _ i ((h.deleting i (hs ▸ List.mem_cons_of_mem _ hi)).2 f (hs ▸ List.mem_cons_self))
    have hpop : DeletionOk { m with lib := l, stack := stack } :=
      of_eq (m := { m with stack := stack }) (DeletionInv.tail h hs) hv
    exact ⟨DeletionInv.free hpop hn hg, hpop, hn⟩
  cases a with
  | sessionCmd interp objv share =>
    have hs := scriptMayRun_of_enabled ha rfl
    simp only [Machine.next]
    split
    · exact h.of_eq rfl
    · rename_i l i hc
      obtain ⟨rfl, hv⟩ := m.lib.lifeView_sessionCmd _ hc
      unfold DeletionOk
      rw [hv]
      refine ⟨fun j r hr => ?_, fun j r hr => ?_, fun i hi => absurd hi (h.no_deletion hs i)⟩ <;>
        by_cases hj : j = m.lib.nextSession
      · subst hj; simp at hr
      · exact h.lt j r (by simpa [hj] using hr)
      · subst hj; simp at hr
      · simpa [LifeView.setCommand, hj] using h.interp j r (by simpa [hj] using hr)
  | requestCmd interp name clientData args env =>
    have hs := scriptMayRun_of_enabled ha rfl
    simp only [Machine.next]
    split
    · exact h.of_eq rfl
    · exact h.createNewRequest (h.no_deletion hs) (by simp)
  | sessionHandle i name args env =>
    have hs := scriptMayRun_of_enabled ha rfl
    have hn := h.no_deletion hs
    simp only [Machine.next]
    split
    · exact h.of_eq rfl
    · exact deleteSessionCommand (m := { m with result := .empty }) h fun k hk => absurd hk (hn k)
    · refine h.createNewRequest hn fun j hj => ?_
      split_ifs at hj
      cases hj
      rfl
  | requestDestroy r byRename =>
    have hs := scriptMayRun_of_enabled ha rfl
    refine next_requestDestroy_rule ?_ fun _ _ => hpush rfl hs (by simp)
    exact deleteRequestCommand (m := { m with result := .empty }) h fun k hk =>
      absurd hk (h.no_deletion hs k)
  | poolEventSetup p b t => exact h.of_eq (m.lib.lifeView_poolEventSetup ..)
  | poolEventCheck p b w =>
    have hs := scriptMayRun_of_enabled ha rfl
    have hv := m.lib.lifeView_poolEventCheckStart p b w
    simp only [Machine.next]
    split_ifs
    · exact hpush hv hs (by simp)
    · exact h.of_eq hv
  | serviceEvent b =>
    refine h.of_eq ?_
    simp only [Lib.serviceEvent]
    split
    · rw [Lib.lifeView_requestEventProc]; rfl
    · rfl
    · rfl
    · rfl
  | queueOther b => exact h.of_eq rfl
  | interpDelete i =>
    obtain ⟨hs, -⟩ := enabled_interpDelete ha
    refine ⟨h.lt, h.interp, fun j hj => ?_⟩
    simp only [Machine.next, hs, List.mem_singleton, Frame.interpDelete.injEq] at hj ⊢
    subst hj
    exact ⟨Function.update_self .., fun f hf => hf ▸ rfl⟩
  | interpDeleteCommand tok =>
    obtain ⟨i, hs, -, hi⟩ := enabled_interpDeleteCommand ha
    have hk : ∀ k, .interpDelete k ∈ m.stack → m.lib.cmdInterp tok = k := by
      intro k hk
      rw [hs, List.mem_singleton] at hk
      cases hk
      exact hi
    cases tok with
    | request r => exact h.deleteRequestCommand hk
    | session j => exact h.deleteSessionCommand hk
  | interpDeleteDone =>
    obtain ⟨i, hs, -⟩ := enabled_interpDeleteDone ha
    simp only [Machine.next, hs, List.tail_cons]
    exact DeletionInv.tail h hs
  | threadExit => exact h.of_eq m.lib.lifeView_poolThreadExitProc
  | curlComplete r result =>
    simp only [Machine.next]
    split
    · exact h.of_eq rfl
    · exact h
  | curlWriteError r size contentSize result =>
    simp only [Machine.next]
    split
    · rename_i p wf stack hs
      exact (hreplace hs (by simp [Frame.InDeletion]) (by simp) (by simp)).1
    · rename_i r' simple wf stack hs
      exact (hreplace hs (by simp [Frame.InDeletion]) (by simp) (by simp)).1
    · exact h
  | performReturn ok =>
    obtain ⟨p, wf, stack, hs, -⟩ := enabled_performReturn ha
    simp only [Machine.next, hs]
    refine (hreplace (g := .perform p wf) hs (by simp [Frame.InDeletion]) (by simp) ?_).2.1
    split_ifs <;> simp
  | easyPerformReturn res =>
    obtain ⟨r, simple, wf, stack, hs, -⟩ := enabled_easyPerformReturn ha
    obtain ⟨-, hpop, hn⟩ := hreplace (g := .run r simple wf) hs (by simp [Frame.InDeletion])
      (by simp) (m.lib.lifeView_requestRunFinish r res)
    simp only [Machine.next, hs]
    exact hpop.createFinish hn r simple
  | cleanupReturn =>
    obtain ⟨r, caller, stack, hs⟩ := enabled_cleanupReturn ha
    simp only [Machine.next, hs]
    exact h.cleanupFinish hs

end DeletionOk

/-! ### Runs -/

variable {api : Api} {as : List Action} {m : Machine}

end Machine

end Trequests
