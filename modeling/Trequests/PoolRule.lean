import Trequests.PoolMachine

/-! What a step of the machine does to the pools is made of a few elementary steps: a
request or a pool is created, a request enters or leaves a pool, and a pool is written to
where neither its list nor its activity is. A property of the pools that these keep is
kept by every action; only what deactivates a pool and what frees it is left to show. A
property that the removal of a request can break is kept by every action that removes
nothing, and for the others it is enough to look at what they remove. -/

namespace Trequests

/-- The elementary steps on the pools keep the property. -/
structure PoolRule (P : PoolView → Prop) : Prop where
  newRequest : ∀ v, P v → P v.newRequest
  newPool : ∀ v, P v → v.poolDefault = none → P v.newPool
  insert : ∀ v p r, P v → v.poolDefault = some p → P (v.insert p r)
  detach : ∀ v p r, P v → v.owner r = some p → P (v.detach p r)
  modifyPool : ∀ v p f, P v → (f (v.pool p)).requests = (v.pool p).requests →
    (f (v.pool p)).isActive = (v.pool p).isActive → P (v.modifyPool p f)

/-- The elementary steps that take no request out of a pool keep the property. -/
structure GrowthRule (P : PoolView → Prop) : Prop where
  newRequest : ∀ v, P v → P v.newRequest
  newPool : ∀ v, P v → v.poolDefault = none → P v.newPool
  insert : ∀ v p r, P v → v.poolDefault = some p → P (v.insert p r)
  modifyPool : ∀ v p f, P v → (f (v.pool p)).requests = (v.pool p).requests →
    (f (v.pool p)).isActive = (v.pool p).isActive → P (v.modifyPool p f)

/-- If the request is in a pool, the property also holds without it there. -/
def HoldsWithout (P : PoolView → Prop) (v : PoolView) (r : ReqId) : Prop :=
  ∀ p, v.owner r = some p → P (v.detach p r)

theorem PoolRule.growth {P : PoolView → Prop} (h : PoolRule P) : GrowthRule P :=
  ⟨h.newRequest, h.newPool, h.insert, h.modifyPool⟩

/-! ### The procedures -/

namespace GrowthRule
variable {P : PoolView → Prop} (h : GrowthRule P) {l : Lib} (hl : P l.poolView) (p : PoolId)
  (r : ReqId)
include h hl

theorem libModifyPool {p : PoolId} {f : Pool → Pool}
    (hr : (f (l.pool p)).requests = (l.pool p).requests)
    (ha : (f (l.pool p)).isActive = (l.pool p).isActive) : P (l.modifyPool p f).poolView :=
  h.modifyPool _ p f hl hr ha

omit h in
theorem poolRemoveRequest (hr : HoldsWithout P l.poolView r) :
    P (l.poolRemoveRequest r).poolView := by
  rw [Lib.poolView_poolRemoveRequest]
  cases ho : l.poolView.owner r with
  | none => exact hl
  | some p => exact hr p ho

omit h in
theorem requestFreeStart (hr : HoldsWithout P l.poolView r) :
    P (l.requestFreeStart r).poolView := by
  have hv : ((l.detachCallbackEvent r).sessionRemoveRequest r).poolView = l.poolView := by simp
  apply poolRemoveRequest
  · rw [hv]; exact hl
  · rw [hv]; exact hr

theorem poolTryInsert (env : CurlEnv) (hp : l.poolDefault = some p) :
    P (l.poolTryInsert env p r).1.poolView := by
  unfold Lib.poolTryInsert
  split_ifs
  · rw [Lib.poolView_poolInsert]
    exact h.insert _ p r hl hp
  · exact hl

theorem poolAddRequest (env : CurlEnv) : P (l.poolAddRequest env r).1.poolView := by
  unfold Lib.poolAddRequest
  split
  · rename_i p hp
    exact h.poolTryInsert hl p r env hp
  · rename_i hd
    split_ifs
    · exact h.poolTryInsert (l := l.poolInit.1) (h.newPool _ hl hd) _ r env rfl
    · exact hl

theorem requestRunStart (env : CurlEnv) : P (l.requestRunStart env r).1.poolView := by
  simp only [Lib.requestRunStart]
  split
  · simpa using hl
  · set l₁ := (l.modifyRequest r _).setState r .inprogress with hl₁
    have h₁ : P l₁.poolView := by simpa [hl₁] using hl
    split_ifs
    · exact h.poolAddRequest h₁ r env
    · simpa using h.poolAddRequest h₁ r env
    · exact h₁

theorem createNewRequest {api : Api} {env : CurlEnv} {interp : InterpId} {call : CreateCall}
    {session : Option SesId} {l' : Lib} {r : ReqId} {simple performing : Bool}
    (hc : l.createNewRequest api env interp call session = .created l' r simple performing) :
    P l'.poolView := by
  obtain ⟨opt, l₁, -, -, hnew, hrun⟩ := Lib.createNewRequest_eq_created hc
  obtain ⟨-, hv⟩ := l.poolView_newRequest _ hnew
  have h₁ : P l₁.poolView := hv ▸ h.newRequest _ hl
  rw [← show _ = l' from congrArg Prod.fst hrun]
  apply h.requestRunStart
  simpa [Lib.fillRequest] using h₁

theorem poolEventSetup (b : Bool) (t : Option ℤ) : P (l.poolEventSetup p b t).1.poolView := by
  obtain ⟨v, hv⟩ := l.poolEventSetup_eq p b t
  rw [hv]
  exact h.libModifyPool hl rfl rfl

theorem poolEventCheckStart (b : Bool) (w : Option ℕ) :
    P (l.poolEventCheckStart p b w).1.poolView := by
  obtain ⟨v, hv⟩ := l.poolEventCheckStart_eq p b w
  rw [hv]
  exact h.libModifyPool hl rfl rfl

end GrowthRule

namespace PoolRule
variable {P : PoolView → Prop} (h : PoolRule P) {l : Lib} (hl : P l.poolView) (p : PoolId)
  (r : ReqId)
include h hl

theorem poolRemoveRequest : P (l.poolRemoveRequest r).poolView :=
  GrowthRule.poolRemoveRequest hl r fun p ho => h.detach _ p r hl ho

theorem poolDrainPass (msg : CURLMsg) (msgs : List CURLMsg) :
    P (l.poolDrainPass p msg msgs).poolView := by
  simp only [Lib.poolDrainPass, Lib.poolCompleteRequest, Lib.poolView_requestScheduleCallback]
  apply h.poolRemoveRequest
  rw [Lib.poolView_setState]
  exact h.growth.libModifyPool hl rfl rfl

theorem poolDrain (fuel : ℕ) : P (Lib.poolDrain p fuel l).poolView := by
  induction fuel generalizing l with
  | zero => exact hl
  | succ fuel ih =>
    simp only [Lib.poolDrain]
    split
    · exact hl
    · rename_i msg msgs _
      split
      · exact ih (h.growth.libModifyPool hl rfl rfl)
      · exact ih (l := l.poolDrainPass p msg msgs) (h.poolDrainPass hl p msg msgs)

theorem poolEventCheckFinish (n : ℕ) : P (l.poolEventCheckFinish p n).poolView := by
  have hd := h.poolDrain hl p (l.pool p).curlMulti.msgs.length
  simp only [Lib.poolEventCheckFinish, Lib.poolEventCheckDrain]
  split_ifs
  · exact hl
  · exact hd
  · exact hd

/-- The loop of `treq_PoolFree` also shortens the list it works on. -/
theorem poolFreeLoop (rs : List ReqId)
    (htail : ∀ v, P v → P (v.modifyPool p fun q => { q with requests := q.requests.tail })) :
    P (Lib.poolFreeLoop p rs l).poolView := by
  induction rs generalizing l with
  | nil => exact hl
  | cons r rs ih => exact ih (htail _ (h.poolRemoveRequest hl r))

end PoolRule

/-! ### Steps -/

namespace GrowthRule
variable {P : PoolView → Prop} {m : Machine} (hm : P m.lib.poolView)
include hm

theorem requestFree (r : ReqId) (caller : Caller) (hr : HoldsWithout P m.lib.poolView r) :
    P (m.requestFree r caller).lib.poolView :=
  requestFreeStart hm r hr

theorem sessionFreeLoop (i : SesId)
    (hr : ∀ r, (m.lib.session i).requests.head? = some r → HoldsWithout P m.lib.poolView r) :
    P (m.sessionFreeLoop i).lib.poolView := by
  unfold Machine.sessionFreeLoop
  split
  · simpa [Machine.setLib] using hm
  · rename_i r rs hrs
    have hv : (m.lib.clearSession r).poolView = m.lib.poolView := by simp
    apply requestFree (m := m.setLib (m.lib.clearSession r))
    · exact hv.symm ▸ hm
    · exact hv.symm ▸ hr r (by rw [hrs, List.head?_cons])

theorem deleteSessionCommand (i : SesId)
    (hr : ∀ r, m.sessionReleases i = some r → HoldsWithout P m.lib.poolView r) :
    P (m.deleteSessionCommand i).lib.poolView := by
  unfold Machine.deleteSessionCommand
  split
  · rename_i halive
    rw [Machine.sessionReleases, if_pos halive] at hr
    exact sessionFreeLoop (m := m.setLib (m.lib.setCommand (.session i) .deleting)) hm i hr
  · simpa [Machine.setLib] using hm

theorem deleteRequestCommand (r : ReqId)
    (hr : m.lib.command (.request r) = .alive → HoldsWithout P m.lib.poolView r) :
    P (m.deleteRequestCommand r).lib.poolView := by
  unfold Machine.deleteRequestCommand
  split
  · rename_i halive
    split_ifs
    · simpa [Machine.setLib] using hm
    · have hv : ((m.lib.setCommand (.request r) .deleting).clearCmdToken r).poolView =
          m.lib.poolView := by simp
      apply requestFree (m := m.setLib ((m.lib.setCommand (.request r) .deleting).clearCmdToken r))
      · exact hv.symm ▸ hm
      · exact hv.symm ▸ hr halive
  · simpa [Machine.setLib] using hm

theorem createFinish (r : ReqId) (simple : Bool)
    (hr : simple = true → HoldsWithout P m.lib.poolView r) :
    P (m.createFinish r simple).lib.poolView := by
  unfold Machine.createFinish
  split_ifs with hs
  · exact requestFree (m := { m with result := _ }) hm r .simple (hr hs)
  · simpa using hm

theorem cleanupFinish (r : ReqId) (caller : Caller)
    (hr : ∀ i, caller = .session i → ∀ r', (m.lib.session i).requests.tail.head? = some r' →
      HoldsWithout P m.lib.poolView r') :
    P (m.cleanupFinish r caller).lib.poolView := by
  unfold Machine.cleanupFinish
  cases caller with
  | command => simpa [Machine.setLib] using hm
  | simple => simpa [Machine.setLib] using hm
  | session i =>
    have hv : ((m.lib.requestFreeFinish r).dropRequest i).poolView = m.lib.poolView := by simp
    have hq : (((m.lib.requestFreeFinish r).dropRequest i).session i).requests =
        (m.lib.session i).requests.tail := by simp [Lib.dropRequest, Lib.modifySession]
    apply sessionFreeLoop (m := m.setLib ((m.lib.requestFreeFinish r).dropRequest i))
    · exact hv.symm ▸ hm
    · intro r' hr'
      exact hv.symm ▸ hr i rfl r' (by rw [← hq]; exact hr')

variable (h : GrowthRule P)
include h

/-- Every action keeps the property if the requests that it releases can go, as well as
a request of no pool, and if the deactivation that it services, the end of a check and
the end of the thread keep it. -/
theorem next {api : Api} {a : Action}
    (hr : ∀ r, m.releases a = some r → HoldsWithout P m.lib.poolView r)
    (hsync : ∀ (l : Lib) r, P l.poolView → (m.PoolInv → l.poolView.owner r = none) →
      HoldsWithout P l.poolView r)
    (hd : ∀ b p, a = .serviceEvent b →
      m.lib.queue.find? (TclEvent.ready b) = some (.poolDeactivate p) →
        P (m.lib.poolView.deactivate p))
    (hc : ∀ p wf stack, a = .performReturn true → m.stack = .perform p wf :: stack →
      let l := m.lib.setInCallback p false
      P l.poolView → P (l.poolEventCheckFinish p (l.pool p).curlMulti.running).poolView)
    (he : a = .threadExit → P m.lib.poolThreadExitProc.poolView) :
    P (m.next api a).lib.poolView := by
  have hcreate : ∀ env interp call session,
      P (m.createNewRequest api env interp call session).lib.poolView := by
    intro env interp call session
    unfold Machine.createNewRequest
    split
    · exact hm
    · rename_i hnew
      exact h.createNewRequest hm hnew
    · rename_i l r simple hnew
      have hl := h.createNewRequest hm hnew
      apply createFinish (m := m.setLib l) hl
      intro hs
      exact hsync l r hl fun hi => (Lib.createNewRequest_pools hi.pools hnew).2.2 (Or.inl hs)
  cases a with
  | sessionCmd interp objv share =>
    simp only [Machine.next]
    split
    · exact hm
    · rename_i hl
      exact (Lib.poolView_sessionCmd hl).symm ▸ hm
  | requestCmd interp name clientData args env =>
    simp only [Machine.next]
    split
    · exact hm
    · exact hcreate _ _ _ _
  | sessionHandle i name args env =>
    simp only [Machine.next]
    split
    · exact hm
    · rename_i hcall
      apply deleteSessionCommand (m := { m with result := .empty }) hm i
      intro r hrel
      exact hr r (by simp only [Machine.releases, hcall]; exact hrel)
    · exact hcreate _ _ _ _
  | requestDestroy r byRename =>
    refine Machine.next_requestDestroy_rule ?_ fun _ _ => hm
    exact deleteRequestCommand (m := { m with result := .empty }) hm r fun ha => hr r (if_pos ha)
  | poolEventSetup p b t => exact h.poolEventSetup hm p b t
  | poolEventCheck p b w =>
    have h₁ := h.poolEventCheckStart hm p b w
    simp only [Machine.next]
    split_ifs
    · exact h.libModifyPool h₁ rfl rfl
    · exact h₁
  | serviceEvent b =>
    simp only [Machine.next, Machine.setLib, Lib.serviceEvent]
    split
    · rw [Lib.poolView_requestEventProc]
      exact hm
    · rename_i p hp
      exact hd b p rfl hp
    · exact hm
    · exact hm
  | queueOther b => exact hm
  | interpDelete i => exact hm
  | interpDeleteCommand tok =>
    cases tok with
    | request r => exact deleteRequestCommand hm r fun ha => hr r (if_pos ha)
    | session i => exact deleteSessionCommand hm i fun r hrel => hr r hrel
  | interpDeleteDone => exact hm
  | threadExit => exact he rfl
  | curlComplete r result =>
    simp only [Machine.next]
    split
    · exact h.libModifyPool hm rfl rfl
    · exact hm
  | curlWriteError r size contentSize result =>
    have h₁ : P (m.lib.requestSetError r (writeErrorText size contentSize)).poolView := by
      simpa using hm
    simp only [Machine.next]
    split
    · exact h.libModifyPool h₁ rfl rfl
    · exact h₁
    · exact hm
  | performReturn ok =>
    simp only [Machine.next]
    split
    · rename_i p wf stack hs
      have h₁ : P (m.lib.setInCallback p false).poolView := h.libModifyPool hm rfl rfl
      cases ok with
      | false => exact h₁
      | true => exact hc p wf stack rfl hs h₁
    · exact hm
  | easyPerformReturn res =>
    simp only [Machine.next]
    split
    · rename_i r simple wf stack hs
      have hv : (m.lib.requestRunFinish r res).poolView = m.lib.poolView := by simp
      have hl : P (m.lib.requestRunFinish r res).poolView := hv.symm ▸ hm
      apply createFinish (m := { m with lib := m.lib.requestRunFinish r res, stack := stack }) hl
      intro _
      apply hsync _ r hl
      intro hi
      rw [hv]
      exact (hi.running r simple wf (by simp [hs])).2
    · exact hm
  | cleanupReturn =>
    simp only [Machine.next]
    split
    · rename_i r caller stack hs
      apply cleanupFinish (m := { m with stack := stack }) hm r caller
      rintro i rfl r' hhead
      exact hr r' (by simp only [Machine.releases, hs]; exact hhead)
    · exact hm

end GrowthRule

namespace PoolRule
variable {P : PoolView → Prop} (h : PoolRule P) {m : Machine} (hm : P m.lib.poolView)
include h hm

/-- Every action keeps the property if the deactivation that it services and the end of
the thread do. -/
theorem next {api : Api} {a : Action}
    (hd : ∀ b p, a = .serviceEvent b →
      m.lib.queue.find? (TclEvent.ready b) = some (.poolDeactivate p) →
        P (m.lib.poolView.deactivate p))
    (he : a = .threadExit → P m.lib.poolThreadExitProc.poolView) :
    P (m.next api a).lib.poolView := by
  apply h.growth.next hm ?_ ?_ hd ?_ he
  · exact fun r _ p ho => h.detach _ p r hm ho
  · exact fun l r hl _ p ho => h.detach _ p r hl ho
  · exact fun p _ _ _ _ hl => h.poolEventCheckFinish hl p _

end PoolRule

end Trequests
