import Trequests.FreedPools

/-! When a pool is polled. A request that has just been added asks for a refresh: the event
source then lets Tcl not wait, and the next check performs the transfers at once instead of
waiting for a file descriptor. Whatever happens between the addition and that check, the
refresh is not lost. -/

namespace Trequests

/-- Tcl waits for a tenth of a second at most, and not longer than libcurl allows. -/
theorem Lib.poolEventSetup_le {l : Lib} {p : PoolId} {fileEvents : Bool} {curlTimeout : Option ℤ}
    {time : ℤ} (h : (l.poolEventSetup p fileEvents curlTimeout).2 = some time) :
    0 ≤ time ∧ time ≤ 100 * 1000 ∧ ∀ timeout ∈ curlTimeout, 0 ≤ timeout → time ≤ timeout * 1000 := by
  unfold poolEventSetup at h
  split_ifs at h with hb hn
  · cases h
    exact ⟨by omega, by omega, fun timeout _ ht => by omega⟩
  · cases curlTimeout with
    | none =>
      cases h
      exact ⟨by omega, by omega, by simp⟩
    | some timeout =>
      simp only at h
      refine ⟨?_, ?_, fun t ht h0 => ?_⟩
      · split_ifs at h <;> cases h <;> omega
      · split_ifs at h <;> cases h <;> omega
      · cases ht
        split_ifs at h <;> cases h <;> omega

/-! ### One procedure -/

namespace PoolView

/-- The pool is to be performed as soon as possible, and can be. -/
structure Pressing (v : PoolView) (p : PoolId) : Prop where
  lt : p < v.nextPool
  needRefresh : (v.pool p).needRefresh = true
  inCallback : v.inCallback p = false

/-- Requests enter a pool only with a refresh, and the refresh stays. -/
structure Presses (v : PoolView) (p : PoolId) (v' : PoolView) : Prop where
  keeps : v.Pressing p → v'.Pressing p
  enters : ∀ r ∈ (v'.pool p).requests, r ∈ (v.pool p).requests ∨ v'.Pressing p

namespace Presses
variable {p : PoolId} {u v w : PoolView}

theorem refl (v : PoolView) : v.Presses p v := ⟨id, fun _ hr => Or.inl hr⟩

/-- Only the pools count. -/
theorem of_pool (hp : w.pool = v.pool) (hn : w.nextPool = v.nextPool) : v.Presses p w where
  keeps h := ⟨hn ▸ h.lt, by rw [hp]; exact h.needRefresh,
    by rw [PoolView.inCallback, hp]; exact h.inCallback⟩
  enters r hr := Or.inl (hp ▸ hr)

theorem trans (h : u.Presses p v) (h' : v.Presses p w) : u.Presses p w where
  keeps hp := h'.keeps (h.keeps hp)
  enters r hr := by
    rcases h'.enters r hr with hr | hp
    · exact (h.enters r hr).imp_right h'.keeps
    · exact Or.inr hp

theorem newRequest (v : PoolView) : v.Presses p v.newRequest where
  keeps hp := ⟨hp.lt, hp.needRefresh, hp.inCallback⟩
  enters _ hr := Or.inl hr

theorem newPool (v : PoolView) : v.Presses p v.newPool where
  keeps hp := by
    have hne : p ≠ v.nextPool := Nat.ne_of_lt hp.lt
    have hpool : v.newPool.pool p = v.pool p := Function.update_of_ne hne _ _
    exact ⟨Nat.lt_succ_of_lt hp.lt, by rw [hpool, hp.needRefresh],
      by rw [PoolView.inCallback, hpool]; exact hp.inCallback⟩
  enters r hr := by
    by_cases hne : p = v.nextPool
    · subst hne
      simp [PoolView.newPool, Pool.zero] at hr
    · have hpool : v.newPool.pool p = v.pool p := Function.update_of_ne hne _ _
      exact Or.inl (hpool ▸ hr)

/-- A request is added to a pool in which no callback runs. -/
theorem insert {q : PoolId} (hq : q < v.nextPool) (hc : v.inCallback q = false) (r : ReqId) :
    v.Presses p (v.insert q r) := by
  by_cases hne : p = q
  · subst hne
    have hp : (v.insert p r).Pressing p :=
      ⟨hq, by simp [PoolView.insert, Pool.insert],
        by simpa [PoolView.inCallback, PoolView.insert, Pool.insert, Multi.addHandle] using hc⟩
    exact ⟨fun _ => hp, fun _ _ => Or.inr hp⟩
  · have hpool : (v.insert q r).pool p = v.pool p := Function.update_of_ne hne _ _
    refine ⟨fun hp => ⟨hp.lt, by rw [hpool, hp.needRefresh], ?_⟩, fun x hx => Or.inl (hpool ▸ hx)⟩
    rw [PoolView.inCallback, hpool]
    exact hp.inCallback

/-- A pool is written to where no request enters it, and its refresh stays. -/
theorem modify {q : PoolId} {q' : Pool} (hpool : w.pool = Function.update v.pool q q')
    (hn : w.nextPool = v.nextPool) (hr : q'.requests ⊆ (v.pool q).requests)
    (hf : p = q → (v.pool q).needRefresh = true → q'.needRefresh = true)
    (hc : p = q → v.inCallback q = false → q'.curlMulti.inCallback = false) : v.Presses p w := by
  by_cases hne : p = q
  · subst hne
    have hp : w.pool p = q' := by rw [hpool, Function.update_self]
    refine ⟨fun h => ⟨hn ▸ h.lt, ?_, ?_⟩, fun x hx => Or.inl (hr (hp ▸ hx))⟩
    · rw [hp]
      exact hf rfl h.needRefresh
    · rw [PoolView.inCallback, hp]
      exact hc rfl h.inCallback
  · have hp : w.pool p = v.pool p := by rw [hpool, Function.update_of_ne hne]
    refine ⟨fun h => ⟨hn ▸ h.lt, by rw [hp, h.needRefresh], ?_⟩, fun x hx => Or.inl (hp ▸ hx)⟩
    rw [PoolView.inCallback, hp]
    exact h.inCallback

theorem detach (v : PoolView) (q : PoolId) (r : ReqId) : v.Presses p (v.detach q r) := by
  refine modify rfl rfl ?_ (fun _ => id) fun _ hc => ?_
  · simp only [Pool.detach]
    split_ifs
    · exact List.Subset.refl _
    · exact List.erase_subset
  · simp only [Pool.detach, Multi.removeHandle]
    split_ifs
    · exact hc
    · exact hc

theorem deactivate (v : PoolView) (q : PoolId) : v.Presses p (v.deactivate q) :=
  modify rfl rfl (List.Subset.refl _) (fun _ => id) fun _ => id

end Presses

end PoolView

namespace Lib
variable {l : Lib} {p : PoolId}

theorem presses_poolRemoveRequest (r : ReqId) :
    l.poolView.Presses p (l.poolRemoveRequest r).poolView := by
  rw [poolView_poolRemoveRequest]
  cases l.poolView.owner r with
  | none => exact .refl _
  | some q => exact .detach _ q r

theorem presses_requestFreeStart (r : ReqId) :
    l.poolView.Presses p (l.requestFreeStart r).poolView := by
  have hv : ((l.detachCallbackEvent r).sessionRemoveRequest r).poolView = l.poolView := by simp
  rw [← hv]
  exact presses_poolRemoveRequest r

/-! ### Creation -/

theorem presses_poolTryInsert (env : CurlEnv) {q : PoolId} (hq : q < l.nextPool) (r : ReqId) :
    l.poolView.Presses p (l.poolTryInsert env q r).1.poolView := by
  unfold poolTryInsert
  split_ifs with hc
  · rw [poolView_poolInsert]
    have hno : (l.pool q).curlMulti.inCallback = false := by simpa using hc.2
    exact PoolView.Presses.insert (v := l.poolView) hq hno r
  · exact .refl _

theorem presses_poolAddRequest (hk : PoolsKnown l.poolView) (env : CurlEnv) (r : ReqId) :
    l.poolView.Presses p (l.poolAddRequest env r).1.poolView := by
  unfold poolAddRequest
  split
  · rename_i q hq
    exact presses_poolTryInsert env (hk.default_lt q hq) r
  · split_ifs
    · have hnew : l.poolView.Presses p l.poolInit.1.poolView := .newPool l.poolView
      exact hnew.trans (presses_poolTryInsert (l := l.poolInit.1) env (Nat.lt_succ_self _) r)
    · exact .refl _

theorem presses_requestRunStart (hk : PoolsKnown l.poolView) (env : CurlEnv) (r : ReqId) :
    l.poolView.Presses p (l.requestRunStart env r).1.poolView := by
  simp only [requestRunStart]
  split
  · simpa using PoolView.Presses.refl l.poolView
  · set l₁ := (l.modifyRequest r _).setState r .inprogress with hl₁
    have hv : l₁.poolView = l.poolView := by simp [hl₁]
    have hadd : l.poolView.Presses p (l₁.poolAddRequest env r).1.poolView := by
      rw [← hv] at hk ⊢
      exact presses_poolAddRequest hk env r
    split_ifs
    · exact hadd
    · simpa using hadd
    · exact hv ▸ .refl _

theorem presses_createNewRequest (hk : PoolsKnown l.poolView) {api : Api} {env : CurlEnv}
    {interp : InterpId} {call : CreateCall} {session : Option SesId} {l' : Lib} {r : ReqId}
    {simple performing : Bool}
    (hc : l.createNewRequest api env interp call session = .created l' r simple performing) :
    l.poolView.Presses p l'.poolView := by
  obtain ⟨opt, l₁, -, -, hnew, hrun⟩ := createNewRequest_eq_created hc
  obtain ⟨-, hv⟩ := l.poolView_newRequest _ hnew
  rw [← show _ = l' from congrArg Prod.fst hrun]
  set l₂ := l₁.fillRequest r _ interp with hl₂
  have hv₂ : l₂.poolView = l.poolView.newRequest := by simp [hl₂, fillRequest, hv]
  have h₁ : l.poolView.Presses p l₂.poolView := hv₂ ▸ .newRequest _
  exact h₁.trans (presses_requestRunStart (hv₂ ▸ hk.newRequest) env r)

/-! ### The event source -/

theorem presses_poolEventSetup (q : PoolId) (b : Bool) (t : Option ℤ) :
    l.poolView.Presses p (l.poolEventSetup q b t).1.poolView := by
  unfold poolEventSetup
  split_ifs
  · exact .refl _
  · split
    · exact .refl _
    · split_ifs
      · exact .refl _
      · exact .modify rfl rfl (List.Subset.refl _) (fun _ _ => rfl) fun _ => id
      · exact .refl _
      · exact .refl _
  · exact .refl _

/-- A check of another pool, or one that is not for file events. -/
theorem presses_poolEventCheckStart {q : PoolId} {b : Bool} (hq : ¬ (q = p ∧ b = true))
    (w : Option ℕ) : l.poolView.Presses p (l.poolEventCheckStart q b w).1.poolView := by
  unfold poolEventCheckStart
  split_ifs with hb
  · refine .modify rfl rfl (List.Subset.refl _) (fun hp => ?_) fun _ => id
    exact absurd ⟨hp.symm, hb⟩ hq
  · split <;> exact .refl _
  · exact .refl _

/-- Only a check for file events performs the transfers. -/
theorem fileEvents_of_poolEventCheckStart {q : PoolId} {b : Bool} {w : Option ℕ}
    (h : (l.poolEventCheckStart q b w).2 = true) : b = true := by
  unfold poolEventCheckStart at h
  split_ifs at h with hb
  · exact hb
  · exact hb

theorem presses_poolDrain (q : PoolId) (fuel : ℕ) :
    l.poolView.Presses p (poolDrain q fuel l).poolView := by
  induction fuel generalizing l with
  | zero => exact .refl _
  | succ fuel ih =>
    simp only [poolDrain]
    split
    · exact .refl _
    · rename_i msg msgs _
      set l₁ := l.modifyPool q fun x => { x with curlMulti := { x.curlMulti with msgs } }
      have h₁ : l.poolView.Presses p l₁.poolView :=
        .modify rfl rfl (List.Subset.refl _) (fun _ => id) fun _ => id
      split
      · exact h₁.trans ih
      · have hdone : l₁.poolView.Presses p (l₁.poolCompleteRequest msg).poolView := by
          simp only [poolCompleteRequest, poolView_requestScheduleCallback]
          rw [← l₁.poolView_setState msg.easyHandle]
          exact presses_poolRemoveRequest _
        exact (h₁.trans hdone).trans ih

theorem presses_poolEventCheckFinish (q : PoolId) (n : ℕ) :
    l.poolView.Presses p (l.poolEventCheckFinish q n).poolView := by
  have hd := presses_poolDrain (l := l) (p := p) q (l.pool q).curlMulti.msgs.length
  simp only [poolEventCheckFinish, poolEventCheckDrain]
  split_ifs
  · exact .refl _
  · exact hd
  · exact hd

/-! ### The end of the thread -/

theorem presses_poolFreeLoop (q : PoolId) (rs : List ReqId) :
    l.poolView.Presses p (poolFreeLoop q rs l).poolView := by
  induction rs generalizing l with
  | nil => exact .refl _
  | cons r rs ih =>
    refine (presses_poolRemoveRequest r).trans (.trans ?_ ih)
    exact .modify rfl rfl (List.tail_sublist _).subset (fun _ => id) fun _ => id

theorem presses_poolThreadExitProc : l.poolView.Presses p l.poolThreadExitProc.poolView := by
  unfold poolThreadExitProc
  cases l.poolDefault with
  | none => exact .refl _
  | some q =>
    set l₁ := l.modifyPool q fun x => { x with isDead := true }
    have h₁ : l.poolView.Presses p l₁.poolView :=
      .modify rfl rfl (List.Subset.refl _) (fun _ => id) fun _ => id
    exact (h₁.trans (presses_poolFreeLoop q _)).trans (.of_pool rfl rfl)

end Lib

/-! ### Steps -/

namespace Machine
variable {m : Machine} {p : PoolId}

theorem presses_requestFree (r : ReqId) (caller : Caller) :
    m.lib.poolView.Presses p (m.requestFree r caller).lib.poolView :=
  Lib.presses_requestFreeStart r

theorem presses_sessionFreeLoop (i : SesId) :
    m.lib.poolView.Presses p (m.sessionFreeLoop i).lib.poolView := by
  unfold sessionFreeLoop
  split
  · exact .of_pool rfl rfl
  · rename_i r rs _
    have hv : (m.lib.clearSession r).poolView = m.lib.poolView := by simp
    rw [← hv]
    exact presses_requestFree (m := m.setLib (m.lib.clearSession r)) r (.session i)

theorem presses_deleteRequestCommand (r : ReqId) :
    m.lib.poolView.Presses p (m.deleteRequestCommand r).lib.poolView := by
  unfold deleteRequestCommand
  split
  · split_ifs
    · exact .refl _
    · have hv : ((m.lib.setCommand (.request r) .deleting).clearCmdToken r).poolView =
          m.lib.poolView := by simp
      rw [← hv]
      exact presses_requestFree (m := m.setLib _) r .command
  · simpa [setLib] using PoolView.Presses.refl m.lib.poolView

theorem presses_deleteSessionCommand (i : SesId) :
    m.lib.poolView.Presses p (m.deleteSessionCommand i).lib.poolView := by
  unfold deleteSessionCommand
  split
  · exact presses_sessionFreeLoop (m := m.setLib (m.lib.setCommand (.session i) .deleting)) i
  · simpa [setLib] using PoolView.Presses.refl m.lib.poolView

theorem presses_createFinish (r : ReqId) (simple : Bool) :
    m.lib.poolView.Presses p (m.createFinish r simple).lib.poolView := by
  unfold createFinish
  split_ifs
  · exact presses_requestFree (m := { m with result := _ }) r .simple
  · simpa using PoolView.Presses.refl m.lib.poolView

theorem presses_createNewRequest (hk : PoolsKnown m.lib.poolView) (api : Api) (env : CurlEnv)
    (interp : InterpId) (call : CreateCall) (session : Option SesId) :
    m.lib.poolView.Presses p (m.createNewRequest api env interp call session).lib.poolView := by
  unfold createNewRequest
  split
  · exact .refl _
  · rename_i hc
    exact Lib.presses_createNewRequest hk hc
  · rename_i l r simple hc
    exact (Lib.presses_createNewRequest hk hc).trans (presses_createFinish (m := m.setLib l) r simple)

theorem presses_cleanupFinish (r : ReqId) (caller : Caller) :
    m.lib.poolView.Presses p (m.cleanupFinish r caller).lib.poolView := by
  have hv : (m.lib.requestFreeFinish r).poolView = m.lib.poolView := by simp
  unfold cleanupFinish
  cases caller with
  | command => exact hv ▸ .refl _
  | simple => exact hv ▸ .refl _
  | session i =>
    have hd : ((m.lib.requestFreeFinish r).dropRequest i).poolView = m.lib.poolView := by simp
    rw [← hd]
    exact presses_sessionFreeLoop (m := m.setLib ((m.lib.requestFreeFinish r).dropRequest i)) i

/-- Every action but the check of the pool for file events. -/
theorem presses_next (hk : PoolsKnown m.lib.poolView) (api : Api) {a : Action}
    (ha : ∀ w, a ≠ .poolEventCheck p true w) :
    m.lib.poolView.Presses p (m.next api a).lib.poolView := by
  cases a with
  | sessionCmd interp objv share =>
    simp only [next]
    split
    · exact .refl _
    · rename_i hl
      exact Lib.poolView_sessionCmd hl ▸ .refl _
  | requestCmd interp name clientData args env =>
    simp only [next]
    split
    · exact .refl _
    · exact presses_createNewRequest hk _ _ _ _ _
  | sessionHandle i name args env =>
    simp only [next]
    split
    · exact .refl _
    · exact presses_deleteSessionCommand (m := { m with result := .empty }) i
    · exact presses_createNewRequest hk _ _ _ _ _
  | requestDestroy r byRename =>
    refine next_requestDestroy_rule ?_ fun _ _ => .of_pool rfl rfl
    exact presses_deleteRequestCommand (m := { m with result := .empty }) r
  | poolEventSetup q b t => exact Lib.presses_poolEventSetup q b t
  | poolEventCheck q b w =>
    have hq : ¬ (q = p ∧ b = true) := by
      rintro ⟨rfl, rfl⟩
      exact ha w rfl
    have hstart := Lib.presses_poolEventCheckStart (l := m.lib) hq w
    simp only [next]
    split_ifs with hperform
    · have hb := Lib.fileEvents_of_poolEventCheckStart (Bool.and_eq_true_iff.mp hperform).1
      refine hstart.trans (.modify rfl rfl (List.Subset.refl _) (fun _ => id) fun hp _ => ?_)
      exact absurd ⟨hp.symm, hb⟩ hq
    · exact hstart
  | serviceEvent b =>
    simp only [next, setLib, Lib.serviceEvent]
    split
    · rw [Lib.poolView_requestEventProc]
      exact .of_pool rfl rfl
    · rename_i q _
      exact .deactivate _ q
    · exact .of_pool rfl rfl
    · exact .of_pool rfl rfl
  | queueOther b => exact .of_pool rfl rfl
  | interpDelete i => exact .of_pool rfl rfl
  | interpDeleteCommand tok =>
    cases tok with
    | request r => exact presses_deleteRequestCommand r
    | session i => exact presses_deleteSessionCommand i
  | interpDeleteDone => exact .refl _
  | threadExit => exact Lib.presses_poolThreadExitProc
  | curlComplete r result =>
    simp only [next]
    split
    · exact .modify rfl rfl (List.Subset.refl _) (fun _ => id) fun _ => id
    · exact .refl _
  | curlWriteError r size contentSize result =>
    have hv : (m.lib.requestSetError r (writeErrorText size contentSize)).poolView =
        m.lib.poolView := by simp
    simp only [next]
    split
    · rw [← hv]
      exact .modify rfl rfl (List.Subset.refl _) (fun _ => id) fun _ => id
    · exact hv ▸ .refl _
    · exact .refl _
  | performReturn ok =>
    simp only [next]
    split
    · rename_i q wf stack _
      have h₁ : m.lib.poolView.Presses p (m.lib.setInCallback q false).poolView :=
        .modify rfl rfl (List.Subset.refl _) (fun _ => id) fun _ _ => rfl
      cases ok with
      | false => exact h₁
      | true => exact h₁.trans (Lib.presses_poolEventCheckFinish q _)
    · exact .refl _
  | easyPerformReturn res =>
    simp only [next]
    split
    · rename_i r simple wf stack _
      have hv : (m.lib.requestRunFinish r res).poolView = m.lib.poolView := by simp
      rw [← hv]
      exact presses_createFinish
        (m := { m with lib := m.lib.requestRunFinish r res, stack := stack }) r simple
    · exact .refl _
  | cleanupReturn =>
    simp only [next]
    split
    · rename_i r caller stack _
      exact presses_cleanupFinish (m := { m with stack := stack }) r caller
    · exact .refl _

/-- A check adds no request to a pool. -/
theorem requests_poolEventCheck (api : Api) (q : PoolId) (b : Bool) (w : Option ℕ) :
    ((m.next api (.poolEventCheck q b w)).lib.pool p).requests = (m.lib.pool p).requests := by
  have hmodify : ∀ (l : Lib) (f : Pool → Pool), (∀ x, (f x).requests = x.requests) →
      ((l.modifyPool q f).pool p).requests = (l.pool p).requests := by
    intro l f hf
    by_cases hp : p = q
    · subst hp
      simp [Lib.modifyPool, hf]
    · simp [Lib.modifyPool, hp]
  obtain ⟨v, hv⟩ := m.lib.poolEventCheckStart_eq q b w
  have hstart : (((m.lib.poolEventCheckStart q b w).1).pool p).requests =
      (m.lib.pool p).requests := by
    rw [hv]
    exact hmodify _ _ fun _ => rfl
  simp only [next]
  split_ifs
  · exact (hmodify _ (fun x => { x with curlMulti := { x.curlMulti with inCallback := true } })
      fun _ => rfl).trans hstart
  · exact hstart

/-! ### Runs -/

variable {api : Api}

theorem presses_exec {m' : Machine} {as : List Action} (hk : PoolsKnown m.lib.poolView)
    (he : Run.exec (step api) m as = some m') (ha : ∀ w, .poolEventCheck p true w ∉ as) :
    m.lib.poolView.Presses p m'.lib.poolView := by
  induction as generalizing m with
  | nil =>
    cases he
    exact .refl _
  | cons a as ih =>
    obtain ⟨u, hu, hr⟩ := Option.bind_eq_some_iff.mp he
    obtain ⟨-, rfl⟩ := step_eq_some.mp hu
    have hstep := presses_next (p := p) hk api (a := a) fun w hw => ha w (hw ▸ List.mem_cons_self)
    exact hstep.trans (ih (poolsKnown_next hk api a) hr fun w hw => ha w (List.mem_cons_of_mem a hw))

/-- From the step that adds a request to a pool to the next check of that pool for file
events, whatever happens in between, the event source lets Tcl not wait, and that check
performs the transfers at once. Tcl asks the source and checks the pool as long as it is
registered and not freed. -/
theorem added_request_performed_at_next_check {bs cs : List Action} {a : Action}
    {m m' m'' : Machine} {r : ReqId} (hb : runOf api bs = some m) (ha : m.step api a = some m')
    (hout : r ∉ (m.lib.pool p).requests) (hin : r ∈ (m'.lib.pool p).requests)
    (hc : Run.exec (step api) m' cs = some m'') (hno : ∀ w, .poolEventCheck p true w ∉ cs) :
    (∀ t, (m''.lib.poolEventSetup p true t).2 = some 0) ∧
      (∀ w m₃, m''.step api (.poolEventCheck p true w) = some m₃ →
        m₃.stack = .perform p false :: m''.stack) ∧
      (m''.scriptMayRun = true → p ∈ m''.lib.sources → m''.lib.poolFreed p = false → ∀ t w,
        (m''.step api (.poolEventSetup p true t)).isSome = true ∧
          (m''.step api (.poolEventCheck p true w)).isSome = true) := by
  have hk := poolsKnown_run hb
  obtain ⟨-, rfl⟩ := step_eq_some.mp ha
  have hcheck : ∀ w, a ≠ .poolEventCheck p true w := by
    rintro w rfl
    rw [requests_poolEventCheck] at hin
    exact hout hin
  have hadded : (m.next api a).lib.poolView.Pressing p :=
    ((presses_next hk api hcheck).enters r hin).resolve_left hout
  have hpressing := (presses_exec (poolsKnown_next hk api a) hc hno).keeps hadded
  have hneed : (m''.lib.pool p).needRefresh = true := hpressing.needRefresh
  have hcall : (m''.lib.pool p).curlMulti.inCallback = false := hpressing.inCallback
  refine ⟨fun t => ?_, fun w m₃ hstep => ?_, fun hs hp hf t w => ?_⟩
  · simp [Lib.poolEventSetup, hneed]
  · obtain ⟨-, rfl⟩ := step_eq_some.mp hstep
    have hstart : m''.lib.poolEventCheckStart p true w =
        (m''.lib.modifyPool p fun q => { q with needRefresh := false }, true) := by
      simp [Lib.poolEventCheckStart, hneed]
    simp [next, hstart, Lib.modifyPool, hcall]
  · simp [step, enabled, hs, hp, hf]

theorem added_request_performed_at_next_check_getAsync : ∃ m',
    init.step Api.plain .getAsync = some m' ∧ ∃ m'',
      Run.exec (step Api.plain) m' [.queueOther true, .poolEventSetup 0 true (some 50)] = some m'' ∧
        (∀ t, (m''.lib.poolEventSetup 0 true t).2 = some 0) ∧
          ∀ w m₃, m''.step Api.plain (.poolEventCheck 0 true w) = some m₃ →
            m₃.stack = .perform 0 false :: m''.stack := by
  obtain ⟨m', hm', hin⟩ := (Option.any_eq_true _ _).mp (show
    (init.step Api.plain .getAsync).any (fun m => decide (0 ∈ (m.lib.pool 0).requests)) = true by
      decide +kernel)
  obtain ⟨m'', hm''⟩ := Option.isSome_iff_exists.mp (show ((init.step Api.plain .getAsync).bind
    fun m => Run.exec (step Api.plain) m [.queueOther true, .poolEventSetup 0 true (some 50)]).isSome
      by decide +kernel)
  rw [hm', Option.bind_some] at hm''
  have hrun : runOf Api.plain [] = some init := rfl
  obtain ⟨htime, hcheck, -⟩ := added_request_performed_at_next_check hrun hm' (by decide)
    (of_decide_eq_true hin) hm'' (by simp)
  exact ⟨m', hm', m'', hm'', htime, hcheck⟩

end Machine

end Trequests
