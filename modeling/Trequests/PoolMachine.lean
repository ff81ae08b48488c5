import Trequests.PoolRuns

/-! The pools along the runs of the machine. A multi handle has a callback running
exactly while a check of its pool waits for `curl_multi_perform`. -/

namespace Trequests

/-- The pools being performed. -/
def performing (stack : List Frame) : List PoolId :=
  stack.filterMap fun
    | .perform p _ => some p
    | _ => none

@[simp] theorem performing_nil : performing [] = [] := rfl
@[simp] theorem performing_run (r : ReqId) (s w : Bool) (stack : List Frame) :
    performing (.run r s w :: stack) = performing stack := rfl
@[simp] theorem performing_perform (p : PoolId) (w : Bool) (stack : List Frame) :
    performing (.perform p w :: stack) = p :: performing stack := rfl
@[simp] theorem performing_cleanup (r : ReqId) (caller : Caller) (stack : List Frame) :
    performing (.cleanup r caller :: stack) = performing stack := rfl
@[simp] theorem performing_interpDelete (i : InterpId) (stack : List Frame) :
    performing (.interpDelete i :: stack) = performing stack := rfl
@[simp] theorem performing_crash (stack : List Frame) :
    performing (.crash :: stack) = performing stack := rfl

theorem Lib.poolView_sessionCmd {api : Api} {l l' : Lib} {interp : InterpId} {objv : List Str}
    {share : Bool} {i : SesId} (h : l.sessionCmd api interp objv share = .ok (l', i)) :
    l'.poolView = l.poolView := by
  unfold Lib.sessionCmd at h
  split at h
  · cases h
  · split_ifs at h
    cases h
    rfl

/-- The refresh flag of a pool changes. -/
theorem PoolsOk.evolves_needRefresh {v : PoolView} (h : PoolsOk v) {n : ReqId} {p : PoolId}
    (hp : p < v.nextPool) (b : Bool) :
    v.Evolves n (v.modifyPool p fun q => { q with needRefresh := b }) where
  ok := h.modifyPool hp ((h.wellFormed p).of_flags rfl rfl rfl rfl rfl) rfl rfl rfl
  inCallback x := by
    by_cases hx : x = p
    · subst hx; simp [PoolView.inCallback, PoolView.modifyPool]
    · simp [PoolView.inCallback, PoolView.modifyPool, hx]
  owner _ _ ho := Or.inl ho
  next := Nat.le_refl _

theorem PoolsOk.evolves_complete {v : PoolView} (h : PoolsOk v) {n : ReqId} {p : PoolId} {r : ReqId}
    (hp : p < v.nextPool) (hr : r ∈ (v.pool p).curlMulti.handles)
    (hc : r ∉ (v.pool p).curlMulti.completed) (result : CURLcode) :
    v.Evolves n (v.modifyPool p fun q => { q with curlMulti := q.curlMulti.complete r result }) where
  ok := h.modifyPool hp ((h.wellFormed p).complete hr hc result) rfl rfl rfl
  inCallback x := by
    by_cases hx : x = p
    · subst hx; simp [PoolView.inCallback, PoolView.modifyPool, Multi.complete]
    · simp [PoolView.inCallback, PoolView.modifyPool, hx]
  owner _ _ ho := Or.inl ho
  next := Nat.le_refl _

theorem PoolsOk.setInCallback {v : PoolView} (h : PoolsOk v) {p : PoolId} (hp : p < v.nextPool)
    (b : Bool) :
    PoolsOk (v.modifyPool p fun q => { q with curlMulti := { q.curlMulti with inCallback := b } }) :=
  h.modifyPool hp ((h.wellFormed p).of_flags rfl rfl rfl rfl rfl) rfl rfl rfl

theorem PoolView.inCallback_setInCallback (v : PoolView) (p x : PoolId) (b : Bool) :
    (v.modifyPool p fun q => { q with curlMulti := { q.curlMulti with inCallback := b } }).inCallback x =
      if x = p then b else v.inCallback x := by
  split_ifs with hx
  · subst hx; simp [inCallback, modifyPool]
  · simp [inCallback, modifyPool, hx]

namespace Lib
variable {l : Lib} (h : PoolsOk l.poolView) {n : ReqId} {p : PoolId} (hp : p < l.nextPool)
include h hp

theorem evolves_poolEventSetup (b : Bool) (t : Option ℤ) :
    l.poolView.Evolves n (l.poolEventSetup p b t).1.poolView := by
  obtain ⟨v, hv⟩ := l.poolEventSetup_eq p b t
  rw [hv]
  exact h.evolves_needRefresh hp v

theorem evolves_poolEventCheckStart (b : Bool) (w : Option ℕ) :
    l.poolView.Evolves n (l.poolEventCheckStart p b w).1.poolView := by
  obtain ⟨v, hv⟩ := l.poolEventCheckStart_eq p b w
  rw [hv]
  exact h.evolves_needRefresh hp v

end Lib

namespace Machine

structure PoolInv (m : Machine) : Prop where
  pools : PoolsOk m.lib.poolView
  callback : ∀ p, m.lib.poolView.inCallback p = true ↔ p ∈ performing m.stack
  nodup : (performing m.stack).Nodup
  running : ∀ r simple w, .run r simple w ∈ m.stack →
    r < m.lib.nextRequest ∧ m.lib.poolView.owner r = none

/-- The request whose release starts when a session handle is deleted. -/
def sessionReleases (m : Machine) (i : SesId) : Option ReqId :=
  if m.lib.command (.session i) = .alive then (m.lib.session i).requests.head? else none

/-- The request whose release an action starts, if it starts one. -/
def releases (m : Machine) : Action → Option ReqId
  | .requestDestroy r _ | .interpDeleteCommand (.request r) =>
    if m.lib.command (.request r) = .alive then some r else none
  | .interpDeleteCommand (.session i) => m.sessionReleases i
  | .sessionHandle i name args _ =>
    match sessionHandleCall name args with
    | .ok .destroy => m.sessionReleases i
    | _ => none
  | .cleanupReturn =>
    match m.stack with
    | .cleanup _ (.session i) :: _ => (m.lib.session i).requests.tail.head?
    | _ => none
  | _ => none

/-- No callback of its pool runs when a request is released. -/
def Removable (m : Machine) (a : Action) : Prop :=
  ∀ r, m.releases a = some r → ∀ p, m.lib.poolView.owner r = some p →
    m.lib.poolView.inCallback p = false

namespace PoolInv
variable {m : Machine} (h : m.PoolInv)
include h

theorem of_evolves {l : Lib} {stack : List Frame} {result : CmdResult}
    (he : m.lib.poolView.Evolves m.lib.nextRequest l.poolView)
    (hp : performing stack = performing m.stack)
    (hrun : ∀ r s w, .run r s w ∈ stack →
      (∃ s' w', .run r s' w' ∈ m.stack) ∨ r < l.nextRequest ∧ l.poolView.owner r = none) :
    PoolInv ⟨l, stack, result⟩ where
  pools := he.ok
  callback p := by rw [he.inCallback p, hp]; exact h.callback p
  nodup := hp ▸ h.nodup
  running r s w hr := by
    rcases hrun r s w hr with ⟨s', w', hr⟩ | hr
    · obtain ⟨hlt, ho⟩ := h.running r s' w' hr
      exact ⟨Nat.lt_of_lt_of_le hlt he.next, he.owner_none hlt ho⟩
    · exact hr

/-- Another library state under the same stack. -/
theorem setLib {l : Lib} (he : m.lib.poolView.Evolves m.lib.nextRequest l.poolView) :
    (m.setLib l).PoolInv :=
  h.of_evolves he rfl fun _ s w hr => Or.inl ⟨s, w, hr⟩

theorem setLib_of_eq {l : Lib} (hv : l.poolView = m.lib.poolView) : (m.setLib l).PoolInv :=
  h.setLib (by rw [hv]; exact h.pools.evolves_refl)

theorem setResult (result : CmdResult) : PoolInv { m with result } :=
  ⟨h.pools, h.callback, h.nodup, h.running⟩

/-- A frame that neither performs nor runs goes. -/
theorem tail {f : Frame} {stack : List Frame} (hs : m.stack = f :: stack)
    (hf : performing [f] = []) : PoolInv { m with stack := stack } := by
  refine h.of_evolves (l := m.lib) h.pools.evolves_refl ?_
    fun r s w hr => Or.inl ⟨s, w, by rw [hs]; simp [hr]⟩
  rw [hs, ← List.singleton_append, performing, performing, List.filterMap_append]
  simpa [performing] using hf

theorem inCallback_of_notMem {p : PoolId} (hp : p ∉ performing m.stack) :
    m.lib.poolView.inCallback p = false := by
  rw [← Bool.not_eq_true, h.callback]; exact hp

theorem requestFree {r : ReqId} {caller : Caller}
    (hc : ∀ p, m.lib.poolView.owner r = some p → m.lib.poolView.inCallback p = false) :
    (m.requestFree r caller).PoolInv :=
  h.of_evolves (Lib.evolves_requestFreeStart h.pools hc) rfl
    fun r' s w hr => Or.inl ⟨s, w, by simpa using hr⟩

theorem sessionFreeLoop {i : SesId}
    (hc : ∀ r, (m.lib.session i).requests.head? = some r → ∀ p,
      m.lib.poolView.owner r = some p → m.lib.poolView.inCallback p = false) :
    (m.sessionFreeLoop i).PoolInv := by
  unfold Machine.sessionFreeLoop
  split
  · exact h.setLib_of_eq (by simp)
  · rename_i r rs hrs
    apply PoolInv.requestFree (h.setLib_of_eq (by simp))
    simp only [Machine.setLib, Lib.poolView_clearSession]
    exact hc r (by rw [hrs, List.head?_cons])

theorem deleteRequestCommand {r : ReqId}
    (hc : m.lib.command (.request r) = .alive →
      ∀ p, m.lib.poolView.owner r = some p → m.lib.poolView.inCallback p = false) :
    (m.deleteRequestCommand r).PoolInv := by
  unfold Machine.deleteRequestCommand
  split
  · rename_i halive
    split_ifs
    · exact h.setLib_of_eq (by simp)
    · apply PoolInv.requestFree (h.setLib_of_eq (by simp))
      simp only [Machine.setLib, Lib.poolView_clearCmdToken, Lib.poolView_setCommand]
      exact hc halive
  · exact h.setLib_of_eq (by simp)

theorem deleteSessionCommand {i : SesId}
    (hc : ∀ r, m.sessionReleases i = some r → ∀ p,
      m.lib.poolView.owner r = some p → m.lib.poolView.inCallback p = false) :
    (m.deleteSessionCommand i).PoolInv := by
  unfold Machine.deleteSessionCommand
  split
  · rename_i halive
    rw [sessionReleases, if_pos halive] at hc
    exact PoolInv.sessionFreeLoop (h.setLib_of_eq (by simp)) hc
  · exact h.setLib_of_eq (by simp)

theorem createFinish {r : ReqId} {simple : Bool}
    (hc : simple = true → m.lib.poolView.owner r = none) : (m.createFinish r simple).PoolInv := by
  unfold Machine.createFinish
  split_ifs with hs
  · apply PoolInv.requestFree (h.setResult _)
    intro p hp
    rw [show m.lib.poolView.owner r = none from hc hs] at hp
    cases hp
  · exact PoolInv.setResult (h.setLib_of_eq (l := m.lib.createHandle r) (by simp)) _

end PoolInv

end Machine

namespace Lib

/-- What the creation of a request does to the pools. -/
theorem createNewRequest_pools {api : Api} {env : CurlEnv} {interp : InterpId}
    {call : CreateCall} {session : Option SesId} {l l' : Lib} {r : ReqId}
    {simple performing : Bool} (h : PoolsOk l.poolView)
    (hc : l.createNewRequest api env interp call session = .created l' r simple performing) :
    l.poolView.Evolves l.nextRequest l'.poolView ∧ r < l'.nextRequest ∧
      (simple = true ∨ performing = true → l'.poolView.owner r = none) := by
  obtain ⟨opt, l₁, hopt, rfl, hnew, hrun⟩ := createNewRequest_eq_created hc
  obtain ⟨hr, hv₁⟩ := l.poolView_newRequest _ hnew
  set l₂ := l₁.fillRequest r _ interp with hl₂
  have hv₂ : l₂.poolView = l.poolView.newRequest := by rw [hl₂, fillRequest, ← hv₁]; simp
  have ho : l₂.poolView.owner r = none := by rw [hv₂, hr]; simp [PoolView.newRequest, poolView]
  have hlt : r < l₂.poolView.nextRequest := by rw [hv₂, hr]; exact Nat.lt_succ_self _
  have h₁ : l.poolView.Evolves l.nextRequest l₂.poolView :=
    hv₂ ▸ h.evolves_newRequest
  have h₂ := evolves_requestRunStart (n := l.nextRequest) h₁.ok env ho hlt (Nat.le_of_eq hr.symm)
  have hsync : (l₂.request r).async = false → l'.poolView.owner r = none := fun ha => by
    have := poolView_requestRunStart_sync env ha
    rw [hrun] at this
    rw [this, ho]
  rw [hrun] at h₂
  refine ⟨h₁.trans h₂, Nat.lt_of_lt_of_le hlt h₂.next, ?_⟩
  rintro (hs | hp)
  · exact hsync (by simp [hl₂, fillRequest, modifyRequest, requestParams, requestOptions_async hopt hs])
  · exact hsync (l₂.requestRunStart_performing (by rw [hrun, hp]))

end Lib

end Trequests

namespace Trequests.Machine.PoolInv
variable {m : Machine} (h : m.PoolInv)
include h

theorem createNewRequest {api : Api} {env : CurlEnv} {interp : InterpId} {call : CreateCall}
    {session : Option SesId} : (m.createNewRequest api env interp call session).PoolInv := by
  unfold Machine.createNewRequest
  split
  · exact h.setResult _
  · rename_i l r simple hc
    obtain ⟨he, hlt, ho⟩ := Lib.createNewRequest_pools h.pools hc
    refine h.of_evolves he rfl fun r' s w hr => ?_
    rcases List.mem_cons.mp hr with hr | hr
    · cases hr
      exact Or.inr ⟨hlt, ho (Or.inr rfl)⟩
    · exact Or.inl ⟨s, w, hr⟩
  · rename_i l r simple hc
    obtain ⟨he, hlt, ho⟩ := Lib.createNewRequest_pools h.pools hc
    exact PoolInv.createFinish (h.setLib he) fun hs => ho (Or.inl hs)

theorem cleanupFinish {r : ReqId} {caller : Caller}
    (hc : ∀ i, caller = .session i → ∀ r', (m.lib.session i).requests.tail.head? = some r' →
      ∀ p, m.lib.poolView.owner r' = some p → m.lib.poolView.inCallback p = false) :
    (m.cleanupFinish r caller).PoolInv := by
  unfold Machine.cleanupFinish
  cases caller with
  | command => exact h.setLib_of_eq (by simp)
  | simple => exact h.setLib_of_eq (by simp)
  | session i =>
    apply PoolInv.sessionFreeLoop (h.setLib_of_eq (by simp))
    have hq : (((m.lib.requestFreeFinish r).dropRequest i).session i).requests =
        (m.lib.session i).requests.tail := by simp [Lib.dropRequest, Lib.modifySession]
    simp only [Machine.setLib, Lib.poolView_dropRequest, Lib.poolView_requestFreeFinish, hq]
    exact hc i rfl

theorem lt_of_enabled_source {p : PoolId}
    (ha : (m.scriptMayRun && decide (p ∈ m.lib.sources) && ! m.lib.poolFreed p) = true) :
    p < m.lib.nextPool := by
  simp only [Bool.and_eq_true, decide_eq_true_eq, Bool.not_eq_eq_eq_not, Bool.not_true] at ha
  exact h.pools.lt_of_mem_sources ha.1.2 ha.2

/-- The frame of a pool that is performed goes together with the running callback. -/
theorem performReturn {p : PoolId} {wf : Bool} {stack : List Frame}
    (hs : m.stack = .perform p wf :: stack) :
    PoolInv { m with lib := m.lib.setInCallback p false, stack := stack } ∧
      (m.lib.setInCallback p false).poolView.inCallback p = false := by
  have hon := (h.callback p).mpr (by simp [hs])
  have hnd := h.nodup
  rw [hs, performing_perform, List.nodup_cons] at hnd
  refine ⟨⟨h.pools.setInCallback (h.pools.lt_of_inCallback hon) false, fun x => ?_, hnd.2,
    fun r s w hrun => h.running r s w (by rw [hs]; simp [hrun])⟩, ?_⟩
  · rw [Lib.poolView_setInCallback, PoolView.inCallback_setInCallback]
    split_ifs with hx
    · rw [hx]; simp [hnd.1]
    · rw [h.callback x, hs, performing_perform, List.mem_cons]; simp [hx]
  · rw [Lib.poolView_setInCallback, PoolView.inCallback_setInCallback, if_pos rfl]

theorem next {api : Api} {a : Action}
    (ha : m.enabled a = true) (hr : m.Removable a) : (m.next api a).PoolInv := by
  cases a with
  | sessionCmd interp objv share =>
    simp only [Machine.next]
    split
    · exact h.setResult _
    · rename_i l i hl
      exact PoolInv.setResult (h.setLib_of_eq (Lib.poolView_sessionCmd hl)) _
  | requestCmd interp name clientData args env =>
    simp only [Machine.next]
    split
    · exact h.setResult _
    · exact h.createNewRequest
  | sessionHandle i name args env =>
    simp only [Machine.next]
    split
    · exact h.setResult _
    · rename_i hcall
      exact PoolInv.deleteSessionCommand (h.setResult _) fun r hhead =>
        hr r (by simp only [releases, hcall]; exact hhead)
    · exact h.createNewRequest
  | requestDestroy r byRename =>
    refine next_requestDestroy_rule ?_ fun _ _ => ?_
    · exact PoolInv.deleteRequestCommand (h.setResult _) fun ha => hr r (if_pos ha)
    · exact ⟨h.pools, h.callback, h.nodup, fun r s w hr => h.running r s w (by simpa using hr)⟩
  | poolEventSetup p b t =>
    have hp := h.lt_of_enabled_source ha
    exact h.setLib (Lib.evolves_poolEventSetup h.pools hp b t)
  | poolEventCheck p b w =>
    have hp := h.lt_of_enabled_source ha
    have he := Lib.evolves_poolEventCheckStart (n := m.lib.nextRequest) h.pools hp b w
    simp only [Machine.next]
    split_ifs with hc
    · rw [Bool.and_eq_true, Bool.not_eq_eq_eq_not, Bool.not_true] at hc
      have hoff : m.lib.poolView.inCallback p = false := (he.inCallback p).symm.trans hc.2
      have hp' : p < (m.lib.poolEventCheckStart p b w).1.poolView.nextPool := by
        rw [Lib.nextPool_poolEventCheckStart]; exact hp
      exact
        { pools := he.ok.setInCallback hp' true
          callback := fun x => by
            rw [Lib.poolView_setInCallback, PoolView.inCallback_setInCallback, performing_perform,
              List.mem_cons]
            split_ifs with hx
            · simp [hx]
            · rw [he.inCallback x, h.callback x]; simp [hx]
          nodup := by
            rw [performing_perform, List.nodup_cons, ← h.callback p, hoff]
            exact ⟨Bool.false_ne_true, h.nodup⟩
          running := fun r s wf hrun => by
            have hrun' : .run r s wf ∈ m.stack := by simpa using hrun
            obtain ⟨hlt, ho⟩ := h.running r s wf hrun'
            exact ⟨Nat.lt_of_lt_of_le hlt he.next, he.owner_none hlt ho⟩ }
    · exact h.setLib he
  | serviceEvent b =>
    simp only [Machine.next, Lib.serviceEvent]
    split
    · exact h.setLib_of_eq (by simp; rfl)
    · rename_i p hp
      refine h.setLib ⟨h.pools.deactivate p, fun x => ?_, fun _ _ ho => Or.inl ho, Nat.le_refl _⟩
      by_cases hx : x = p
      · subst hx; simp [PoolView.inCallback, Lib.poolDeactivate, Lib.modifyPool]
      · simp [PoolView.inCallback, Lib.poolDeactivate, Lib.modifyPool, hx]
    · exact h.setLib_of_eq rfl
    · exact h.setLib_of_eq rfl
  | queueOther b => exact h.setLib_of_eq rfl
  | interpDelete i =>
    exact h.of_evolves h.pools.evolves_refl rfl fun r s w hr => Or.inl ⟨s, w, by simpa using hr⟩
  | interpDeleteCommand tok =>
    cases tok with
    | request r => exact h.deleteRequestCommand fun ha => hr r (if_pos ha)
    | session i => exact h.deleteSessionCommand fun r hhead => hr r hhead
  | interpDeleteDone =>
    obtain ⟨i, hs, -⟩ := enabled_interpDeleteDone ha
    have ht : m.stack.tail = [] := by rw [hs, List.tail_cons]
    simp only [Machine.next, ht]
    exact h.tail hs rfl
  | threadExit =>
    exact h.setLib (Lib.evolves_poolThreadExitProc h.pools fun p =>
      h.inCallback_of_notMem (by simp [enabled_threadExit ha]))
  | curlComplete r result =>
    obtain ⟨p, wf, stack, hs, hmem, hrun⟩ := enabled_curlComplete ha
    simp only [Machine.next, hs]
    have hp : p < m.lib.nextPool := h.pools.lt_of_inCallback ((h.callback p).mpr (by simp [hs]))
    have := h.setLib (l := m.lib.poolComplete p r result)
      (h.pools.evolves_complete hp hmem hrun result)
    exact this
  | curlWriteError r size contentSize result =>
    have hv : (m.lib.requestSetError r (writeErrorText size contentSize)).poolView =
      m.lib.poolView := by simp
    rcases enabled_curlWriteError ha with ⟨p, wf, stack, hs, hmem, -⟩ | ⟨simple, wf, stack, hs⟩
    · simp only [Machine.next, hs]
      have hp : p < m.lib.nextPool := h.pools.lt_of_inCallback ((h.callback p).mpr (by simp [hs]))
      refine h.of_evolves ?_ (by simp [hs]) fun r' s w hrun => Or.inl ⟨s, w, ?_⟩
      · rw [Lib.poolView_poolComplete, hv]
        exact h.pools.evolves_complete hp hmem.1 hmem.2 result
      · rw [hs]; simpa using hrun
    · simp only [Machine.next, hs]
      refine h.of_evolves (by rw [hv]; exact h.pools.evolves_refl) (by simp [hs])
        fun x s w hrun => Or.inl ?_
      rcases List.mem_cons.mp hrun with hrun | hrun
      · cases hrun
        exact ⟨simple, wf, by simp [hs]⟩
      · exact ⟨s, w, by simp [hs, hrun]⟩
  | performReturn ok =>
    obtain ⟨p, wf, stack, hs, -⟩ := enabled_performReturn ha
    simp only [Machine.next, hs]
    obtain ⟨h₁, hoff⟩ := h.performReturn hs
    cases ok with
    | false => exact h₁
    | true => exact h₁.setLib (Lib.evolves_poolEventCheckFinish h₁.pools hoff _)
  | easyPerformReturn res =>
    obtain ⟨r, simple, wf, stack, hs, -⟩ := enabled_easyPerformReturn ha
    simp only [Machine.next, hs]
    have ho := (h.running r simple wf (by simp [hs])).2
    have h₁ := h.tail hs rfl
    apply PoolInv.createFinish (h₁.setLib_of_eq (by simp))
    intro _
    simpa [Machine.setLib] using ho
  | cleanupReturn =>
    obtain ⟨r, caller, stack, hs⟩ := enabled_cleanupReturn ha
    simp only [Machine.next, hs]
    apply PoolInv.cleanupFinish (h.tail hs rfl)
    rintro i rfl r' hhead p
    exact hr r' (by simp only [releases, hs]; exact hhead) p

end Trequests.Machine.PoolInv
