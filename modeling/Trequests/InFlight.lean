import Trequests.Callbacks
import Trequests.Outcome

/-! Where a request is. Nothing else drives a request whose transfer has not ended than the
pool it is in, or the `curl_easy_perform` that waits for it: a request that is neither over
nor in one of these places would stay in progress for good, and its callback would never
run. Only the removal of a request from its pool leaves one behind, and this is the
beginning of its release, or the end of the thread. -/

namespace Trequests

/-- The request is over, or in a pool. -/
def Told.Placed (t : Told) : Prop := t.state.Final ∨ t.pool ≠ none

theorem finalState_final (res : CURLcode) : (finalState res).Final := by
  unfold finalState
  split_ifs
  · exact Or.inl rfl
  · exact Or.inr rfl

namespace Lib
variable {l l' : Lib} {r : ReqId} {p : PoolId}

/-- What is written about one request leaves the others where they are. -/
theorem placed_of_update {t : Told} (h : l'.told = Function.update l.told r t)
    (ht : (l.told r).Placed → t.Placed) {x : ReqId} (hx : (l.told x).Placed) :
    (l'.told x).Placed := by
  rw [h]
  by_cases hxr : x = r
  · subst hxr
    rw [Function.update_self]
    exact ht hx
  · rwa [Function.update_of_ne hxr]

/-! ### The procedures -/

theorem placed_requestRunError (e : Str) : ((l.requestRunError r e).told r).Placed := by
  have hset : ((l.requestSetError r e).told r).Placed := by
    rw [told_requestSetError, Function.update_self]
    exact Or.inl (Or.inr rfl)
  simp only [requestRunError]
  split_ifs
  · rwa [told_requestScheduleCallback]
  · exact hset

theorem placed_poolAddRequest {env : CurlEnv} (h : (l.poolAddRequest env r).2 = true) :
    ((l.poolAddRequest env r).1.told r).Placed := by
  have htry : ∀ (l : Lib) (p : PoolId), (l.poolTryInsert env p r).2 = true →
      ((l.poolTryInsert env p r).1.told r).Placed := by
    intro l p h
    unfold poolTryInsert at h ⊢
    split_ifs at h ⊢ with hc
    rw [told_poolInsert, Function.update_self]
    exact Or.inr (Option.some_ne_none p)
  unfold poolAddRequest at h ⊢
  split at h
  · exact htry _ _ h
  · split_ifs at h ⊢ with hi
    exact htry _ _ h

/-- A request that does not go on to `curl_easy_perform` is in the pool, or has failed. -/
theorem placed_requestRunStart {env : CurlEnv} (h : (l.requestRunStart env r).2 = false) :
    ((l.requestRunStart env r).1.told r).Placed := by
  simp only [requestRunStart] at h ⊢
  split at h
  · exact placed_requestRunError _
  · split_ifs at h ⊢ with ha hadd
    · exact placed_poolAddRequest hadd
    · exact placed_requestRunError _

theorem placed_createNewRequest {api : Api} {env : CurlEnv} {interp : InterpId} {call : CreateCall}
    {session : Option SesId} {simple : Bool}
    (hc : l.createNewRequest api env interp call session = .created l' r simple false) :
    (l'.told r).Placed := by
  obtain ⟨opt, l₁, -, -, -, hrun⟩ := createNewRequest_eq_created hc
  rw [← show _ = l' from congrArg Prod.fst hrun]
  exact placed_requestRunStart (congrArg Prod.snd hrun)

/-- The removal of a request concerns no other one; a request in progress fails, unless
its interpreter is gone. -/
theorem told_poolRemoveRequest : ∃ t : Told, t.pool = none ∧
    (l.poolRemoveRequest r).told = Function.update l.told r t ∧
      (((l.told r).pool ≠ none → ((l.told r).state = .inprogress ∨ (l.told r).state.Final) ∧
        l.interpDeleted (l.request r).interp = false) → (l.told r).Placed → t.Placed) := by
  unfold poolRemoveRequest
  cases hp : (l.request r).pool with
  | none =>
    have ho : (l.told r).pool = none := hp
    exact ⟨l.told r, ho, (Function.update_eq_self r l.told).symm, fun _ hr => hr⟩
  | some p =>
    have ho : (l.told r).pool ≠ none := by simp [told, Request.told, hp]
    change ∃ t : Told, t.pool = none ∧ ((l.poolDetach p r).poolAbort r).told = _ ∧ _
    set l₁ := l.poolDetach p r
    have h₁ : l₁.told = Function.update l.told r ⟨(l.told r).state, (l.told r).error, none⟩ :=
      told_poolDetach
    have hstate : (l₁.request r).state = (l.told r).state := by
      have : (l₁.told r).state = (l.told r).state := by rw [h₁, Function.update_self]
      exact this
    have hdeleted : l₁.interpDeleted (l₁.request r).interp =
        l.interpDeleted (l.request r).interp := by
      have hv := l.lifeView_poolDetach r p
      have hi : (l₁.request r).interp = (l.request r).interp :=
        congrFun (congrArg LifeView.interp hv) r
      have hd : l₁.interpDeleted = l.interpDeleted := congrArg LifeView.interpDeleted hv
      rw [hi, hd]
    simp only [poolAbort, hstate, hdeleted]
    split_ifs with hs hd
    · exact ⟨_, rfl, h₁, fun hn => absurd hd (by simp [(hn ho).2])⟩
    · set e := lit "the request has been removed from async pool"
      refine ⟨⟨.error, some e, none⟩, rfl, ?_, fun _ _ => Or.inl (Or.inr rfl)⟩
      rw [told_requestScheduleCallback, told_requestSetError, told_setState, h₁]
      simp only [Function.update_idem, Function.update_self]
    · exact ⟨_, rfl, h₁, fun hn _ => Or.inl ((hn ho).1.resolve_left hs)⟩

theorem told_requestFreeStart : ∃ t, (l.requestFreeStart r).told = Function.update l.told r t := by
  obtain ⟨t, -, ht, -⟩ :=
    told_poolRemoveRequest (l := (l.detachCallbackEvent r).sessionRemoveRequest r) (r := r)
  have hdetach : (l.detachCallbackEvent r).told = l.told := by
    unfold detachCallbackEvent
    cases (l.request r).callbackEvent <;> rfl
  rw [told_sessionRemoveRequest, hdetach] at ht
  exact ⟨t, ht⟩

/-- The messages that are read only place requests. -/
theorem placed_poolDrain (fuel : ℕ) {x : ReqId} (hx : (l.told x).Placed) :
    ((poolDrain p fuel l).told x).Placed := by
  induction fuel generalizing l with
  | zero => exact hx
  | succ fuel ih =>
    simp only [poolDrain]
    split
    · exact hx
    · rename_i msg msgs _
      split
      · exact ih hx
      · refine ih (placed_of_update (told_poolDrainPass msg msgs) (fun _ => ?_) hx)
        exact Or.inl (finalState_final _)

theorem placed_poolEventCheckFinish (n : ℕ) {x : ReqId} (hx : (l.told x).Placed) :
    ((l.poolEventCheckFinish p n).told x).Placed := by
  simp only [poolEventCheckFinish, poolEventCheckDrain]
  split_ifs
  · exact hx
  · exact placed_poolDrain _ hx
  · exact placed_poolDrain _ hx

/-- The requests that are in pools at the end of the thread fail. -/
theorem placed_poolFreeLoop (rs : List ReqId)
    (hs : ∀ x, (l.told x).pool ≠ none → (l.told x).state = .inprogress ∨ (l.told x).state.Final)
    (hd : ∀ x, (l.told x).pool ≠ none → l.interpDeleted (l.request x).interp = false)
    {x : ReqId} (hx : (l.told x).Placed) : ((poolFreeLoop p rs l).told x).Placed := by
  induction rs generalizing l with
  | nil => exact hx
  | cons r rs ih =>
    obtain ⟨t, hnone, ht, hplaced⟩ := told_poolRemoveRequest (l := l) (r := r)
    have hv := l.lifeView_poolRemoveRequest r
    have hinterp : ∀ y, (l.poolRemoveRequest r).interpDeleted
        ((l.poolRemoveRequest r).request y).interp = l.interpDeleted (l.request y).interp := by
      intro y
      have hi := congrFun (congrArg LifeView.interp hv) y
      have hdel := congrArg LifeView.interpDeleted hv
      exact (congrFun hdel _).trans (congrArg l.interpDeleted hi)
    set l₁ := (l.poolRemoveRequest r).modifyPool p fun q => { q with requests := q.requests.tail }
    have h₁ : l₁.told = Function.update l.told r t := ht
    have hstay : ∀ y, (l₁.told y).pool ≠ none → y ≠ r ∧ l₁.told y = l.told y := by
      intro y hy
      by_cases hyr : y = r
      · subst hyr
        rw [h₁, Function.update_self] at hy
        exact absurd hnone hy
      · exact ⟨hyr, by rw [h₁, Function.update_of_ne hyr]⟩
    refine ih (fun y hy => ?_) (fun y hy => ?_) (placed_of_update h₁ ?_ hx)
    · have he := (hstay y hy).2
      rw [he] at hy ⊢
      exact hs y hy
    · rw [(hstay y hy).2] at hy
      exact (hinterp y).trans (hd y hy)
    · exact hplaced fun hne => ⟨hs r hne, hd r hne⟩

theorem placed_poolThreadExitProc
    (hs : ∀ x, (l.told x).pool ≠ none → (l.told x).state = .inprogress ∨ (l.told x).state.Final)
    (hd : ∀ x, (l.told x).pool ≠ none → l.interpDeleted (l.request x).interp = false)
    {x : ReqId} (hx : (l.told x).Placed) : (l.poolThreadExitProc.told x).Placed := by
  unfold poolThreadExitProc
  cases l.poolDefault with
  | none => exact hx
  | some p =>
    exact placed_poolFreeLoop (l := l.modifyPool p fun q => { q with isDead := true }) _ hs hd hx

end Lib

/-! ### The machine -/

namespace Machine

/-- Every request is being released, or in `curl_easy_perform`, or in its place. -/
def AllPlaced (m : Machine) : Prop :=
  ∀ r < m.lib.nextRequest, m.Gone r ∨ r ∈ m.runs ∨ (m.lib.told r).Placed

namespace AllPlaced
variable {m m' : Machine} (h : m.AllPlaced)
include h

/-- A step that creates no request, brings none back and ends no sync run. -/
theorem of_placed (hn : m'.lib.nextRequest = m.lib.nextRequest) (hg : ∀ r, m.Gone r → m'.Gone r)
    (hr : ∀ r ∈ m.runs, r ∈ m'.runs)
    (ht : ∀ r, ¬ m'.Gone r → (m.lib.told r).Placed → (m'.lib.told r).Placed) : m'.AllPlaced := by
  intro r hlt
  rcases h r (hn ▸ hlt) with hgone | hrun | hp
  · exact Or.inl (hg r hgone)
  · exact Or.inr (Or.inl (hr r hrun))
  · by_cases hgone : m'.Gone r
    · exact Or.inl hgone
    · exact Or.inr (Or.inr (ht r hgone hp))

theorem of_eq {l : Lib} {stack : List Frame} {result : CmdResult}
    (hn : l.nextRequest = m.lib.nextRequest) (hf : l.freed = m.lib.freed)
    (hc : ∀ r caller, .cleanup r caller ∈ m.stack → .cleanup r caller ∈ stack)
    (hr : ∀ r ∈ m.runs, r ∈ stack.filterMap Frame.runs)
    (ht : ∀ r, (m.lib.told r).Placed → (l.told r).Placed) : AllPlaced ⟨l, stack, result⟩ := by
  refine h.of_placed hn (fun r hg => ?_) hr fun r _ => ht r
  exact hg.imp (fun hne => by rwa [hf]) fun ⟨c, hm⟩ => ⟨c, hc r c hm⟩

theorem setLib {l : Lib} (hn : l.nextRequest = m.lib.nextRequest) (hf : l.freed = m.lib.freed)
    (ht : l.told = m.lib.told) : (m.setLib l).AllPlaced :=
  h.of_eq hn hf (fun _ _ hm => hm) (fun _ hr => hr) fun _ hp => ht ▸ hp

theorem requestFree (r : ReqId) (caller : Caller) : (m.requestFree r caller).AllPlaced := by
  obtain ⟨t, ht⟩ := m.lib.told_requestFreeStart (r := r)
  have hn : (m.lib.requestFreeStart r).nextRequest = m.lib.nextRequest := by
    have hv := m.lib.lifeView_requestFreeStart r
    rw [LifeView.sessionRemove_eq] at hv
    exact congrArg LifeView.nextRequest hv
  refine h.of_placed hn (Advances.requestFree r caller).gone (fun x hx => hx) fun x hx hp => ?_
  have hxr : x ≠ r := by
    rintro rfl
    exact hx (Or.inr ⟨caller, List.mem_cons_self⟩)
  change ((m.lib.requestFreeStart r).told x).Placed
  rwa [ht, Function.update_of_ne hxr]

theorem sessionFreeLoop (i : SesId) : (m.sessionFreeLoop i).AllPlaced := by
  unfold Machine.sessionFreeLoop
  split
  · exact h.setLib rfl rfl rfl
  · rename_i r rs _
    have hclear : (m.setLib (m.lib.clearSession r)).AllPlaced :=
      h.setLib rfl rfl (Lib.told_modifyRequest_of_eq (fun q => { q with session := none }) rfl)
    exact hclear.requestFree r (.session i)

theorem deleteCommand (tok : CmdToken) : (m.setLib (m.lib.deleteCommand tok)).AllPlaced := by
  unfold Lib.deleteCommand
  split
  · exact h.setLib rfl rfl rfl
  · exact h.setLib rfl rfl rfl
  · exact h.setLib rfl rfl rfl

theorem deleteRequestCommand (r : ReqId) : (m.deleteRequestCommand r).AllPlaced := by
  unfold Machine.deleteRequestCommand
  split
  · split_ifs
    · exact h.setLib rfl rfl rfl
    · have hclear : (m.setLib
          ((m.lib.setCommand (.request r) .deleting).clearCmdToken r)).AllPlaced :=
        h.setLib rfl rfl (Lib.told_modifyRequest_of_eq (fun q => { q with cmdToken := false }) rfl)
      exact hclear.requestFree r .command
  · exact h.deleteCommand _

theorem deleteSessionCommand (i : SesId) : (m.deleteSessionCommand i).AllPlaced := by
  unfold Machine.deleteSessionCommand
  split
  · have hdelete : (m.setLib (m.lib.setCommand (.session i) .deleting)).AllPlaced :=
      h.setLib rfl rfl rfl
    exact hdelete.sessionFreeLoop i
  · exact h.deleteCommand _

theorem createFinish (r : ReqId) (simple : Bool) : (m.createFinish r simple).AllPlaced := by
  unfold Machine.createFinish
  split_ifs
  · exact requestFree (m := { m with result := _ }) h r .simple
  · have htold := m.lib.told_modifyRequest_of_eq (r := r) (fun q => { q with cmdToken := true }) rfl
    exact h.of_eq rfl rfl (fun _ _ hm => hm) (fun _ hx => hx) fun _ hp => htold ▸ hp

theorem createNewRequest (api : Api) (env : CurlEnv) (interp : InterpId) (call : CreateCall)
    (session : Option SesId) : (m.createNewRequest api env interp call session).AllPlaced := by
  have hcreated : ∀ {l r simple performing stack},
      m.lib.createNewRequest api env interp call session = .created l r simple performing →
      (performing = false ∨ r ∈ stack.filterMap Frame.runs) → m.stack <:+ stack →
      AllPlaced { m with lib := l, stack := stack } := by
    intro l r simple performing stack hc hplace hsuffix x hlt
    obtain ⟨-, hv⟩ := m.lib.lifeView_createNewRequest _ hc
    obtain ⟨rfl, t, -, ht⟩ := Lib.told_createNewRequest hc
    have hnext : l.nextRequest = m.lib.nextRequest + 1 := congrArg LifeView.nextRequest hv
    have hfreed : l.freed = m.lib.freed := congrArg LifeView.freed hv
    by_cases hx : x = m.lib.nextRequest
    · subst hx
      rcases hplace with rfl | hrun
      · exact Or.inr (Or.inr (Lib.placed_createNewRequest hc))
      · exact Or.inr (Or.inl hrun)
    · have hold : x < m.lib.nextRequest :=
        Nat.lt_of_le_of_ne (Nat.le_of_lt_succ (Nat.lt_of_lt_of_eq hlt hnext)) hx
      have htold : l.told x = m.lib.told x := by rw [ht, Function.update_of_ne hx]
      rcases h x hold with hg | hrun | hp
      · left
        exact hg.imp (fun hne => by rwa [hfreed]) fun ⟨c, hm⟩ => ⟨c, hsuffix.subset hm⟩
      · exact Or.inr (Or.inl ((hsuffix.filterMap _).subset hrun))
      · exact Or.inr (Or.inr (htold ▸ hp))
  unfold Machine.createNewRequest
  split
  · exact h.of_eq rfl rfl (fun _ _ hm => hm) (fun _ hr => hr) fun _ hp => hp
  · rename_i l r simple hc
    exact hcreated hc (Or.inr List.mem_cons_self) (List.suffix_cons _ _)
  · rename_i l r simple hc
    exact createFinish (hcreated hc (Or.inl rfl) (List.suffix_refl _)) r simple

theorem cleanupFinish {r : ReqId} {caller : Caller} {stack : List Frame}
    (hs : m.stack = .cleanup r caller :: stack) :
    (({ m with stack := stack } : Machine).cleanupFinish r caller).AllPlaced := by
  have hruns : m.runs = stack.filterMap Frame.runs := by rw [runs, hs]; rfl
  have hfree : AllPlaced ⟨m.lib.requestFreeFinish r, stack, m.result⟩ := by
    have ht : (m.lib.requestFreeFinish r).told = m.lib.told := Lib.told_requestFreeFinish
    refine h.of_placed Lib.nextRequest_requestFreeFinish (fun x hx => gone_requestFreeFinish hs hx)
      (fun x hx => ?_) fun x _ hp => ?_
    · rwa [hruns] at hx
    · change ((m.lib.requestFreeFinish r).told x).Placed
      rwa [ht]
  cases caller with
  | command => exact hfree.setLib rfl rfl rfl
  | simple => exact hfree
  | session i =>
    have hdrop : AllPlaced ⟨(m.lib.requestFreeFinish r).dropRequest i, stack, m.result⟩ :=
      hfree.setLib rfl rfl rfl
    exact hdrop.sessionFreeLoop i

theorem next {api : Api} {a : Action} (ha : m.enabled a = true)
    (hx : a = .threadExit → ∀ r p, m.lib.poolView.owner r = some p →
      ((m.lib.request r).state = .inprogress ∨ (m.lib.request r).state.Final) ∧
        m.lib.interpDeleted (m.lib.request r).interp = false) : (m.next api a).AllPlaced := by
  -- the procedures that leave the stack alone, and what is written about the requests
  have hkeep : ∀ {l : Lib} {result : CmdResult}, l.nextRequest = m.lib.nextRequest →
      l.freed = m.lib.freed → l.told = m.lib.told → AllPlaced ⟨l, m.stack, result⟩ :=
    fun hn hf ht => h.of_eq hn hf (fun _ _ hm => hm) (fun _ hr => hr) fun _ hp => ht ▸ hp
  cases a with
  | sessionCmd interp objv share =>
    simp only [Machine.next]
    split
    · exact hkeep rfl rfl rfl
    · rename_i l i hc
      unfold Lib.sessionCmd at hc
      split at hc
      · cases hc
      · split_ifs at hc
        cases hc
        exact hkeep rfl rfl rfl
  | requestCmd interp name clientData args env =>
    simp only [Machine.next]
    split
    · exact hkeep rfl rfl rfl
    · exact h.createNewRequest api env _ _ _
  | sessionHandle i name args env =>
    simp only [Machine.next]
    split
    · exact hkeep rfl rfl rfl
    · exact deleteSessionCommand (m := { m with result := .empty }) (hkeep rfl rfl rfl) i
    · exact h.createNewRequest api env _ _ _
  | requestDestroy r byRename =>
    refine next_requestDestroy_rule ?_ fun _ _ => ?_
    · exact deleteRequestCommand (m := { m with result := .empty }) (hkeep rfl rfl rfl) r
    · exact h.of_eq rfl rfl (fun _ _ hm => List.mem_cons_of_mem _ hm) (fun _ hr => hr)
        fun _ hp => hp
  | poolEventSetup p b t =>
    obtain ⟨v, hv⟩ := m.lib.poolEventSetup_eq p b t
    simp only [Machine.next, hv]
    exact hkeep rfl rfl rfl
  | poolEventCheck p b w =>
    obtain ⟨v, hv⟩ := m.lib.poolEventCheckStart_eq p b w
    simp only [Machine.next, hv]
    split_ifs
    · exact h.of_eq rfl rfl (fun _ _ hm => List.mem_cons_of_mem _ hm) (fun _ hr => hr)
        fun _ hp => hp
    · exact hkeep rfl rfl rfl
  | serviceEvent b =>
    simp only [Machine.next, Lib.serviceEvent]
    split
    · rename_i id req _
      cases req with
      | none => exact hkeep rfl rfl rfl
      | some r =>
        exact hkeep rfl rfl
          (m.lib.told_modifyRequest_of_eq (r := r) (fun q => { q with callbackEvent := none }) rfl)
    · exact hkeep rfl rfl rfl
    · exact hkeep rfl rfl rfl
    · exact hkeep rfl rfl rfl
  | queueOther b => exact hkeep rfl rfl rfl
  | interpDelete i =>
    exact h.of_eq rfl rfl (fun _ _ hm => List.mem_cons_of_mem _ hm) (fun _ hr => hr) fun _ hp => hp
  | interpDeleteCommand tok =>
    cases tok with
    | request r => exact h.deleteRequestCommand r
    | session i => exact h.deleteSessionCommand i
  | interpDeleteDone =>
    obtain ⟨i, hs, -⟩ := enabled_interpDeleteDone ha
    refine h.of_eq rfl rfl (fun r c hm => ?_) (fun r hr => ?_) fun _ hp => hp
    · simp [hs] at hm
    · simp [runs, hs, Frame.runs] at hr
  | threadExit =>
    have hpool : ∀ x, (m.lib.told x).pool ≠ none → ∃ p, m.lib.poolView.owner x = some p :=
      fun x => Option.ne_none_iff_exists'.mp
    have hv := m.lib.lifeView_poolThreadExitProc
    refine h.of_eq (congrArg LifeView.nextRequest hv) (congrArg LifeView.freed hv)
      (fun _ _ hm => hm) (fun _ hr => hr) fun r hp => Lib.placed_poolThreadExitProc ?_ ?_ hp
    · intro x hne
      obtain ⟨p, ho⟩ := hpool x hne
      exact (hx rfl x p ho).1
    · intro x hne
      obtain ⟨p, ho⟩ := hpool x hne
      exact (hx rfl x p ho).2
  | curlComplete r result =>
    simp only [Machine.next]
    split
    · exact hkeep rfl rfl rfl
    · exact h
  | curlWriteError r size contentSize result =>
    have hset : ∀ x, (m.lib.told x).Placed →
        ((m.lib.requestSetError r (writeErrorText size contentSize)).told x).Placed := fun x hp =>
      Lib.placed_of_update (Lib.told_requestSetError _) (fun _ => Or.inl (Or.inr rfl)) hp
    simp only [Machine.next]
    split
    · rename_i p wf stack hs
      refine h.of_eq rfl rfl (fun x c hm => ?_) (fun x hr => ?_) hset
      · simpa [hs] using hm
      · simpa [runs, hs, Frame.runs] using hr
    · rename_i r' simple wf stack hs
      refine h.of_eq rfl rfl (fun x c hm => ?_) (fun x hr => ?_) hset
      · simpa [hs] using hm
      · simpa [runs, hs, Frame.runs] using hr
    · exact h
  | performReturn ok =>
    obtain ⟨p, wf, stack, hs, -⟩ := enabled_performReturn ha
    have hpop : AllPlaced { m with lib := m.lib.setInCallback p false, stack := stack } := by
      refine h.of_eq rfl rfl (fun x c hm => ?_) (fun x hr => ?_) fun _ hp => hp
      · simpa [hs] using hm
      · simpa [runs, hs, Frame.runs] using hr
    simp only [Machine.next, hs]
    cases ok with
    | false => exact hpop
    | true =>
      set l := m.lib.setInCallback p false
      have hv := l.lifeView_poolEventCheckFinish p (l.pool p).curlMulti.running
      exact hpop.of_eq (congrArg LifeView.nextRequest hv) (congrArg LifeView.freed hv)
        (fun _ _ hm => hm) (fun _ hr => hr) fun _ hp => Lib.placed_poolEventCheckFinish _ hp
  | easyPerformReturn res =>
    obtain ⟨r, simple, wf, stack, hs, -⟩ := enabled_easyPerformReturn ha
    have ht : (m.lib.requestRunFinish r res).told =
        Function.update m.lib.told r ⟨finalState res, (m.lib.told r).error, (m.lib.told r).pool⟩ :=
      Lib.told_setState _
    have hpop : AllPlaced { m with lib := m.lib.requestRunFinish r res, stack := stack } := by
      intro x hlt
      by_cases hxr : x = r
      · subst hxr
        right
        right
        change ((m.lib.requestRunFinish x res).told x).Placed
        rw [ht, Function.update_self]
        exact Or.inl (finalState_final res)
      · rcases h x hlt with hg | hrun | hp
        · left
          refine hg.imp_right ?_
          rintro ⟨c, hm⟩
          exact ⟨c, by simpa [hs] using hm⟩
        · right
          left
          simpa [runs, hs, Frame.runs, hxr] using hrun
        · right
          right
          change ((m.lib.requestRunFinish r res).told x).Placed
          rwa [ht, Function.update_of_ne hxr]
    simp only [Machine.next, hs]
    exact hpop.createFinish r simple
  | cleanupReturn =>
    obtain ⟨r, caller, stack, hs⟩ := enabled_cleanupReturn ha
    simp only [Machine.next, hs]
    exact h.cleanupFinish hs

end AllPlaced

/-! ### Runs -/

variable {api : Api} {as : List Action} {m : Machine}

/-- What is in order, and every request in its place. -/
def Settled (m : Machine) : Prop :=
  m.AllPlaced ∧ (m.PoolInv ∧ m.LifeOk) ∧ m.ScheduleOk ∧ m.CommandsOk

end Machine

end Trequests
