import Trequests.Completion
import Trequests.LifetimeMachine

/-! What the state of a request says. The library learns how a transfer has ended from
`curl_easy_perform` and from the messages of a pool. On its own it finds that a request
cannot be started, that it is removed while in progress, or that its body cannot be
stored, and it keeps a text that says so. A request is done exactly if libcurl has
reported success, and in error exactly if it has reported a failure or there is such a
text. -/

namespace Trequests

/-- The state that a result of libcurl leaves a request in. -/
def finalState (res : CURLcode) : RequestState := if res = curleOk then .done else .error

/-- What a request tells about its transfer. -/
structure Told where
  state : RequestState
  error : Option Str
  pool : Option PoolId

namespace Told
variable {t t' t'' : Told}

/-- The request is not over. -/
def Open (t : Told) : Prop := t.state ≠ .done ∧ t.state ≠ .error ∧ t.error = none

/-- The library has found an error itself. -/
def Failed (t : Told) : Prop := t.state = .error ∧ t.error ≠ none

/-- What becomes of a request while no result is read. -/
structure Goes (t t' : Told) : Prop where
  tells : t'.state = t.state ∧ t'.error = t.error ∨ t.state ≠ .done ∧ t'.Failed
  pool : t'.pool = t.pool ∨ t'.pool = none

theorem Goes.refl (t : Told) : t.Goes t := ⟨Or.inl ⟨rfl, rfl⟩, Or.inl rfl⟩

theorem Goes.trans (h : t.Goes t') (h' : t'.Goes t'') : t.Goes t'' where
  tells := by
    rcases h'.tells with ⟨hs, he⟩ | ⟨hne, hf⟩
    · rcases h.tells with ⟨hs₁, he₁⟩ | ⟨hne, hs₁, he₁⟩
      · exact Or.inl ⟨hs.trans hs₁, he.trans he₁⟩
      · exact Or.inr ⟨hne, hs.trans hs₁, he ▸ he₁⟩
    · rcases h.tells with ⟨hs₁, -⟩ | ⟨hne₁, -⟩
      · exact Or.inr ⟨hs₁ ▸ hne, hf⟩
      · exact Or.inr ⟨hne₁, hf⟩
  pool := h'.pool.elim (fun hp => h.pool.imp hp.trans hp.trans) Or.inr

/-- A request without a result keeps being one of the two. -/
theorem Goes.open_or_failed (h : t.Goes t') (ht : t.Open ∨ t.Failed) : t'.Open ∨ t'.Failed := by
  rcases h.tells with ⟨hs, he⟩ | ⟨-, hf⟩
  · simpa only [Open, Failed, hs, he] using ht
  · exact Or.inr hf

end Told

def Request.told (q : Request) : Told := ⟨q.state, q.error, q.pool⟩

namespace Lib

def told (l : Lib) (r : ReqId) : Told := (l.request r).told

/-- What a procedure that reads no result does to the requests. -/
structure Goes (l l' : Lib) : Prop where
  mono : l.nextRequest ≤ l'.nextRequest
  old : ∀ r < l.nextRequest, (l.told r).Goes (l'.told r)
  new : ∀ r < l'.nextRequest, l.nextRequest ≤ r → (l'.told r).Open ∨ (l'.told r).Failed

variable {l l' l'' : Lib} {r : ReqId} {p : PoolId}

namespace Goes

theorem of_goes (h : ∀ r, (l.told r).Goes (l'.told r)) (hn : l'.nextRequest = l.nextRequest) :
    Goes l l' :=
  ⟨hn.ge, fun r _ => h r, fun _ hr hle => absurd hr (Nat.not_lt_of_le (hn ▸ hle))⟩

theorem of_eq (h : l'.told = l.told) (hn : l'.nextRequest = l.nextRequest) : Goes l l' :=
  of_goes (fun _ => h ▸ .refl _) hn

theorem of_update {t : Told} (h : l'.told = Function.update l.told r t) (ht : (l.told r).Goes t)
    (hn : l'.nextRequest = l.nextRequest) : Goes l l' := by
  refine of_goes (fun x => ?_) hn
  rw [h]
  by_cases hx : x = r
  · subst hx
    simpa using ht
  · rw [Function.update_of_ne hx]
    exact .refl _

theorem trans (h : Goes l l') (h' : Goes l' l'') : Goes l l'' where
  mono := h.mono.trans h'.mono
  old r hr := (h.old r hr).trans (h'.old r (hr.trans_le h.mono))
  new r hr hle := by
    by_cases hlt : r < l'.nextRequest
    · exact (h'.old r hlt).open_or_failed (h.new r hlt hle)
    · exact h'.new r hr (Nat.le_of_not_lt hlt)

end Goes

/-! ### The procedures -/

theorem told_modifyRequest (f : Request → Request) :
    (l.modifyRequest r f).told = Function.update l.told r (f (l.request r)).told :=
  l.field_modifyRequest r Request.told f

theorem told_modifyRequest_of_eq (f : Request → Request)
    (h : (f (l.request r)).told = (l.request r).told) : (l.modifyRequest r f).told = l.told :=
  l.field_modifyRequest_of_eq r Request.told f h

theorem told_setState (s : RequestState) :
    (l.setState r s).told = Function.update l.told r ⟨s, (l.told r).error, (l.told r).pool⟩ :=
  told_modifyRequest fun q => { q with state := s }

theorem told_requestSetError (e : Str) :
    (l.requestSetError r e).told = Function.update l.told r ⟨.error, some e, (l.told r).pool⟩ := by
  rw [requestSetError, told_setState, told_modifyRequest, Function.update_idem,
    Function.update_self]
  rfl

@[simp] theorem told_requestScheduleCallback : (l.requestScheduleCallback r).told = l.told := by
  unfold requestScheduleCallback
  split_ifs
  · rfl
  · rfl
  · exact told_modifyRequest_of_eq (fun q => { q with callbackEvent := some l.nextEvent }) rfl

@[simp] theorem nextRequest_requestScheduleCallback :
    (l.requestScheduleCallback r).nextRequest = l.nextRequest :=
  congrArg LifeView.nextRequest (l.lifeView_requestScheduleCallback r)

theorem told_poolDetach : (l.poolDetach p r).told =
    Function.update l.told r ⟨(l.told r).state, (l.told r).error, none⟩ :=
  told_modifyRequest fun q => { q with pool := none }

theorem goes_requestSetError (h : (l.request r).state ≠ .done) (e : Str) :
    Goes l (l.requestSetError r e) :=
  .of_update (told_requestSetError e) ⟨Or.inr ⟨h, rfl, by simp⟩, Or.inl rfl⟩ rfl

theorem goes_requestScheduleCallback : Goes l (l.requestScheduleCallback r) :=
  .of_eq (by simp) (by simp)

theorem goes_poolRemoveRequest : Goes l (l.poolRemoveRequest r) := by
  unfold poolRemoveRequest
  cases (l.request r).pool with
  | none => exact .of_eq rfl rfl
  | some p =>
    have hdetach : Goes l (l.poolDetach p r) :=
      .of_update told_poolDetach ⟨Or.inl ⟨rfl, rfl⟩, Or.inr rfl⟩ rfl
    refine hdetach.trans ?_
    simp only [poolAbort]
    split_ifs with hs
    · exact .of_eq rfl rfl
    · set l₁ := l.poolDetach p r
      set e := lit "the request has been removed from async pool"
      have ht : ((l₁.setState r .error).requestSetError r e).told =
          Function.update l₁.told r ⟨.error, some e, (l₁.told r).pool⟩ := by
        rw [told_requestSetError, told_setState, Function.update_idem, Function.update_self]
      have hne : (l₁.told r).state ≠ .done := by
        rw [show (l₁.told r).state = .inprogress from hs]
        decide
      exact (Goes.of_update ht ⟨Or.inr ⟨hne, rfl, by simp⟩, Or.inl rfl⟩ rfl).trans
        goes_requestScheduleCallback
    · exact .of_eq rfl rfl

theorem goes_poolFreeLoop (rs : List ReqId) : Goes l (poolFreeLoop p rs l) := by
  induction rs generalizing l with
  | nil => exact .of_eq rfl rfl
  | cons r rs ih =>
    have hpass : Goes l ((l.poolRemoveRequest r).modifyPool p fun q =>
        { q with requests := q.requests.tail }) :=
      goes_poolRemoveRequest.trans (.of_eq rfl rfl)
    exact hpass.trans ih

theorem goes_poolThreadExitProc : Goes l l.poolThreadExitProc := by
  unfold poolThreadExitProc
  cases l.poolDefault with
  | none => exact .of_eq rfl rfl
  | some p =>
    have hdead : Goes l (l.modifyPool p fun q => { q with isDead := true }) := .of_eq rfl rfl
    exact hdead.trans ((goes_poolFreeLoop _).trans (.of_eq rfl rfl))

theorem told_sessionRemoveRequest : (l.sessionRemoveRequest r).told = l.told := by
  unfold sessionRemoveRequest
  cases (l.request r).session with
  | none => rfl
  | some i => exact told_modifyRequest_of_eq (fun q => { q with session := none }) rfl

theorem goes_requestFreeStart : Goes l (l.requestFreeStart r) := by
  set l₁ := l.detachCallbackEvent r with hl₁
  have hdetach : Goes l l₁ := by
    rw [hl₁]
    unfold detachCallbackEvent
    cases (l.request r).callbackEvent <;> exact .of_eq rfl rfl
  have hremove : Goes l₁ (l₁.sessionRemoveRequest r) := by
    refine .of_eq told_sessionRemoveRequest ?_
    unfold sessionRemoveRequest
    cases (l₁.request r).session <;> rfl
  exact hdetach.trans (hremove.trans goes_poolRemoveRequest)

@[simp] theorem told_deleteCommand (tok : CmdToken) : (l.deleteCommand tok).told = l.told := by
  unfold deleteCommand
  split <;> rfl

@[simp] theorem nextRequest_deleteCommand (tok : CmdToken) :
    (l.deleteCommand tok).nextRequest = l.nextRequest := by
  unfold deleteCommand
  split <;> rfl

theorem goes_deleteCommand (tok : CmdToken) : Goes l (l.deleteCommand tok) :=
  .of_eq (told_deleteCommand tok) (nextRequest_deleteCommand tok)

theorem told_requestFreeFinish : (l.requestFreeFinish r).told = l.told := by
  change (l.requestFreeCommand r).told = l.told
  unfold requestFreeCommand
  split_ifs
  · rw [told_deleteCommand]
    exact told_modifyRequest_of_eq (fun q => { q with isDead := true }) rfl
  · rfl

theorem nextRequest_requestFreeFinish : (l.requestFreeFinish r).nextRequest = l.nextRequest := by
  change (l.requestFreeCommand r).nextRequest = l.nextRequest
  unfold requestFreeCommand
  split_ifs
  · rw [nextRequest_deleteCommand]
    rfl
  · rfl

theorem goes_requestFreeFinish : Goes l (l.requestFreeFinish r) :=
  .of_eq told_requestFreeFinish nextRequest_requestFreeFinish

theorem told_poolInsert : (l.poolInsert p r).told =
    Function.update l.told r ⟨(l.told r).state, (l.told r).error, some p⟩ := by
  have hinsert := l.told_modifyRequest (r := r) fun q => { q with pool := some p }
  simp only [poolInsert]
  split_ifs <;> exact hinsert

/-- Adding a request to the pool changes nothing else about it. -/
theorem told_poolAddRequest (env : CurlEnv) : ∃ o, (l.poolAddRequest env r).1.told =
    Function.update l.told r ⟨(l.told r).state, (l.told r).error, o⟩ := by
  have hsame : l.told =
      Function.update l.told r ⟨(l.told r).state, (l.told r).error, (l.told r).pool⟩ :=
    (Function.update_eq_self r l.told).symm
  refine l.poolAddRequest_rule (P := fun l' => ∃ o, l'.told =
    Function.update l.told r ⟨(l.told r).state, (l.told r).error, o⟩) env r ⟨_, hsame⟩ ⟨_, hsame⟩ ?_
  rintro l' p ⟨o, ho⟩
  refine ⟨some p, ?_⟩
  rw [told_poolInsert, ho, Function.update_idem, Function.update_self]

/-- A request that is started is not over, or has failed. -/
theorem told_requestRunStart (env : CurlEnv) (h : (l.told r).Open) :
    ∃ t : Told, (t.Open ∨ t.Failed) ∧
      (l.requestRunStart env r).1.told = Function.update l.told r t := by
  have herror : ∀ (l' : Lib) (t : Told) (e : Str), l'.told = Function.update l.told r t →
      ∃ t : Told, (t.Open ∨ t.Failed) ∧
        (l'.requestRunError r e).told = Function.update l.told r t := by
    intro l' t e hl'
    refine ⟨⟨.error, some e, t.pool⟩, Or.inr ⟨rfl, by simp⟩, ?_⟩
    have hset : (l'.requestSetError r e).told =
        Function.update l.told r ⟨.error, some e, t.pool⟩ := by
      rw [told_requestSetError, hl', Function.update_idem, Function.update_self]
    simp only [requestRunError]
    split_ifs
    · rw [told_requestScheduleCallback, hset]
    · exact hset
  simp only [requestRunStart]
  set l₁ := l.modifyRequest r fun q =>
    { q with curlEasy := q.curlEasy ++ (requestSetup env (l.request r).toRequestParams).1 }
  have h₁ : l₁.told = l.told := told_modifyRequest_of_eq _ rfl
  split
  · exact herror l₁ (l.told r) _ (by rw [h₁, Function.update_eq_self])
  · set l₂ := l₁.setState r .inprogress
    have hopen : ∀ o, (⟨.inprogress, (l.told r).error, o⟩ : Told).Open := fun o =>
      ⟨by simp, by simp, h.2.2⟩
    have h₂ : l₂.told =
        Function.update l.told r ⟨.inprogress, (l.told r).error, (l.told r).pool⟩ := by
      rw [told_setState, h₁]
    obtain ⟨o, ho⟩ := l₂.told_poolAddRequest (r := r) env
    have h₃ : (l₂.poolAddRequest env r).1.told =
        Function.update l.told r ⟨.inprogress, (l.told r).error, o⟩ := by
      rw [ho, h₂, Function.update_idem, Function.update_self]
    split_ifs
    · exact ⟨_, Or.inl (hopen o), h₃⟩
    · exact herror _ _ _ h₃
    · exact ⟨_, Or.inl (hopen _), h₂⟩

/-- A new request is the only one that its creation changes. -/
theorem told_createNewRequest {api : Api} {env : CurlEnv} {interp : InterpId} {call : CreateCall}
    {session : Option SesId} {simple performing : Bool}
    (hc : l.createNewRequest api env interp call session = .created l' r simple performing) :
    r = l.nextRequest ∧ ∃ t : Told, (t.Open ∨ t.Failed) ∧ l'.told = Function.update l.told r t := by
  obtain ⟨opt, l₁, -, -, hnew, hrun⟩ := createNewRequest_eq_created hc
  obtain ⟨rfl, rfl⟩ := newRequest_eq_some hnew
  set l₁ := session.elim l.initRequest fun i => l.initRequest.sessionInsert i l.nextRequest with hl₁
  have hinit : l.initRequest.told = Function.update l.told l.nextRequest Request.zero.told :=
    Function.comp_update Request.told l.request l.nextRequest _
  have h₁ : l₁.told = Function.update l.told l.nextRequest Request.zero.told := by
    rw [← hinit, hl₁]
    cases session with
    | none => rfl
    | some i => exact told_modifyRequest_of_eq (fun q =>
        { q with session := some i, curlEasy := q.curlEasy ++ sessionCalls i }) rfl
  set l₂ := l₁.fillRequest l.nextRequest (requestParams (l₁.inherited session) call.method
    call.customMethod (call.objv.headD []) opt) interp
  have h₂ : l₂.told = Function.update l.told l.nextRequest Request.zero.told :=
    (told_modifyRequest_of_eq _ rfl).trans h₁
  have hopen : (l₂.told l.nextRequest).Open := by
    rw [h₂, Function.update_self]
    exact ⟨by decide, by decide, rfl⟩
  obtain ⟨t, ht, h₃⟩ := told_requestRunStart env hopen
  refine ⟨rfl, t, ht, ?_⟩
  rw [← show _ = l' from congrArg Prod.fst hrun, h₃, h₂, Function.update_idem]

theorem goes_createNewRequest {api : Api} {env : CurlEnv} {interp : InterpId} {call : CreateCall}
    {session : Option SesId} {simple performing : Bool}
    (hc : l.createNewRequest api env interp call session = .created l' r simple performing) :
    r = l.nextRequest ∧ Goes l l' := by
  have hnext : l'.nextRequest = l.nextRequest + 1 :=
    congrArg LifeView.nextRequest (l.lifeView_createNewRequest _ hc).2
  obtain ⟨rfl, t, ht, htold⟩ := told_createNewRequest hc
  refine ⟨rfl, ⟨hnext ▸ Nat.le_succ _, fun x hx => ?_, fun x hx hle => ?_⟩⟩
  · rw [htold, Function.update_of_ne (Nat.ne_of_lt hx)]
    exact .refl _
  · have hxn : x = l.nextRequest := Nat.le_antisymm (Nat.le_of_lt_succ (hx.trans_eq hnext)) hle
    rw [htold, hxn, Function.update_self]
    exact ht

/-- A pass of the loop over the messages. -/
theorem told_poolDrainPass (msg : CURLMsg) (msgs : List CURLMsg) :
    (l.poolDrainPass p msg msgs).told = Function.update l.told msg.easyHandle
      ⟨finalState msg.result, (l.told msg.easyHandle).error, none⟩ := by
  set r := msg.easyHandle with hr
  set l₁ := (l.modifyPool p fun q => q.setMsgs msgs).setState r (finalState msg.result) with hl₁
  have h₁ : l₁.told = Function.update l.told r
      ⟨finalState msg.result, (l.told r).error, (l.told r).pool⟩ := told_setState _
  have hs : (l₁.request r).state ≠ .inprogress := by
    have hst : (l₁.told r).state = finalState msg.result := by rw [h₁, Function.update_self]
    rw [show (l₁.request r).state = _ from hst, finalState]
    split_ifs <;> decide
  have hpass : l.poolDrainPass p msg msgs =
      (l₁.poolRemoveRequest r).requestScheduleCallback r := rfl
  rw [hpass, told_requestScheduleCallback]
  unfold poolRemoveRequest
  cases hp : (l₁.request r).pool with
  | none =>
    have ho : (l.told r).pool = none := by
      have : (l₁.told r).pool = none := hp
      rwa [h₁, Function.update_self] at this
    rw [h₁, ho]
  | some q =>
    have habort : (l₁.poolDetach q r).poolAbort r = l₁.poolDetach q r := by
      have hst : ((l₁.poolDetach q r).told r).state = (l₁.told r).state := by
        rw [told_poolDetach, Function.update_self]
      exact if_neg fun he => hs (hst.symm.trans he)
    simp only [habort, told_poolDetach, h₁, Function.update_idem, Function.update_self]

end Lib

/-! ### The invariant -/

def CURLMsg.report (msg : CURLMsg) : ReqId × CURLcode := (msg.easyHandle, msg.result)

/-- The results that have been read, against what the requests tell; `runs` are the sync
requests whose transfer goes on. -/
structure OutcomeInv (results : List (ReqId × CURLcode)) (l : Lib) (runs : List ReqId) : Prop where
  nodup : (results.map Prod.fst).Nodup
  lt : ∀ e ∈ results, e.1 < l.nextRequest
  left : ∀ e ∈ results, (l.told e.1).pool = none ∧ e.1 ∉ runs
  state : ∀ e ∈ results, (l.told e.1).state = finalState e.2
  error : ∀ e ∈ results, (l.told e.1).error ≠ none → e.2 ≠ curleOk
  rest : ∀ r < l.nextRequest, r ∉ results.map Prod.fst → (l.told r).Open ∨ (l.told r).Failed

theorem finalState_eq_done {res : CURLcode} : finalState res = .done ↔ res = curleOk := by
  unfold finalState
  split_ifs with h <;> simp [h]

theorem finalState_eq_error {res : CURLcode} : finalState res = .error ↔ res ≠ curleOk := by
  unfold finalState
  split_ifs with h <;> simp [h]

namespace OutcomeInv
variable {results : List (ReqId × CURLcode)} {l l' : Lib} {runs runs' : List ReqId}
variable (h : OutcomeInv results l runs)
include h

theorem notMem_of_pool {r : ReqId} {p : PoolId} (hp : (l.told r).pool = some p) :
    r ∉ results.map Prod.fst := fun hm => by
  obtain ⟨e, he, rfl⟩ := List.mem_map.mp hm
  rw [(h.left e he).1] at hp
  cases hp

theorem notMem_of_runs {r : ReqId} (hr : r ∈ runs) : r ∉ results.map Prod.fst := fun hm => by
  obtain ⟨e, he, rfl⟩ := List.mem_map.mp hm
  exact (h.left e he).2 hr

theorem ne_curleOk {e : ReqId × CURLcode} (he : e ∈ results) (hs : (l.told e.1).state ≠ .done) :
    e.2 ≠ curleOk := fun hok => hs ((h.state e he).trans (finalState_eq_done.mpr hok))

theorem goes (hg : Lib.Goes l l') (hr : ∀ r < l.nextRequest, r ∈ runs' → r ∈ runs) :
    OutcomeInv results l' runs' where
  nodup := h.nodup
  lt e he := (h.lt e he).trans_le hg.mono
  left e he := by
    obtain ⟨hp, hn⟩ := h.left e he
    refine ⟨?_, fun hm => hn (hr e.1 (h.lt e he) hm)⟩
    rcases (hg.old e.1 (h.lt e he)).pool with hp' | hp'
    · rw [hp', hp]
    · exact hp'
  state e he := by
    rcases (hg.old e.1 (h.lt e he)).tells with ⟨hs, -⟩ | ⟨hne, hs, -⟩
    · rw [hs, h.state e he]
    · -- an error that is found late only confirms a failure
      rw [hs, finalState_eq_error.mpr (h.ne_curleOk he hne)]
  error e he herr := by
    rcases (hg.old e.1 (h.lt e he)).tells with ⟨-, he'⟩ | ⟨hne, -⟩
    · exact h.error e he (he' ▸ herr)
    · exact h.ne_curleOk he hne
  rest r hlt hn := by
    by_cases hold : r < l.nextRequest
    · exact (hg.old r hold).open_or_failed (h.rest r hold hn)
    · exact hg.new r hlt (Nat.le_of_not_lt hold)

/-- A result is read. -/
theorem read {r : ReqId} {res : CURLcode} (hlt : r < l.nextRequest)
    (hnew : r ∉ results.map Prod.fst) (hres : (l.told r).error ≠ none → res ≠ curleOk)
    (ht : l'.told = Function.update l.told r ⟨finalState res, (l.told r).error, none⟩)
    (hn : l'.nextRequest = l.nextRequest) (hruns : ∀ x ∈ runs', x ∈ runs) (hr : r ∉ runs') :
    OutcomeInv (results ++ [(r, res)]) l' runs' := by
  have hother : ∀ e ∈ results, l'.told e.1 = l.told e.1 := by
    intro e he
    rw [ht, Function.update_of_ne]
    rintro rfl
    exact hnew (List.mem_map_of_mem he)
  have hself : l'.told r = ⟨finalState res, (l.told r).error, none⟩ := by
    rw [ht, Function.update_self]
  have hcases : ∀ {P : ReqId × CURLcode → Prop}, (∀ e ∈ results, P e) → P (r, res) →
      ∀ e ∈ results ++ [(r, res)], P e := by
    intro P hold hlast e he
    rcases List.mem_append.mp he with he | he
    · exact hold e he
    · rw [List.mem_singleton.mp he]
      exact hlast
  constructor
  · rw [List.map_append, List.map_singleton]
    refine List.nodup_append.mpr ⟨h.nodup, List.nodup_singleton r, ?_⟩
    rintro a ha b hb rfl
    rw [List.mem_singleton.mp hb] at ha
    exact hnew ha
  · rw [hn]
    exact hcases h.lt hlt
  · refine hcases (fun e he => ?_) ⟨by rw [hself], hr⟩
    rw [hother e he]
    exact ⟨(h.left e he).1, fun hm => (h.left e he).2 (hruns e.1 hm)⟩
  · refine hcases (fun e he => ?_) (by rw [hself])
    rw [hother e he]
    exact h.state e he
  · refine hcases (fun e he => ?_) (by rw [hself]; exact hres)
    rw [hother e he]
    exact h.error e he
  · intro x hx hnot
    rw [List.map_append, List.map_singleton, List.mem_append, List.mem_singleton, not_or] at hnot
    rw [ht, Function.update_of_ne hnot.2]
    exact h.rest x (hn ▸ hx) hnot.1

end OutcomeInv

/-- On the way through the messages of a pool, of which `rest` are left. -/
def DrainInv (results : List (ReqId × CURLcode)) (l : Lib) (runs : List ReqId) (p : PoolId)
    (rest : List CURLMsg) (l' : Lib) : Prop :=
  ∃ read, (l.pool p).curlMulti.msgs = read ++ rest ∧
    OutcomeInv (results ++ read.map CURLMsg.report) l' runs ∧
    (∀ r, (l'.told r).error = (l.told r).error) ∧ ∀ r ∈ runs, (l'.told r).pool = none

theorem DrainInv.pass {results : List (ReqId × CURLcode)} {l l' : Lib} {runs : List ReqId}
    {p : PoolId} {msg : CURLMsg} {msgs : List CURLMsg}
    (h : DrainInv results l runs p (msg :: msgs) l')
    (hres : ∀ msg ∈ (l.pool p).curlMulti.msgs,
      (l.told msg.easyHandle).error ≠ none → msg.result ≠ curleOk)
    (hok : PoolsOk l'.poolView) (hc : l'.poolView.inCallback p = false)
    (hm : (l'.pool p).curlMulti.msgs = msg :: msgs) :
    DrainInv results l runs p msgs (l'.poolDrainPass p msg msgs) := by
  obtain ⟨read, hread, hI, herr, hrun⟩ := h
  have hp : (l'.told msg.easyHandle).pool = some p := (hok.detach_setMsgs hm hc).1
  have ht : (l'.poolDrainPass p msg msgs).told = Function.update l'.told msg.easyHandle
      ⟨finalState msg.result, (l'.told msg.easyHandle).error, none⟩ :=
    Lib.told_poolDrainPass msg msgs
  refine ⟨read ++ [msg], by rw [hread, List.append_assoc]; rfl, ?_, fun r => ?_, fun r hr => ?_⟩
  · rw [List.map_append, List.map_singleton, ← List.append_assoc]
    refine hI.read (hok.lt p _ hp) (hI.notMem_of_pool hp) (fun he => ?_) ht ?_ (fun _ hx => hx)
      fun hx => ?_
    · rw [herr] at he
      exact hres msg (by rw [hread]; simp) he
    · exact congrArg PoolView.nextRequest (Lib.poolView_poolDrainPass hok hm hc)
    · rw [hrun _ hx] at hp
      cases hp
  · rw [ht, ← herr]
    by_cases hr : r = msg.easyHandle
    · rw [hr, Function.update_self]
    · rw [Function.update_of_ne hr]
  · rw [ht]
    by_cases hr' : r = msg.easyHandle
    · rw [hr', Function.update_self]
    · rw [Function.update_of_ne hr']
      exact hrun r hr

/-- The messages of a pool are read. -/
theorem OutcomeInv.drain {results : List (ReqId × CURLcode)} {l : Lib} {runs : List ReqId}
    (h : OutcomeInv results l runs) {p : PoolId} (hw : PoolsOk l.poolView)
    (hc : l.poolView.inCallback p = false)
    (hrun : ∀ r ∈ runs, (l.told r).pool = none)
    (hres : ∀ msg ∈ (l.pool p).curlMulti.msgs,
      (l.told msg.easyHandle).error ≠ none → msg.result ≠ curleOk) :
    OutcomeInv (results ++ (l.pool p).curlMulti.msgs.map CURLMsg.report)
      (Lib.poolDrain p (l.pool p).curlMulti.msgs.length l) runs := by
  have hloop := (Lib.poolDrain_rule (I := DrainInv results l runs p)
    (fun l' msg msgs hok hc' hm hI => hI.pass hres hok hc' hm) hw hc
    ⟨[], rfl, by simpa using h, fun _ => rfl, hrun⟩).1
  obtain ⟨read, hread, hI, -⟩ := hloop
  rw [List.append_nil] at hread
  rwa [← hread] at hI

/-! ### The machine -/

namespace Machine

/-- The sync requests whose transfer goes on. -/
def runs (m : Machine) : List ReqId := m.stack.filterMap Frame.runs

/-- A step that reads no result. -/
structure Goes (m m' : Machine) : Prop where
  lib : Lib.Goes m.lib m'.lib
  runs : ∀ r < m.lib.nextRequest, r ∈ m'.runs → r ∈ m.runs

namespace Goes
variable {m m' m'' : Machine}

theorem trans (h : Goes m m') (h' : Goes m' m'') : Goes m m'' :=
  ⟨h.lib.trans h'.lib, fun r hr hm => h.runs r hr (h'.runs r (hr.trans_le h.lib.mono) hm)⟩

/-- A procedure that starts no sync run. -/
theorem of_lib {l : Lib} {stack : List Frame} {result : CmdResult} (hl : Lib.Goes m.lib l)
    (hs : stack.filterMap Frame.runs = m.runs) : Goes m ⟨l, stack, result⟩ :=
  ⟨hl, fun _ _ hm => hs ▸ hm⟩

theorem setResult (result : CmdResult) : Goes m { m with result } :=
  of_lib (.of_eq rfl rfl) rfl

theorem setLib {l : Lib} (hl : Lib.Goes m.lib l) : Goes m (m.setLib l) := of_lib hl rfl

theorem requestFree (r : ReqId) (caller : Caller) : Goes m (m.requestFree r caller) :=
  of_lib Lib.goes_requestFreeStart rfl

theorem sessionFreeLoop (i : SesId) : Goes m (m.sessionFreeLoop i) := by
  unfold Machine.sessionFreeLoop
  split
  · exact setLib (.of_eq rfl rfl)
  · rename_i r rs _
    have hclear : Lib.Goes m.lib (m.lib.clearSession r) :=
      .of_eq (Lib.told_modifyRequest_of_eq (fun q => { q with session := none }) rfl) rfl
    exact (setLib hclear).trans (requestFree r (.session i))

theorem deleteRequestCommand (r : ReqId) : Goes m (m.deleteRequestCommand r) := by
  unfold Machine.deleteRequestCommand
  split
  · split_ifs
    · exact setLib (.of_eq rfl rfl)
    · have hclear : Lib.Goes m.lib ((m.lib.setCommand (.request r) .deleting).clearCmdToken r) :=
        .of_eq (Lib.told_modifyRequest_of_eq (fun q => { q with cmdToken := false }) rfl) rfl
      exact (setLib hclear).trans (requestFree r .command)
  · exact setLib (Lib.goes_deleteCommand _)

theorem deleteSessionCommand (i : SesId) : Goes m (m.deleteSessionCommand i) := by
  unfold Machine.deleteSessionCommand
  split
  · have hdelete : Lib.Goes m.lib (m.lib.setCommand (.session i) .deleting) := .of_eq rfl rfl
    exact (setLib hdelete).trans (sessionFreeLoop i)
  · exact setLib (Lib.goes_deleteCommand _)

theorem createFinish (r : ReqId) (simple : Bool) : Goes m (m.createFinish r simple) := by
  unfold Machine.createFinish
  split_ifs
  · exact (setResult _).trans (requestFree r .simple)
  · have htold := m.lib.told_modifyRequest_of_eq (r := r) (fun q => { q with cmdToken := true }) rfl
    exact of_lib (.of_eq htold rfl) rfl

theorem createNewRequest (api : Api) (env : CurlEnv) (interp : InterpId) (call : CreateCall)
    (session : Option SesId) : Goes m (m.createNewRequest api env interp call session) := by
  unfold Machine.createNewRequest
  split
  · exact setResult _
  · rename_i l r simple hc
    obtain ⟨rfl, hl⟩ := Lib.goes_createNewRequest hc
    refine ⟨hl, fun x hx hm => ?_⟩
    exact (List.mem_cons.mp hm).resolve_left (Nat.ne_of_lt hx)
  · rename_i l r simple hc
    exact (setLib (Lib.goes_createNewRequest hc).2).trans (createFinish r simple)

theorem cleanupFinish (r : ReqId) (caller : Caller) : Goes m (m.cleanupFinish r caller) := by
  have hfree : Lib.Goes m.lib (m.lib.requestFreeFinish r) := Lib.goes_requestFreeFinish
  unfold Machine.cleanupFinish
  cases caller with
  | command => exact setLib (hfree.trans (.of_eq rfl rfl))
  | simple => exact setLib hfree
  | session i =>
    have hdrop : Lib.Goes m.lib ((m.lib.requestFreeFinish r).dropRequest i) :=
      hfree.trans (.of_eq rfl rfl)
    exact (setLib hdrop).trans (sessionFreeLoop i)

end Goes

variable {api : Api} {m : Machine} {a : Action}

theorem goes_next (hi : m.PoolInv) (hs : m.ScheduleOk) (ha : m.enabled a = true)
    (hp : a ≠ .performReturn true) (he : ∀ res, a ≠ .easyPerformReturn res) :
    Goes m (m.next api a) := by
  cases a with
  | sessionCmd interp objv share =>
    simp only [next]
    split
    · exact .setResult _
    · rename_i l i hc
      unfold Lib.sessionCmd at hc
      split at hc
      · cases hc
      · split_ifs at hc
        cases hc
        exact .of_lib (.of_eq rfl rfl) rfl
  | requestCmd interp name clientData args env =>
    simp only [next]
    split
    · exact .setResult _
    · exact .createNewRequest ..
  | sessionHandle i name args env =>
    simp only [next]
    split
    · exact .setResult _
    · exact (Goes.setResult _).trans (.deleteSessionCommand i)
    · exact .createNewRequest ..
  | requestDestroy r byRename =>
    refine next_requestDestroy_rule ?_ fun _ _ => .of_lib (.of_eq rfl rfl) rfl
    exact (Goes.setResult _).trans (.deleteRequestCommand r)
  | poolEventSetup p b t =>
    obtain ⟨v, hv⟩ := m.lib.poolEventSetup_eq p b t
    simp only [next, hv]
    exact .setLib (.of_eq rfl rfl)
  | poolEventCheck p b w =>
    obtain ⟨v, hv⟩ := m.lib.poolEventCheckStart_eq p b w
    simp only [next, hv]
    split_ifs
    · exact .of_lib (.of_eq rfl rfl) rfl
    · exact .setLib (.of_eq rfl rfl)
  | serviceEvent b =>
    refine .setLib ?_
    simp only [Lib.serviceEvent]
    split
    · rename_i id req _
      cases req with
      | none => exact .of_eq rfl rfl
      | some r =>
        have htold := m.lib.told_modifyRequest_of_eq (r := r)
          (fun q => { q with callbackEvent := none }) rfl
        exact .of_eq htold rfl
    · exact .of_eq rfl rfl
    · exact .of_eq rfl rfl
    · exact .of_eq rfl rfl
  | queueOther b => exact .setLib (.of_eq rfl rfl)
  | interpDelete i => exact .of_lib (.of_eq rfl rfl) rfl
  | interpDeleteCommand tok =>
    cases tok with
    | request r => exact .deleteRequestCommand r
    | session i => exact .deleteSessionCommand i
  | interpDeleteDone =>
    obtain ⟨i, hstack, -⟩ := enabled_interpDeleteDone ha
    exact .of_lib (.of_eq rfl rfl) (by rw [runs, hstack]; rfl)
  | threadExit => exact .setLib Lib.goes_poolThreadExitProc
  | curlComplete r result =>
    simp only [next]
    split
    · exact .setLib (.of_eq rfl rfl)
    · exact .setLib (l := m.lib) (.of_eq rfl rfl)
  | curlWriteError r size contentSize result =>
    have hset : (m.lib.request r).state ≠ .done →
        Lib.Goes m.lib (m.lib.requestSetError r (writeErrorText size contentSize)) := fun hne =>
      Lib.goes_requestSetError hne _
    rcases enabled_curlWriteError ha with
      ⟨p, wf, stack, hstack, hmem, -⟩ | ⟨simple, wf, stack, hstack⟩
    · have ho : m.lib.poolView.owner r = some p := by
        rw [← hi.pools.mem_iff, ← (hi.pools.wellFormed p).handles]
        exact hmem.1
      have hne : m.lib.callbackView.state r ≠ .done := by
        rcases (hs.owned p r ho).2 with hst | ⟨hst, -⟩ <;> simp [hst]
      simp only [next, hstack]
      exact .of_lib ((hset hne).trans (.of_eq rfl rfl)) (by rw [runs, hstack]; rfl)
    · have hframe : .run r simple wf ∈ m.transfers :=
        mem_transfers.mpr ⟨hstack ▸ List.mem_cons_self, rfl⟩
      have hne : m.lib.callbackView.state r ≠ .done := by
        rcases (hs.running r simple wf hframe).2 with hst | ⟨hst, -⟩ <;> simp [hst]
      simp only [next, hstack]
      exact .of_lib (hset hne) (by rw [runs, hstack]; rfl)
  | performReturn ok =>
    obtain ⟨p, wf, stack, hstack, -⟩ := enabled_performReturn ha
    have hok : ok = false := by simpa using hp
    simp only [next, hstack, hok]
    exact .of_lib (.of_eq rfl rfl) (by rw [runs, hstack]; rfl)
  | easyPerformReturn res => exact absurd rfl (he res)
  | cleanupReturn =>
    obtain ⟨r, caller, stack, hstack⟩ := enabled_cleanupReturn ha
    simp only [next, hstack]
    have hpop : Goes m { m with stack := stack } :=
      .of_lib (.of_eq rfl rfl) (by rw [runs, hstack]; rfl)
    exact hpop.trans (.cleanupFinish r caller)

/-! ### Runs -/

/-- The results of libcurl that an action reads. On the early exit of a check there is no
message to read. -/
def reads (m : Machine) : Action → List (ReqId × CURLcode)
  | .performReturn true =>
    match m.stack with
    | .perform p _ :: _ => (m.lib.pool p).curlMulti.msgs.map CURLMsg.report
    | _ => []
  | .easyPerformReturn res =>
    match m.stack with
    | .run r _ _ :: _ => [(r, res)]
    | _ => []
  | _ => []

/-- The results that have been read in a run from the start, in order. -/
def resultsRead (api : Api) (as : List Action) : List (ReqId × CURLcode) :=
  Run.outputs (step api) reads init as

variable {results : List (ReqId × CURLcode)}

theorem outcome_easyPerformReturn (h : OutcomeInv results m.lib m.runs) (hi : m.PoolInv)
    (hs : m.ScheduleOk) {res : CURLcode} (ha : m.enabled (.easyPerformReturn res) = true) :
    OutcomeInv (results ++ m.reads (.easyPerformReturn res))
      (m.next api (.easyPerformReturn res)).lib (m.next api (.easyPerformReturn res)).runs := by
  obtain ⟨r, simple, wf, stack, hstack, hwf⟩ := enabled_easyPerformReturn ha
  have hruns : m.runs = r :: stack.filterMap Frame.runs := by rw [runs, hstack]; rfl
  have hmem : .run r simple wf ∈ m.stack := hstack ▸ List.mem_cons_self
  obtain ⟨hlt, ho⟩ := hi.running r simple wf hmem
  have hnew := h.notMem_of_runs (hruns ▸ List.mem_cons_self)
  have hres : (m.lib.told r).error ≠ none → res ≠ curleOk := fun herr => by
    rcases (hs.running r simple wf (mem_transfers.mpr ⟨hmem, rfl⟩)).2 with hst | ⟨-, hw⟩
    · rcases h.rest r hlt hnew with hopen | hfailed
      · exact absurd hopen.2.2 herr
      · have : (m.lib.told r).state = .inprogress := hst
        rw [hfailed.1] at this
        cases this
    · exact hwf hw
  have ht : (m.lib.requestRunFinish r res).told =
      Function.update m.lib.told r ⟨finalState res, (m.lib.told r).error, none⟩ := by
    rw [← show (m.lib.told r).pool = none from ho]
    exact Lib.told_setState _
  have hnd : r ∉ stack.filterMap Frame.runs := by
    have hframes := hs.frames_nodup
    have hfilter : m.transfers.filterMap Frame.runs = m.runs := by
      rw [transfers, runs, List.filterMap_filter]
      congr 1
      funext f
      cases f <;> rfl
    rw [hfilter, hruns] at hframes
    exact (List.nodup_cons.mp hframes).1
  have hread : OutcomeInv (results ++ [(r, res)]) (m.lib.requestRunFinish r res)
      (stack.filterMap Frame.runs) :=
    h.read hlt hnew hres ht rfl (fun x hx => hruns ▸ List.mem_cons_of_mem r hx) hnd
  have hfinish : Goes ⟨m.lib.requestRunFinish r res, stack, m.result⟩ _ := .createFinish r simple
  simp only [reads, next, hstack]
  exact hread.goes hfinish.lib hfinish.runs

theorem outcome_performReturn (h : OutcomeInv results m.lib m.runs) (hi : m.PoolInv)
    (hs : m.ScheduleOk) (ha : m.enabled (.performReturn true) = true) :
    OutcomeInv (results ++ m.reads (.performReturn true))
      (m.next api (.performReturn true)).lib (m.next api (.performReturn true)).runs := by
  obtain ⟨p, wf, stack, hstack, -⟩ := enabled_performReturn ha
  obtain ⟨hi₁, hoff⟩ := hi.performReturn hstack
  set l := m.lib.setInCallback p false with hl
  have hruns : m.runs = stack.filterMap Frame.runs := by rw [runs, hstack]; rfl
  have hw : PoolsOk l.poolView := hi₁.pools
  have hmsgs : (l.pool p).curlMulti.msgs = (m.lib.pool p).curlMulti.msgs := by
    simp [hl, Lib.setInCallback, Lib.modifyPool]
  have h₁ : OutcomeInv results l (stack.filterMap Frame.runs) :=
    hruns ▸ h.goes (.of_eq rfl rfl) fun _ _ hx => hx
  have hrun : ∀ r ∈ stack.filterMap Frame.runs, (l.told r).pool = none := by
    intro r hr
    obtain ⟨f, hf, hfr⟩ := List.mem_filterMap.mp hr
    cases f with
    | run r' simple w =>
      cases hfr
      exact (hi.running r simple w (hstack ▸ List.mem_cons_of_mem _ hf)).2
    | _ => cases hfr
  have hres : ∀ msg ∈ (l.pool p).curlMulti.msgs,
      (l.told msg.easyHandle).error ≠ none → msg.result ≠ curleOk := by
    intro msg hmsg herr
    have hwf := hw.wellFormed p
    have hcompl : msg.easyHandle ∈ (l.pool p).curlMulti.completed := by
      rw [show (l.pool p).curlMulti.completed = _ from hwf.completed]
      exact List.mem_map_of_mem hmsg
    have ho : l.poolView.owner msg.easyHandle = some p :=
      (hw.mem_iff p _).mp (hwf.completed_sub _ hcompl)
    rcases (hs.owned p msg.easyHandle ho).2 with hst | ⟨-, -, msg', hmsg', heq, hne⟩
    · rcases h₁.rest _ (hw.lt p _ ho) (h₁.notMem_of_pool ho) with hopen | hfailed
      · exact absurd hopen.2.2 herr
      · have : (l.told msg.easyHandle).state = .inprogress := hst
        rw [hfailed.1] at this
        cases this
    · have hnd : ((l.pool p).curlMulti.msgs.map CURLMsg.easyHandle).Nodup :=
        hwf.completed ▸ hwf.completed_nodup
      have hm' : msg' ∈ (l.pool p).curlMulti.msgs := hmsgs ▸ hmsg'
      rwa [← List.inj_on_of_nodup_map hnd hm' hmsg heq]
  have hdrain := h₁.drain hw hoff hrun hres
  have hfinish : OutcomeInv (results ++ (m.lib.pool p).curlMulti.msgs.map CURLMsg.report)
      (l.poolEventCheckFinish p (l.pool p).curlMulti.running) (stack.filterMap Frame.runs) := by
    rw [← hmsgs]
    simp only [Lib.poolEventCheckFinish, Lib.poolEventCheckDrain]
    split_ifs with hn
    · have hwf := hw.wellFormed p
      have hnil := hwf.running_eq_count_iff.mp hn
      rw [hwf.completed] at hnil
      rw [show (l.pool p).curlMulti.msgs = [] from List.map_eq_nil_iff.mp hnil]
      simpa using h₁
    · exact hdrain.goes (.of_eq rfl rfl) fun _ _ hx => hx
    · exact hdrain
  simp only [reads, next, hstack]
  exact hfinish

theorem outcome_next (h : OutcomeInv results m.lib m.runs) (hi : m.PoolInv) (hs : m.ScheduleOk)
    (ha : m.enabled a = true) :
    OutcomeInv (results ++ m.reads a) (m.next api a).lib (m.next api a).runs := by
  by_cases hp : a = .performReturn true
  · subst hp
    exact outcome_performReturn h hi hs ha
  by_cases he : ∃ res, a = .easyPerformReturn res
  · obtain ⟨res, rfl⟩ := he
    exact outcome_easyPerformReturn h hi hs ha
  have hnone : m.reads a = [] := by
    cases a with
    | performReturn ok =>
      cases ok with
      | false => rfl
      | true => exact absurd rfl hp
    | easyPerformReturn res => exact absurd ⟨res, rfl⟩ he
    | _ => rfl
  have hg : Goes m (m.next api a) := goes_next hi hs ha hp fun res hres => he ⟨res, hres⟩
  rw [hnone, List.append_nil]
  exact h.goes hg.lib hg.runs

variable {as : List Action}

/-- In every run, what the requests say is what has happened. No result of libcurl is read
twice for a request, and the one that is read is the state of the request from then on: it
is done exactly if libcurl has reported success, and in error exactly if libcurl has
reported a failure or the library has recorded an error of its own. -/
theorem states_follow_results (hq : Run.Along (step api) NoReentrantDestroy init as)
    (hr : runOf api as = some m) :
    ((resultsRead api as).map Prod.fst).Nodup ∧ ∀ r < m.lib.nextRequest,
      ((m.lib.request r).state = .done ↔ (r, curleOk) ∈ resultsRead api as) ∧
      ((m.lib.request r).state = .error ↔
        (m.lib.request r).error ≠ none ∨ ∃ res, res ≠ curleOk ∧ (r, res) ∈ resultsRead api as) := by
  have hinit : OutcomeInv [] init.lib init.runs := by
    constructor <;> simp [init, Lib.init]
  have hstep : ∀ (results : List (ReqId × CURLcode)) (s : Machine) (a : Action) (t : Machine),
      OutcomeInv results s.lib s.runs ∧ (s.PoolInv ∧ ReleasedOutside s.stack) ∧ s.ScheduleOk →
      s.NoReentrantDestroy a → s.step api a = some t →
      OutcomeInv (results ++ s.reads a) t.lib t.runs ∧
        (t.PoolInv ∧ ReleasedOutside t.stack) ∧ t.ScheduleOk := by
    rintro results s a t ⟨h, hi, hs⟩ hd hst
    have hi' := noReentrantDestroy_invariant hi hd hst
    obtain ⟨ha, rfl⟩ := step_eq_some.mp hst
    exact ⟨outcome_next h hi.1 hs ha, hi',
      hs.next hi.1 ha (removable_of_noReentrantDestroy hi.1 hi.2 ha hd)⟩
  obtain ⟨h, -⟩ : OutcomeInv (resultsRead api as) m.lib m.runs ∧ _ :=
    Run.outputs_preserves (I := fun results (t : Machine) => OutcomeInv results t.lib t.runs ∧
      (t.PoolInv ∧ ReleasedOutside t.stack) ∧ t.ScheduleOk)
      hstep ⟨hinit, ⟨poolInv_init, trivial⟩, scheduleOk_init⟩ hq hr
  refine ⟨h.nodup, fun r hlt => ?_⟩
  change ((m.lib.told r).state = .done ↔ _) ∧
    ((m.lib.told r).state = .error ↔ (m.lib.told r).error ≠ none ∨ _)
  by_cases hmem : r ∈ (resultsRead api as).map Prod.fst
  · obtain ⟨e, he, rfl⟩ := List.mem_map.mp hmem
    have hunique : ∀ res, (e.1, res) ∈ resultsRead api as → res = e.2 := fun res he' =>
      congrArg Prod.snd (List.inj_on_of_nodup_map h.nodup he' he rfl)
    rw [h.state e he, finalState_eq_done, finalState_eq_error]
    refine ⟨⟨fun hok => hok ▸ he, fun he' => (hunique _ he').symm⟩,
      ⟨fun hne => Or.inr ⟨e.2, hne, he⟩, ?_⟩⟩
    rintro (herr | ⟨res, hne, he'⟩)
    · exact h.error e he herr
    · exact hunique res he' ▸ hne
  · have hnone : ∀ res, (r, res) ∉ resultsRead api as := fun res he => hmem (List.mem_map_of_mem he)
    rcases h.rest r hlt hmem with hopen | hfailed
    · simp [hnone, hopen.1, hopen.2.1, hopen.2.2]
    · simp [hnone, hfailed.1, hfailed.2]

/-- One request is refused by its server, and the body of another cannot be stored. -/
def failedRun : List Action :=
  [.getAsync, .getAsync, .poolEventCheck 0 true none, .curlComplete 0 7, .curlWriteError 1 10 0 23,
   .performReturn true]

theorem states_follow_results_failedRun : ∃ m, runOf Api.plain failedRun = some m ∧
    ((m.lib.request 1).state = .error ↔ (m.lib.request 1).error ≠ none ∨
      ∃ res, res ≠ curleOk ∧ (1, res) ∈ resultsRead Api.plain failedRun) := by
  obtain ⟨m, hm, hp⟩ := (Option.any_eq_true _ _).mp (show (runOf Api.plain failedRun).any
    (fun m => 1 < m.lib.nextRequest) = true by decide +kernel)
  exact ⟨m, hm, ((states_follow_results (by decide +kernel) hm).2 1 (of_decide_eq_true hp)).2⟩

end Machine

end Trequests
