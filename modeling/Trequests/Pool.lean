import Mathlib.Data.List.Basic
import Trequests.State

/-! `treqPool.c`, with the procedures of `treqRequest.c` it rests on: recording an
error, queueing the callback event of a request and servicing it. A check of the
event source is cut where it enters `curl_multi_perform`, since scripts can run
before that call returns. -/

namespace Trequests

/-- The loop of `treq_LinkedListRemoveByItem`. -/
def linkedListRemoveByItem : List ReqId → ReqId → List ReqId
  | [], _ => []
  | cur :: next, item => if cur = item then next else cur :: linkedListRemoveByItem next item

@[simp] theorem linkedListRemoveByItem_eq_erase (ll : List ReqId) (item : ReqId) :
    linkedListRemoveByItem ll item = ll.erase item := by
  induction ll with
  | nil => rfl
  | cons cur next ih => simp only [linkedListRemoveByItem, List.erase_cons, beq_iff_eq, ih]

namespace Lib
variable (l : Lib)

/-! ### Errors and callbacks -/

/-- `treq_RequestSetError` -/
def requestSetError (r : ReqId) (error : Str) : Lib :=
  (l.modifyRequest r fun q => { q with error := some error }).setState r .error

/-- `treq_RequestScheduleCallback` -/
def requestScheduleCallback (r : ReqId) : Lib :=
  if (l.request r).callback = none then l
  else if l.interpDeleted (l.request r).interp then l
  else
    { l.modifyRequest r fun q => { q with callbackEvent := some l.nextEvent } with
      queue := l.queue ++ [.request l.nextEvent (some r)]
      nextEvent := l.nextEvent + 1
      scheduled := l.scheduled ++ [r] }

/-- `treq_RequestEventProc` up to the evaluation of the callback script. -/
def requestEventProc : Option ReqId → Lib
  | none => l
  | some r => l.modifyRequest r fun q => { q with callbackEvent := none }

/-! ### Activation -/

def poolActivate (p : PoolId) : Lib :=
  { l.modifyPool p fun q => { q with isActive := true } with sources := p :: l.sources }

def poolDeactivate (p : PoolId) : Lib :=
  { l.modifyPool p fun q => { q with isActive := false } with sources := l.sources.erase p }

/-! ### Adding and removing requests -/

/-- `treq_PoolInit`, called for the default pool of the thread. -/
def poolInit : Lib × PoolId :=
  ({ l with
      pool := Function.update l.pool l.nextPool Pool.zero
      nextPool := l.nextPool + 1
      poolDefault := some l.nextPool }, l.nextPool)

/-- `treq_PoolAddRequest` once `curl_multi_add_handle` has accepted the handle. -/
def poolInsert (p : PoolId) (r : ReqId) : Lib :=
  let l := l.modifyPool p fun q =>
    { q with curlMulti := q.curlMulti.addHandle r, requests := r :: q.requests }
  let l := l.modifyRequest r fun q => { q with pool := some p }
  let l := if (l.pool p).isActive then l else l.poolActivate p
  l.modifyPool p fun q =>
    { q with activeConnectionCount := q.activeConnectionCount + 1, needRefresh := true }

/-- `treq_PoolAddRequest` on the default pool; libcurl refuses the handle while a
callback of the multi handle runs. -/
def poolTryInsert (env : CurlEnv) (p : PoolId) (r : ReqId) : Lib × Bool :=
  if env.multiAdd ∧ ¬ (l.pool p).curlMulti.inCallback then (l.poolInsert p r, true) else (l, false)

/-- `treq_PoolAddRequest`; the flag tells `TCL_OK`. -/
def poolAddRequest (env : CurlEnv) (r : ReqId) : Lib × Bool :=
  match l.poolDefault with
  | some p => l.poolTryInsert env p r
  | none =>
    if env.multiInit then l.poolInit.1.poolTryInsert env l.poolInit.2 r else (l, false)

/-- What the creation of the pool and the insertion preserve, adding a request preserves. -/
theorem poolAddRequest_rule {P : Lib → Prop} (env : CurlEnv) (r : ReqId) (h : P l)
    (hinit : P l.poolInit.1) (hinsert : ∀ l p, P l → P (l.poolInsert p r)) :
    P (l.poolAddRequest env r).1 := by
  have htry : ∀ l p, P l → P (l.poolTryInsert env p r).1 := by
    intro l p hl
    unfold poolTryInsert
    split_ifs
    · exact hinsert l p hl
    · exact hl
  unfold poolAddRequest
  split
  · exact htry l _ h
  · split_ifs
    · exact htry _ _ hinit
    · exact h

theorem poolTryInsert_refused {env : CurlEnv} {p : PoolId} {r : ReqId}
    (h : (l.poolTryInsert env p r).2 = false) : (l.poolTryInsert env p r).1 = l := by
  unfold poolTryInsert at h ⊢
  by_cases hc : env.multiAdd = true ∧ ¬ (l.pool p).curlMulti.inCallback = true
  · rw [if_pos hc] at h
    cases h
  · rw [if_neg hc]

/-- A refused request leaves at most a new pool behind, an empty one. -/
theorem poolAddRequest_refused {env : CurlEnv} {r : ReqId} (h : (l.poolAddRequest env r).2 = false) :
    (l.poolAddRequest env r).1 = l ∨ (l.poolAddRequest env r).1 = l.poolInit.1 := by
  unfold poolAddRequest at h ⊢
  cases hd : l.poolDefault with
  | some p =>
    simp only [hd] at h ⊢
    exact Or.inl (l.poolTryInsert_refused h)
  | none =>
    simp only [hd] at h ⊢
    by_cases hi : env.multiInit = true
    · rw [if_pos hi] at h ⊢
      exact Or.inr (l.poolInit.1.poolTryInsert_refused h)
    · rw [if_neg hi]
      exact Or.inl rfl

/-- `treq_PoolRemoveRequest` up to the check of the request's state. -/
def poolDetach (p : PoolId) (r : ReqId) : Lib :=
  let l := l.modifyPool p fun q =>
    { q with
      curlMulti := q.curlMulti.removeHandle r
      requests := if q.isDead then q.requests else linkedListRemoveByItem q.requests r
      activeConnectionCount := q.activeConnectionCount - 1 }
  l.modifyRequest r fun q => { q with pool := none }

/-- What becomes of a request that is removed while it is in progress. -/
def poolAbort (r : ReqId) : Lib :=
  if (l.request r).state = .inprogress then
    if l.interpDeleted (l.request r).interp then l
    else
      let l := l.setState r .error
      let l := l.requestSetError r (lit "the request has been removed from async pool")
      l.requestScheduleCallback r
  else l

/-- `treq_PoolRemoveRequest`; its callers make sure that the request has a pool. -/
def poolRemoveRequest (r : ReqId) : Lib :=
  match (l.request r).pool with
  | none => l
  | some p => (l.poolDetach p r).poolAbort r

/-! ### The event source -/

/-- `treq_PoolEventSetup`, with the time in microseconds that it hands to
`Tcl_SetMaxBlockTime`, if it does. The answer of `curl_multi_timeout` is `none` when the
call fails. -/
def poolEventSetup (p : PoolId) (fileEvents : Bool) (curlTimeout : Option ℤ) : Lib × Option ℤ :=
  if ¬ fileEvents then (l, none)
  else if (l.pool p).needRefresh then (l, some 0)
  else match curlTimeout with
    | none => (l, some (100 * 1000))
    | some timeout =>
      if timeout < 0 then (l, some (100 * 1000))
      else if timeout < 2 then
        (l.modifyPool p fun q => { q with needRefresh := true }, some 0)
      else if timeout < 100 then (l, some (timeout * 1000))
      else (l, some (100 * 1000))

/-- `treq_PoolEventCheck` up to `curl_multi_perform`; the flag tells that the check
gets there. The answer of `curl_multi_wait` is `none` when the call fails. -/
def poolEventCheckStart (p : PoolId) (fileEvents : Bool) (wait : Option ℕ) : Lib × Bool :=
  if ¬ fileEvents then (l, false)
  else if (l.pool p).needRefresh then
    (l.modifyPool p fun q => { q with needRefresh := false }, true)
  else match wait with
    | none | some 0 => (l, false)
    | some _ => (l, true)

/-- The setup procedure writes `need_refresh` at most. -/
theorem poolEventSetup_eq (p : PoolId) (fileEvents : Bool) (curlTimeout : Option ℤ) :
    ∃ v, (l.poolEventSetup p fileEvents curlTimeout).1 =
      l.modifyPool p fun q => { q with needRefresh := v } := by
  have hsame : l = l.modifyPool p fun q => { q with needRefresh := (l.pool p).needRefresh } := by
    simp [modifyPool]
  unfold poolEventSetup
  split_ifs
  · exact ⟨_, hsame⟩
  · split
    · exact ⟨_, hsame⟩
    · split_ifs
      · exact ⟨_, hsame⟩
      · exact ⟨true, rfl⟩
      · exact ⟨_, hsame⟩
      · exact ⟨_, hsame⟩
  · exact ⟨_, hsame⟩

/-- So does the check up to `curl_multi_perform`. -/
theorem poolEventCheckStart_eq (p : PoolId) (fileEvents : Bool) (wait : Option ℕ) :
    ∃ v, (l.poolEventCheckStart p fileEvents wait).1 =
      l.modifyPool p fun q => { q with needRefresh := v } := by
  have hsame : l = l.modifyPool p fun q => { q with needRefresh := (l.pool p).needRefresh } := by
    simp [modifyPool]
  unfold poolEventCheckStart
  split_ifs
  · exact ⟨false, rfl⟩
  · split <;> exact ⟨_, hsame⟩
  · exact ⟨_, hsame⟩

/-- The body of the loop over the messages, for a finished transfer. -/
def poolCompleteRequest (msg : CURLMsg) : Lib :=
  let r := msg.easyHandle
  let l := l.setState r (if msg.result = curleOk then .done else .error)
  let l := l.poolRemoveRequest r
  l.requestScheduleCallback r

/-- The loop over `curl_multi_info_read`. Every pass reads a message, so their number
is fuel enough. -/
def poolDrain (p : PoolId) : ℕ → Lib → Lib
  | 0, l => l
  | fuel + 1, l =>
    match (l.pool p).curlMulti.msgs with
    | [] => l
    | msg :: msgs =>
      let l := l.modifyPool p fun q => { q with curlMulti := { q.curlMulti with msgs } }
      match msg.msg with
      | .other => poolDrain p fuel l
      | .done => poolDrain p fuel (l.poolCompleteRequest msg)

/-- The rest of `treq_PoolEventCheck` once a transfer is found to be over. -/
def poolEventCheckDrain (p : PoolId) (numfds : ℕ) : Lib :=
  let l := poolDrain p (l.pool p).curlMulti.msgs.length l
  -- TCL_QUEUE_HEAD
  if numfds = 0 then { l with queue := .poolDeactivate p :: l.queue } else l

/-- `treq_PoolEventCheck` after a successful `curl_multi_perform` that has reported
`numfds` running transfers. -/
def poolEventCheckFinish (p : PoolId) (numfds : ℕ) : Lib :=
  if (numfds : ℤ) = (l.pool p).activeConnectionCount then l else l.poolEventCheckDrain p numfds

/-! ### The end of the thread -/

/-- The loop of `treq_PoolFree` over the list of requests. -/
def poolFreeLoop (p : PoolId) : List ReqId → Lib → Lib
  | [], l => l
  | r :: rs, l =>
    poolFreeLoop p rs
      ((l.poolRemoveRequest r).modifyPool p fun q => { q with requests := q.requests.tail })

def poolFree (p : PoolId) : Lib :=
  let l := l.modifyPool p fun q => { q with isDead := true }
  let l := poolFreeLoop p (l.pool p).requests l
  { l with poolFreed := Function.update l.poolFreed p true }

/-- `treq_PoolThreadExitProc` -/
def poolThreadExitProc : Lib :=
  match l.poolDefault with
  | none => l
  | some p => { l.poolFree p with poolDefault := none }

end Lib

end Trequests
