import Trequests.EventsMachine
import Trequests.Headers
import Trequests.Params

/-! The lifetime of a session. `treq_SessionFree` releases the requests of the session
before it calls `curl_share_cleanup`, which libcurl refuses while an easy handle uses the
share. The requests that use it are those created in the session; each of them is in its
list until its own release begins. So once the session is freed, every easy handle that
was ever given its share is cleaned up, and no request points to the session. -/

namespace Trequests

/-! ### The requests being released -/

def Frame.release : Frame → Option (ReqId × Caller)
  | .cleanup r caller => some (r, caller)
  | _ => none

/-- The releases that wait for `curl_easy_cleanup`, the innermost first. -/
def released (stack : List Frame) : List (ReqId × Caller) := stack.filterMap Frame.release

@[simp] theorem released_cleanup (r : ReqId) (caller : Caller) (stack : List Frame) :
    released (.cleanup r caller :: stack) = (r, caller) :: released stack := rfl
@[simp] theorem released_run (r : ReqId) (s w : Bool) (stack : List Frame) :
    released (.run r s w :: stack) = released stack := rfl
@[simp] theorem released_perform (p : PoolId) (w : Bool) (stack : List Frame) :
    released (.perform p w :: stack) = released stack := rfl
@[simp] theorem released_interpDelete (i : InterpId) (stack : List Frame) :
    released (.interpDelete i :: stack) = released stack := rfl

theorem mem_released {x : ReqId × Caller} {stack : List Frame} :
    x ∈ released stack ↔ .cleanup x.1 x.2 ∈ stack := by
  simp only [released, List.mem_filterMap]
  constructor
  · rintro ⟨f, hf, hx⟩
    cases f with
    | cleanup r caller =>
      cases hx
      exact hf
    | _ => cases hx
  · exact fun hm => ⟨_, hm, rfl⟩

/-! ### The invariant -/

/-- The sessions, their requests and the easy handles that use their shares, while the
releases in `waiting` wait. -/
structure SessionInv (v : LifeView) (shares : ReqId → SesId → Prop)
    (waiting : List (ReqId × Caller)) : Prop where
  listed : ∀ i r, v.session r = some i → r ∈ v.requests i
  shared : ∀ r i, shares r i → v.freed r = 0 → v.session r = some i ∨ r ∈ waiting.map Prod.fst
  releasing : ∀ x ∈ waiting, ∀ i, x.2 = .session i →
    v.command (.session i) = .deleting ∨ v.command (.session i) = .unlinked
  count : ∀ i, v.sessionFreed i = if v.command (.session i) = .deleted then 1 else 0
  ended : ∀ i, v.command (.session i) = .deleted →
    ∀ r, v.session r ≠ some i ∧ (shares r i → v.freed r ≠ 0)
  apart : waiting.Pairwise fun x y => ∀ i, x.2 = .session i → y.2 ≠ .session i ∧ ¬ shares y.1 i

namespace SessionInv
variable {v v' : LifeView} {shares : ReqId → SesId → Prop} {waiting : List (ReqId × Caller)}
  {r : ReqId} {i : SesId} (h : SessionInv v shares waiting)
include h

/-- What matters is unchanged. -/
theorem congr_view (h₁ : v'.session = v.session) (h₂ : v'.requests = v.requests)
    (h₃ : v'.freed = v.freed) (h₄ : v'.sessionFreed = v.sessionFreed)
    (h₅ : ∀ i, v'.command (.session i) = v.command (.session i)) :
    SessionInv v' shares waiting where
  listed := by simpa only [h₁, h₂] using h.listed
  shared := by simpa only [h₁, h₃] using h.shared
  releasing := by simpa only [h₅] using h.releasing
  count := by simpa only [h₄, h₅] using h.count
  ended := by simpa only [h₁, h₃, h₅] using h.ended
  apart := h.apart

/-- A release begins. A session may only release a request if none that uses its share is
being released below. -/
theorem start {caller : Caller} (h₁ : v'.session = Function.update v.session r none)
    (h₂ : ∀ i x, x ≠ r → x ∈ v.requests i → x ∈ v'.requests i) (h₃ : v'.freed = v.freed)
    (h₄ : v'.sessionFreed = v.sessionFreed)
    (h₅ : ∀ i, v'.command (.session i) = v.command (.session i))
    (hcaller : ∀ i, caller = .session i →
      (v.command (.session i) = .deleting ∨ v.command (.session i) = .unlinked) ∧
        ∀ y ∈ waiting, y.2 ≠ .session i ∧ ¬ shares y.1 i) :
    SessionInv v' shares ((r, caller) :: waiting) := by
  have hsession : ∀ {x i}, v'.session x = some i → x ≠ r ∧ v.session x = some i := by
    intro x i hx
    by_cases hxr : x = r
    · subst hxr
      simp [h₁] at hx
    · exact ⟨hxr, by simpa [h₁, hxr] using hx⟩
  refine ⟨fun i x hx => ?_, fun x i hs hf => ?_, fun x hx i hi => ?_, ?_, fun i hd x => ?_, ?_⟩
  · obtain ⟨hxr, hx⟩ := hsession hx
    exact h₂ i x hxr (h.listed i x hx)
  · by_cases hxr : x = r
    · subst hxr
      exact Or.inr List.mem_cons_self
    · rw [h₃] at hf
      rcases h.shared x i hs hf with hx | hx
      · exact Or.inl (by simpa [h₁, hxr] using hx)
      · exact Or.inr (List.mem_cons_of_mem _ hx)
  · rw [h₅]
    rcases List.mem_cons.mp hx with rfl | hx
    · exact (hcaller i hi).1
    · exact h.releasing x hx i hi
  · simpa only [h₄, h₅] using h.count
  · rw [h₅] at hd
    obtain ⟨hns, hnf⟩ := h.ended i hd x
    exact ⟨fun hx => hns (hsession hx).2, by rw [h₃]; exact hnf⟩
  · exact List.pairwise_cons.mpr ⟨fun y hy i hi => (hcaller i hi).2 y hy, h.apart⟩

/-- The status of a session that is not over yet. -/
theorem setStatus {status : CmdStatus} (hold : v.command (.session i) ≠ .deleted)
    (hstatus : status = .deleting ∨ status = .unlinked) :
    SessionInv (v.setCommand (.session i) status) shares waiting where
  listed := h.listed
  shared := h.shared
  releasing x hx j hj := by
    by_cases hji : j = i
    · subst hji
      simpa [LifeView.setCommand] using hstatus
    · simpa [LifeView.setCommand, hji] using h.releasing x hx j hj
  count j := by
    by_cases hji : j = i
    · subst hji
      have hne : status ≠ .deleted := by rcases hstatus with rfl | rfl <;> simp
      simpa [LifeView.setCommand, hold, hne] using h.count j
    · simpa [LifeView.setCommand, hji] using h.count j
  ended j hd := by
    by_cases hji : j = i
    · subst hji
      rcases hstatus with rfl | rfl <;> simp [LifeView.setCommand] at hd
    · exact h.ended j (by simpa [LifeView.setCommand, hji] using hd)
  apart := h.apart

/-- The end of the release of a session without requests. -/
theorem finish (hi : v.command (.session i) = .deleting ∨ v.command (.session i) = .unlinked)
    (hnil : v.requests i = []) (hwait : ∀ y ∈ waiting, y.2 ≠ .session i ∧ ¬ shares y.1 i) :
    SessionInv { v.setCommand (.session i) .deleted with
      sessionFreed := Function.update v.sessionFreed i (v.sessionFreed i + 1) } shares waiting where
  listed := h.listed
  shared := h.shared
  releasing x hx j hj := by
    have hji : j ≠ i := fun he => (hwait x hx).1 (he ▸ hj)
    simpa [LifeView.setCommand, hji] using h.releasing x hx j hj
  count j := by
    by_cases hji : j = i
    · subst hji
      have hzero : v.sessionFreed j = 0 := by
        rw [h.count, if_neg]
        rcases hi with hi | hi <;> simp [hi]
      simp [LifeView.setCommand, hzero]
    · simpa [LifeView.setCommand, hji] using h.count j
  ended j hd := by
    by_cases hji : j = i
    · subst hji
      have hnone : ∀ r, v.session r ≠ some j := fun r hs => by
        have := h.listed j r hs
        rw [hnil] at this
        cases this
      refine fun r => ⟨hnone r, fun hs hf => ?_⟩
      rcases h.shared r j hs hf with hr | hr
      · exact hnone r hr
      · obtain ⟨y, hy, rfl⟩ := List.mem_map.mp hr
        exact (hwait y hy).2 hs
    · exact h.ended j (by simpa [LifeView.setCommand, hji] using hd)
  apart := h.apart

/-- A new session. -/
theorem newSession (hi : v.command (.session i) = .absent) (hnil : v.requests i = []) :
    SessionInv (v.setCommand (.session i) .alive) shares waiting where
  listed := h.listed
  shared := h.shared
  releasing x hx j hj := by
    have hx' := h.releasing x hx j hj
    have hji : j ≠ i := by
      rintro rfl
      simp [hi] at hx'
    simpa [LifeView.setCommand, hji] using hx'
  count j := by
    by_cases hji : j = i
    · subst hji
      simpa [LifeView.setCommand, hi] using h.count j
    · simpa [LifeView.setCommand, hji] using h.count j
  ended j hd := by
    by_cases hji : j = i
    · subst hji
      simp [LifeView.setCommand] at hd
    · exact h.ended j (by simpa [LifeView.setCommand, hji] using hd)
  apart := h.apart

/-- A new request, which uses the share of its session. -/
theorem create {session : Option SesId} {interp : InterpId} {shares' : ReqId → SesId → Prop}
    (hwait : v.nextRequest ∉ waiting.map Prod.fst)
    (hsession : ∀ i, session = some i → v.command (.session i) ≠ .deleted)
    (hshares : ∀ x ≠ v.nextRequest, shares' x = shares x)
    (hnew : ∀ i, shares' v.nextRequest i → session = some i) :
    SessionInv (v.create session interp) shares' waiting := by
  have hmem : ∀ i x, x ∈ v.requests i → x ∈ (v.create session interp).requests i := by
    intro i x hx
    cases session with
    | none => exact hx
    | some j =>
      by_cases hij : i = j
      · subst hij
        simp [LifeView.create, hx]
      · simpa [LifeView.create, hij] using hx
  have hne : ∀ y ∈ waiting, y.1 ≠ v.nextRequest := fun y hy he =>
    hwait (List.mem_map.mpr ⟨y, hy, he⟩)
  refine ⟨fun i x hx => ?_, fun x i hs hf => ?_, h.releasing, h.count, fun i hd x => ?_, ?_⟩
  · by_cases hxn : x = v.nextRequest
    · subst hxn
      have hs : session = some i := by simpa [LifeView.create] using hx
      subst hs
      simp [LifeView.create]
    · exact hmem i x (h.listed i x (by simpa [LifeView.create, hxn] using hx))
  · by_cases hxn : x = v.nextRequest
    · subst hxn
      exact Or.inl (by simpa [LifeView.create] using hnew i hs)
    · rw [hshares x hxn] at hs
      exact (h.shared x i hs hf).imp_left fun hx => by simpa [LifeView.create, hxn] using hx
  · by_cases hxn : x = v.nextRequest
    · subst hxn
      have hs : session ≠ some i := fun he => hsession i he hd
      exact ⟨by simpa [LifeView.create] using hs, fun hsh => absurd (hnew i hsh) hs⟩
    · have hold := h.ended i hd x
      rw [hshares x hxn]
      exact ⟨by simpa [LifeView.create, hxn] using hold.1, hold.2⟩
  · refine h.apart.imp_of_mem fun {x y} _ hy hxy i hi => ?_
    rw [hshares y.1 (hne y hy)]
    exact hxy i hi

omit h in
/-- The end of a release; a session drops the request from its list. -/
theorem free {caller : Caller} (h : SessionInv v shares ((r, caller) :: waiting))
    (hs : v.session r = none) (h₁ : v'.session = v.session)
    (h₂ : ∀ i x, x ≠ r → x ∈ v.requests i → x ∈ v'.requests i)
    (h₃ : v'.freed = Function.update v.freed r (v.freed r + 1))
    (h₄ : v'.sessionFreed = v.sessionFreed)
    (h₅ : ∀ i, v'.command (.session i) = v.command (.session i)) :
    SessionInv v' shares waiting := by
  have hmono : ∀ x, v.freed x ≠ 0 → v'.freed x ≠ 0 := by
    intro x hx
    by_cases hxr : x = r
    · subst hxr
      simp [h₃]
    · simpa [h₃, hxr] using hx
  refine ⟨fun i x hx => ?_, fun x i hsh hf => ?_, fun x hx => ?_, ?_, fun i hd x => ?_,
    (List.pairwise_cons.mp h.apart).2⟩
  · rw [h₁] at hx
    have hxr : x ≠ r := by
      rintro rfl
      rw [hs] at hx
      cases hx
    exact h₂ i x hxr (h.listed i x hx)
  · have hxr : x ≠ r := by
      rintro rfl
      simp [h₃] at hf
    rw [h₁]
    rw [h₃, Function.update_of_ne hxr] at hf
    exact (h.shared x i hsh hf).imp_right fun hx => (List.mem_cons.mp hx).resolve_left hxr
  · simpa only [h₅] using h.releasing x (List.mem_cons_of_mem _ hx)
  · simpa only [h₄, h₅] using h.count
  · rw [h₅] at hd
    rw [h₁]
    exact (h.ended i hd x).imp_right fun hold hsh => hmono x (hold hsh)

end SessionInv

/-! ### The procedures -/

namespace Lib
variable (l : Lib) (r : ReqId)

/-- The easy handle of the request has been given the share of the session. -/
def shares (i : SesId) : Prop := r < l.nextRequest ∧ .setopt (.share i) ∈ l.settings r

instance (i : SesId) : Decidable (l.shares r i) := inferInstanceAs (Decidable (_ ∧ _))

variable {l r}

theorem shares_of_eq {l' : Lib} (h : l'.paramView = l.paramView) : l'.shares = l.shares := by
  unfold shares
  rw [show l'.settings = l.settings from congrArg ParamView.settings h,
    show l'.nextRequest = l.nextRequest from congrArg ParamView.nextRequest h]

end Lib

namespace Machine

/-- A sound step that does not destroy a session from within the release of a request that
uses its share. -/
def SoundSession (m : Machine) (a : Action) : Prop :=
  m.Sound a ∧ match a with
    | .sessionHandle i name args _ => sessionHandleCall name args = .ok .destroy →
      m.lib.command (.session i) = .alive → ∀ x ∈ released m.stack, ¬ m.lib.shares x.1 i
    | _ => True

instance (m : Machine) : ∀ a, Decidable (m.SoundSession a)
  | .sessionHandle _ _ _ _ => inferInstanceAs (Decidable (_ ∧ (_ → _ → ∀ _ ∈ _, _)))
  | .sessionCmd _ _ _ | .requestCmd _ _ _ _ _ | .requestDestroy _ _ | .poolEventSetup _ _ _
  | .poolEventCheck _ _ _ | .serviceEvent _ | .queueOther _ | .interpDelete _
  | .interpDeleteCommand _ | .interpDeleteDone | .threadExit | .curlComplete _ _
  | .curlWriteError _ _ _ _ | .performReturn _ | .easyPerformReturn _ | .cleanupReturn =>
    inferInstanceAs (Decidable (_ ∧ True))

def SessionOk (m : Machine) : Prop := SessionInv m.lib.lifeView m.lib.shares (released m.stack)

theorem sessionOk_of_views {m : Machine} {v : LifeView} {stack : List Frame} {result : CmdResult}
    {l : Lib} (h : SessionInv v m.lib.shares (released stack)) (hv : l.lifeView = v)
    (hp : l.paramView = m.lib.paramView) : SessionOk ⟨l, stack, result⟩ := by
  unfold SessionOk
  rwa [hv, Lib.shares_of_eq hp]

namespace SessionOk
variable {m : Machine} (h : m.SessionOk)
include h

theorem of_eq {l : Lib} {stack : List Frame} {result : CmdResult}
    (hv : l.lifeView = m.lib.lifeView) (hp : l.paramView = m.lib.paramView)
    (hs : released stack = released m.stack) : SessionOk ⟨l, stack, result⟩ :=
  sessionOk_of_views (hs ▸ h) hv hp

theorem requestFree {r : ReqId} {caller : Caller} (hcaller : ∀ i, caller ≠ .session i) :
    (m.requestFree r caller).SessionOk := by
  have hremove := m.lib.lifeView.sessionRemove_eq r
  have hstart : SessionInv (m.lib.lifeView.sessionRemove r) m.lib.shares
      (released (.cleanup r caller :: m.stack)) :=
    h.start (congrArg LifeView.session hremove)
      (fun i x hx hm => (m.lib.lifeView.mem_sessionRemove hx i).mpr hm) (by rw [hremove])
      (by rw [hremove]) (fun i => by rw [hremove]) fun i hi => absurd hi (hcaller i)
  have hp : (m.lib.requestFreeStart r).paramView = m.lib.paramView := by simp
  exact sessionOk_of_views hstart (m.lib.lifeView_requestFreeStart r) hp

/-- The loop of `treq_SessionFree`, and its end. -/
theorem sessionFreeLoop {i : SesId}
    (hi : m.lib.command (.session i) = .deleting ∨ m.lib.command (.session i) = .unlinked)
    (hwait : ∀ y ∈ released m.stack, y.2 ≠ .session i ∧ ¬ m.lib.shares y.1 i) :
    (m.sessionFreeLoop i).SessionOk := by
  unfold Machine.sessionFreeLoop
  split
  · rename_i hnil
    exact h.finish hi hnil hwait
  · rename_i r rs _
    have hv : ((m.lib.clearSession r).requestFreeStart r).lifeView = m.lib.lifeView.clearSession r := by
      rw [Lib.lifeView_requestFreeStart, Lib.lifeView_clearSession]
      simp [LifeView.sessionRemove, LifeView.clearSession]
    have hp : ((m.lib.clearSession r).requestFreeStart r).paramView = m.lib.paramView := by
      simp [Lib.clearSession]
    refine sessionOk_of_views ?_ hv hp
    refine h.start rfl (fun _ _ _ hm => hm) rfl rfl (fun _ => rfl) fun j hj => ?_
    cases hj
    exact ⟨hi, hwait⟩

theorem deleteSessionCommand {i : SesId}
    (hwait : m.lib.command (.session i) = .alive → ∀ y ∈ released m.stack, ¬ m.lib.shares y.1 i) :
    (m.deleteSessionCommand i).SessionOk := by
  unfold Machine.deleteSessionCommand
  split
  · rename_i halive
    have hset : (m.setLib (m.lib.setCommand (.session i) .deleting)).SessionOk :=
      h.setStatus (by simp [Lib.lifeView, halive]) (Or.inl rfl)
    refine hset.sessionFreeLoop (Or.inl (by simp [setLib, Lib.setCommand])) fun y hy => ⟨fun hyi => ?_, ?_⟩
    · have hstatus := h.releasing y hy i hyi
      simp [Lib.lifeView, halive] at hstatus
    · exact hwait halive y hy
  · rename_i hne
    unfold Lib.deleteCommand
    split
    · rename_i ha
      exact absurd ha hne
    · rename_i hd
      exact h.setStatus (by simp [Lib.lifeView, hd]) (Or.inr rfl)
    · exact h

theorem setRequestCommand (r : ReqId) (status : CmdStatus) :
    (m.setLib (m.lib.setCommand (.request r) status)).SessionOk :=
  h.congr_view rfl rfl rfl rfl fun i => by simp [setLib, Lib.setCommand, Lib.lifeView]

theorem deleteRequestCommand (r : ReqId) : (m.deleteRequestCommand r).SessionOk := by
  unfold Machine.deleteRequestCommand
  split
  · split_ifs
    · exact h.setRequestCommand r .deleted
    · have hset := h.setRequestCommand r .deleting
      have hclear : (m.setLib
          ((m.lib.setCommand (.request r) .deleting).clearCmdToken r)).SessionOk := by
        have hv := (m.lib.setCommand (.request r) .deleting).lifeView_clearCmdToken r
        have hp : ((m.lib.setCommand (.request r) .deleting).clearCmdToken r).paramView =
            m.lib.paramView := by simp [Lib.clearCmdToken]
        have hinv : SessionInv ((m.lib.setCommand (.request r) .deleting).lifeView.clearCmdToken r)
            m.lib.shares (released m.stack) := hset.congr_view rfl rfl rfl rfl fun _ => rfl
        exact sessionOk_of_views hinv hv hp
      exact hclear.requestFree (by simp)
  · unfold Lib.deleteCommand
    split
    · exact h.setRequestCommand r .deleted
    · exact h.setRequestCommand r .unlinked
    · exact h

theorem createFinish (r : ReqId) (simple : Bool) : (m.createFinish r simple).SessionOk := by
  unfold Machine.createFinish
  split_ifs
  · exact requestFree (h.of_eq rfl rfl rfl) (by simp)
  · have hinv : SessionInv (m.lib.lifeView.createHandle r) m.lib.shares (released m.stack) :=
      h.congr_view rfl rfl rfl rfl fun i => by simp [LifeView.createHandle]
    have hp : (m.lib.createHandle r).paramView = m.lib.paramView := by simp
    exact sessionOk_of_views hinv (m.lib.lifeView_createHandle r) hp

theorem createNewRequest (hl : m.LifeOk) {api : Api} {env : CurlEnv} {interp : InterpId}
    {call : CreateCall} {session : Option SesId}
    (hsession : ∀ i, session = some i → m.lib.command (.session i) ≠ .deleted) :
    (m.createNewRequest api env interp call session).SessionOk := by
  have hcreated : ∀ {l r simple performing},
      m.lib.createNewRequest api env interp call session = .created l r simple performing →
      (m.setLib l).SessionOk := by
    intro l r simple performing hc
    obtain ⟨rfl, hv⟩ := m.lib.lifeView_createNewRequest _ hc
    have hk := Lib.keeps_createNewRequest hc
    obtain ⟨-, opt, -, -, -, hset⟩ := Lib.given_createNewRequest hc
    have hwait : m.lib.nextRequest ∉ (released m.stack).map Prod.fst := by
      intro hm
      obtain ⟨x, hx, he⟩ := List.mem_map.mp hm
      have hbusy : x.1 ∈ busy m.stack := mem_busy.mpr ⟨_, mem_released.mp hx, rfl⟩
      exact Nat.lt_irrefl _ (he ▸ hl.lt_of_busy hbusy)
    unfold SessionOk setLib
    simp only
    rw [hv]
    have hnext : l.nextRequest = m.lib.nextRequest + 1 := congrArg LifeView.nextRequest hv
    have hsettings : l.settings m.lib.nextRequest = initCalls ++ session.elim [] sessionCalls ++ _ := hset
    refine SessionInv.create h hwait hsession (fun x hx => ?_) fun i hi => ?_
    · funext i
      by_cases hlt : x < m.lib.nextRequest
      · have hkeep : l.settings x = m.lib.settings x := hk.settings x hlt
        simp only [Lib.shares, hkeep, hnext, hlt, Nat.lt_succ_of_lt hlt]
      · have hnot : ¬ x < l.nextRequest := by
          rw [hnext, Nat.lt_succ_iff_lt_or_eq]
          exact fun hl => hl.elim hlt hx
        simp only [Lib.shares, hlt, hnot, false_and]
    · have hmem : .setopt (.share i) ∈ l.settings m.lib.nextRequest := hi.2
      rw [hsettings] at hmem
      rcases List.mem_append.mp hmem with hmem | hmem
      · cases session with
        | none => simp [initCalls] at hmem
        | some j =>
          have hij : i = j := by simpa [initCalls, sessionCalls] using hmem
          rw [hij]
      · exact absurd hmem (share_notMem_requestSetup i)
  unfold Machine.createNewRequest
  split
  · exact h.of_eq rfl rfl rfl
  · rename_i l r simple hc
    exact (hcreated hc).of_eq rfl rfl rfl
  · rename_i l r simple hc
    exact (hcreated hc).createFinish r simple

theorem cleanupFinish (hl : m.LifeOk) {r : ReqId} {caller : Caller} {stack : List Frame}
    (hs : m.stack = .cleanup r caller :: stack)
    (hhead : ∀ i, caller = .session i → (m.lib.session i).requests.head? = some r) :
    (({ m with stack := stack } : Machine).cleanupFinish r caller).SessionOk := by
  obtain ⟨-, -, hnone, -, -⟩ := hl.frames (.cleanup r caller) (by rw [hs]; exact List.mem_cons_self)
  obtain ⟨h₁, h₂, h₃, h₄, h₅⟩ := m.lib.lifeView_requestFreeFinish (r := r)
  have hp : (m.lib.requestFreeFinish r).paramView = m.lib.paramView := by simp
  have hinv : SessionInv m.lib.lifeView m.lib.shares ((r, caller) :: released stack) := by
    have := h
    unfold SessionOk at this
    rwa [hs, released_cleanup] at this
  have hfree : SessionOk ⟨m.lib.requestFreeFinish r, stack, m.result⟩ :=
    sessionOk_of_views (hinv.free hnone h₁ (fun i x _ hm => by rwa [h₂]) h₃ h₄ h₅) rfl hp
  cases caller with
  | command => exact hfree.setRequestCommand r .deleted
  | simple => exact hfree
  | session i =>
    set l := (m.lib.requestFreeFinish r).dropRequest i with hl'
    have hv : l.lifeView = (m.lib.requestFreeFinish r).lifeView.dropRequest i :=
      Lib.lifeView_dropRequest _ i
    have hparam : l.paramView = m.lib.paramView := by
      rw [hl', Lib.dropRequest, Lib.paramView_modifySession _ _ _ rfl, hp]
    have hdrop : SessionOk ⟨l, stack, m.result⟩ := by
      refine sessionOk_of_views (hinv.free hnone (by rw [hv]; exact h₁) (fun j x hx hm => ?_)
        (by rw [hv]; exact h₃) (by rw [hv]; exact h₄) (fun j => by rw [hv]; exact h₅ j)) rfl
        hparam
      rw [hv]
      simp only [LifeView.dropRequest, h₂]
      by_cases hj : j = i
      · subst hj
        obtain ⟨rs, hrs⟩ := List.head?_eq_some_iff.mp (hhead j rfl)
        have hrequests : m.lib.lifeView.requests j = r :: rs := hrs
        rw [hrequests] at hm
        simpa [hrequests] using (List.mem_cons.mp hm).resolve_left hx
      · simpa [hj] using hm
    have hstatus : l.command (.session i) = m.lib.command (.session i) :=
      (congrFun (congrArg LifeView.command hv) _).trans (h₅ i)
    have hshares : l.shares = m.lib.shares := Lib.shares_of_eq hparam
    refine hdrop.sessionFreeLoop ?_ fun y hy => ?_
    · change l.command (.session i) = _ ∨ l.command (.session i) = _
      rw [hstatus]
      exact hinv.releasing (r, .session i) List.mem_cons_self i rfl
    · change y.2 ≠ .session i ∧ ¬ l.shares y.1 i
      rw [hshares]
      exact (List.pairwise_cons.mp hinv.apart).1 y hy i rfl

theorem next {api : Api} {a : Action} (hl : m.LifeOk) (ha : m.enabled a = true)
    (hs : m.SoundSession a) : (m.next api a).SessionOk := by
  cases a with
  | sessionCmd interp objv share =>
    simp only [Machine.next]
    split
    · exact h.of_eq rfl rfl rfl
    · rename_i l i hc
      obtain ⟨rfl, hv⟩ := m.lib.lifeView_sessionCmd _ hc
      obtain ⟨hnil, habsent⟩ := hl.fresh_session m.lib.nextSession (Nat.le_refl _)
      have hk := (Lib.keeps_sessionCmd hc).1
      have hnext : l.nextRequest = m.lib.nextRequest := congrArg LifeView.nextRequest hv
      have hshares : l.shares = m.lib.shares := by
        funext r i
        by_cases hr : r < m.lib.nextRequest
        · have hkeep : l.settings r = m.lib.settings r := hk.settings r hr
          simp only [Lib.shares, hkeep, hnext]
        · simp only [Lib.shares, hnext, hr, false_and]
      unfold SessionOk
      simp only
      rw [hv, hshares]
      refine SessionInv.congr_view (h.newSession habsent hnil) rfl ?_ rfl rfl fun _ => rfl
      exact Function.update_eq_self_iff.mpr hnil.symm
  | requestCmd interp name clientData args env =>
    simp only [Machine.next]
    split
    · exact h.of_eq rfl rfl rfl
    · exact h.createNewRequest hl (by simp)
  | sessionHandle i name args env =>
    have hfound : m.commandFound (.session i) = true := by
      simp only [enabled, Bool.and_eq_true] at ha
      exact ha.1.2
    simp only [Machine.next]
    split
    · exact h.of_eq rfl rfl rfl
    · rename_i hcall
      exact deleteSessionCommand (h.of_eq rfl rfl rfl) (hs.2 hcall)
    · refine h.createNewRequest hl fun j hj => ?_
      split_ifs at hj
      cases hj
      intro hd
      simp [commandFound, hd] at hfound
  | requestDestroy r byRename =>
    refine next_requestDestroy_rule ?_ fun _ _ => h.of_eq rfl rfl rfl
    exact deleteRequestCommand (h.of_eq rfl rfl rfl) r
  | poolEventSetup p b t => exact h.of_eq (by simp) (by simp) rfl
  | poolEventCheck p b w =>
    have hv := m.lib.lifeView_poolEventCheckStart p b w
    have hp := m.lib.paramView_poolEventCheckStart p b w
    simp only [Machine.next]
    split_ifs
    · exact h.of_eq hv hp rfl
    · exact h.of_eq hv hp rfl
  | serviceEvent b =>
    refine h.of_eq ?_ (m.paramView_serviceEvent b) rfl
    simp only [Lib.serviceEvent]
    split
    · rw [Lib.lifeView_requestEventProc]; rfl
    · rfl
    · rfl
    · rfl
  | queueOther b => exact h.of_eq rfl rfl rfl
  | interpDelete i => exact h.congr_view rfl rfl rfl rfl fun _ => rfl
  | interpDeleteCommand tok =>
    obtain ⟨j, hstack, -⟩ := enabled_interpDeleteCommand ha
    cases tok with
    | request r => exact h.deleteRequestCommand r
    | session i => exact h.deleteSessionCommand fun _ => by simp [hstack, released, Frame.release]
  | interpDeleteDone =>
    obtain ⟨i, hstack, -⟩ := enabled_interpDeleteDone ha
    exact h.of_eq rfl rfl (by simp [hstack])
  | threadExit => exact h.of_eq (by simp) (by simp) rfl
  | curlComplete r result =>
    simp only [Machine.next]
    split
    · exact h.of_eq rfl rfl rfl
    · exact h
  | curlWriteError r size contentSize result =>
    have hv := m.lib.lifeView_requestSetError r (writeErrorText size contentSize)
    have hp := m.lib.paramView_requestSetError r (writeErrorText size contentSize)
    simp only [Machine.next]
    split
    · rename_i p wf stack hstack
      exact h.of_eq hv hp (by simp [hstack])
    · rename_i r' simple wf stack hstack
      exact h.of_eq hv hp (by simp [hstack])
    · exact h
  | performReturn ok =>
    obtain ⟨p, wf, stack, hstack, -⟩ := enabled_performReturn ha
    simp only [Machine.next, hstack]
    have hv := (m.lib.setInCallback p false).lifeView_poolEventCheckFinish p
    have hp := (m.lib.setInCallback p false).paramView_poolEventCheckFinish p
    split_ifs
    · exact h.of_eq (hv _) (hp _) (by simp [hstack])
    · exact h.of_eq rfl rfl (by simp [hstack])
  | easyPerformReturn res =>
    obtain ⟨r, simple, wf, stack, hstack, -⟩ := enabled_easyPerformReturn ha
    simp only [Machine.next, hstack]
    exact createFinish (h.of_eq (by simp) (by simp) (by simp [hstack])) r simple
  | cleanupReturn =>
    obtain ⟨r, caller, stack, hstack⟩ := enabled_cleanupReturn ha
    simp only [Machine.next, hstack]
    refine h.cleanupFinish hl hstack fun i hi => ?_
    subst hi
    have := hs.1.1
    simpa only [Safe, hstack] using this

end SessionOk

/-! ### Runs -/

variable {api : Api} {as : List Action} {m : Machine}

end Machine

end Trequests
