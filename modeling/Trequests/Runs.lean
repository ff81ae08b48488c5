import Trequests.PoolMachine

/-! Classes of runs. A run is quiet when no script runs inside a callback of libcurl.
More generally the scripts inside callbacks may do anything but release requests;
then a release, which for a session goes on over several steps, never finds a
callback of a pool running, and the pools are in order in every state. -/

namespace Trequests

/-- The actions that scripts and the event loop take. -/
def Action.isScript : Action → Bool
  | .sessionCmd .. | .requestCmd .. | .sessionHandle .. | .requestDestroy .. | .poolEventSetup ..
  | .poolEventCheck .. | .serviceEvent .. | .queueOther .. => true
  | _ => false

/-- `::trequests::get http://localhost -async -callback foo`, with a libcurl that
refuses nothing. -/
def Action.getAsync : Action :=
  .requestCmd 0 (lit "get") (some .get)
    [lit "http://localhost", lit "-async", lit "-callback", lit "foo"] .willing

namespace Machine
variable (m : Machine) (a : Action)

/-- No script runs inside a callback. -/
def Quiet : Prop := a.isScript = true → m.stack = []

/-- No script inside a callback releases a request. -/
def NoReentrantDestroy : Prop :=
  a.isScript = true → (m.releases a).isSome = true → m.stack = []

instance : Decidable (m.Quiet a) := inferInstanceAs (Decidable (_ → _))

instance : Decidable (m.NoReentrantDestroy a) := inferInstanceAs (Decidable (_ → _ → _))

end Machine

/-! ### Where sessions are released -/

/-- The release of a session waits only where no pool is being performed. -/
def ReleasedOutside : List Frame → Prop
  | [] => True
  | .cleanup _ (.session _) :: stack => performing stack = [] ∧ ReleasedOutside stack
  | _ :: stack => ReleasedOutside stack

namespace Machine
variable {m : Machine}

theorem sessionFreeLoop_stack (i : SesId) :
    (m.sessionFreeLoop i).stack = m.stack ∨
      ∃ r, (m.lib.session i).requests.head? = some r ∧
        (m.sessionFreeLoop i).stack = .cleanup r (.session i) :: m.stack := by
  unfold sessionFreeLoop
  split
  · exact Or.inl rfl
  · rename_i r rs hrs
    exact Or.inr ⟨r, by rw [hrs, List.head?_cons], rfl⟩

theorem deleteSessionCommand_stack (i : SesId) :
    (m.deleteSessionCommand i).stack = m.stack ∨
      ∃ r, m.sessionReleases i = some r ∧
        (m.deleteSessionCommand i).stack = .cleanup r (.session i) :: m.stack := by
  unfold deleteSessionCommand
  split
  · rename_i halive
    rw [sessionReleases, if_pos halive]
    exact sessionFreeLoop_stack i
  · exact Or.inl rfl

theorem deleteRequestCommand_stack (r : ReqId) :
    (m.deleteRequestCommand r).stack = m.stack ∨
      (m.deleteRequestCommand r).stack = .cleanup r .command :: m.stack := by
  unfold deleteRequestCommand
  split
  · split_ifs
    · exact Or.inl rfl
    · exact Or.inr rfl
  · exact Or.inl rfl

theorem createFinish_stack (r : ReqId) (simple : Bool) :
    (m.createFinish r simple).stack = m.stack ∨
      (m.createFinish r simple).stack = .cleanup r .simple :: m.stack := by
  unfold createFinish
  split_ifs
  · exact Or.inr rfl
  · exact Or.inl rfl

theorem createNewRequest_stack (api : Api) (env : CurlEnv) (interp : InterpId) (call : CreateCall)
    (session : Option SesId) :
    let stack := (m.createNewRequest api env interp call session).stack
    stack = m.stack ∨ (∃ r simple, stack = .run r simple false :: m.stack) ∨
      ∃ r, stack = .cleanup r .simple :: m.stack := by
  unfold createNewRequest
  split
  · exact Or.inl rfl
  · rename_i l r simple _
    exact Or.inr (Or.inl ⟨r, simple, rfl⟩)
  · rename_i l r simple _
    rcases (m.setLib l).createFinish_stack r simple with hs | hs
    · exact Or.inl hs
    · exact Or.inr (Or.inr ⟨r, hs⟩)

theorem cleanupFinish_stack (r : ReqId) (caller : Caller) :
    (m.cleanupFinish r caller).stack = m.stack ∨
      ∃ r' i, caller = .session i ∧
        (m.cleanupFinish r caller).stack = .cleanup r' (.session i) :: m.stack := by
  unfold cleanupFinish
  cases caller with
  | command => exact Or.inl rfl
  | simple => exact Or.inl rfl
  | session i =>
    rcases (m.setLib ((m.lib.requestFreeFinish r).dropRequest i)).sessionFreeLoop_stack i with
      hs | ⟨r', -, hs⟩
    · exact Or.inl hs
    · exact Or.inr ⟨r', i, rfl, hs⟩

theorem releasedOutside_next {api : Api} {a : Action} (h : ReleasedOutside m.stack)
    (ha : m.enabled a = true) (hq : m.NoReentrantDestroy a) :
    ReleasedOutside (m.next api a).stack := by
  have hcreate : ∀ env interp call session,
      ReleasedOutside (m.createNewRequest api env interp call session).stack := by
    intro env interp call session
    rcases m.createNewRequest_stack api env interp call session with hs | ⟨r, s, hs⟩ | ⟨r, hs⟩ <;>
      rw [hs] <;> exact h
  have hsession : ∀ m' : Machine, m'.stack = m.stack → m'.lib = m.lib → ∀ i,
      ((m.sessionReleases i).isSome = true → performing m.stack = []) →
      ReleasedOutside (m'.deleteSessionCommand i).stack := by
    intro m' hm hl i hp
    rcases m'.deleteSessionCommand_stack i with hs | ⟨r, hhead, hs⟩
    · rw [hs, hm]; exact h
    · rw [sessionReleases, hl, ← sessionReleases] at hhead
      rw [hs, hm]
      exact ⟨hp (by rw [hhead]; rfl), h⟩
  have hrequest : ∀ m' : Machine, m'.stack = m.stack → ∀ r,
      ReleasedOutside (m'.deleteRequestCommand r).stack := by
    intro m' hm r
    rcases m'.deleteRequestCommand_stack r with hs | hs <;> rw [hs, hm] <;> exact h
  cases a with
  | sessionCmd interp objv share => simp only [next]; split <;> exact h
  | requestCmd interp name clientData args env =>
    simp only [next]
    split
    · exact h
    · exact hcreate _ _ _ _
  | sessionHandle i name args env =>
    simp only [next]
    split
    · exact h
    · rename_i hcall
      apply hsession { m with result := .empty } rfl rfl i
      intro hhead
      have hs : m.stack = [] := hq rfl (by simp only [releases, hcall]; exact hhead)
      rw [hs, performing_nil]
    · exact hcreate _ _ _ _
  | requestDestroy r byRename =>
    exact next_requestDestroy_rule (hrequest { m with result := .empty } rfl r) fun _ _ => h
  | poolEventSetup p b t => exact h
  | poolEventCheck p b w => simp only [next]; split_ifs <;> exact h
  | serviceEvent b => exact h
  | queueOther b => exact h
  | interpDelete i => exact h
  | interpDeleteCommand tok =>
    obtain ⟨j, hs, -⟩ := enabled_interpDeleteCommand ha
    cases tok with
    | request r => exact hrequest m rfl r
    | session i =>
      apply hsession m rfl rfl i
      intro _
      rw [hs, performing_interpDelete, performing_nil]
  | interpDeleteDone =>
    obtain ⟨j, hs, -⟩ := enabled_interpDeleteDone ha
    simp only [next, hs, List.tail_cons]
    trivial
  | threadExit => exact h
  | curlComplete r result =>
    simp only [next]
    split <;> exact h
  | curlWriteError r size contentSize result =>
    simp only [next]
    split
    · rename_i hs; rw [hs] at h; exact h
    · rename_i hs; rw [hs] at h; exact h
    · exact h
  | performReturn ok =>
    obtain ⟨p, wf, stack, hs, -⟩ := enabled_performReturn ha
    simp only [next, hs]
    rw [hs] at h
    exact h
  | easyPerformReturn res =>
    obtain ⟨r, simple, wf, stack, hs, -⟩ := enabled_easyPerformReturn ha
    simp only [next, hs]
    rw [hs] at h
    rcases createFinish_stack (m := { m with lib := m.lib.requestRunFinish r res, stack := stack })
      r simple with hs' | hs' <;> rw [hs'] <;> exact h
  | cleanupReturn =>
    obtain ⟨r, caller, stack, hs⟩ := enabled_cleanupReturn ha
    simp only [next, hs]
    rw [hs] at h
    rcases cleanupFinish_stack (m := { m with stack := stack }) r caller with
      hs' | ⟨r', i, rfl, hs'⟩
    · rw [hs']
      cases caller with
      | command => exact h
      | simple => exact h
      | session i => exact h.2
    · rw [hs']; exact h

/-- Outside callbacks, whatever is released can be removed from its pool. -/
theorem removable_of_noReentrantDestroy {a : Action} (h : m.PoolInv) (ho : ReleasedOutside m.stack)
    (ha : m.enabled a = true) (hq : m.NoReentrantDestroy a) : m.Removable a := by
  intro r hr p _
  apply h.inCallback_of_notMem
  have hscript : a.isScript = true → performing m.stack = [] := fun hs => by
    rw [hq hs (by rw [hr]; rfl), performing_nil]
  cases a with
  | requestDestroy r byRename => simp [hscript rfl]
  | sessionHandle i name args env => simp [hscript rfl]
  | interpDeleteCommand tok =>
    obtain ⟨j, hs, -⟩ := enabled_interpDeleteCommand ha
    simp [hs]
  | cleanupReturn =>
    simp only [releases] at hr
    split at hr
    · rename_i r' i stack hs
      rw [hs] at ho ⊢
      simp [ho.1]
    · cases hr
  | _ => cases hr

/-! ### The pools along runs -/

theorem poolInv_init : init.PoolInv where
  pools :=
    { wellFormed := fun _ => Pool.zero_wellFormed
      mem_iff := by simp [init, Lib.init, Lib.poolView, Pool.zero, Request.zero]
      lt := by simp [init, Lib.init, Lib.poolView, Request.zero]
      default_iff := by simp [init, Lib.init, Lib.poolView]
      owner_default := by simp [init, Lib.init, Lib.poolView, Request.zero]
      source := by simp [init, Lib.init, Lib.poolView, Pool.zero]
      fresh := by simp [init, Lib.init, Lib.poolView]
      alive := by simp [init, Lib.init, Lib.poolView, Pool.zero] }
  callback := by simp [init, Lib.init, Lib.poolView, PoolView.inCallback, Pool.zero, Multi.init]
  nodup := List.nodup_nil
  running := by simp [init]

theorem noReentrantDestroy_invariant {api : Api} {s t : Machine} {a : Action}
    (hs : s.PoolInv ∧ ReleasedOutside s.stack) (hq : s.NoReentrantDestroy a)
    (hst : s.step api a = some t) : t.PoolInv ∧ ReleasedOutside t.stack := by
  obtain ⟨ha, rfl⟩ := step_eq_some.mp hst
  exact ⟨hs.1.next ha (removable_of_noReentrantDestroy hs.1 hs.2 ha hq),
    releasedOutside_next hs.2 ha hq⟩

theorem poolInv_of_noReentrantDestroy {api : Api} {as : List Action}
    (hq : Run.Along (step api) NoReentrantDestroy init as) (hr : runOf api as = some m) :
    m.PoolInv ∧ ReleasedOutside m.stack :=
  Run.exec_preserves (fun _ _ _ hs hok hst => noReentrantDestroy_invariant hs hok hst)
    ⟨poolInv_init, trivial⟩ hq hr

theorem poolInv_of_removable {api : Api} {as : List Action}
    (hq : Run.Along (step api) Removable init as) (hr : runOf api as = some m) : m.PoolInv := by
  refine Run.exec_preserves (I := PoolInv) (fun s a t hs hok hst => ?_) poolInv_init hq hr
  obtain ⟨ha, rfl⟩ := step_eq_some.mp hst
  exact hs.next ha hok

/-- Where no script inside a callback releases a request, libcurl refuses no removal. -/
theorem along_removable_of_noReentrantDestroy {api : Api} {as : List Action}
    (hq : Run.Along (step api) NoReentrantDestroy init as) (hr : runOf api as = some m) :
    Run.Along (step api) Removable init as := by
  apply Run.along_iff_forall_prefix.mpr
  intro bs a t hpre ht
  obtain ⟨u, hst, -⟩ := Run.step_of_prefix hpre hr ht
  obtain ⟨hi, hout⟩ := poolInv_of_noReentrantDestroy
    (hq.of_prefix ((List.prefix_append bs [a]).trans hpre)) ht
  exact removable_of_noReentrantDestroy hi hout (step_eq_some.mp hst).1
    (Run.along_iff_forall_prefix.mp hq bs a t hpre ht)

end Machine

end Trequests
