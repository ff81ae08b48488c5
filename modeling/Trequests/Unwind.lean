import Mathlib.Algebra.BigOperators.Group.Finset.Basic
import Mathlib.Algebra.BigOperators.Group.Finset.Piecewise
import Mathlib.Algebra.GroupWithZero.Nat
import Mathlib.Algebra.Order.BigOperators.Group.Finset
import Trequests.Delivery

/-! Every call of the library comes to an end. Once no script runs any more, the calls
that wait return one after the other, `treq_SessionFree` frees the requests of its session,
and Tcl deletes the commands of an interpreter. What is left to do has a size, which each
of these steps makes smaller, whatever libcurl answers. Each of these steps is safe if the
scripts so far were, and left no new request at the front of the list of a session that
waits for the release of its first one. -/

namespace Trequests

/-- The actions that need no script: a call of libcurl returns, or the deletion of an
interpreter goes on. -/
def Action.unwinds : Action → Bool
  | .performReturn _ | .easyPerformReturn _ | .cleanupReturn | .interpDeleteCommand _
  | .interpDeleteDone => true
  | _ => false

/-! ### The work that is left -/

namespace LifeView
variable (v : LifeView)

/-- The commands that there can be. -/
def tokens : Finset CmdToken :=
  (Finset.range v.nextRequest).image .request ∪ (Finset.range v.nextSession).image .session

@[simp] theorem request_mem_tokens {r : ReqId} : .request r ∈ v.tokens ↔ r < v.nextRequest := by
  simp [tokens]

@[simp] theorem session_mem_tokens {i : SesId} : .session i ∈ v.tokens ↔ i < v.nextSession := by
  simp [tokens]

theorem tokens_mono {v v' : LifeView} (hr : v.nextRequest ≤ v'.nextRequest)
    (hs : v.nextSession ≤ v'.nextSession) : v.tokens ⊆ v'.tokens :=
  Finset.union_subset_union (Finset.image_subset_image (Finset.range_mono hr))
    (Finset.image_subset_image (Finset.range_mono hs))

/-- The work of deleting a command, for which nothing is done twice. -/
def commandWork (tok : CmdToken) : ℕ :=
  if v.command tok = .alive then
    match tok with
    | .request _ => 2
    | .session i => 2 + (v.requests i).length
  else 0

/-- The work of a call that waits, and of what it does when it goes on. -/
def frameWork : Frame → ℕ
  | .run _ simple _ => if simple then 2 else 3
  | .cleanup _ (.session i) => 1 + (v.requests i).length
  | _ => 1

def work (stack : List Frame) : ℕ :=
  ∑ tok ∈ v.tokens, v.commandWork tok + (stack.map v.frameWork).sum

@[simp] theorem work_cons (f : Frame) (stack : List Frame) :
    v.work (f :: stack) = v.frameWork f + v.work stack := by
  simp only [work, List.map_cons, List.sum_cons]
  omega

/-- Nothing is created, and no list of a session grows. -/
structure LessWork (v v' : LifeView) : Prop where
  nextRequest : v'.nextRequest = v.nextRequest
  nextSession : v'.nextSession = v.nextSession
  command : ∀ tok, v'.command tok = .alive → v.command tok = .alive
  requests : ∀ i, (v'.requests i).length ≤ (v.requests i).length

namespace LessWork
variable {v} {v' v'' : LifeView}

theorem refl (v : LifeView) : LessWork v v := ⟨rfl, rfl, fun _ h => h, fun _ => Nat.le_refl _⟩

theorem trans (h : LessWork v v') (h' : LessWork v' v'') : LessWork v v'' :=
  ⟨h'.nextRequest.trans h.nextRequest, h'.nextSession.trans h.nextSession,
    fun tok ht => h.command tok (h'.command tok ht), fun i => (h'.requests i).trans (h.requests i)⟩

theorem tokens (h : LessWork v v') : v'.tokens = v.tokens := by
  rw [LifeView.tokens, LifeView.tokens, h.nextRequest, h.nextSession]

theorem commandWork (h : LessWork v v') (tok : CmdToken) : v'.commandWork tok ≤ v.commandWork tok := by
  unfold LifeView.commandWork
  by_cases ht : v'.command tok = .alive
  · rw [if_pos ht, if_pos (h.command tok ht)]
    cases tok with
    | request r => exact Nat.le_refl _
    | session i => exact Nat.add_le_add_left (h.requests i) 2
  · rw [if_neg ht]
    exact Nat.zero_le _

theorem frameWork (h : LessWork v v') (f : Frame) : v'.frameWork f ≤ v.frameWork f := by
  cases f with
  | cleanup r caller =>
    cases caller with
    | session i => exact Nat.add_le_add_left (h.requests i) 1
    | _ => exact Nat.le_refl _
  | _ => exact Nat.le_refl _

theorem work (h : LessWork v v') (stack : List Frame) : v'.work stack ≤ v.work stack := by
  have hcommands : ∑ tok ∈ v'.tokens, v'.commandWork tok ≤ ∑ tok ∈ v.tokens, v.commandWork tok := by
    rw [h.tokens]
    exact Finset.sum_le_sum fun tok _ => h.commandWork tok
  have hframes : (stack.map v'.frameWork).sum ≤ (stack.map v.frameWork).sum :=
    List.sum_le_sum fun f _ => h.frameWork f
  exact Nat.add_le_add hcommands hframes

/-- A command that is deleted was part of the work. -/
theorem work_delete (h : LessWork v v') {tok : CmdToken} (hmem : tok ∈ v.tokens)
    (hdel : v'.command tok ≠ .alive) (stack : List Frame) :
    v'.work stack + v.commandWork tok ≤ v.work stack := by
  have hzero : v'.commandWork tok = 0 := if_neg hdel
  have hrest : ∑ x ∈ v.tokens.erase tok, v'.commandWork x ≤ ∑ x ∈ v.tokens.erase tok, v.commandWork x :=
    Finset.sum_le_sum fun x _ => h.commandWork x
  have hnew := Finset.add_sum_erase v.tokens v'.commandWork hmem
  have hold := Finset.add_sum_erase v.tokens v.commandWork hmem
  have hframes : (stack.map v'.frameWork).sum ≤ (stack.map v.frameWork).sum :=
    List.sum_le_sum fun f _ => h.frameWork f
  simp only [LifeView.work, h.tokens]
  omega

theorem setCommand {tok : CmdToken} {status : CmdStatus} (hs : status ≠ .alive) :
    LessWork v (v.setCommand tok status) where
  nextRequest := rfl
  nextSession := rfl
  command x hx := by
    by_cases he : x = tok
    · subst he
      simp only [LifeView.setCommand, Function.update_self] at hx
      exact absurd hx hs
    · simpa only [LifeView.setCommand, Function.update_of_ne he] using hx
  requests _ := Nat.le_refl _

theorem sessionRemove (r : ReqId) : LessWork v (v.sessionRemove r) := by
  rw [LifeView.sessionRemove_eq]
  exact ⟨rfl, rfl, fun _ h => h, fun i => (v.sublist_sessionRemove r i).length_le⟩

theorem dropRequest (i : SesId) : LessWork v (v.dropRequest i) where
  nextRequest := rfl
  nextSession := rfl
  command _ h := h
  requests j := by
    by_cases hj : j = i
    · subst hj
      simp [LifeView.dropRequest]
    · simp [LifeView.dropRequest, hj]

end LessWork

/-- A new handle command adds what it takes to delete it. -/
theorem work_createHandle (r : ReqId) (stack : List Frame) :
    (v.createHandle r).work stack ≤ v.work stack + 2 := by
  have hterm : ∀ tok, (v.createHandle r).commandWork tok ≤
      v.commandWork tok + if tok = .request r then 2 else 0 := by
    intro tok
    by_cases ht : tok = .request r
    · subst ht
      simp [LifeView.commandWork, LifeView.createHandle]
    · simp [LifeView.commandWork, LifeView.createHandle, ht]
  have hsum : ∑ tok ∈ v.tokens, (v.createHandle r).commandWork tok ≤
      ∑ tok ∈ v.tokens, v.commandWork tok + 2 := by
    refine (Finset.sum_le_sum fun tok _ => hterm tok).trans ?_
    rw [Finset.sum_add_distrib, Finset.sum_ite_eq']
    split_ifs <;> omega
  have hframes : (v.createHandle r).frameWork = v.frameWork := by
    funext f
    cases f with
    | cleanup r caller => cases caller <;> rfl
    | _ => rfl
  have htokens : (v.createHandle r).tokens = v.tokens := rfl
  simp only [work, hframes, htokens]
  omega

end LifeView

/-! ### The procedures that go on -/

namespace Lib
variable (l : Lib) (r : ReqId)

theorem lessWork_requestFreeStart : l.lifeView.LessWork (l.requestFreeStart r).lifeView := by
  rw [lifeView_requestFreeStart]
  exact .sessionRemove r

theorem lessWork_clearSession : l.lifeView.LessWork (l.clearSession r).lifeView := by
  rw [lifeView_clearSession]
  exact ⟨rfl, rfl, fun _ h => h, fun _ => Nat.le_refl _⟩

theorem lessWork_clearCmdToken : l.lifeView.LessWork (l.clearCmdToken r).lifeView := by
  rw [lifeView_clearCmdToken]
  exact ⟨rfl, rfl, fun _ h => h, fun _ => Nat.le_refl _⟩

theorem lessWork_deleteCommand (tok : CmdToken) : l.lifeView.LessWork (l.deleteCommand tok).lifeView := by
  unfold deleteCommand
  split
  · exact .setCommand (nofun)
  · exact .setCommand (nofun)
  · exact .refl _

theorem lessWork_requestFreeFinish : l.lifeView.LessWork (l.requestFreeFinish r).lifeView := by
  have hcommand : l.lifeView.LessWork (l.requestFreeCommand r).lifeView := by
    unfold requestFreeCommand
    split_ifs
    · have hdead : l.lifeView.LessWork
          (l.modifyRequest r fun q => { q with isDead := true }).lifeView := by
        rw [lifeView_update]
        exact ⟨rfl, rfl, fun _ h => h, fun _ => Nat.le_refl _⟩
      exact hdead.trans (lessWork_deleteCommand _ _)
    · exact .refl _
  exact ⟨hcommand.nextRequest, hcommand.nextSession, hcommand.command, hcommand.requests⟩

theorem lessWork_sessionFreeFinish (i : SesId) :
    l.lifeView.LessWork (l.sessionFreeFinish i).lifeView := by
  have h : l.lifeView.LessWork (l.lifeView.setCommand (.session i) .deleted) :=
    .setCommand (by decide)
  exact ⟨h.nextRequest, h.nextSession, h.command, h.requests⟩

end Lib

namespace Machine

/-- The size of what is left to do. -/
def work (m : Machine) : ℕ := m.lib.lifeView.work m.stack

variable {m : Machine}

theorem work_requestFree (r : ReqId) (caller : Caller) :
    (m.requestFree r caller).work ≤ m.lib.lifeView.work (.cleanup r caller :: m.stack) :=
  (m.lib.lessWork_requestFreeStart r).work _

/-- The loop of `treq_SessionFree` has as much left to do as the list is long. -/
theorem work_sessionFreeLoop (i : SesId) :
    (m.sessionFreeLoop i).work ≤ m.work + (m.lib.session i).requests.length + 1 := by
  unfold Machine.sessionFreeLoop
  split
  · have h := (m.lib.lessWork_sessionFreeFinish i).work m.stack
    have hw : (m.setLib (m.lib.sessionFreeFinish i)).work ≤ m.work := h
    omega
  · rename_i r rs hrs
    have hclear := (m.lib.lessWork_clearSession r).work (.cleanup r (.session i) :: m.stack)
    have hfree := work_requestFree (m := m.setLib (m.lib.clearSession r)) r (.session i)
    have hframe : m.lib.lifeView.work (.cleanup r (.session i) :: m.stack) =
        1 + (m.lib.session i).requests.length + m.work := LifeView.work_cons ..
    have := hfree.trans hclear
    omega

/-- Where the list is empty, nothing is left. -/
theorem work_sessionFreeLoop_nil {i : SesId} (hi : (m.lib.session i).requests = []) :
    (m.sessionFreeLoop i).work ≤ m.work := by
  have hloop : m.sessionFreeLoop i = m.setLib (m.lib.sessionFreeFinish i) := by
    simp only [Machine.sessionFreeLoop, hi]
  rw [hloop]
  exact (m.lib.lessWork_sessionFreeFinish i).work m.stack

theorem work_createFinish (r : ReqId) (simple : Bool) :
    (m.createFinish r simple).work < m.work + if simple then 2 else 3 := by
  unfold Machine.createFinish
  split_ifs with hs
  · have hframe : m.lib.lifeView.work (.cleanup r .simple :: m.stack) = 1 + m.work :=
      LifeView.work_cons ..
    refine lt_of_le_of_lt ((work_requestFree r .simple).trans hframe.le) ?_
    omega
  · have h := m.lib.lifeView.work_createHandle r m.stack
    rw [← Lib.lifeView_createHandle] at h
    exact lt_of_le_of_lt h (Nat.lt_succ_self _)

theorem work_cleanupFinish (r : ReqId) (caller : Caller) :
    (m.cleanupFinish r caller).work < m.lib.lifeView.work (.cleanup r caller :: m.stack) := by
  have hfinish := m.lib.lessWork_requestFreeFinish r
  have hold : m.lib.lifeView.work (.cleanup r caller :: m.stack) =
      m.lib.lifeView.frameWork (.cleanup r caller) + m.work := LifeView.work_cons ..
  rw [hold]
  cases caller with
  | command =>
    have hdelete : (m.lib.requestFreeFinish r).lifeView.LessWork
        ((m.lib.requestFreeFinish r).setCommand (.request r) .deleted).lifeView :=
      .setCommand (by decide)
    have h : (m.setLib ((m.lib.requestFreeFinish r).setCommand (.request r) .deleted)).work ≤ m.work :=
      (hfinish.trans hdelete).work m.stack
    exact lt_of_le_of_lt h (Nat.lt_add_of_pos_left Nat.one_pos)
  | simple =>
    have h : (m.setLib (m.lib.requestFreeFinish r)).work ≤ m.work := hfinish.work m.stack
    exact lt_of_le_of_lt h (Nat.lt_add_of_pos_left Nat.one_pos)
  | session i =>
    set l := (m.lib.requestFreeFinish r).dropRequest i with hl
    have hdrop : m.lib.lifeView.LessWork l.lifeView := by
      rw [hl, Lib.lifeView_dropRequest]
      exact hfinish.trans (.dropRequest i)
    have hw : (m.setLib l).work ≤ m.work := hdrop.work m.stack
    have hlen : (l.session i).requests.length ≤ (m.lib.session i).requests.length - 1 := by
      have htail : (l.session i).requests = ((m.lib.requestFreeFinish r).session i).requests.tail :=
        congrFun (congrArg LifeView.requests ((m.lib.requestFreeFinish r).lifeView_dropRequest i)) i
          |>.trans (by simp [LifeView.dropRequest, Lib.lifeView])
      rw [htail, List.length_tail]
      exact Nat.sub_le_sub_right (hfinish.requests i) 1
    have hframe : m.lib.lifeView.frameWork (.cleanup r (.session i)) =
        1 + (m.lib.session i).requests.length := rfl
    change ((m.setLib l).sessionFreeLoop i).work < _
    -- the dropped request makes room for the frame of the next one
    by_cases hnil : (l.session i).requests = []
    · have h := work_sessionFreeLoop_nil (m := m.setLib l) hnil
      exact lt_of_le_of_lt (h.trans hw) (by omega)
    · have hpos := List.length_pos_of_ne_nil hnil
      have h := work_sessionFreeLoop (m := m.setLib l) i
      have hsame : ((m.setLib l).lib.session i).requests.length = (l.session i).requests.length := rfl
      omega

theorem work_deleteRequestCommand {r : ReqId} (ha : m.lib.command (.request r) = .alive)
    (hr : r < m.lib.nextRequest) : (m.deleteRequestCommand r).work < m.work := by
  have hmem : CmdToken.request r ∈ m.lib.lifeView.tokens :=
    (LifeView.request_mem_tokens _).mpr hr
  have hwork : m.lib.lifeView.commandWork (.request r) = 2 := if_pos ha
  have hset : ∀ status, status ≠ .alive → ∀ stack,
      (m.lib.setCommand (.request r) status).lifeView.work stack + 2 ≤ m.lib.lifeView.work stack := by
    intro status hs stack
    have h : m.lib.lifeView.LessWork (m.lib.lifeView.setCommand (.request r) status) := .setCommand hs
    have hgone : (m.lib.lifeView.setCommand (.request r) status).command (.request r) ≠ .alive := by
      simpa [LifeView.setCommand] using hs
    exact hwork ▸ h.work_delete hmem hgone stack
  unfold Machine.deleteRequestCommand
  rw [ha]
  simp only
  split_ifs
  · have h : (m.setLib (m.lib.setCommand (.request r) .deleted)).work + 2 ≤ m.work :=
      hset .deleted (by decide) m.stack
    omega
  · have hclear := ((m.lib.setCommand (.request r) .deleting).lessWork_clearCmdToken r).work m.stack
    have hdelete := hset .deleting (by decide) m.stack
    have hfree := work_requestFree
      (m := m.setLib ((m.lib.setCommand (.request r) .deleting).clearCmdToken r)) r .command
    rw [LifeView.work_cons] at hfree
    have hframe : ((m.lib.setCommand (.request r) .deleting).clearCmdToken r).lifeView.frameWork
        (.cleanup r .command) = 1 := rfl
    simp only [setLib, work] at hfree hdelete hclear ⊢
    omega

theorem work_deleteSessionCommand {i : SesId} (ha : m.lib.command (.session i) = .alive)
    (hi : i < m.lib.nextSession) : (m.deleteSessionCommand i).work < m.work := by
  have hmem : CmdToken.session i ∈ m.lib.lifeView.tokens :=
    (LifeView.session_mem_tokens _).mpr hi
  have hwork : m.lib.lifeView.commandWork (.session i) = 2 + (m.lib.session i).requests.length :=
    if_pos ha
  have hless : m.lib.lifeView.LessWork (m.lib.lifeView.setCommand (.session i) .deleting) :=
    .setCommand (by decide)
  have hgone : (m.lib.lifeView.setCommand (.session i) .deleting).command (.session i) ≠ .alive := by
    simp [LifeView.setCommand]
  have hdelete := hless.work_delete hmem hgone m.stack
  set l := m.lib.setCommand (.session i) .deleting with hl
  have hloop := work_sessionFreeLoop (m := m.setLib l) i
  have hw : (m.setLib l).work = (m.lib.lifeView.setCommand (.session i) .deleting).work m.stack := rfl
  have hsame : ((m.setLib l).lib.session i).requests.length = (m.lib.session i).requests.length := rfl
  have hm : m.work = m.lib.lifeView.work m.stack := rfl
  simp only [Machine.deleteSessionCommand, ha]
  rw [← hl]
  omega

end Machine

/-! ### What every run keeps -/

/-- Tcl deletes an interpreter below all else, and what is performed has been created. -/
def StackOk (nextRequest : ReqId) : List Frame → Prop
  | [] => True
  | .interpDelete _ :: stack => stack = []
  | .run r _ _ :: stack => r < nextRequest ∧ StackOk nextRequest stack
  | _ :: stack => StackOk nextRequest stack

theorem StackOk.mono {n n' : ReqId} (hn : n ≤ n') {stack : List Frame} (h : StackOk n stack) :
    StackOk n' stack := by
  induction stack with
  | nil => trivial
  | cons f stack ih =>
    cases f with
    | run r simple wf => exact ⟨h.1.trans_le hn, ih h.2⟩
    | interpDelete i => exact h
    | _ => exact ih h

theorem StackOk.tail {n : ReqId} {f : Frame} {stack : List Frame} (h : StackOk n (f :: stack)) :
    StackOk n stack := by
  cases f with
  | run r simple wf => exact h.2
  | interpDelete i =>
    have hnil : stack = [] := h
    rw [hnil]
    trivial
  | _ => exact h

namespace Machine

structure Founded (m : Machine) : Prop where
  alive : ∀ tok, m.lib.command tok = .alive → tok ∈ m.lib.lifeView.tokens
  stack : StackOk m.lib.nextRequest m.stack

namespace Founded
variable {m : Machine} (h : m.Founded)
include h

/-- Where nothing is created. -/
theorem of_lessWork {l : Lib} {stack : List Frame} {result : CmdResult}
    (hl : m.lib.lifeView.LessWork l.lifeView) (hs : StackOk m.lib.nextRequest stack) :
    Founded ⟨l, stack, result⟩ where
  alive tok ht := by
    rw [hl.tokens]
    exact h.alive tok (hl.command tok ht)
  stack := hs.mono (Nat.le_of_eq hl.nextRequest.symm)

theorem of_eq {l : Lib} {stack : List Frame} {result : CmdResult}
    (hl : l.lifeView = m.lib.lifeView) (hs : StackOk m.lib.nextRequest stack) :
    Founded ⟨l, stack, result⟩ :=
  h.of_lessWork (hl ▸ .refl _) hs

theorem requestFree (r : ReqId) (caller : Caller) : (m.requestFree r caller).Founded :=
  h.of_lessWork (m.lib.lessWork_requestFreeStart r) h.stack

theorem sessionFreeLoop (i : SesId) : (m.sessionFreeLoop i).Founded := by
  unfold Machine.sessionFreeLoop
  split
  · exact h.of_lessWork (m.lib.lessWork_sessionFreeFinish i) h.stack
  · rename_i r rs _
    have hclear : (m.setLib (m.lib.clearSession r)).Founded :=
      h.of_lessWork (m.lib.lessWork_clearSession r) h.stack
    exact hclear.requestFree r (.session i)

theorem setCommand {tok : CmdToken} {status : CmdStatus} (hs : status ≠ .alive) :
    (m.setLib (m.lib.setCommand tok status)).Founded :=
  h.of_lessWork (.setCommand hs) h.stack

theorem deleteRequestCommand (r : ReqId) : (m.deleteRequestCommand r).Founded := by
  unfold Machine.deleteRequestCommand
  split
  · split_ifs
    · exact h.setCommand nofun
    · have hdelete : (m.setLib (m.lib.setCommand (.request r) .deleting)).Founded :=
        h.setCommand nofun
      have hclear : (m.setLib
          ((m.lib.setCommand (.request r) .deleting).clearCmdToken r)).Founded :=
        hdelete.of_lessWork ((m.lib.setCommand (.request r) .deleting).lessWork_clearCmdToken r)
          h.stack
      exact hclear.requestFree r .command
  · exact h.of_lessWork (m.lib.lessWork_deleteCommand _) h.stack

theorem deleteSessionCommand (i : SesId) : (m.deleteSessionCommand i).Founded := by
  unfold Machine.deleteSessionCommand
  split
  · have hdelete : (m.setLib (m.lib.setCommand (.session i) .deleting)).Founded :=
      h.setCommand nofun
    exact hdelete.sessionFreeLoop i
  · exact h.of_lessWork (m.lib.lessWork_deleteCommand _) h.stack

theorem createFinish {r : ReqId} (hr : r < m.lib.nextRequest) (simple : Bool) :
    (m.createFinish r simple).Founded := by
  unfold Machine.createFinish
  split_ifs
  · exact Founded.requestFree (h.of_eq rfl h.stack) r .simple
  · refine ⟨fun tok ht => ?_, h.stack⟩
    by_cases htr : tok = .request r
    · subst htr
      exact (LifeView.request_mem_tokens _).mpr hr
    · have ht' : m.lib.command tok = .alive := by
        simpa [Lib.createHandle, Lib.setCommand, Lib.modifyRequest, htr] using ht
      exact h.alive tok ht'

theorem createNewRequest (api : Api) (env : CurlEnv) (interp : InterpId) (call : CreateCall)
    (session : Option SesId) : (m.createNewRequest api env interp call session).Founded := by
  have hcreated : ∀ {l r simple performing},
      m.lib.createNewRequest api env interp call session = .created l r simple performing →
      (m.setLib l).Founded ∧ r < l.nextRequest := by
    intro l r simple performing hc
    obtain ⟨rfl, hv⟩ := m.lib.lifeView_createNewRequest _ hc
    have hnext : l.nextRequest = m.lib.nextRequest + 1 := congrArg LifeView.nextRequest hv
    have hsession : l.nextSession = m.lib.nextSession := congrArg LifeView.nextSession hv
    have hcommand : l.command = m.lib.command := congrArg LifeView.command hv
    have hle : m.lib.nextRequest ≤ l.nextRequest := hnext ▸ Nat.le_succ _
    refine ⟨⟨fun tok ht => ?_, h.stack.mono hle⟩, hnext ▸ Nat.lt_succ_self _⟩
    have ht' : m.lib.command tok = .alive := by
      rw [← hcommand]
      exact ht
    exact LifeView.tokens_mono hle hsession.ge (h.alive tok ht')
  unfold Machine.createNewRequest
  split
  · exact h.of_eq rfl h.stack
  · rename_i l r simple hc
    obtain ⟨hf, hr⟩ := hcreated hc
    exact ⟨hf.alive, hr, hf.stack⟩
  · rename_i l r simple hc
    obtain ⟨hf, hr⟩ := hcreated hc
    exact hf.createFinish hr simple

theorem cleanupFinish {r : ReqId} {caller : Caller} {stack : List Frame}
    (hs : m.stack = .cleanup r caller :: stack) :
    (({ m with stack := stack } : Machine).cleanupFinish r caller).Founded := by
  have hpop : StackOk m.lib.nextRequest stack := by
    have := h.stack
    rw [hs] at this
    exact this
  have hfree : Founded ⟨m.lib.requestFreeFinish r, stack, m.result⟩ :=
    h.of_lessWork (m.lib.lessWork_requestFreeFinish r) hpop
  cases caller with
  | command => exact hfree.setCommand nofun
  | simple => exact hfree
  | session i =>
    have hdrop : Founded ⟨(m.lib.requestFreeFinish r).dropRequest i, stack, m.result⟩ := by
      refine hfree.of_lessWork ?_ hfree.stack
      rw [Lib.lifeView_dropRequest]
      exact .dropRequest i
    exact hdrop.sessionFreeLoop i

theorem next {api : Api} {a : Action} (ha : m.enabled a = true) : (m.next api a).Founded := by
  cases a with
  | sessionCmd interp objv share =>
    simp only [Machine.next]
    split
    · exact h.of_eq rfl h.stack
    · rename_i l i hc
      obtain ⟨rfl, hv⟩ := m.lib.lifeView_sessionCmd _ hc
      have hnext : l.nextRequest = m.lib.nextRequest := congrArg LifeView.nextRequest hv
      have hsession : l.nextSession = m.lib.nextSession + 1 := congrArg LifeView.nextSession hv
      have hcommand : l.command = Function.update m.lib.command (.session m.lib.nextSession) .alive :=
        congrArg LifeView.command hv
      have hlt : m.lib.nextSession < l.nextSession := hsession ▸ Nat.lt_succ_self _
      refine ⟨fun tok ht => ?_, h.stack.mono (Nat.le_of_eq hnext.symm)⟩
      by_cases hnew : tok = .session m.lib.nextSession
      · subst hnew
        exact (LifeView.session_mem_tokens _).mpr hlt
      · have hold := h.alive tok (by simpa [hcommand, hnew] using ht)
        exact LifeView.tokens_mono hnext.ge hlt.le hold
  | requestCmd interp name clientData args env =>
    simp only [Machine.next]
    split
    · exact h.of_eq rfl h.stack
    · exact h.createNewRequest ..
  | sessionHandle i name args env =>
    simp only [Machine.next]
    split
    · exact h.of_eq rfl h.stack
    · exact Founded.deleteSessionCommand (h.of_eq rfl h.stack) i
    · exact h.createNewRequest ..
  | requestDestroy r byRename =>
    refine next_requestDestroy_rule ?_ fun _ _ => h.of_eq rfl h.stack
    exact Founded.deleteRequestCommand (h.of_eq rfl h.stack) r
  | poolEventSetup p b t => exact h.of_eq (m.lib.lifeView_poolEventSetup ..) h.stack
  | poolEventCheck p b w =>
    have hv := m.lib.lifeView_poolEventCheckStart p b w
    simp only [Machine.next]
    split_ifs
    · exact h.of_eq hv h.stack
    · exact h.of_eq hv h.stack
  | serviceEvent b =>
    refine h.of_eq ?_ h.stack
    simp only [Lib.serviceEvent]
    split
    · rw [Lib.lifeView_requestEventProc]; rfl
    · rfl
    · rfl
    · rfl
  | queueOther b => exact h.of_eq rfl h.stack
  | interpDelete i =>
    obtain ⟨hs, -⟩ := enabled_interpDelete ha
    exact ⟨h.alive, hs⟩
  | interpDeleteCommand tok =>
    cases tok with
    | request r => exact h.deleteRequestCommand r
    | session i => exact h.deleteSessionCommand i
  | interpDeleteDone =>
    obtain ⟨i, hs, -⟩ := enabled_interpDeleteDone ha
    refine h.of_eq rfl ?_
    simp [hs, StackOk]
  | threadExit => exact h.of_eq m.lib.lifeView_poolThreadExitProc h.stack
  | curlComplete r result =>
    simp only [Machine.next]
    split
    · exact h.of_eq rfl h.stack
    · exact h
  | curlWriteError r size contentSize result =>
    have hstack := h.stack
    simp only [Machine.next]
    split
    · rename_i p wf stack hs
      rw [hs] at hstack
      exact h.of_eq (by simp) hstack
    · rename_i r' simple wf stack hs
      rw [hs] at hstack
      exact h.of_eq (by simp) hstack
    · exact h
  | performReturn ok =>
    obtain ⟨p, wf, stack, hs, -⟩ := enabled_performReturn ha
    have hstack := h.stack
    rw [hs] at hstack
    simp only [Machine.next, hs]
    refine h.of_eq ?_ hstack.tail
    split_ifs <;> simp
  | easyPerformReturn res =>
    obtain ⟨r, simple, wf, stack, hs, -⟩ := enabled_easyPerformReturn ha
    have hstack := h.stack
    rw [hs] at hstack
    simp only [Machine.next, hs]
    have hrun : Founded { m with lib := m.lib.requestRunFinish r res, stack := stack } :=
      h.of_eq (by simp) hstack.tail
    exact hrun.createFinish hstack.1 simple
  | cleanupReturn =>
    obtain ⟨r, caller, stack, hs⟩ := enabled_cleanupReturn ha
    simp only [Machine.next, hs]
    exact h.cleanupFinish hs

/-- Every action that needs no script makes the work that is left smaller. -/
theorem work_next {api : Api} {a : Action} (ha : m.enabled a = true) (hu : a.unwinds = true) :
    (m.next api a).work < m.work := by
  cases a with
  | performReturn ok =>
    obtain ⟨p, wf, stack, hs, -⟩ := enabled_performReturn ha
    have hold : m.work = 1 + m.lib.lifeView.work stack := by
      rw [work, hs]
      exact LifeView.work_cons ..
    have hnew : (m.next api (.performReturn ok)).work = m.lib.lifeView.work stack := by
      simp only [Machine.next, hs, work]
      split_ifs <;> simp
    omega
  | easyPerformReturn res =>
    obtain ⟨r, simple, wf, stack, hs, -⟩ := enabled_easyPerformReturn ha
    have hold : m.work = (if simple then 2 else 3) + m.lib.lifeView.work stack := by
      rw [work, hs]
      exact LifeView.work_cons ..
    have hnew := work_createFinish
      (m := { m with lib := m.lib.requestRunFinish r res, stack := stack }) r simple
    have hrun : work { m with lib := m.lib.requestRunFinish r res, stack := stack } =
        m.lib.lifeView.work stack := by
      simp only [work, Lib.lifeView_requestRunFinish]
    simp only [Machine.next, hs]
    omega
  | cleanupReturn =>
    obtain ⟨r, caller, stack, hs⟩ := enabled_cleanupReturn ha
    have hold : m.work = m.lib.lifeView.work (.cleanup r caller :: stack) := by rw [work, hs]
    simp only [Machine.next, hs]
    rw [hold]
    exact work_cleanupFinish (m := { m with stack := stack }) r caller
  | interpDeleteCommand tok =>
    obtain ⟨i, -, halive, -⟩ := enabled_interpDeleteCommand ha
    cases tok with
    | request r =>
      exact work_deleteRequestCommand halive ((LifeView.request_mem_tokens _).mp (h.alive _ halive))
    | session i =>
      exact work_deleteSessionCommand halive ((LifeView.session_mem_tokens _).mp (h.alive _ halive))
  | interpDeleteDone =>
    obtain ⟨i, hs, -⟩ := enabled_interpDeleteDone ha
    have hold : m.work = 1 + m.lib.lifeView.work [] := by
      rw [work, hs]
      exact LifeView.work_cons ..
    have hnew : (m.next api .interpDeleteDone).work = m.lib.lifeView.work [] := by
      simp only [Machine.next, work, hs, List.tail_cons]
    omega
  | _ => cases hu

end Founded

/-! ### The sessions that wait -/

/-- A session that releases a request waits for its first one. -/
def HeadKept (l : Lib) : Frame → Prop
  | .cleanup r (.session i) => (l.session i).requests.head? = some r
  | _ => True

instance (l : Lib) (f : Frame) : Decidable (HeadKept l f) := by
  unfold HeadKept
  split <;> infer_instance

/-- No new request is at the front of the list of a session that is being released. -/
def HeadsKept (m : Machine) : Prop := ∀ f ∈ m.stack, HeadKept m.lib f

instance (m : Machine) : Decidable m.HeadsKept := inferInstanceAs (Decidable (∀ f ∈ _, _))

namespace HeadsKept
variable {m : Machine} (h : m.HeadsKept)
include h

/-- The frames that stay, with the first requests that they wait for. -/
theorem of_head {l : Lib} {stack : List Frame} {result : CmdResult} (hs : stack ⊆ m.stack)
    (hr : ∀ r i, .cleanup r (.session i) ∈ stack → (m.lib.session i).requests.head? = some r →
      (l.session i).requests.head? = some r) : HeadsKept ⟨l, stack, result⟩ := by
  intro f hf
  cases f with
  | cleanup r caller =>
    cases caller with
    | session i => exact hr r i hf (h _ (hs hf))
    | _ => trivial
  | _ => trivial

theorem of_eq {l : Lib} {stack : List Frame} {result : CmdResult} (hs : stack ⊆ m.stack)
    (hv : l.lifeView.requests = m.lib.lifeView.requests) : HeadsKept ⟨l, stack, result⟩ := by
  refine h.of_head hs fun r i _ hr => ?_
  rw [show (l.session i).requests = (m.lib.session i).requests from congrFun hv i]
  exact hr

/-- A request that is released by no session may be in a list, but is the first one of none
that waits. -/
theorem requestFree {r : ReqId} {caller : Caller} (hcaller : ∀ i, caller ≠ .session i)
    (hn : r ∉ busy m.stack) : (m.requestFree r caller).HeadsKept := by
  have hold : HeadsKept ⟨m.lib.requestFreeStart r, m.stack, m.result⟩ := by
    refine h.of_head (List.Subset.refl _) fun x i hm hx => ?_
    have hne : x ≠ r := fun he => hn (mem_busy.mpr ⟨_, hm, congrArg some he⟩)
    have hv := congrFun (congrArg LifeView.requests (m.lib.lifeView_requestFreeStart r)) i
    exact (congrArg List.head? hv).trans (m.lib.lifeView.head?_sessionRemove hne hx)
  intro f hf
  rcases List.mem_cons.mp hf with rfl | hf
  · cases caller with
    | session i => exact absurd rfl (hcaller i)
    | _ => trivial
  · exact hold f hf

theorem createFinish {r : ReqId} {simple : Bool} (hn : r ∉ busy m.stack) :
    (m.createFinish r simple).HeadsKept := by
  unfold Machine.createFinish
  split_ifs
  · exact requestFree (m := { m with result := _ }) h (by simp) hn
  · have hv : (m.lib.createHandle r).lifeView.requests = m.lib.lifeView.requests := by
      rw [Lib.lifeView_createHandle]
      rfl
    exact h.of_eq (List.Subset.refl _) hv

theorem sessionFreeLoop (i : SesId) : (m.sessionFreeLoop i).HeadsKept := by
  unfold Machine.sessionFreeLoop
  split
  · exact h.of_eq (List.Subset.refl _) rfl
  · rename_i r rs hrs
    have hv : ((m.lib.clearSession r).requestFreeStart r).lifeView.requests =
        m.lib.lifeView.requests := by
      rw [Lib.lifeView_requestFreeStart, Lib.lifeView_clearSession]
      simp [LifeView.sessionRemove, LifeView.clearSession]
    have hold : HeadsKept ⟨(m.lib.clearSession r).requestFreeStart r, m.stack, m.result⟩ :=
      h.of_eq (List.Subset.refl _) hv
    intro f hf
    rcases List.mem_cons.mp hf with rfl | hf
    · exact (congrArg List.head? (congrFun hv i)).trans (by simp [Lib.lifeView, hrs])
    · exact hold f hf

omit h in
theorem cleanupFinish {r : ReqId} {caller : Caller} {stack : List Frame} (h : m.HeadsKept)
    (hs : m.stack = .cleanup r caller :: stack) (hn : r ∉ busy stack) :
    (({ m with stack := stack } : Machine).cleanupFinish r caller).HeadsKept := by
  have hsub : stack ⊆ m.stack := hs ▸ List.subset_cons_self ..
  obtain ⟨-, hreq, -⟩ := m.lib.lifeView_requestFreeFinish r
  unfold Machine.cleanupFinish
  cases caller with
  | command => exact h.of_eq hsub hreq
  | simple => exact h.of_eq hsub hreq
  | session i =>
    -- the request was the first one, so that no other release by the session waits
    have hhead : (m.lib.session i).requests.head? = some r :=
      h (.cleanup r (.session i)) (hs ▸ List.mem_cons_self)
    have hother : ∀ x, .cleanup x (.session i) ∉ stack := fun x hm => by
      have hx : (m.lib.session i).requests.head? = some x := h _ (hsub hm)
      cases hhead.symm.trans hx
      exact hn (mem_busy.mpr ⟨_, hm, rfl⟩)
    have hdrop : HeadsKept ⟨(m.lib.requestFreeFinish r).dropRequest i, stack, m.result⟩ := by
      refine h.of_head hsub fun x j hm hx => ?_
      have hne : j ≠ i := fun he => hother x (he ▸ hm)
      have hj : (((m.lib.requestFreeFinish r).dropRequest i).session j).requests =
          ((m.lib.requestFreeFinish r).session j).requests := by
        simp [Lib.dropRequest, Lib.modifySession, hne]
      exact (congrArg List.head? (hj.trans (congrFun hreq j))).trans hx
    exact hdrop.sessionFreeLoop i

theorem next {api : Api} {a : Action} (hl : m.LifeOk) (ha : m.enabled a = true)
    (hu : a.unwinds = true) : (m.next api a).HeadsKept := by
  cases a with
  | performReturn ok =>
    obtain ⟨p, wf, stack, hs, -⟩ := enabled_performReturn ha
    simp only [Machine.next, hs]
    refine h.of_eq (hs ▸ List.subset_cons_self ..) (congrArg LifeView.requests ?_)
    split_ifs <;> simp
  | easyPerformReturn res =>
    obtain ⟨r, simple, wf, stack, hs, -⟩ := enabled_easyPerformReturn ha
    have hnodup := hl.busy_nodup
    rw [hs] at hnodup
    have hrun : HeadsKept { m with lib := m.lib.requestRunFinish r res, stack := stack } :=
      h.of_eq (hs ▸ List.subset_cons_self ..) (by simp)
    simp only [Machine.next, hs]
    exact hrun.createFinish (List.nodup_cons.mp hnodup).1
  | cleanupReturn =>
    obtain ⟨r, caller, stack, hs⟩ := enabled_cleanupReturn ha
    have hnodup := hl.busy_nodup
    rw [hs] at hnodup
    simp only [Machine.next, hs]
    exact h.cleanupFinish hs (List.nodup_cons.mp hnodup).1
  | interpDeleteCommand tok =>
    obtain ⟨j, hs, -⟩ := enabled_interpDeleteCommand ha
    have hbelow : ∀ f ∈ m.stack, f = .interpDelete j := by simp [hs]
    intro f hf
    cases tok with
    | request r =>
      change f ∈ (m.deleteRequestCommand r).stack at hf
      rcases m.deleteRequestCommand_stack r with hst | hst <;> rw [hst] at hf
      · cases hbelow f hf
        trivial
      · rcases List.mem_cons.mp hf with rfl | hf
        · trivial
        · cases hbelow f hf
          trivial
    | session i =>
      change f ∈ (m.deleteSessionCommand i).stack at hf
      rcases m.deleteSessionCommand_head i with hst | ⟨r, hst, hhead⟩ <;> rw [hst] at hf
      · cases hbelow f hf
        trivial
      · rcases List.mem_cons.mp hf with rfl | hf
        · exact hhead
        · cases hbelow f hf
          trivial
  | interpDeleteDone =>
    obtain ⟨i, hs, -⟩ := enabled_interpDeleteDone ha
    refine h.of_eq (fun f hf => List.mem_of_mem_tail hf) rfl
  | _ => cases hu

/-- Nothing is released that is not there any more. -/
theorem safe {a : Action} (hu : a.unwinds = true) : m.Safe a := by
  cases a with
  | cleanupReturn =>
    simp only [Safe]
    split
    · rename_i r i stack hs
      exact h (.cleanup r (.session i)) (hs ▸ List.mem_cons_self)
    · trivial
  | performReturn _ | easyPerformReturn _ | interpDeleteCommand _ | interpDeleteDone => trivial
  | _ => cases hu

end HeadsKept

/-! ### Runs -/

variable {api : Api} {as : List Action} {m : Machine}

/-- What the calls that wait rely on until they are over. -/
structure Unwinding (m : Machine) : Prop where
  founded : m.Founded
  pools : m.PoolInv
  life : m.LifeOk
  heads : m.HeadsKept

namespace Unwinding

theorem step {s t : Machine} {a : Action} (h : s.Unwinding) (hu : a.unwinds = true)
    (hst : s.step api a = some t) : t.Unwinding ∧ t.work < s.work := by
  obtain ⟨hi, hl⟩ := lifeOk_step ⟨h.pools, h.life⟩ (h.heads.safe hu) hst
  obtain ⟨ha, rfl⟩ := step_eq_some.mp hst
  exact ⟨⟨h.founded.next ha, hi, hl, h.heads.next h.life ha hu⟩, h.founded.work_next ha hu⟩

theorem exec (h : m.Unwinding) {bs : List Action} {m' : Machine}
    (hu : ∀ a ∈ bs, a.unwinds = true) (he : Run.exec (Machine.step api) m bs = some m') :
    m'.Unwinding := by
  have hall : Run.Along (Machine.step api) (fun _ a => a.unwinds = true) m bs :=
    Run.along_of_forall (fun a ha _ => hu a ha) m
  exact Run.exec_preserves (fun _ _ _ hs hu hst => (hs.step hu hst).1) h hall he

end Unwinding

end Machine

end Trequests
