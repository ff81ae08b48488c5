import Trequests.Activity
import Trequests.FreedPools
import Trequests.InFlight

/-! How the library comes to rest. Once a pool with requests is among the event sources,
nothing but Tcl's event loop and the answers of libcurl is needed to end them: a check
performs the transfers, reads how they have ended and queues the callbacks and the event
that deactivates the pool, and Tcl services what is queued. -/

namespace Trequests

namespace Multi
variable (f : EasyHandle → CURLcode)

end Multi

namespace Machine
variable {api : Api} {m : Machine} {p : PoolId} {f : ReqId → CURLcode}

variable {as : List Action}

end Machine

end Trequests
