import Trequests.Base.Run
import Trequests.Base.OrderedDict
import Trequests.Base.Block
import Trequests.Base.Scan
import Trequests.Base.Percent
import Trequests.Tcl
import Trequests.Curl
import Trequests.RequestAuth
import Trequests.Options
import Trequests.Urlencode
import Trequests.Validation
import Trequests.AuthScheme
import Trequests.Settings
import Trequests.Headers
import Trequests.MergeDicts
import Trequests.Body
import Trequests.Fields
import Trequests.WriteCallback
import Trequests.Charset
import Trequests.CharsetNames
import Trequests.ContentType
import Trequests.ContentTypeText
import Trequests.ContentTypeParams
import Trequests.Response
import Trequests.EncodingRefs
import Trequests.State
import Trequests.Pool
import Trequests.Lifecycle
import Trequests.Library
import Trequests.Machine
import Trequests.Views
import Trequests.Params
import Trequests.PoolInvariant
import Trequests.PoolRuns
import Trequests.PoolMachine
import Trequests.PoolRule
import Trequests.Runs
import Trequests.SessionRequests
import Trequests.SessionDefaults
import Trequests.SessionCallback
import Trequests.SessionAuth
import Trequests.SimpleRequests
import Trequests.Schedule
import Trequests.ScheduleMachine
import Trequests.Completion
import Trequests.Activity
import Trequests.Lifetime
import Trequests.LifetimeMachine
import Trequests.Release
import Trequests.Events
import Trequests.EventsMachine
import Trequests.ThreadExit
import Trequests.FreedPools
import Trequests.IdlePool
import Trequests.Base.Cells
import Trequests.LinkedList
import Trequests.Delivery
import Trequests.Unwind
import Trequests.SessionLife
import Trequests.OptionOrder
import Trequests.EasyOptions
import Trequests.RequestHandle
import Trequests.Polling
import Trequests.Outcome
import Trequests.Callbacks
import Trequests.InFlight
import Trequests.Rest
import Trequests.Isolation
import Trequests.Faults
