import Mathlib.Data.Int.Notation
import Mathlib.Data.List.Nodup
import Trequests.Tcl

/-! What the extension uses of libcurl. An easy handle is named by the request it
belongs to, and only the sequence of the settings applied to it is kept. What a
call may answer (an option refused, an allocation that fails) is an oracle. The
multi handle keeps the attached easy handles, those whose transfer is over, and
the messages not yet read; while one of its callbacks runs it refuses to add and
to remove handles. -/

namespace Trequests

abbrev EasyHandle := ℕ

/-- `CURLcode`; 0 is `CURLE_OK`. -/
abbrev CURLcode := ℕ

def curleOk : CURLcode := 0

/-- The options the extension sets on an easy handle, with their values. -/
inductive EasyOpt where
  -- treq_RequestInit
  | errorBuffer | writeFunction | writeData | privateData | debugFunction | debugData
  | noSignal (v : ℤ) | acceptEncoding (v : Str)
  -- treq_SessionRequestInit
  | share (session : ℕ) | cookieFile (v : Str)
  -- treq_RequestRun
  | httpGet (v : ℤ) | noBody (v : ℤ) | post (v : ℤ) | customRequest (v : Str) | curlU
  | username (v : Str) | password (v : Str) | xoauth2Bearer (v : Str) | awsSigv4 (v : Str)
  | httpAuth (v : BitVec 64)
  | mimePost (parts : List (Str × Str)) | postFieldSize (v : ℤ) | postFields (v : Str)
  | followLocation (v : ℤ) | verbose (v : ℤ) | httpHeader (lines : List Str)
  | connectTimeoutMs (v : ℤ) | timeoutMs (v : ℤ)
  | sslVerifyHost (v : ℤ) | sslVerifyPeer (v : ℤ) | sslVerifyStatus (v : ℤ)
  deriving DecidableEq

/-- The name of an option, as the error of a refused option spells it. -/
def EasyOpt.name : EasyOpt → Str
  | errorBuffer => lit "CURLOPT_ERRORBUFFER"
  | writeFunction => lit "CURLOPT_WRITEFUNCTION"
  | writeData => lit "CURLOPT_WRITEDATA"
  | privateData => lit "CURLOPT_PRIVATE"
  | debugFunction => lit "CURLOPT_DEBUGFUNCTION"
  | debugData => lit "CURLOPT_DEBUGDATA"
  | noSignal _ => lit "CURLOPT_NOSIGNAL"
  | acceptEncoding _ => lit "CURLOPT_ACCEPT_ENCODING"
  | share _ => lit "CURLOPT_SHARE"
  | cookieFile _ => lit "CURLOPT_COOKIEFILE"
  | httpGet _ => lit "CURLOPT_HTTPGET"
  | noBody _ => lit "CURLOPT_NOBODY"
  | post _ => lit "CURLOPT_POST"
  | customRequest _ => lit "CURLOPT_CUSTOMREQUEST"
  | curlU => lit "CURLOPT_CURLU"
  | username _ => lit "CURLOPT_USERNAME"
  | password _ => lit "CURLOPT_PASSWORD"
  | xoauth2Bearer _ => lit "CURLOPT_XOAUTH2_BEARER"
  | awsSigv4 _ => lit "CURLOPT_AWS_SIGV4"
  | httpAuth _ => lit "CURLOPT_HTTPAUTH"
  | mimePost _ => lit "CURLOPT_MIMEPOST"
  | postFieldSize _ => lit "CURLOPT_POSTFIELDSIZE"
  | postFields _ => lit "CURLOPT_POSTFIELDS"
  | followLocation _ => lit "CURLOPT_FOLLOWLOCATION"
  | verbose _ => lit "CURLOPT_VERBOSE"
  | httpHeader _ => lit "CURLOPT_HTTPHEADER"
  | connectTimeoutMs _ => lit "CURLOPT_CONNECTTIMEOUT_MS"
  | timeoutMs _ => lit "CURLOPT_TIMEOUT_MS"
  | sslVerifyHost _ => lit "CURLOPT_SSL_VERIFYHOST"
  | sslVerifyPeer _ => lit "CURLOPT_SSL_VERIFYPEER"
  | sslVerifyStatus _ => lit "CURLOPT_SSL_VERIFYSTATUS"

/-- The parts set on the `CURLU` handle of a request: `CURLUPART_URL` with
`CURLU_DEFAULT_SCHEME` and `CURLUPART_QUERY` with `CURLU_APPENDQUERY`. -/
inductive UrlPart where
  | url (v : Str)
  | query (v : Str)
  deriving DecidableEq

def UrlPart.name : UrlPart → Str
  | url _ => lit "CURLUPART_URL"
  | query _ => lit "CURLUPART_QUERY"

/-- A call whose result `treq_RequestRun` checks. -/
inductive CurlCall where
  | setopt (o : EasyOpt)
  | urlSet (p : UrlPart)
  deriving DecidableEq

/-- The answers libcurl gives while one request is created. A refusal carries the
text of `curl_easy_strerror` or `curl_url_strerror`. -/
structure CurlEnv where
  easyInit : Bool
  setopt : EasyOpt → Option Str
  urlSet : UrlPart → Option Str
  slistAppend : Str → Bool
  multiInit : Bool
  multiAdd : Bool

/-- The answers of a libcurl that refuses nothing. -/
def CurlEnv.willing : CurlEnv where
  easyInit := true
  setopt _ := none
  urlSet _ := none
  slistAppend _ := true
  multiInit := true
  multiAdd := true

/-- The error a refused call is recorded with, if it is refused. -/
def CurlEnv.answer (env : CurlEnv) : CurlCall → Option Str
  | .setopt o => (env.setopt o).map fun e =>
      lit "curl_easy_setopt(" ++ o.name ++ lit ") failed: " ++ e
  | .urlSet p => (env.urlSet p).map fun e =>
      lit "curl_url_set(" ++ p.name ++ lit ") failed: " ++ e

/-! ### The multi handle -/

inductive CURLMSG where
  | done
  | other
  deriving DecidableEq

structure CURLMsg where
  msg : CURLMSG
  easyHandle : EasyHandle
  result : CURLcode
  deriving DecidableEq

structure Multi where
  /-- the attached handles -/
  handles : List EasyHandle
  /-- the attached handles whose transfer is over -/
  completed : List EasyHandle
  /-- what `curl_multi_info_read` has still to return -/
  msgs : List CURLMsg
  /-- a callback of a transfer of this handle is running -/
  inCallback : Bool
  deriving DecidableEq

namespace Multi

/-- `curl_multi_init` -/
def init : Multi := ⟨[], [], [], false⟩

/-- `curl_multi_add_handle`, when it is accepted. -/
def addHandle (m : Multi) (h : EasyHandle) : Multi := { m with handles := h :: m.handles }

/-- `curl_multi_remove_handle`: refused inside a callback, and otherwise it also
discards the pending message of the handle. -/
def removeHandle (m : Multi) (h : EasyHandle) : Multi :=
  if m.inCallback then m
  else { m with
    handles := m.handles.erase h
    completed := m.completed.erase h
    msgs := m.msgs.filter fun msg => msg.easyHandle ≠ h }

/-- The transfer of a handle is over; its message is queued. -/
def complete (m : Multi) (h : EasyHandle) (result : CURLcode) : Multi :=
  { m with completed := m.completed ++ [h], msgs := m.msgs ++ [⟨.done, h, result⟩] }

/-- The number of running transfers, as `curl_multi_perform` reports it. -/
def running (m : Multi) : ℕ := (m.handles.filter fun h => h ∉ m.completed).length

end Multi

end Trequests
