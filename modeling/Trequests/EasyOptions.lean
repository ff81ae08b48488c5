import Trequests.Body

/-! `testing.c`. In the testing build a request keeps the settings that libcurl has
accepted from `treq_RequestRun`, each under the name of its option, and `easy_opts` shows
them. The table of the options must know every setting, and the type it has for an option
decides how the value is read from the variable arguments. The two timeouts are passed as
`int` and read as `long`; C does not say what comes out, so `longOfInt` stands for it. -/

namespace Trequests

/-- `treq_OptionType` -/
inductive OptionType where
  | string | long | pointer | slist
  deriving DecidableEq

/-- The table `options`. -/
def easyOptions : List (Str × OptionType) :=
  [(lit "CURLOPT_HTTPGET", .long), (lit "CURLOPT_NOBODY", .long), (lit "CURLOPT_HTTPGET", .long),
   (lit "CURLOPT_POST", .long), (lit "CURLOPT_UPLOAD", .long),
   (lit "CURLOPT_CUSTOMREQUEST", .string), (lit "CURLOPT_CURLU", .pointer),
   (lit "CURLOPT_POSTFIELDSIZE", .long), (lit "CURLOPT_POSTFIELDS", .string),
   (lit "CURLOPT_USERNAME", .string), (lit "CURLOPT_PASSWORD", .string),
   (lit "CURLOPT_XOAUTH2_BEARER", .string), (lit "CURLOPT_AWS_SIGV4", .string),
   (lit "CURLOPT_HTTPAUTH", .long), (lit "CURLOPT_MIMEPOST", .pointer),
   (lit "CURLOPT_FOLLOWLOCATION", .long), (lit "CURLOPT_VERBOSE", .long),
   (lit "CURLOPT_HTTPHEADER", .slist), (lit "CURLOPT_CONNECTTIMEOUT_MS", .long),
   (lit "CURLOPT_TIMEOUT_MS", .long), (lit "CURLOPT_SSL_VERIFYHOST", .long),
   (lit "CURLOPT_SSL_VERIFYPEER", .long), (lit "CURLOPT_SSL_VERIFYSTATUS", .long),
   (lit "CURLUPART_URL", .string), (lit "CURLUPART_QUERY", .string)]

/-- The type of the first entry with the name. -/
def easyOptionType (name : Str) : Option OptionType :=
  (getIndex true (easyOptions.map Prod.fst) name).bind fun idx => easyOptions[idx]?.map Prod.snd

/-- The argument of `treq_RequestRegisterEasyOption` behind the name. -/
inductive VaArg where
  | string (s : Str)
  | int (n : ℤ)
  | long (n : ℤ)
  | pointer
  | slist (lines : List Str)

/-- A value of the dictionary `set_options`. -/
inductive EasyValue where
  | string (s : Str)
  | wideInt (n : ℤ)
  | list (l : List Str)
  deriving DecidableEq

/-- `va_arg` with the type of the table; `none` where something of another kind was
passed. -/
def OptionType.read (longOfInt : ℤ → ℤ) : OptionType → VaArg → Option EasyValue
  | .string, .string s => some (.string s)
  | .long, .long n => some (.wideInt n)
  | .long, .int n => some (.wideInt (longOfInt n))
  -- the argument is not read
  | .pointer, _ => some (.string (lit "pointer"))
  | .slist, .slist lines => some (.list lines)
  | _, _ => none

def CurlCall.name : CurlCall → Str
  | .setopt o => o.name
  | .urlSet p => p.name

/-- What the macros of `treq_RequestRun` pass on; the other settings do not use them. -/
def CurlCall.arg : CurlCall → VaArg
  | .setopt (.httpGet v) | .setopt (.noBody v) | .setopt (.post v) | .setopt (.postFieldSize v)
  | .setopt (.followLocation v) | .setopt (.verbose v) | .setopt (.sslVerifyHost v)
  | .setopt (.sslVerifyPeer v) | .setopt (.sslVerifyStatus v) => .long v
  -- the fields of the request are of type `int`
  | .setopt (.connectTimeoutMs v) | .setopt (.timeoutMs v) => .int v
  | .setopt (.httpAuth v) => .long v.toInt
  | .setopt (.customRequest v) | .setopt (.username v) | .setopt (.password v)
  | .setopt (.xoauth2Bearer v) | .setopt (.awsSigv4 v) | .setopt (.postFields v) => .string v
  | .setopt (.httpHeader lines) => .slist lines
  | .urlSet (.url v) | .urlSet (.query v) => .string v
  | _ => .pointer

abbrev EasyDict := OrderedDict Str EasyValue

section Register
variable (longOfInt : Str → ℤ → ℤ)

/-- `treq_RequestRegisterEasyOption`; `none` where it panics or misreads its argument. -/
def registerEasyOption (set : Option EasyDict) (call : CurlCall) : Option (Option EasyDict) :=
  match (easyOptionType call.name).bind fun type => type.read (longOfInt call.name) call.arg with
  | none => none
  | some val => some (some ((set.getD OrderedDict.empty).put call.name val))

/-- The field `set_options` after the accepted settings. -/
def setOptions (accepted : List CurlCall) : Option (Option EasyDict) :=
  accepted.foldlM (registerEasyOption longOfInt) none

end Register

inductive EasyOpts where
  | dict (d : EasyDict)
  | value (v : EasyValue)

/-- `treq_RequestGetEasyOpts` -/
def requestGetEasyOpts (set : Option EasyDict) (optName : Option Str) : Option EasyOpts :=
  match set, optName with
  | none, _ => none
  | some d, none => some (.dict d)
  | some d, some name => (d.get? name).map .value

/-- `treq_RequestHandleCmd` for `easy_opts`. -/
def easyOptsCmd (set : Option EasyDict) (optName : Option Str) : Except Str EasyOpts :=
  match requestGetEasyOpts set optName, optName with
  | some result, _ => .ok result
  | none, some name => .error (lit "no registered easy option \"" ++ name ++ lit "\"")
  | none, none => .error (lit "no registered easy options")

/-! ### The table -/

/-- The type of the table that fits the argument. -/
def VaArg.type : VaArg → OptionType
  | .string _ => .string
  | .int _ | .long _ => .long
  | .pointer => .pointer
  | .slist _ => .slist

/-- What is read of the argument. -/
def VaArg.value (longOfInt : ℤ → ℤ) : VaArg → EasyValue
  | .string s => .string s
  | .int n => .wideInt (longOfInt n)
  | .long n => .wideInt n
  | .pointer => .string (lit "pointer")
  | .slist lines => .list lines

namespace CurlCall

end CurlCall

namespace RequestParams
variable (p : RequestParams)

end RequestParams

section Setup
variable (env : CurlEnv) (p : RequestParams)

end Setup

/-! ### The dictionary -/

section Dictionary
variable (longOfInt : Str → ℤ → ℤ)

end Dictionary

section Entries
variable (longOfInt : Str → ℤ → ℤ) {calls : List CurlCall}
  (hn : (calls.map CurlCall.name).Nodup) {name : Str}
include hn

end Entries

end Trequests
