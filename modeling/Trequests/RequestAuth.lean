import Trequests.Tcl

/-! `treqRequestAuth.c`: the authentication parameters of a request or a session,
and the parsing of the value of `-auth_scheme` into a mask of libcurl's
`CURLAUTH_` bits. -/

namespace Trequests

/-- `treq_RequestAuthType`; the scheme -1 stands for none. -/
structure RequestAuth where
  username : Option Str
  password : Option Str
  token : Option Str
  awsSigv4 : Option Str
  scheme : BitVec 64
  deriving DecidableEq

def curlauthBasic : BitVec 64 := 1#64
def curlauthDigest : BitVec 64 := 1#64 <<< 1
def curlauthNegotiate : BitVec 64 := 1#64 <<< 2
def curlauthNtlm : BitVec 64 := 1#64 <<< 3
def curlauthDigestIe : BitVec 64 := 1#64 <<< 4
def curlauthBearer : BitVec 64 := 1#64 <<< 6
def curlauthAwsSigv4 : BitVec 64 := 1#64 <<< 7
def curlauthOnly : BitVec 64 := 1#64 <<< 31
def curlauthAny : BitVec 64 := ~~~ curlauthDigestIe
def curlauthAnysafe : BitVec 64 := ~~~ (curlauthBasic ||| curlauthDigestIe)

inductive AuthOption where
  | any | anysafe | only
  | basic | digest | digestIe | bearer | negotiate | ntlm | awsSigv4
  deriving DecidableEq

/-- The table `options`, in the order of the source. -/
def authOptions : List (Str × AuthOption) :=
  [(lit "any", .any), (lit "anysafe", .anysafe), (lit "only", .only),
   (lit "basic", .basic), (lit "digest", .digest), (lit "digest_ie", .digestIe),
   (lit "bearer", .bearer), (lit "negotiate", .negotiate), (lit "ntlm", .ntlm),
   (lit "aws_sigv4", .awsSigv4)]

/-- The bit of a concrete scheme. -/
def AuthOption.bit : AuthOption → BitVec 64
  | .any | .anysafe | .only => 0
  | .basic => curlauthBasic
  | .digest => curlauthDigest
  | .digestIe => curlauthDigestIe
  | .bearer => curlauthBearer
  | .negotiate => curlauthNegotiate
  | .ntlm => curlauthNtlm
  | .awsSigv4 => curlauthAwsSigv4

/-- One pass of the loop: the word at position `i` of a list of `objc` words,
with the mask accumulated so far. -/
def authStep (objc i : ℕ) (word : Str) (result : BitVec 64) : Except Str (BitVec 64) :=
  match (getIndex false (authOptions.map Prod.fst) word).bind fun k => authOptions[k]? with
  | none => .error (indexError (lit "auth scheme option") (authOptions.map Prod.fst) word)
  | some (name, .any) =>
    if objc ≠ 1 then
      .error (lit "\"" ++ name ++ lit "\" option is allowed if it is the only value")
    else .ok curlauthAny
  | some (name, .anysafe) =>
    if objc ≠ 1 then
      .error (lit "\"" ++ name ++ lit "\" option is allowed if it is the only value")
    else .ok curlauthAnysafe
  | some (name, .only) =>
    if objc ≠ 2 then
      .error (lit "\"" ++ name ++ lit ("\" option can be specified in conjunction with one " ++
        "specific authentication value"))
    else if i = 1 ∧ result = curlauthOnly then
      .error (lit "\"" ++ name ++ lit "\" option specified twice")
    else .ok (result ||| curlauthOnly)
  | some (_, o) => .ok (result ||| o.bit)

def authLoop (objc : ℕ) : ℕ → List Str → BitVec 64 → Except Str (BitVec 64)
  | _, [], result => .ok result
  | i, word :: words, result =>
    match authStep objc i word result with
    | .error e => .error e
    | .ok result => authLoop objc (i + 1) words result

/-- `treq_RequestAuthParseOption` on the words of the list. -/
def requestAuthParseOption (objv : List Str) : Except Str (BitVec 64) :=
  if objv = [] then
    .error (lit "an empty list cannot be specified as an authentication scheme")
  else authLoop objv.length 0 objv 0

example : requestAuthParseOption [lit "only", lit "basic"] =
    .ok (curlauthBasic ||| curlauthOnly) := by decide

end Trequests
