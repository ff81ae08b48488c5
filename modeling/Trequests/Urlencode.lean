import Trequests.Base.Percent
import Trequests.Options

/-! The URL encoding of a Tcl object, at the level of pointers: the loop hands libcurl one
chunk of the string at a time, and decoding is one call. -/

namespace Trequests

/-- The bytes that `curl_easy_escape` keeps: letters, digits and `-._~`. -/
def unreserved : Escaping where
  keep b := 48 ≤ b ∧ b ≤ 57 ∨ 65 ≤ b ∧ b ≤ 90 ∨ 97 ≤ b ∧ b ≤ 122 ∨ b = 45 ∨ b = 46 ∨ b = 95 ∨ b = 126
  keep_percent := by decide
  keep_digit := by
    have : ∀ n : Fin 256, UInt8.ofFin n < 16 →
        (fun b : UInt8 => decide (48 ≤ b ∧ b ≤ 57 ∨ 65 ≤ b ∧ b ≤ 90 ∨ 97 ≤ b ∧ b ≤ 122 ∨
          b = 45 ∨ b = 46 ∨ b = 95 ∨ b = 126)) (hexDigit (UInt8.ofFin n)) = true := by
      decide +kernel
    exact fun n => this n.toFin

def intMax : ℕ := 2147483647

/-- The calls of libcurl, on the readable memory from a pointer on and a length. -/
structure UrlApi where
  easyEscape : Str → ℕ → Option Str
  easyUnescape : Str → ℕ → Option Str

/-- The length of the next chunk. -/
def bytesToEncode (bytesLeft : ℕ) : ℕ :=
  if bytesLeft > curlMaxInputLength then curlMaxInputLength else bytesLeft

theorem bytesToEncode_le (bytesLeft : ℕ) : bytesToEncode bytesLeft ≤ bytesLeft := by
  unfold bytesToEncode
  split_ifs <;> omega

theorem bytesToEncode_le_max (bytesLeft : ℕ) : bytesToEncode bytesLeft ≤ curlMaxInputLength := by
  unfold bytesToEncode
  split_ifs <;> omega

theorem bytesToEncode_ne_zero {bytesLeft : ℕ} (h : bytesLeft ≠ 0) : bytesToEncode bytesLeft ≠ 0 := by
  unfold bytesToEncode
  split_ifs
  · decide
  · exact h

/-- The next chunk of a string, and what is left of it. -/
theorem take_bytesToEncode (s : Str) :
    s.take (bytesToEncode s.length) = s.take curlMaxInputLength := by
  unfold bytesToEncode
  split_ifs with h
  · rfl
  · rw [List.take_length, List.take_of_length_le (Nat.le_of_not_lt h)]

theorem drop_bytesToEncode (s : Str) :
    s.drop (bytesToEncode s.length) = s.drop curlMaxInputLength := by
  unfold bytesToEncode
  split_ifs with h
  · rfl
  · rw [List.drop_length, List.drop_of_length_le (Nat.le_of_not_lt h)]

namespace UrlApi
variable (url : UrlApi)

/-- The loop of `treq_UrlencodeTclObject`, with `pos`, `bytes_left` and the object that the
encoded chunks are appended to. Every pass leaves fewer bytes. -/
def urlencodeFrom (dataStr : Str) (pos bytesLeft : ℕ) (result : Str) : Option Str :=
  if h : bytesLeft ≠ 0 then
    match url.easyEscape (dataStr.drop pos) (bytesToEncode bytesLeft) with
    | none => none
    | some dataEncoded =>
      have : bytesLeft - bytesToEncode bytesLeft < bytesLeft :=
        Nat.sub_lt (Nat.pos_of_ne_zero h) (Nat.pos_of_ne_zero (bytesToEncode_ne_zero h))
      urlencodeFrom dataStr (pos + bytesToEncode bytesLeft) (bytesLeft - bytesToEncode bytesLeft)
        (result ++ dataEncoded)
  else some result
termination_by bytesLeft

/-- `treq_UrlencodeTclObject` on the memory and the length of a string. -/
def urlencode (dataStr : Str) (dataLength : ℕ) : Option Str :=
  url.urlencodeFrom dataStr 0 dataLength []

/-- `treq_UrldecodeString` -/
def urldecodeString (data : Str) (length : ℕ) : Option Str :=
  if length > intMax then none else url.easyUnescape data length

end UrlApi

/-- The readable memory from the first byte of a Tcl string on. -/
def objMemory (data rest : Str) : Str := data ++ 0 :: rest

/-- `treq_UrldecodeTclObject` -/
def UrlApi.urldecodeTclObject (url : UrlApi) (data rest : Str) : Option Str :=
  url.urldecodeString (objMemory data rest) data.length

/-! ### The documentation of libcurl -/

/-- The bytes that a length stands for; a length of 0 stands for all up to the NUL. -/
def block (m : Str) (length : ℕ) : Str :=
  if length = 0 then m.takeWhile (· ≠ 0) else m.take length

/-- What the documentation says of the two calls. Input of `curl_easy_escape` is limited. -/
structure UrlApi.Documented (url : UrlApi) : Prop where
  escape : ∀ m length, length ≤ curlMaxInputLength →
    url.easyEscape m length = some (unreserved.encode (block m length))
  unescape : ∀ m length, length ≤ intMax →
    url.easyUnescape m length = some (percentDecode (block m length))

theorem block_take {m : Str} {length : ℕ} (h : length ≠ 0) : block m length = m.take length :=
  if_neg h

/-- The calls on blocks of bytes. -/
def UrlApi.toApi (url : UrlApi) (tcl : Tcl) : Api where
  toTcl := tcl
  easyEscape data := url.easyEscape data data.length

/-- What the documentation says of a call on a block of bytes. -/
def Api.EscapesUnreserved (api : Api) : Prop :=
  ∀ data, data ≠ [] → data.length ≤ curlMaxInputLength →
    api.easyEscape data = some (unreserved.encode data)

/-- The call looks at no more than the bytes it is given. -/
def UrlApi.ReadsBlock (url : UrlApi) : Prop :=
  ∀ m length, length ≠ 0 → length ≤ m.length → length ≤ curlMaxInputLength →
    url.easyEscape m length = url.easyEscape (m.take length) length

namespace UrlApi.Documented
variable {url : UrlApi}

theorem readsBlock (h : url.Documented) : url.ReadsBlock := by
  intro m length hne _ hmax
  rw [h.escape m length hmax, h.escape _ length hmax, block_take hne, block_take hne,
    List.take_take, Nat.min_self]

theorem escapesUnreserved (h : url.Documented) (tcl : Tcl) : (url.toApi tcl).EscapesUnreserved := by
  intro data hne hmax
  have hlen : data.length ≠ 0 := fun h0 => hne (List.length_eq_zero_iff.mp h0)
  change url.easyEscape data data.length = _
  rw [h.escape data _ hmax, block_take hlen, List.take_length]

end UrlApi.Documented

/-! ### The loop -/

section Loop
variable {url : UrlApi} (tcl : Tcl)

/-- The loop over the memory does what the loop over the bytes does. -/
theorem urlencodeFrom_eq_loop (h : url.ReadsBlock) (data rest : Str) {fuel pos bytesLeft : ℕ}
    (hpos : pos + bytesLeft = data.length) (hfuel : bytesLeft ≤ fuel) (result : Str) :
    url.urlencodeFrom (objMemory data rest) pos bytesLeft result =
      (urlencodeLoop (url.toApi tcl) fuel (data.drop pos)).map (result ++ ·) := by
  induction fuel generalizing pos bytesLeft result with
  | zero =>
    have hzero : bytesLeft = 0 := Nat.le_zero.mp hfuel
    subst hzero
    rw [UrlApi.urlencodeFrom, urlencodeLoop]
    simp
  | succ fuel ih =>
    by_cases hzero : bytesLeft = 0
    · subst hzero
      have hdrop : data.drop pos = [] := List.drop_eq_nil_of_le (Nat.le_of_eq hpos.symm)
      rw [UrlApi.urlencodeFrom, urlencodeLoop, hdrop]
      simp
    · have hle := bytesToEncode_le bytesLeft
      have hmax := bytesToEncode_le_max bytesLeft
      have hne := bytesToEncode_ne_zero hzero
      have hlen : (data.drop pos).length = bytesLeft := by
        rw [List.length_drop]
        omega
      have hdrop : data.drop pos ≠ [] := fun h0 => hzero (by rw [← hlen, h0]; rfl)
      -- the chunk of the memory is the chunk of the bytes
      have hchunk : ((objMemory data rest).drop pos).take (bytesToEncode bytesLeft) =
          (data.drop pos).take curlMaxInputLength := by
        rw [objMemory, List.drop_append_of_le_length (by omega),
          List.take_append_of_le_length (by omega), ← take_bytesToEncode, hlen]
      have hchunkLen : ((data.drop pos).take curlMaxInputLength).length = bytesToEncode bytesLeft := by
        rw [← take_bytesToEncode, hlen, List.length_take]
        omega
      have hcall : url.easyEscape ((objMemory data rest).drop pos) (bytesToEncode bytesLeft) =
          (url.toApi tcl).easyEscape ((data.drop pos).take curlMaxInputLength) := by
        have hmem : bytesToEncode bytesLeft ≤ ((objMemory data rest).drop pos).length := by
          rw [List.length_drop, objMemory, List.length_append]
          omega
        change _ = url.easyEscape _ (List.length _)
        rw [h _ _ hne hmem hmax, hchunk, hchunkLen]
      have hleft : (data.drop pos).drop curlMaxInputLength =
          data.drop (pos + bytesToEncode bytesLeft) := by
        rw [← drop_bytesToEncode, hlen, List.drop_drop]
      rw [UrlApi.urlencodeFrom, dif_pos hzero, urlencodeLoop, if_neg hdrop, hcall, hleft]
      cases (url.toApi tcl).easyEscape ((data.drop pos).take curlMaxInputLength) with
      | none => rfl
      | some dataEncoded =>
        simp only
        rw [ih (by omega) (by omega), Option.map_map]
        simp only [Function.comp_def, List.append_assoc]

theorem urlencode_eq_urlencodeTclObject (h : url.ReadsBlock) (data rest : Str) :
    url.urlencode (objMemory data rest) data.length = urlencodeTclObject (url.toApi tcl) data := by
  have := urlencodeFrom_eq_loop tcl h data rest (Nat.zero_add _) (Nat.le_refl _) []
  rw [UrlApi.urlencode, this, urlencodeTclObject]
  simp

end Loop

theorem urlencodeLoop_eq {api : Api} (h : api.EscapesUnreserved) {fuel : ℕ} {data : Str}
    (hfuel : data.length ≤ fuel) : urlencodeLoop api fuel data = some (unreserved.encode data) := by
  induction fuel generalizing data with
  | zero =>
    rw [List.length_eq_zero_iff.mp (Nat.le_zero.mp hfuel)]
    rfl
  | succ fuel ih =>
    rw [urlencodeLoop]
    split_ifs with hnil
    · rw [hnil]
      rfl
    · have hpos := List.length_pos_of_ne_nil hnil
      have htake : data.take curlMaxInputLength ≠ [] := by
        rw [Ne, List.take_eq_nil_iff, not_or]
        exact ⟨by decide, hnil⟩
      have hdrop : (data.drop curlMaxInputLength).length ≤ fuel := by
        rw [List.length_drop, curlMaxInputLength]
        omega
      rw [h _ htake (by rw [List.length_take]; exact Nat.min_le_left _ _), ih hdrop]
      -- the chunks are encoded byte by byte
      simp only [Option.map_some]
      rw [← Escaping.encode_append, List.take_append_drop]

/-- The encoded string is the encoding of all bytes, wherever the chunks end. -/
theorem urlencodeTclObject_eq {api : Api} (h : api.EscapesUnreserved) (data : Str) :
    urlencodeTclObject api data = some (unreserved.encode data) := urlencodeLoop_eq h (Nat.le_refl _)

/-- The length of an encoded string stands for all of it; the empty one ends at once. -/
theorem block_encode (data rest : Str) :
    block (objMemory (unreserved.encode data) rest) (unreserved.encode data).length =
      unreserved.encode data := by
  unfold block objMemory
  split_ifs with h
  · rw [List.length_eq_zero_iff.mp h]
    rfl
  · rw [List.take_left]

/-- The loop encodes the whole string byte by byte, and decoding gives it back. -/
theorem urldecode_urlencode {url : UrlApi} (h : url.Documented) (data : Str) :
    (∀ rest, url.urlencode (objMemory data rest) data.length = some (unreserved.encode data)) ∧
      ((unreserved.encode data).length ≤ intMax →
        ∀ rest, url.urldecodeTclObject (unreserved.encode data) rest = some data) := by
  constructor
  · intro rest
    -- how Tcl reads lists plays no part
    rw [urlencode_eq_urlencodeTclObject Api.plain.toTcl h.readsBlock,
      urlencodeTclObject_eq (h.escapesUnreserved _)]
  · intro hlen rest
    rw [UrlApi.urldecodeTclObject, UrlApi.urldecodeString, if_neg (Nat.not_lt.mpr hlen),
      h.unescape _ _ hlen, block_encode, percentDecode_encode]

/-- The calls as they are documented. -/
def UrlApi.reference : UrlApi where
  easyEscape m length :=
    if length ≤ curlMaxInputLength then some (unreserved.encode (block m length)) else none
  easyUnescape m length := some (percentDecode (block m length))

theorem UrlApi.reference_documented : UrlApi.reference.Documented where
  escape _ _ h := if_pos h
  unescape _ _ _ := rfl

/-- One byte more than `curl_easy_escape` takes. -/
def longData : Str := List.replicate (curlMaxInputLength + 1) 38

theorem length_encode_longData : (unreserved.encode longData).length = 24000003 := by
  have hbyte : (unreserved.escapeByte 38).length = 3 := by decide
  rw [Escaping.encode, longData, List.flatMap_replicate, List.length_flatten, List.map_replicate,
    List.sum_replicate_nat, hbyte, curlMaxInputLength]

theorem urldecode_urlencode_reference :
    UrlApi.reference.urlencode (objMemory longData []) longData.length =
        some (unreserved.encode longData) ∧
      UrlApi.reference.urldecodeTclObject (unreserved.encode longData) [] = some longData := by
  have h := urldecode_urlencode UrlApi.reference_documented longData
  refine ⟨h.1 [], h.2 ?_ []⟩
  rw [length_encode_longData]
  decide

end Trequests
