import Mathlib.Algebra.Group.Nat.Defs
import Mathlib.Algebra.Ring.Int.Defs
import Trequests.Base.Block
import Trequests.Machine

/-! `treq_write_callback` in the build for Tcl 8.6, where `Tcl_Size` is an `int` and the
allocator takes an `unsigned`. The counter of the stored bytes wraps around at 2^31,
the size of the block at 2^32. -/

namespace Trequests

/-- The conversion to `Tcl_Size`. -/
def toTclSize (n : ℤ) : ℤ := n.bmod (2 ^ 32)

/-- `TCL_SIZE_MAX` -/
def tclSizeMax : ℕ := 2 ^ 31 - 1

/-- The conversion that the macros `attemptckalloc` and `attemptckrealloc` apply to a
size. -/
def toUnsigned (n : ℤ) : ℕ := (n % 2 ^ 32).toNat

/-- The fields of `treq_RequestType` that the callback uses. -/
structure Output where
  content : Option (Block UInt8)
  contentSize : ℤ
  error : Option Str
  state : RequestState
  deriving DecidableEq

/-- The output when the transfer starts. -/
def Output.init : Output := ⟨none, 0, none, .inprogress⟩

/-- `treq_RequestSetError` -/
def Output.setError (out : Output) (error : Str) : Output :=
  { out with error := some error, state := .error }

/-- The text of `writeErrorText` with `%ld` for a counter that may be negative. -/
def storeErrorText (size : ℕ) (contentSize : ℤ) : Str :=
  lit "failed to allocate " ++ decimal size ++
    lit " additional bytes in the output buffer, current output buffer size is " ++
    decimal contentSize

inductive WriteReturn where
  | size (n : ℕ)
  /-- `CURL_WRITEFUNC_ERROR` -/
  | writefuncError
  deriving DecidableEq

/-- `treq_write_callback`. Whether the allocator finds the memory is given; `none` when
`memcpy` writes outside of the block. -/
def writeCallback (out : Output) (alloc : Bool) (chunk : Str) : Option (Output × WriteReturn) :=
  if chunk = [] then some (out, .size 0)
  else if alloc then
    let block :=
      if out.contentSize = 0 then Block.alloc (toUnsigned chunk.length)
      else (out.content.getD []).realloc (toUnsigned (out.contentSize + chunk.length))
    (block.write out.contentSize chunk).map fun content =>
      ({ out with
          content := some content
          contentSize := toTclSize (out.contentSize + chunk.length) }, .size chunk.length)
  else some (out.setError (storeErrorText chunk.length out.contentSize), .writefuncError)

theorem writeCallback_refused (out : Output) {chunk : Str} (hc : chunk ≠ []) :
    writeCallback out false chunk =
      some (out.setError (storeErrorText chunk.length out.contentSize), .writefuncError) := by
  rw [writeCallback, if_neg hc]
  rfl

/-- The failure of the callback is what the machine records for the request. -/
theorem writeCallback_failed {out : Output} {n : ℕ} (hn : out.contentSize = n) {chunk : Str}
    (hc : chunk ≠ []) (l : Lib) (r : ReqId) :
    ∃ out', writeCallback out false chunk = some (out', .writefuncError) ∧
      ((l.requestSetError r (writeErrorText chunk.length n)).request r).error = out'.error ∧
      ((l.requestSetError r (writeErrorText chunk.length n)).request r).state = out'.state := by
  refine ⟨_, writeCallback_refused out hc, ?_, ?_⟩
  · simp [Lib.requestSetError, Lib.setState, Lib.modifyRequest, Output.setError, writeErrorText,
      storeErrorText, hn]
  · simp [Lib.requestSetError, Lib.setState, Lib.modifyRequest, Output.setError]

/-! ### One call -/

/-- The output holds exactly these bytes, and counts them. -/
structure Output.Holds (out : Output) (bytes : Str) : Prop where
  content : out.content.getD [] = Block.ofList bytes
  contentSize : out.contentSize = bytes.length

theorem Output.holds_init : Output.init.Holds [] := ⟨rfl, rfl⟩

section Step
variable {out : Output} {bytes chunk : Str}

/-- While the counter is right, the block has the size of the wrapped sum. -/
theorem writeCallback_holds (h : out.Holds bytes) (hc : chunk ≠ []) :
    writeCallback out true chunk =
      (((Block.ofList bytes).realloc (toUnsigned (bytes.length + chunk.length : ℕ))).write
        bytes.length chunk).map fun content =>
          ({ out with
              content := some content
              contentSize := toTclSize (bytes.length + chunk.length : ℕ) }, .size chunk.length) := by
  rw [writeCallback, if_neg hc, if_pos rfl, h.content, h.contentSize]
  by_cases hb : bytes = []
  · subst hb
    simp [Block.ofList, Block.realloc_nil]
  · have : (bytes.length : ℤ) ≠ 0 := by simpa using hb
    rw [if_neg this, Int.natCast_add]

/-- A chunk that fits is stored behind the others. -/
theorem writeCallback_fits (h : out.Holds bytes) (hc : chunk ≠ [])
    (hmax : bytes.length + chunk.length ≤ tclSizeMax) :
    ∃ out', writeCallback out true chunk = some (out', .size chunk.length) ∧
      out'.Holds (bytes ++ chunk) := by
  have hsize : toUnsigned (bytes.length + chunk.length : ℕ) = bytes.length + chunk.length := by
    unfold toUnsigned tclSizeMax at *
    omega
  have hcount : toTclSize (bytes.length + chunk.length : ℕ) = (bytes ++ chunk).length := by
    unfold toTclSize tclSizeMax at *
    rw [List.length_append, Int.bmod_eq_of_le] <;> omega
  rw [writeCallback_holds h hc, hsize, Block.write_realloc, hcount, Option.map_some]
  exact ⟨_, rfl, ⟨rfl, rfl⟩⟩

/-- A chunk that takes the counter past its maximum is not counted right, if its bytes do
not fall outside of the block. -/
theorem writeCallback_overflow (h : out.Holds bytes) (hc : chunk ≠ [])
    (hmax : tclSizeMax < bytes.length + chunk.length) {out' : Output} {ret : WriteReturn}
    (hw : writeCallback out true chunk = some (out', ret)) :
    ret ≠ .writefuncError ∧ out'.contentSize ≠ (bytes.length + chunk.length : ℕ) := by
  rw [writeCallback_holds h hc] at hw
  obtain ⟨content, -, he⟩ := Option.map_eq_some_iff.mp hw
  cases he
  refine ⟨WriteReturn.noConfusion, ?_⟩
  have hlt : toTclSize (bytes.length + chunk.length : ℕ) < 2 ^ 31 :=
    Int.bmod_lt (by decide)
  unfold tclSizeMax at hmax
  intro heq
  simp only at heq
  omega

end Step

/-! ### Any sequence of calls -/

/-- A call of the callback: the chunk, and whether memory for it can be had. -/
structure WriteCall where
  chunk : Str
  alloc : Bool
  deriving DecidableEq

def writeStep (out : Output) (call : WriteCall) : Option Output :=
  (writeCallback out call.alloc call.chunk).map Prod.fst

/-- The bytes of the chunks that can be stored. -/
def storedBytes (calls : List WriteCall) : Str :=
  (calls.filter WriteCall.alloc).flatMap WriteCall.chunk

/-- The law of one call, made after the calls `before`. -/
def WriteExact (before : List WriteCall) (call : WriteCall) : Prop :=
  ∃ out out' ret, Run.exec writeStep Output.init before = some out ∧
    writeCallback out call.alloc call.chunk = some (out', ret) ∧
    (ret ≠ .writefuncError → out'.Holds (storedBytes (before ++ [call]))) ∧
    (call.chunk ≠ [] → call.alloc = false → ret = .writefuncError ∧ out'.state = .error ∧
      out'.content = out.content ∧ out'.contentSize = out.contentSize)

section Runs
variable {before calls : List WriteCall} {call : WriteCall} {out : Output}

theorem storedBytes_append (before after : List WriteCall) :
    storedBytes (before ++ after) = storedBytes before ++ storedBytes after := by
  unfold storedBytes
  rw [List.filter_append, List.flatMap_append]

theorem storedBytes_concat : storedBytes (before ++ [call]) =
    storedBytes before ++ if call.alloc then call.chunk else [] := by
  rw [storedBytes_append]
  cases h : call.alloc <;> simp [storedBytes, h]

/-- One call within the bound: the output holds the bytes stored so far, and a chunk
that cannot be stored changes nothing but the error. -/
theorem writeCallback_call (h : out.Holds (storedBytes before))
    (hmax : (storedBytes (before ++ [call])).length ≤ tclSizeMax) :
    ∃ out' ret, writeCallback out call.alloc call.chunk = some (out', ret) ∧
      out'.Holds (storedBytes (before ++ [call])) ∧
      (call.chunk ≠ [] → call.alloc = false → ret = .writefuncError ∧ out'.state = .error ∧
        out'.content = out.content ∧ out'.contentSize = out.contentSize) := by
  rw [storedBytes_concat] at hmax ⊢
  by_cases hc : call.chunk = []
  · refine ⟨out, .size 0, by rw [writeCallback, if_pos hc], ?_, fun hne => absurd hc hne⟩
    simpa [hc] using h
  · cases ha : call.alloc with
    | true =>
      rw [ha, if_pos rfl, List.length_append] at hmax
      obtain ⟨out', hw, hout'⟩ := writeCallback_fits h hc hmax
      exact ⟨out', _, hw, by simpa using hout', fun _ hf => by cases hf⟩
    | false =>
      refine ⟨_, _, writeCallback_refused out hc, ?_, fun _ _ => ⟨rfl, rfl, rfl, rfl⟩⟩
      simpa using ⟨h.content, h.contentSize⟩

/-- Within the bound, the output holds the bytes stored so far after any sequence of
calls. -/
theorem exec_writeStep_holds (hmax : (storedBytes calls).length ≤ tclSizeMax) :
    ∃ out, Run.exec writeStep Output.init calls = some out ∧ out.Holds (storedBytes calls) := by
  induction calls using List.reverseRecOn with
  | nil => exact ⟨Output.init, rfl, Output.holds_init⟩
  | append_singleton before call ih =>
    have hle : (storedBytes before).length ≤ (storedBytes (before ++ [call])).length := by
      rw [storedBytes_concat, List.length_append]
      omega
    obtain ⟨out, he, hout⟩ := ih (Nat.le_trans hle hmax)
    obtain ⟨out', ret, hw, hout', -⟩ := writeCallback_call hout hmax
    refine ⟨out', ?_, hout'⟩
    rw [Run.exec_append, he, Option.bind_some, Run.exec_cons, writeStep, hw]
    rfl

/-- A call that takes the bytes past the bound breaks the law. -/
theorem not_writeExact (hb : (storedBytes before).length ≤ tclSizeMax)
    (hmax : tclSizeMax < (storedBytes (before ++ [call])).length) : ¬ WriteExact before call := by
  rintro ⟨out, out', ret, he, hw, hholds, -⟩
  obtain ⟨out₁, he₁, hout⟩ := exec_writeStep_holds hb
  obtain rfl : out₁ = out := Option.some.inj (he₁.symm.trans he)
  rw [storedBytes_concat] at hmax hholds
  cases ha : call.alloc with
  | false =>
    rw [ha] at hmax
    simp at hmax
    omega
  | true =>
    rw [ha, if_pos rfl, List.length_append] at hmax
    have hc : call.chunk ≠ [] := by
      intro hnil
      rw [hnil, List.length_nil] at hmax
      omega
    rw [ha] at hw
    obtain ⟨hret, hsize⟩ := writeCallback_overflow hout hc hmax hw
    apply hsize
    rw [(hholds hret).contentSize, ha, if_pos rfl, List.length_append]

theorem storedBytes_le_of_writeExact (hlaw : ∀ before call after,
    calls = before ++ call :: after → WriteExact before call) :
    (storedBytes calls).length ≤ tclSizeMax := by
  induction calls using List.reverseRecOn with
  | nil => exact Nat.zero_le _
  | append_singleton before call ih =>
    have hb := ih fun pre c post hp => hlaw pre c (post ++ [call]) (by rw [hp]; simp)
    apply Nat.le_of_not_lt
    intro hmax
    exact not_writeExact hb hmax (hlaw before call [] rfl)

/-- In a sequence of calls the content is exact after every success, every write stays in
the block and every failure leaves the content alone, if and only if the chunks that can be
stored have at most `tclSizeMax` bytes together. -/
theorem writeExact_iff (calls : List WriteCall) :
    (∀ before call after, calls = before ++ call :: after → WriteExact before call) ↔
      (storedBytes calls).length ≤ tclSizeMax := by
  constructor
  · exact storedBytes_le_of_writeExact
  · rintro hmax before call after rfl
    rw [List.append_cons, storedBytes_append, List.length_append] at hmax
    have hboth : (storedBytes (before ++ [call])).length ≤ tclSizeMax := by omega
    have hbefore : (storedBytes before).length ≤ tclSizeMax := by
      rw [storedBytes_concat, List.length_append] at hboth
      omega
    obtain ⟨out, he, hout⟩ := exec_writeStep_holds hbefore
    obtain ⟨out', ret, hw, hholds, hfail⟩ := writeCallback_call hout hboth
    exact ⟨out, out', ret, he, hw, fun _ => hholds, hfail⟩

end Runs

/-- A response of 2^31 bytes, in chunks of 16384 bytes. -/
def twoGigabytes : List WriteCall := List.replicate (2 ^ 17) ⟨List.replicate (2 ^ 14) 0, true⟩

theorem length_storedBytes_replicate (n : ℕ) (chunk : Str) :
    (storedBytes (List.replicate n ⟨chunk, true⟩)).length = n * chunk.length := by
  induction n with
  | zero => simp [storedBytes]
  | succ n ih => rw [List.replicate_succ', storedBytes_concat, if_pos rfl, List.length_append, ih,
      Nat.succ_mul]

theorem twoGigabytes_not_exact : ¬ ∀ calls before call after,
    calls = before ++ call :: after → WriteExact before call := by
  intro h
  have hle := storedBytes_le_of_writeExact (h twoGigabytes)
  rw [twoGigabytes, length_storedBytes_replicate, List.length_replicate] at hle
  exact absurd hle (by decide)

end Trequests
