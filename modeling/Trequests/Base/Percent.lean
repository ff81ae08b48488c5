import Mathlib.Data.List.TakeWhile

/-! Percent-encoding of byte strings. An escaping says which bytes stand for themselves;
every other byte is written as a percent sign and two digits. Encoding is a homomorphism,
decoding undoes it at the start of any string, and a byte that is neither kept nor the
percent sign separates encoded strings. -/

namespace Trequests

/-- A hexadecimal digit, in upper case. -/
def hexDigit (n : UInt8) : UInt8 := if n < 10 then 48 + n else 55 + n

def hexValue (b : UInt8) : Option UInt8 :=
  if 48 ≤ b ∧ b ≤ 57 then some (b - 48)
  else if 65 ≤ b ∧ b ≤ 70 then some (b - 55)
  else if 97 ≤ b ∧ b ≤ 102 then some (b - 87)
  else none

/-- The byte that a percent sign and two digits stand for. -/
def escaped (b x y : UInt8) : Option UInt8 :=
  if b = 37 then (hexValue x).bind fun high => (hexValue y).map fun low => high * 16 + low
  else none

/-- Undoes the escapes; what is no escape stands for itself. -/
def percentDecode : List UInt8 → List UInt8
  | [] => []
  | b :: x :: y :: s => match escaped b x y with
    | some c => c :: percentDecode s
    | none => b :: percentDecode (x :: y :: s)
  | b :: s => b :: percentDecode s

/-- Which bytes stand for themselves: the digits, but not the percent sign. -/
structure Escaping where
  keep : UInt8 → Bool
  keep_percent : keep 37 = false
  keep_digit : ∀ n < 16, keep (hexDigit n) = true

namespace Escaping
variable (esc : Escaping)

def escapeByte (b : UInt8) : List UInt8 :=
  if esc.keep b then [b] else [37, hexDigit (b / 16), hexDigit (b % 16)]

def encode (s : List UInt8) : List UInt8 := s.flatMap esc.escapeByte

@[simp] theorem encode_nil : esc.encode [] = [] := rfl

@[simp] theorem encode_cons (b : UInt8) (s : List UInt8) :
    esc.encode (b :: s) = esc.escapeByte b ++ esc.encode s := List.flatMap_cons

@[simp] theorem encode_append (s t : List UInt8) :
    esc.encode (s ++ t) = esc.encode s ++ esc.encode t := List.flatMap_append

theorem escapeByte_ne_nil (b : UInt8) : esc.escapeByte b ≠ [] := by
  unfold escapeByte
  split_ifs <;> exact List.cons_ne_nil _ _

@[simp] theorem encode_eq_nil_iff (s : List UInt8) : esc.encode s = [] ↔ s = [] := by
  cases s with
  | nil => simp
  | cons b s => simp [esc.escapeByte_ne_nil]

theorem keep_of_mem_encode {s : List UInt8} {b : UInt8} (h : b ∈ esc.encode s) :
    esc.keep b = true ∨ b = 37 := by
  obtain ⟨c, -, hb⟩ := List.mem_flatMap.mp h
  unfold escapeByte at hb
  split_ifs at hb with hkeep
  · exact Or.inl (List.mem_singleton.mp hb ▸ hkeep)
  · simp only [List.mem_cons, List.not_mem_nil, or_false] at hb
    have hhigh : c / 16 < 16 := by
      rw [UInt8.lt_iff_toNat_lt, UInt8.toNat_div]
      have := c.toNat_lt
      change c.toNat / 16 < 16
      omega
    have hlow : c % 16 < 16 := UInt8.mod_lt c (by decide)
    rcases hb with rfl | rfl | rfl
    · exact Or.inr rfl
    · exact Or.inl (esc.keep_digit _ hhigh)
    · exact Or.inl (esc.keep_digit _ hlow)

/-- A separator is not met inside of an encoded string. -/
theorem not_mem_encode {sep : UInt8} (hkeep : esc.keep sep = false) (hsep : sep ≠ 37)
    (s : List UInt8) : sep ∉ esc.encode s := by
  intro h
  rcases esc.keep_of_mem_encode h with hb | hb
  · rw [hkeep] at hb
    cases hb
  · exact hsep hb

end Escaping

/-! ### Decoding -/

theorem percentDecode_cons {b : UInt8} (hb : b ≠ 37) (s : List UInt8) :
    percentDecode (b :: s) = b :: percentDecode s := by
  match s with
  | [] => rfl
  | [_] => rfl
  | x :: y :: s =>
    have : escaped b x y = none := if_neg hb
    rw [percentDecode, this]

theorem escaped_hexDigit (b : UInt8) : escaped 37 (hexDigit (b / 16)) (hexDigit (b % 16)) = some b := by
  have : ∀ n : Fin 256, escaped 37 (hexDigit (UInt8.ofFin n / 16)) (hexDigit (UInt8.ofFin n % 16)) =
      some (UInt8.ofFin n) := by decide +kernel
  exact this b.toFin

theorem percentDecode_escapeByte (esc : Escaping) (b : UInt8) (s : List UInt8) :
    percentDecode (esc.escapeByte b ++ s) = b :: percentDecode s := by
  unfold Escaping.escapeByte
  split_ifs with hkeep
  · refine percentDecode_cons ?_ s
    rintro rfl
    rw [esc.keep_percent] at hkeep
    cases hkeep
  · change percentDecode (37 :: hexDigit (b / 16) :: hexDigit (b % 16) :: s) = _
    rw [percentDecode, escaped_hexDigit]

theorem percentDecode_encode_append (esc : Escaping) (s t : List UInt8) :
    percentDecode (esc.encode s ++ t) = s ++ percentDecode t := by
  induction s with
  | nil => rfl
  | cons b s ih =>
    rw [Escaping.encode_cons, List.append_assoc, percentDecode_escapeByte, ih, List.cons_append]

theorem percentDecode_encode (esc : Escaping) (s : List UInt8) :
    percentDecode (esc.encode s) = s := by
  have := percentDecode_encode_append esc s []
  rwa [List.append_nil, percentDecode, List.append_nil] at this

/-! ### Cutting at a separator -/

/-- What stands before the first separator, and what stands behind it. -/
def cutFirst (sep : UInt8) (s : List UInt8) : List UInt8 × List UInt8 :=
  (s.takeWhile (· ≠ sep), (s.dropWhile (· ≠ sep)).tail)

theorem cutFirst_of_notMem {sep : UInt8} {s : List UInt8} (h : sep ∉ s) :
    cutFirst sep s = (s, []) := by
  have hall : ∀ b ∈ s, decide (b ≠ sep) = true := fun b hb =>
    decide_eq_true fun he => h (he ▸ hb)
  rw [cutFirst, List.takeWhile_eq_self_iff.mpr hall, List.dropWhile_eq_nil_iff.mpr hall,
    List.tail_nil]

theorem cutFirst_append {sep : UInt8} {s : List UInt8} (h : sep ∉ s) (t : List UInt8) :
    cutFirst sep (s ++ sep :: t) = (s, t) := by
  have hall : ∀ b ∈ s, decide (b ≠ sep) = true := fun b hb =>
    decide_eq_true fun he => h (he ▸ hb)
  rw [cutFirst, List.takeWhile_append_of_pos hall, List.dropWhile_append_of_pos hall]
  simp

end Trequests
