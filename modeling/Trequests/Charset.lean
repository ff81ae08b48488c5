import Trequests.Tcl

/-! `treq_ConvertCharsetToEncoding`: the name of a charset, as a server writes it, is
turned into the name of a Tcl encoding. Each branch of the source is a function of the
rest of the string that `ptr` points to; `none` is the jump to `done` without a result. -/

namespace Trequests

/-- `isdigit` in the C locale. -/
def isDigit (b : UInt8) : Bool := 48 ≤ b ∧ b ≤ 57

/-- `if (*ptr == c) ptr++` -/
def skipByte (c : UInt8) : Str → Str
  | [] => []
  | b :: s => if b = c then s else b :: s

/-- `if (strncmp(ptr, part, strlen(part)) == 0) ptr += strlen(part)` -/
def skipPart (part ptr : Str) : Str := if part.isPrefixOf ptr then ptr.drop part.length else ptr

/-- The loops that check for digits. Each pass looks at the byte at `ptr`, whatever `tmp`
has come to. -/
def digitsLoop (ptr : Str) : Str → Bool
  | [] => true
  | _ :: tmp => isDigit (ptr.headD 0) && digitsLoop ptr tmp

/-- The code at the label `latin`. -/
def convertLatin (ptr : Str) : Option Str :=
  let ptr := skipByte 45 (skipPart (lit "in") (ptr.drop 3))
  if ¬ digitsLoop ptr ptr then none
  else if ptr = lit "5" then some (lit "iso8859-9")
  else if ptr = lit "1" ∨ ptr = lit "2" ∨ ptr = lit "3" then some (lit "iso8859-" ++ ptr)
  else some (lit "iso8859-1")

/-- The branch for `iso`. -/
def convertIso (ptr : Str) : Option Str :=
  let ptr := skipByte 45 (ptr.drop 3)
  if (lit "8859-").isPrefixOf ptr then
    let ptr := ptr.drop 5
    if digitsLoop ptr ptr then some (lit "iso8859-" ++ ptr) else none
  else if (lit "2022-").isPrefixOf ptr then
    let ptr := ptr.drop 5
    if ptr ≠ lit "jp" ∨ ptr ≠ lit "kr" then none else some (lit "iso2022-" ++ ptr)
  else if (lit "lat").isPrefixOf ptr then convertLatin ptr
  else none

/-- The branch for `shift`. The match itself is not skipped. -/
def convertShift (ptr : Str) : Option Str :=
  let ptr := if ptr.head? = some 45 ∨ ptr.head? = some 95 then ptr.drop 1 else ptr
  if ptr ≠ lit "jis" then none else some (lit "shiftjis")

/-- The branch for `windows` and `cp`. -/
def convertWindows (ptr : Str) : Option Str :=
  let ptr := ptr.drop (if ptr.head? = some 119 then 7 else 2)
  let ptr := skipByte 45 ptr
  if digitsLoop ptr ptr then some (lit "cp" ++ ptr) else none

def convertCharset (ptr : Str) : Option Str :=
  if (lit "iso").isPrefixOf ptr then convertIso ptr
  else if (lit "shift").isPrefixOf ptr then convertShift ptr
  else if (lit "windows").isPrefixOf ptr ∨ (lit "cp").isPrefixOf ptr then convertWindows ptr
  else if ptr = lit "us-ascii" then some (lit "ascii")
  else if (lit "lat").isPrefixOf ptr then convertLatin ptr
  else none

/-- `treq_ConvertCharsetToEncoding` -/
def convertCharsetToEncoding (charset : Str) : Str := (convertCharset charset).getD charset

/-! ### The aliases of an encoding -/

/-- A number: one digit or more. -/
structure IsNumber (n : Str) : Prop where
  ne_nil : n ≠ []
  digits : ∀ b ∈ n, isDigit b = true

/-- The encoding of Latin number `n`. -/
def latinEncoding (n : Str) : Str :=
  if n = lit "1" ∨ n = lit "2" ∨ n = lit "3" then lit "iso8859-" ++ n
  else if n = lit "5" then lit "iso8859-9"
  else lit "iso8859-1"

/-- An optional part of a name. -/
def optional (part : Str) (given : Bool) : Str := if given then part else []

/-- The names of a charset in each of the families, and the encoding they stand for. -/
inductive CharsetAlias : Str → Str → Prop where
  | iso8859 (dash : Bool) {n : Str} (h : IsNumber n) :
    CharsetAlias (lit "iso" ++ optional (lit "-") dash ++ lit "8859-" ++ n) (lit "iso8859-" ++ n)
  | windows (dash : Bool) {n : Str} (h : IsNumber n) :
    CharsetAlias (lit "windows" ++ optional (lit "-") dash ++ n) (lit "cp" ++ n)
  | cp (dash : Bool) {n : Str} (h : IsNumber n) :
    CharsetAlias (lit "cp" ++ optional (lit "-") dash ++ n) (lit "cp" ++ n)
  | iso2022jp (dash : Bool) :
    CharsetAlias (lit "iso" ++ optional (lit "-") dash ++ lit "2022-jp") (lit "iso2022-jp")
  | iso2022kr (dash : Bool) :
    CharsetAlias (lit "iso" ++ optional (lit "-") dash ++ lit "2022-kr") (lit "iso2022-kr")
  | shiftjis : CharsetAlias (lit "shiftjis") (lit "shiftjis")
  | shiftDashJis : CharsetAlias (lit "shift-jis") (lit "shiftjis")
  | shiftUnderscoreJis : CharsetAlias (lit "shift_jis") (lit "shiftjis")
  | usAscii : CharsetAlias (lit "us-ascii") (lit "ascii")
  | latin (iso isoDash long dash : Bool) {n : Str} (h : IsNumber n) :
    CharsetAlias
      (optional (lit "iso" ++ optional (lit "-") isoDash) iso ++
        lit "lat" ++ optional (lit "in") long ++ optional (lit "-") dash ++ n)
      (latinEncoding n)

theorem CharsetAlias.ne_nil {c e : Str} (h : CharsetAlias c e) : c ≠ [] := by
  have hlat : lit "lat" ≠ [] := by decide
  have hword : ∀ w ∈ [lit "iso", lit "windows", lit "cp"], w ≠ [] := by decide
  cases h with
  | shiftjis | shiftDashJis | shiftUnderscoreJis | usAscii => decide
  | latin iso isoDash long dash hn => simp [hlat]
  | iso8859 | windows | cp | iso2022jp | iso2022kr =>
    simp [hword (lit "iso") (by decide), hword (lit "windows") (by decide),
      hword (lit "cp") (by decide)]

/-- The names that the code leaves as they are, although they are not the name of the
encoding. -/
def unconverted : List Str :=
  [lit "iso-2022-jp", lit "iso-2022-kr", lit "shift-jis", lit "shift_jis"]

/-! ### What the code makes of them -/

/-- The loops check the first byte only. -/
theorem digitsLoop_eq (ptr tmp : Str) :
    digitsLoop ptr tmp = (tmp.isEmpty || isDigit (ptr.headD 0)) := by
  induction tmp with
  | nil => rfl
  | cons b tmp ih =>
    rw [digitsLoop, ih]
    cases isDigit (ptr.headD 0) <;> cases tmp <;> rfl

/-- What the loops take for a number: nothing, or anything that starts with a digit. -/
def SeemsNumber (n : Str) : Prop := ∀ b ∈ n.head?, isDigit b = true

instance (n : Str) : Decidable (SeemsNumber n) :=
  inferInstanceAs (Decidable (∀ b ∈ n.head?, isDigit b = true))

theorem IsNumber.seemsNumber {n : Str} (h : IsNumber n) : SeemsNumber n :=
  fun b hb => h.digits b (List.mem_of_mem_head? hb)

theorem digitsLoop_iff (n : Str) : digitsLoop n n = true ↔ SeemsNumber n := by
  rw [digitsLoop_eq]
  cases n <;> simp [SeemsNumber]

section Number
variable {n : Str}

theorem SeemsNumber.digitsLoop (h : SeemsNumber n) : digitsLoop n n = true :=
  (digitsLoop_iff n).mpr h

/-- It does not start with a byte that is no digit. -/
theorem SeemsNumber.skipByte (h : SeemsNumber n) {c : UInt8} (hc : isDigit c = false) :
    skipByte c n = n := by
  cases n with
  | nil => rfl
  | cons b n =>
    apply if_neg
    rintro rfl
    rw [h b rfl] at hc
    cases hc

theorem SeemsNumber.not_isPrefixOf (h : SeemsNumber n) {c : UInt8} (hc : isDigit c = false)
    (s : Str) : (c :: s).isPrefixOf n = false := by
  cases n with
  | nil => rfl
  | cons b n =>
    have hb : c ≠ b := by
      rintro rfl
      rw [h c rfl] at hc
      cases hc
    simp [List.isPrefixOf, hb]

theorem convertCharset_iso8859 (dash : Bool) (h : SeemsNumber n) :
    convertCharset (lit "iso" ++ optional (lit "-") dash ++ lit "8859-" ++ n) =
      some (lit "iso8859-" ++ n) := by
  have : convertCharset (lit "iso" ++ optional (lit "-") dash ++ lit "8859-" ++ n) =
      if digitsLoop n n then some (lit "iso8859-" ++ n) else none := by
    cases dash <;> rfl
  rw [this, if_pos h.digitsLoop]

theorem skipByte_optional (h : SeemsNumber n) (dash : Bool) :
    skipByte 45 (optional (lit "-") dash ++ n) = n := by
  cases dash with
  | false => exact h.skipByte rfl
  | true => rfl

theorem convertCharset_windows (dash : Bool) (h : SeemsNumber n) :
    convertCharset (lit "windows" ++ optional (lit "-") dash ++ n) = some (lit "cp" ++ n) := by
  have : convertCharset (lit "windows" ++ (optional (lit "-") dash ++ n)) =
      let ptr := skipByte 45 (optional (lit "-") dash ++ n)
      if digitsLoop ptr ptr then some (lit "cp" ++ ptr) else none := rfl
  rw [List.append_assoc, this, skipByte_optional h]
  exact if_pos h.digitsLoop

theorem convertCharset_cp (dash : Bool) (h : SeemsNumber n) :
    convertCharset (lit "cp" ++ optional (lit "-") dash ++ n) = some (lit "cp" ++ n) := by
  have : convertCharset (lit "cp" ++ (optional (lit "-") dash ++ n)) =
      let ptr := skipByte 45 (optional (lit "-") dash ++ n)
      if digitsLoop ptr ptr then some (lit "cp" ++ ptr) else none := rfl
  rw [List.append_assoc, this, skipByte_optional h]
  exact if_pos h.digitsLoop

theorem skipPart_optional (h : SeemsNumber n) (long dash : Bool) :
    skipPart (lit "in") (optional (lit "in") long ++ (optional (lit "-") dash ++ n)) =
      optional (lit "-") dash ++ n := by
  cases long with
  | true => rfl
  | false =>
    cases dash with
    | true => rfl
    | false =>
      have hin : (lit "in").isPrefixOf n = false := h.not_isPrefixOf rfl [110]
      exact if_neg (Bool.eq_false_iff.mp hin)

theorem convertLatin_number (long dash : Bool) (h : SeemsNumber n) :
    convertLatin (lit "lat" ++ (optional (lit "in") long ++ (optional (lit "-") dash ++ n))) =
      some (latinEncoding n) := by
  have hdrop : (lit "lat" ++ (optional (lit "in") long ++ (optional (lit "-") dash ++ n))).drop 3 =
      optional (lit "in") long ++ (optional (lit "-") dash ++ n) := rfl
  simp only [convertLatin, hdrop, skipPart_optional h, skipByte_optional h, h.digitsLoop]
  unfold latinEncoding
  by_cases h5 : n = lit "5"
  · subst h5
    decide
  · simp only [not_true_eq_false, h5, if_false]
    split_ifs <;> rfl

theorem convertCharset_latin (iso isoDash long dash : Bool) (h : SeemsNumber n) :
    convertCharset (optional (lit "iso" ++ optional (lit "-") isoDash) iso ++
      lit "lat" ++ optional (lit "in") long ++ optional (lit "-") dash ++ n) =
      some (latinEncoding n) := by
  have : convertCharset (optional (lit "iso" ++ optional (lit "-") isoDash) iso ++
      (lit "lat" ++ (optional (lit "in") long ++ (optional (lit "-") dash ++ n)))) =
      convertLatin (lit "lat" ++ (optional (lit "in") long ++ (optional (lit "-") dash ++ n))) := by
    cases iso <;> cases isoDash <;> rfl
  rw [← convertLatin_number long dash h, ← this]
  simp only [List.append_assoc]

end Number

theorem convertCharset_unconverted : ∀ c ∈ unconverted, convertCharset c = none := by decide

/-- An alias is converted, or it is the name of the encoding already, or it is one of the
names left as they are. -/
theorem convertCharset_alias {c e : Str} (h : CharsetAlias c e) :
    convertCharset c = some e ∨
      (convertCharset c = none ∧ (c = e ∧ c ∉ unconverted ∨ c ≠ e ∧ c ∈ unconverted)) := by
  cases h with
  | iso8859 dash hn => exact Or.inl (convertCharset_iso8859 dash hn.seemsNumber)
  | windows dash hn => exact Or.inl (convertCharset_windows dash hn.seemsNumber)
  | cp dash hn => exact Or.inl (convertCharset_cp dash hn.seemsNumber)
  | iso2022jp dash => cases dash <;> exact Or.inr (by decide)
  | iso2022kr dash => cases dash <;> exact Or.inr (by decide)
  | shiftjis => exact Or.inr (by decide)
  | shiftDashJis => exact Or.inr (by decide)
  | shiftUnderscoreJis => exact Or.inr (by decide)
  | usAscii => exact Or.inl (by decide)
  | latin iso isoDash long dash hn =>
    exact Or.inl (convertCharset_latin iso isoDash long dash hn.seemsNumber)

/-- An alias is turned into the name of its encoding, if and only if it is not one of the
names left as they are. -/
theorem convertCharsetToEncoding_eq_iff {c e : Str} (h : CharsetAlias c e) :
    convertCharsetToEncoding c = e ↔ c ∉ unconverted := by
  unfold convertCharsetToEncoding
  rcases convertCharset_alias h with hc | ⟨hc, ⟨he, hu⟩ | ⟨he, hu⟩⟩
  · rw [hc]
    refine iff_of_true rfl fun hu => ?_
    rw [convertCharset_unconverted c hu] at hc
    cases hc
  · rw [hc]
    exact iff_of_true he hu
  · rw [hc]
    exact iff_of_false he fun hn => hn hu

end Trequests
