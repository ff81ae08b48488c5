import Trequests.Base.Scan
import Trequests.Tcl

/-! `treq_ParseContentType`: the type and the charset of a header value. The source reads
the value through one pointer, and the value ends with a NUL; the memory from the pointer
on is the state of the parser, and a read outside of the readable memory has no result. -/

namespace Trequests

/-- `isspace` in the C locale. -/
def isSpace (b : UInt8) : Bool := b = 32 ∨ 9 ≤ b ∧ b ≤ 13

/-- `if (len < sizeof(buf)) buf[len++] = tolower(*ptr)` -/
def pushLower (size : ℕ) (buf : Str) (b : UInt8) : Str :=
  if buf.length < size then buf ++ [toLower b] else buf

/-- `curl_strnequal` with the length of `part`: it compares up to case until the first
difference. -/
def strnequal : Str → Str → Option Bool
  | _, [] => some true
  | [], _ :: _ => none
  | b :: ptr, c :: part => if toLower b = c then strnequal ptr part else some false

namespace ContentType
open Scan

/-- The loop that saves the type, up to the first semicolon. -/
def typeLoop : Scan UInt8 Str :=
  loop (fun buf b =>
    if b = 0 then .stay buf
    else if isSpace b then .next buf
    else if b = 59 then .leave buf
    else .next (pushLower 128 buf b)) []

/-- The loop that looks for the section `charset`; `inside` tells that the inner loop runs,
which skips the rest of another section. -/
def sectionLoop : Bool → Scan UInt8 Unit
  | _, [] => none
  | true, b :: ptr =>
    if b ≠ 0 ∧ b ≠ 59 then sectionLoop true ptr
    -- the outer loop steps over the byte at which the inner one has stopped
    else sectionLoop false ptr
  | false, b :: ptr =>
    if b = 0 then some ((), b :: ptr)
    else if isSpace b ∨ b = 59 then sectionLoop false ptr
    else match strnequal (b :: ptr) (lit "charset") with
      | none => none
      | some true => some ((), (b :: ptr).drop 7)
      | some false => sectionLoop true ptr

def skipSpaces : Scan UInt8 Unit :=
  loop (fun _ b => if b ≠ 0 ∧ isSpace b then .next () else .stay ()) ()

/-- The loop that saves the value. -/
def valueLoop (isQuoted : Bool) : Scan UInt8 Str :=
  loop (fun buf b =>
    if b = 0 then .stay buf
    else if if isQuoted then b = 34 else b = 59 ∨ isSpace b then .stay buf
    else .next (pushLower 32 buf b)) []

/-- What follows the name of the section; without an equals sign there is no charset. -/
def charsetValue : Scan UInt8 Str := do
  skipSpaces
  if ← accept 61 then
    skipSpaces
    let isQuoted ← accept 34
    valueLoop isQuoted
  else return []

def parse : Scan UInt8 (Str × Str) := do
  let type ← typeLoop
  sectionLoop false
  let charset ← charsetValue
  return (type, charset)

end ContentType

/-- `treq_ParseContentType` on the readable memory from `data` on: the type and the
charset. -/
def parseContentType (data : Str) : Option (Str × Str) := (ContentType.parse data).map Prod.fst

/-- A C string: its bytes before the terminating NUL. -/
def CString := { s : Str // 0 ∉ s }

/-- The memory from the first byte of a C string on. -/
def CString.memory (s : CString) (rest : Str) : Str := s.1 ++ 0 :: rest

example : parseContentType (lit "text/html ; a=b; Charset = \"UTF-8\"" ++ [0]) =
    some (lit "text/html", lit "utf-8") := by decide

/-! ### Reads that stay within the value -/

section Compare
variable {m part : Str}

theorem strnequal_append {equal : Bool} (h : strnequal m part = some equal) (rest : Str) :
    strnequal (m ++ rest) part = some equal := by
  induction part generalizing m with
  | nil => simpa [strnequal] using h
  | cons c part ih =>
    cases m with
    | nil => cases h
    | cons b m =>
      rw [List.cons_append]
      unfold strnequal at h ⊢
      split_ifs at h ⊢
      · exact ih h
      · exact h

theorem length_le_of_strnequal (h : strnequal m part = some true) : part.length ≤ m.length := by
  induction part generalizing m with
  | nil => exact Nat.zero_le _
  | cons c part ih =>
    cases m with
    | nil => cases h
    | cons b m =>
      unfold strnequal at h
      split_ifs at h
      · exact Nat.succ_le_succ (ih h)
      · cases h

/-- The comparison stops at a byte that the part does not have. -/
theorem strnequal_stop {stop : UInt8} (hpart : toLower stop ∉ part) (s rest : Str) :
    strnequal (s ++ stop :: rest) part = some (part.isPrefixOf (foldCase s)) := by
  induction part generalizing s with
  | nil => rw [List.isPrefixOf_nil_left]; cases s <;> rfl
  | cons c part ih =>
    have hc : toLower stop ≠ c := fun h => hpart (h ▸ List.mem_cons_self)
    have hpart' : toLower stop ∉ part := fun h => hpart (List.mem_cons_of_mem c h)
    cases s with
    | nil => exact if_neg hc
    | cons b s =>
      rw [List.cons_append]
      unfold strnequal
      by_cases hb : toLower b = c
      · simp [hb, ih hpart', foldCase]
      · have hb' : c ≠ toLower b := fun h => hb h.symm
        simp [hb, hb', foldCase, List.isPrefixOf]

theorem strnequal_terminated (hpart : 0 ∉ part) (s rest : Str) :
    strnequal (s ++ 0 :: rest) part = some (part.isPrefixOf (foldCase s)) :=
  strnequal_stop (show toLower 0 ∉ part from hpart) s rest

end Compare

namespace ContentType
open Scan

theorem stable_sectionLoop (inside : Bool) : Stable (sectionLoop inside) := by
  intro m
  induction m generalizing inside with
  | nil =>
    intro a m' rest h
    cases inside <;> cases h
  | cons b m ih =>
    intro a m' rest h
    rw [List.cons_append]
    cases inside with
    | true =>
      unfold sectionLoop at h ⊢
      split_ifs at h ⊢
      · exact ih true a m' rest h
      · exact ih false a m' rest h
    | false =>
      unfold sectionLoop at h ⊢
      split_ifs at h ⊢
      · cases h; rfl
      · exact ih false a m' rest h
      · split at h
        · cases h
        · rename_i heq
          have hlen : 7 ≤ (b :: m).length := length_le_of_strnequal heq
          cases h
          rw [← List.cons_append, strnequal_append heq rest]
          simp only
          rw [List.drop_append_of_le_length hlen]
        · rename_i heq
          rw [← List.cons_append, strnequal_append heq rest]
          exact ih true a m' rest h

theorem stable_skipSpaces : Stable skipSpaces := Stable.loop _ _

theorem stable_valueLoop (isQuoted : Bool) : Stable (valueLoop isQuoted) := Stable.loop _ _

theorem stable_charsetValue : Stable charsetValue := by
  apply Stable.bind stable_skipSpaces
  intro _
  apply Stable.bind (Stable.accept 61)
  intro found
  cases found with
  | false => exact Stable.pure []
  | true =>
    apply Stable.bind stable_skipSpaces
    intro _
    apply Stable.bind (Stable.accept 34)
    intro isQuoted
    exact stable_valueLoop isQuoted

theorem stable_parse : Stable parse := by
  apply Stable.bind (Stable.loop _ _)
  intro type
  apply Stable.bind (stable_sectionLoop false)
  intro _
  apply Stable.bind stable_charsetValue
  intro charset
  exact Stable.pure (type, charset)

theorem within_skipSpaces {stop : UInt8} (h : isSpace stop = false) : Within stop skipSpaces := by
  apply Within.loop
  intro _
  exact ⟨(), if_neg (by simp [h])⟩

theorem within_charsetValue : Within 0 charsetValue := by
  apply Within.bind (within_skipSpaces (by decide))
  intro _
  apply Within.bind (Within.accept (by decide))
  intro found
  cases found with
  | false => exact Within.pure 0 []
  | true =>
    apply Within.bind (within_skipSpaces (by decide))
    intro _
    apply Within.bind (Within.accept (by decide))
    intro isQuoted
    exact Within.loop (fun buf => ⟨buf, rfl⟩) []

/-! ### The sections of a value -/

/-- What follows the first semicolon. -/
def behindType (value : Str) : Str := (value.dropWhile (· ≠ 59)).tail

/-- The sections behind the type. -/
def sections (value : Str) : List Str := (behindType value).splitOn 59

/-- The section starts with the word charset. -/
def IsCharset (sect : Str) : Prop := lit "charset" <+: foldCase (sect.dropWhile isSpace)

def IsBlank (sect : Str) : Prop := ∀ b ∈ sect, isSpace b = true

instance (sect : Str) : Decidable (IsCharset sect) := inferInstanceAs (Decidable (_ <+: _))

instance (sect : Str) : Decidable (IsBlank sect) := inferInstanceAs (Decidable (∀ b ∈ sect, _))

/-- The loop over these sections ends within the value. -/
def Stops : Bool → List Str → Prop
  | _, [] => False
  | inside, sect :: rest =>
    (inside = false ∧ IsCharset sect) ∨ Stops false rest ∨
      (rest = [] ∧ inside = false ∧ IsBlank sect)

theorem stops_iff (ss : List Str) : Stops false ss ↔
    (∃ sect ∈ ss, IsCharset sect) ∨ ∃ last ∈ ss.getLast?, IsBlank last := by
  induction ss with
  | nil => simp [Stops]
  | cons sect rest ih =>
    cases rest with
    | nil => simp [Stops]
    | cons next rest =>
      rw [Stops, ih]
      simp [List.getLast?_cons_cons, or_assoc]

theorem typeLoop_terminated (buf s : Str) (hs : 0 ∉ s) : ∃ type,
    loop (fun buf b =>
      if b = 0 then .stay buf
      else if isSpace b then .next buf
      else if b = 59 then .leave buf
      else .next (pushLower 128 buf b)) buf (s ++ [0]) = some (type, behindType s ++ [0]) := by
  induction s generalizing buf with
  | nil => exact ⟨buf, rfl⟩
  | cons b s ih =>
    have hb : b ≠ 0 := fun h => hs (h ▸ List.mem_cons_self)
    have hs' : 0 ∉ s := fun h => hs (List.mem_cons_of_mem b h)
    rw [List.cons_append, loop, if_neg hb]
    by_cases hc : b = 59
    · subst hc
      exact ⟨buf, rfl⟩
    · have hbehind : behindType (b :: s) = behindType s := by
        simp [behindType, hc]
      rw [hbehind, if_neg hc]
      by_cases hsp : isSpace b = true
      · rw [if_pos hsp]
        exact ih buf hs'
      · rw [if_neg hsp]
        exact ih (pushLower 128 buf b) hs'

/-- A word without a semicolon starts a string if it starts its first section. -/
theorem prefix_section_iff {part s first : Str} {rest : List Str} (hpart : 59 ∉ part)
    (hs : s.splitOn 59 = first :: rest) : part <+: foldCase s ↔ part <+: foldCase first := by
  induction s generalizing part first rest with
  | nil =>
    cases hs
    rfl
  | cons b s ih =>
    cases part with
    | nil => simp
    | cons p part =>
      have hp : 59 ≠ p := fun h => hpart (h ▸ List.mem_cons_self)
      have hpart' : 59 ∉ part := fun h => hpart (List.mem_cons_of_mem p h)
      rw [List.splitOn_cons_eq_if_modifyHead] at hs
      by_cases hb : b = 59
      · subst hb
        cases hs
        have : p ≠ toLower 59 := fun h => hp h.symm
        simp [foldCase, List.cons_prefix_cons, this]
      · rw [if_neg (by simpa using hb)] at hs
        cases hsplit : s.splitOn 59 with
        | nil => exact absurd hsplit (List.splitOn_ne_nil 59 s)
        | cons head tail =>
          rw [hsplit] at hs
          cases hs
          simp only [foldCase, List.map_cons, List.cons_prefix_cons]
          exact and_congr_right fun _ => ih hpart' hsplit

theorem isCharset_cons {b : UInt8} {sect : Str} (hb : isSpace b = true) :
    IsCharset (b :: sect) ↔ IsCharset sect := by
  rw [IsCharset, List.dropWhile_cons, if_pos hb, IsCharset]

/-! One byte of the value: what the loop does with it, and which sections are left. -/

section Byte
variable {b : UInt8} {s first : Str} {rest : List Str}

/-- A semicolon ends the inner loop, and the outer one steps over it. -/
theorem sectionLoop_semicolon (inside : Bool) (s : Str) :
    sectionLoop inside (59 :: s) = sectionLoop false s := by
  cases inside <;> rfl

theorem sectionLoop_inside (hb : b ≠ 0) (hsemi : b ≠ 59) :
    sectionLoop true (b :: s) = sectionLoop true s := if_pos ⟨hb, hsemi⟩

theorem sectionLoop_space (hb : b ≠ 0) (hsp : isSpace b = true) :
    sectionLoop false (b :: s) = sectionLoop false s := by
  rw [sectionLoop, if_neg hb, if_pos (Or.inl hsp)]

theorem isCharset_word_iff (hsp : ¬ isSpace b = true)
    (hsplit : (b :: s).splitOn 59 = (b :: first) :: rest) :
    IsCharset (b :: first) ↔ lit "charset" <+: foldCase (b :: s) := by
  rw [prefix_section_iff (by decide) hsplit, IsCharset, List.dropWhile_cons, if_neg hsp]

/-- At the first byte of a section the loop looks for the word charset. -/
theorem sectionLoop_word (hb : b ≠ 0) (hsemi : b ≠ 59) (hsp : ¬ isSpace b = true)
    (hsplit : (b :: s).splitOn 59 = (b :: first) :: rest) :
    sectionLoop false (b :: (s ++ [0])) =
      if IsCharset (b :: first) then some ((), (b :: (s ++ [0])).drop 7)
      else sectionLoop true (s ++ [0]) := by
  have hword : (lit "charset").isPrefixOf (foldCase (b :: s)) = true ↔ IsCharset (b :: first) := by
    rw [List.isPrefixOf_iff_prefix, isCharset_word_iff hsp hsplit]
  rw [sectionLoop, if_neg hb, if_neg (by simp [hsp, hsemi]), ← List.cons_append,
    strnequal_terminated (by decide), ← if_congr hword rfl rfl]
  cases (lit "charset").isPrefixOf (foldCase (b :: s)) <;> rfl

theorem stops_nil_cons (inside : Bool) (ss : List Str) (hss : ss ≠ []) :
    Stops inside ([] :: ss) ↔ Stops false ss := by
  have hempty : ¬ IsCharset [] := by decide
  rw [Stops]
  simp [hempty, hss]

theorem stops_inside_cons (sect sect' : Str) :
    Stops true (sect :: rest) ↔ Stops true (sect' :: rest) := by
  simp [Stops]

theorem stops_space_cons (hsp : isSpace b = true) :
    Stops false ((b :: first) :: rest) ↔ Stops false (first :: rest) := by
  simp [Stops, isCharset_cons hsp, IsBlank, hsp]

theorem stops_word_cons (hsp : ¬ isSpace b = true) (hcs : ¬ IsCharset (b :: first)) (sect : Str) :
    Stops false ((b :: first) :: rest) ↔ Stops true (sect :: rest) := by
  have hblank : ¬ IsBlank (b :: first) := fun h => hsp (h b List.mem_cons_self)
  simp [Stops, hcs, hblank]

end Byte

/-- The loop ends within the value, or it reads behind it. -/
theorem sectionLoop_terminated (inside : Bool) (s : Str) (hs : 0 ∉ s) :
    (Stops inside (s.splitOn 59) ∧
      ∃ u, 0 ∉ u ∧ sectionLoop inside (s ++ [0]) = some ((), u ++ [0])) ∨
    (¬ Stops inside (s.splitOn 59) ∧ sectionLoop inside (s ++ [0]) = none) := by
  induction s generalizing inside with
  | nil =>
    cases inside with
    | true => exact Or.inr ⟨by simp [Stops], rfl⟩
    | false =>
      have hstops : Stops false [[]] := Or.inr (Or.inr ⟨rfl, rfl, by simp [IsBlank]⟩)
      exact Or.inl ⟨hstops, [], List.not_mem_nil, rfl⟩
  | cons b s ih =>
    have hb : b ≠ 0 := fun h => hs (h ▸ List.mem_cons_self)
    have hs' : 0 ∉ s := fun h => hs (List.mem_cons_of_mem b h)
    by_cases hsemi : b = 59
    · subst hsemi
      rw [List.splitOn_cons_eq_if_modifyHead, if_pos (by decide), List.cons_append,
        sectionLoop_semicolon, stops_nil_cons inside _ (List.splitOn_ne_nil 59 s)]
      exact ih false hs'
    · obtain ⟨first, rest, hsplit⟩ := List.exists_cons_of_ne_nil (List.splitOn_ne_nil 59 s)
      have hcons : (b :: s).splitOn 59 = (b :: first) :: rest := by
        rw [List.splitOn_cons_eq_if_modifyHead, if_neg (by simpa using hsemi), hsplit,
          List.modifyHead_cons]
      rw [hsplit] at ih
      rw [hcons, List.cons_append]
      cases inside with
      | true =>
        rw [sectionLoop_inside hb hsemi, stops_inside_cons (b :: first) first]
        exact ih true hs'
      | false =>
        by_cases hsp : isSpace b = true
        · rw [sectionLoop_space hb hsp, stops_space_cons hsp]
          exact ih false hs'
        · rw [sectionLoop_word hb hsemi hsp hcons]
          by_cases hcs : IsCharset (b :: first)
          · -- the seven bytes of the word are there
            have hlen : 7 ≤ (b :: s).length := by
              have hle := ((isCharset_word_iff hsp hcons).mp hcs).length_le
              rwa [foldCase, List.length_map] at hle
            rw [if_pos hcs, ← List.cons_append, List.drop_append_of_le_length hlen]
            exact Or.inl ⟨Or.inl ⟨rfl, hcs⟩, _, fun h => hs (List.mem_of_mem_drop h), rfl⟩
          · rw [if_neg hcs, stops_word_cons hsp hcs first]
            exact ih true hs'

/-- On a memory that ends with the terminator, the parser is defined if and only if the
loop over the sections ends within the value. -/
theorem parse_terminated {value : Str} (hv : 0 ∉ value) :
    (∃ r m, parse (value ++ [0]) = some (r, m)) ↔ Stops false (sections value) := by
  obtain ⟨type, htype⟩ := typeLoop_terminated [] value hv
  have hbehind : 0 ∉ behindType value := fun h =>
    hv ((List.dropWhile_sublist _).subset (List.mem_of_mem_tail h))
  constructor
  · rintro ⟨r, m, hr⟩
    obtain ⟨type', m₁, htype', hr⟩ := bind_eq_some.mp hr
    cases htype.symm.trans htype'
    obtain ⟨_, m₂, hloop, -⟩ := bind_eq_some.mp hr
    rcases sectionLoop_terminated false _ hbehind with ⟨hstops, -⟩ | ⟨-, hnone⟩
    · exact hstops
    · rw [hnone] at hloop
      cases hloop
  · intro hstops
    rcases sectionLoop_terminated false _ hbehind with ⟨-, u, hu, hloop⟩ | ⟨hn, -⟩
    · obtain ⟨charset, u', -, hvalue⟩ := within_charsetValue u hu
      refine ⟨(type, charset), u' ++ [0], bind_eq_some.mpr ⟨type, _, htype, ?_⟩⟩
      refine bind_eq_some.mpr ⟨(), _, hloop, ?_⟩
      exact bind_eq_some.mpr ⟨charset, _, hvalue, rfl⟩
    · exact absurd hstops hn

end ContentType

open ContentType in
/-- The parser reads nothing behind the terminator, and its result depends on the value
alone, if and only if some section behind the type starts with the word charset or the
last section is blank. -/
theorem parseContentType_within_iff (value : CString) :
    (∃ r, ∀ rest, parseContentType (value.memory rest) = some r) ↔
      (∃ sect ∈ sections value.1, IsCharset sect) ∨ ∃ last ∈ (sections value.1).getLast?, IsBlank last := by
  rw [← stops_iff, ← parse_terminated value.2]
  constructor
  · rintro ⟨r, hr⟩
    obtain ⟨⟨r', m⟩, hm, -⟩ := Option.map_eq_some_iff.mp (hr [])
    exact ⟨r', m, hm⟩
  · rintro ⟨r, m, hm⟩
    refine ⟨r, fun rest => ?_⟩
    have := stable_parse _ r m rest hm
    rw [List.append_assoc, List.singleton_append] at this
    rw [parseContentType, CString.memory, this]
    rfl

theorem multipart_not_within : ¬ ∀ value : CString, ∃ r, ∀ rest,
    parseContentType (value.memory rest) = some r := by
  intro h
  obtain ⟨r, hr⟩ := h ⟨lit "multipart/mixed; boundary=x", by decide⟩
  have hnone : parseContentType (lit "multipart/mixed; boundary=x" ++ [0]) = none := by decide
  exact absurd ((hr []).symm.trans hnone) (by simp)

end Trequests
