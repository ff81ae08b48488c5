import Trequests.ContentType

/-! What `treq_ParseContentType` makes of a header value that has a charset section: the
type, other sections, and the section with the charset behind them. -/

namespace Trequests

/-! ### The buffers -/

/-- A buffer holds the first bytes of what is pushed. -/
theorem foldl_pushLower {size : ℕ} {buf : Str} (h : buf.length ≤ size) (s : Str) :
    s.foldl (pushLower size) buf = (buf ++ foldCase s).take size := by
  induction s generalizing buf with
  | nil => rw [foldCase, List.map_nil, List.append_nil, List.take_of_length_le h, List.foldl_nil]
  | cons b s ih =>
    rw [List.foldl_cons, pushLower]
    split_ifs with hlt
    · have hlen : (buf ++ [toLower b]).length ≤ size := by
        rw [List.length_append]
        exact hlt
      rw [ih hlen, List.append_assoc]
      rfl
    · -- the buffer is full
      have hfull : size ≤ buf.length := Nat.le_of_not_lt hlt
      rw [ih h, List.take_append_of_le_length hfull, List.take_append_of_le_length hfull]

namespace ContentType
open Scan

theorem isSpace_ne_zero {b : UInt8} (h : isSpace b = true) : b ≠ 0 := by
  rintro rfl
  cases h

theorem typeLoop_append {type : Str} (hsemi : 59 ∉ type) (hzero : 0 ∉ type) (u : Str) :
    typeLoop (type ++ 59 :: u) =
      some ((foldCase (type.filter fun b => ¬ isSpace b)).take 128, u) := by
  have hnext : ∀ buf : Str, ∀ b ∈ type,
      (if b = 0 then Next.stay buf
        else if isSpace b then .next buf
        else if b = 59 then .leave buf
        else .next (pushLower 128 buf b)) =
      .next (if ¬ isSpace b then pushLower 128 buf b else buf) := by
    intro buf b hb
    have hb0 : b ≠ 0 := fun h => hzero (h ▸ hb)
    have hb59 : b ≠ 59 := fun h => hsemi (h ▸ hb)
    rw [if_neg hb0, if_neg hb59]
    by_cases hsp : isSpace b = true <;> simp [hsp]
  rw [typeLoop, loop_append hnext, ← List.nil_append (foldCase _), ← foldl_pushLower (Nat.zero_le _),
    List.foldl_filter]
  simp only [decide_eq_true_eq]
  rfl

/-! ### The sections -/

theorem sectionLoop_rest {s : Str} (hsemi : 59 ∉ s) (hzero : 0 ∉ s) (u : Str) :
    sectionLoop true (s ++ 59 :: u) = sectionLoop false u := by
  induction s with
  | nil => exact sectionLoop_semicolon true u
  | cons b s ih =>
    rw [List.cons_append, sectionLoop_inside (fun h => hzero (h ▸ List.mem_cons_self))
      fun h => hsemi (h ▸ List.mem_cons_self)]
    exact ih (fun h => hsemi (List.mem_cons_of_mem b h)) fun h => hzero (List.mem_cons_of_mem b h)

/-- The loop passes over a section with another name. -/
theorem sectionLoop_skip {s : Str} (hsemi : 59 ∉ s) (hzero : 0 ∉ s) (hcs : ¬ IsCharset s)
    (u : Str) : sectionLoop false (s ++ 59 :: u) = sectionLoop false u := by
  induction s with
  | nil => exact sectionLoop_semicolon false u
  | cons b s ih =>
    have hb : b ≠ 0 := fun h => hzero (h ▸ List.mem_cons_self)
    have hsemi' : 59 ∉ s := fun h => hsemi (List.mem_cons_of_mem b h)
    have hzero' : 0 ∉ s := fun h => hzero (List.mem_cons_of_mem b h)
    by_cases hsp : isSpace b = true
    · rw [List.cons_append, sectionLoop_space hb hsp]
      exact ih hsemi' hzero' fun h => hcs ((isCharset_cons hsp).mpr h)
    · have hb59 : b ≠ 59 := fun h => hsemi (h ▸ List.mem_cons_self)
      have hword : (lit "charset").isPrefixOf (foldCase (b :: s)) = false := by
        rw [IsCharset, List.dropWhile_cons, if_neg hsp] at hcs
        rw [← Bool.not_eq_true, List.isPrefixOf_iff_prefix]
        exact hcs
      rw [List.cons_append, sectionLoop, if_neg hb, if_neg (by simp [hsp, hb59]),
        ← List.cons_append, strnequal_stop (by decide), hword]
      exact sectionLoop_rest hsemi' hzero' u

theorem strnequal_foldCase (s : Str) : strnequal s (foldCase s) = some true := by
  induction s with
  | nil => rfl
  | cons b s ih => exact (if_pos rfl).trans ih

/-- The loop stops behind the word charset. -/
theorem sectionLoop_name {blank name : Str} (hblank : IsBlank blank)
    (hname : foldCase name = lit "charset") (u : Str) :
    sectionLoop false (blank ++ (name ++ u)) = some ((), u) := by
  induction blank with
  | nil =>
    have hword := strnequal_append (strnequal_foldCase name) u
    have hlen : name.length = 7 := by rw [← List.length_map (f := toLower)]; exact congrArg _ hname
    obtain ⟨b, name, rfl⟩ := List.exists_cons_of_ne_nil (List.ne_nil_of_length_eq_add_one hlen)
    have hb : toLower b = 99 := (List.cons.inj hname).1
    have hspace : ¬ (isSpace b = true ∨ b = 59) := by grind [toLower, isSpace]
    have hzero : b ≠ 0 := by rintro rfl; cases hb
    rw [hname] at hword
    rw [List.nil_append, List.cons_append, sectionLoop, if_neg hzero, if_neg hspace,
      ← List.cons_append, hword]
    simp only
    rw [← hlen, List.drop_left]
  | cons b blank ih =>
    have hsp := hblank b List.mem_cons_self
    rw [List.cons_append, sectionLoop_space (isSpace_ne_zero hsp) hsp]
    exact ih fun c hc => hblank c (List.mem_cons_of_mem b hc)

/-! ### The value -/

theorem skipSpaces_append {blank : Str} (hblank : IsBlank blank) {c : UInt8}
    (hc : isSpace c = false) (u : Str) : skipSpaces (blank ++ c :: u) = some ((), c :: u) := by
  have hnext : ∀ _ : Unit, ∀ b ∈ blank,
      (if b ≠ 0 ∧ isSpace b then Next.next () else .stay ()) = .next () := fun _ b hb =>
    if_pos ⟨isSpace_ne_zero (hblank b hb), hblank b hb⟩
  have hstop : ¬ (c ≠ 0 ∧ isSpace c = true) := by simp [hc]
  rw [skipSpaces, loop_append hnext, loop, if_neg hstop]

/-- The bytes at which the value ends. -/
def EndsValue (isQuoted : Bool) (b : UInt8) : Prop :=
  b = 0 ∨ if isQuoted then b = 34 else b = 59 ∨ isSpace b = true

theorem valueLoop_append {isQuoted : Bool} {v : Str} (hv : ∀ b ∈ v, ¬ EndsValue isQuoted b)
    {c : UInt8} (hc : EndsValue isQuoted c) (u : Str) :
    valueLoop isQuoted (v ++ c :: u) = some ((foldCase v).take 32, c :: u) := by
  have hnext : ∀ buf : Str, ∀ b ∈ v,
      (if b = 0 then Next.stay buf
        else if if isQuoted then b = 34 else b = 59 ∨ isSpace b then .stay buf
        else .next (pushLower 32 buf b)) = .next (pushLower 32 buf b) := by
    intro buf b hb
    obtain ⟨hzero, hend⟩ := not_or.mp (hv b hb)
    rw [if_neg hzero, if_neg hend]
  rw [valueLoop, loop_append hnext, foldl_pushLower (Nat.zero_le _), List.nil_append, loop]
  rcases hc with rfl | hc
  · rfl
  · split_ifs <;> rfl

theorem charsetValue_append {gap pad : Str} (hgap : IsBlank gap) (hpad : IsBlank pad) {c : UInt8}
    (hc : isSpace c = false) (u : Str) :
    charsetValue (gap ++ 61 :: (pad ++ c :: u)) =
      if c = 34 then valueLoop true u else valueLoop false (c :: u) := by
  rw [charsetValue, bind_of_eq (skipSpaces_append hgap (by decide) _)]
  have haccept : accept (61 : UInt8) (61 :: (pad ++ c :: u)) = some (true, pad ++ c :: u) := rfl
  rw [bind_of_eq haccept, if_pos rfl, bind_of_eq (skipSpaces_append hpad hc u)]
  by_cases hquote : c = 34
  · have : accept (34 : UInt8) (c :: u) = some (true, u) := if_pos hquote
    rw [bind_of_eq this, if_pos hquote]
  · have : accept (34 : UInt8) (c :: u) = some (false, c :: u) := if_neg hquote
    rw [bind_of_eq this, if_neg hquote]

end ContentType

/-! ### The whole value -/

open ContentType Scan

/-- The parts of a header value with a charset section. -/
structure ContentTypeParts where
  type : Str
  others : List Str
  /-- The whitespace before the name, before the equals sign and behind it. -/
  lead : Str
  gap : Str
  pad : Str
  name : Str
  isQuoted : Bool
  value : Str
  tail : Str

namespace ContentTypeParts
variable (t : ContentTypeParts)

def valueText : Str := if t.isQuoted then 34 :: t.value ++ [34] else t.value

/-- The section with the charset and what follows. -/
def charsetText : Str :=
  t.lead ++ (t.name ++ (t.gap ++ 61 :: (t.pad ++ (t.valueText ++ t.tail))))

def text : Str := t.type ++ 59 :: (t.others.flatMap (· ++ [59]) ++ t.charsetText)

end ContentTypeParts

/-- A header value with a charset section. -/
structure ContentTypeText extends ContentTypeParts where
  terminated : 0 ∉ toContentTypeParts.text
  type_section : 59 ∉ type
  others_sections : ∀ s ∈ others, 59 ∉ s ∧ ¬ IsCharset s
  blank_lead : IsBlank lead
  blank_gap : IsBlank gap
  blank_pad : IsBlank pad
  name_charset : foldCase name = lit "charset"
  value_quoted : isQuoted = true → 34 ∉ value
  value_unquoted : isQuoted = false →
    value ≠ [] ∧ value.head? ≠ some 34 ∧ (∀ b ∈ value, b ≠ 59 ∧ isSpace b = false) ∧
      ∀ b ∈ tail.head?, b = 59 ∨ isSpace b = true

namespace ContentTypeText
variable (t : ContentTypeText)

/-- The loop passes over the other sections. -/
theorem sectionLoop_others {others : List Str} (h : ∀ s ∈ others, 59 ∉ s ∧ ¬ IsCharset s)
    (hzero : ∀ s ∈ others, 0 ∉ s) (u : Str) :
    sectionLoop false (others.flatMap (· ++ [59]) ++ u) = sectionLoop false u := by
  induction others with
  | nil => rfl
  | cons s others ih =>
    obtain ⟨hsemi, hcs⟩ := h s List.mem_cons_self
    rw [List.flatMap_cons, List.append_assoc, List.append_assoc, List.singleton_append,
      sectionLoop_skip hsemi (hzero s List.mem_cons_self) hcs]
    exact ih (fun s' hs' => h s' (List.mem_cons_of_mem s hs'))
      fun s' hs' => hzero s' (List.mem_cons_of_mem s hs')

theorem value_terminated : 0 ∉ t.value := by
  intro h
  apply t.terminated
  cases hq : t.isQuoted <;>
    simp [ContentTypeParts.text, ContentTypeParts.charsetText, ContentTypeParts.valueText, hq, h]

theorem charsetValue_text (rest : Str) :
    ∃ m, charsetValue (t.gap ++ 61 :: (t.pad ++ (t.valueText ++ (t.tail ++ 0 :: rest)))) =
      some ((foldCase t.value).take 32, m) := by
  have hzero : ∀ b ∈ t.value, b ≠ 0 := fun b hb h => t.value_terminated (h ▸ hb)
  cases hq : t.isQuoted with
  | true =>
    have htext : t.valueText ++ (t.tail ++ 0 :: rest) =
        34 :: (t.value ++ 34 :: (t.tail ++ 0 :: rest)) := by
      simp [ContentTypeParts.valueText, hq]
    have hv : ∀ b ∈ t.value, ¬ EndsValue true b := by
      rintro b hb (h | h)
      · exact hzero b hb h
      · exact t.value_quoted hq (h ▸ hb)
    rw [htext, charsetValue_append t.blank_gap t.blank_pad (by decide), if_pos rfl,
      valueLoop_append hv (Or.inr rfl)]
    exact ⟨_, rfl⟩
  | false =>
    obtain ⟨hne, hfirst, hplain, htail⟩ := t.value_unquoted hq
    obtain ⟨c, v, hcv⟩ := List.exists_cons_of_ne_nil hne
    have hc : c ≠ 34 := fun h => hfirst (by rw [hcv, h]; rfl)
    have hsp : isSpace c = false := (hplain c (hcv ▸ List.mem_cons_self)).2
    have hv : ∀ b ∈ t.value, ¬ EndsValue false b := by
      rintro b hb (h | h | h)
      · exact hzero b hb h
      · exact (hplain b hb).1 h
      · exact absurd ((hplain b hb).2.symm.trans h) (by decide)
    -- the value ends at the first byte of the tail or at the terminator
    obtain ⟨e, u, htext, he⟩ : ∃ e u, t.tail ++ 0 :: rest = e :: u ∧ EndsValue false e := by
      cases htl : t.tail with
      | nil => exact ⟨0, rest, rfl, Or.inl rfl⟩
      | cons e u => exact ⟨e, u ++ 0 :: rest, rfl, Or.inr (htail e (by rw [htl]; rfl))⟩
    have hvalue : t.valueText ++ (t.tail ++ 0 :: rest) = c :: (v ++ e :: u) := by
      simp [ContentTypeParts.valueText, hq, hcv, htext]
    have hloop := valueLoop_append hv he u
    rw [hcv, List.cons_append] at hloop
    rw [hvalue, charsetValue_append t.blank_gap t.blank_pad hsp, if_neg hc, hloop, hcv]
    exact ⟨_, rfl⟩

/-- The parser finds the type and the charset, whatever the other sections are, the
whitespace and what follows. -/
theorem parseContentType_text (rest : Str) :
    parseContentType (t.text ++ 0 :: rest) =
      some ((foldCase (t.type.filter fun b => ¬ isSpace b)).take 128,
        (foldCase t.value).take 32) := by
  have htype : 0 ∉ t.type := fun h => t.terminated (List.mem_append_left _ h)
  have hothers : ∀ s ∈ t.others, 0 ∉ s := by
    intro s hs h
    apply t.terminated
    simp only [ContentTypeParts.text, List.mem_append, List.mem_cons, List.mem_flatMap]
    exact Or.inr (Or.inr (Or.inl ⟨s, hs, Or.inl h⟩))
  obtain ⟨m, hvalue⟩ := t.charsetValue_text rest
  rw [parseContentType, ContentTypeParts.text, ContentTypeParts.charsetText, parse]
  simp only [List.append_assoc, List.cons_append]
  rw [bind_of_eq (typeLoop_append t.type_section htype _)]
  have hsection := sectionLoop_others t.others_sections hothers
    (t.lead ++ (t.name ++ (t.gap ++ 61 :: (t.pad ++ (t.valueText ++ (t.tail ++ 0 :: rest))))))
  rw [sectionLoop_name t.blank_lead t.name_charset] at hsection
  rw [bind_of_eq hsection, bind_of_eq hvalue]
  rfl

end ContentTypeText

/-- `text/html; ;q=1; CharSet = "UTF-8" x` -/
def htmlText : ContentTypeText where
  type := lit "Text/ html"
  others := [lit " ", lit "q=1"]
  lead := lit " "
  gap := lit " "
  pad := lit " "
  name := lit "CharSet"
  isQuoted := true
  value := lit "UTF-8"
  tail := lit " x"
  terminated := by decide +kernel
  type_section := by decide
  others_sections := by decide
  blank_lead := by decide +kernel
  blank_gap := by decide +kernel
  blank_pad := by decide +kernel
  name_charset := by decide
  value_quoted := by decide
  value_unquoted := by decide

theorem parseContentType_htmlText : parseContentType (htmlText.text ++ [0]) =
    some (lit "text/html", lit "utf-8") := htmlText.parseContentType_text []

end Trequests
