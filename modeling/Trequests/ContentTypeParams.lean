import Mathlib.Data.List.TakeWhile
import Trequests.ContentTypeText

/-! Parameters between the type and the charset of a header value. The parser skips from
one semicolon to the next and looks for seven letters behind each, so what it finds agrees
with the grammar unless the name of a parameter goes on behind these letters, or a quoted
value has them behind a semicolon. -/

namespace Trequests

/-! ### The grammar -/

/-- The bytes of a token. -/
def isTchar (b : UInt8) : Bool :=
  b = 33 ∨ 35 ≤ b ∧ b ≤ 39 ∨ 42 ≤ b ∧ b ≤ 43 ∨ 45 ≤ b ∧ b ≤ 46 ∨ 48 ≤ b ∧ b ≤ 57 ∨
    65 ≤ b ∧ b ≤ 90 ∨ 94 ≤ b ∧ b ≤ 122 ∨ b = 124 ∨ b = 126

/-- The bytes that stand for themselves in a quoted string. -/
def isQdtext (b : UInt8) : Bool :=
  b = 9 ∨ 32 ≤ b ∧ b ≤ 33 ∨ 35 ≤ b ∧ b ≤ 91 ∨ 93 ≤ b ∧ b ≤ 126 ∨ 128 ≤ b

/-- The bytes that may follow a backslash. -/
def isQuotable (b : UInt8) : Bool := b = 9 ∨ 32 ≤ b ∧ b ≤ 126 ∨ 128 ≤ b

structure IsToken (s : Str) : Prop where
  ne_nil : s ≠ []
  tchars : ∀ b ∈ s, isTchar b = true

/-- What stands between the quotes of a quoted string. -/
inductive QuotedText : Str → Prop where
  | nil : QuotedText []
  | text {b : UInt8} {s : Str} (hb : isQdtext b = true) (h : QuotedText s) : QuotedText (b :: s)
  | pair {b : UInt8} {s : Str} (hb : isQuotable b = true) (h : QuotedText s) :
    QuotedText (92 :: b :: s)

inductive IsParamValue : Str → Prop where
  | token {s : Str} (h : IsToken s) : IsParamValue s
  | quoted {s : Str} (h : QuotedText s) : IsParamValue (34 :: (s ++ [34]))

/-- Optional whitespace of the grammar. -/
def IsOws (s : Str) : Prop := ∀ b ∈ s, b = 32 ∨ b = 9

/-- A parameter other than the charset, with the whitespace around it. -/
structure Parameter where
  before : Str
  name : Str
  value : Str
  behind : Str
  ows_before : IsOws before
  ows_behind : IsOws behind
  name_token : IsToken name
  name_other : foldCase name ≠ lit "charset"
  value_wf : IsParamValue value

namespace Parameter

/-- The section of the parameter, up to the next semicolon outside of quotes. -/
def sect (p : Parameter) : Str := p.before ++ (p.name ++ 61 :: (p.value ++ p.behind))

def text (p : Parameter) : Str := 59 :: p.sect

/-- The name does not begin with the word charset, and no semicolon of the value has it
behind it. -/
def Harmless (p : Parameter) : Prop :=
  ¬ lit "charset" <+: foldCase p.name ∧
    ∀ piece ∈ (p.value.splitOn 59).tail, ¬ ContentType.IsCharset piece

instance (p : Parameter) : Decidable p.Harmless := inferInstanceAs (Decidable (_ ∧ _))

end Parameter

/-- The type of a header value: what stands before the first semicolon. -/
structure TypeText where
  text : Str
  no_semicolon : 59 ∉ text
  terminated : 0 ∉ text

/-- The charset that the parser finds. -/
def charsetOf (data : Str) : Option Str := (parseContentType data).map Prod.snd

/-! ### Sections of a text -/

namespace ContentType

theorem prefix_append_iff {part s t : Str} (ht : ∀ b ∈ t.head?, b ∉ part) :
    part <+: s ++ t ↔ part <+: s := by
  refine ⟨fun h => ?_, fun h => h.trans (List.prefix_append s t)⟩
  induction part generalizing s with
  | nil => exact List.nil_prefix
  | cons c part ih =>
    cases s with
    | nil =>
      cases t with
      | nil => exact h
      | cons b t =>
        have hcb : c = b := (List.cons_prefix_cons.mp h).1
        exact absurd (hcb ▸ List.mem_cons_self) (ht b rfl)
    | cons b s =>
      obtain ⟨hcb, h⟩ := List.cons_prefix_cons.mp h
      exact List.cons_prefix_cons.mpr
        ⟨hcb, ih (fun b' hb' hmem => ht b' hb' (List.mem_cons_of_mem c hmem)) h⟩

theorem isCharset_blank_append {blank : Str} (h : IsBlank blank) (s : Str) :
    IsCharset (blank ++ s) ↔ IsCharset s := by
  induction blank with
  | nil => rfl
  | cons b blank ih =>
    rw [List.cons_append, isCharset_cons (h b List.mem_cons_self)]
    exact ih fun c hc => h c (List.mem_cons_of_mem b hc)

theorem isCharset_append_blank (s : Str) {blank : Str} (h : IsBlank blank) :
    IsCharset (s ++ blank) ↔ IsCharset s := by
  rw [IsCharset, IsCharset, List.dropWhile_append]
  split_ifs with hs
  · rw [List.isEmpty_iff.mp hs, List.dropWhile_eq_nil_iff.mpr h]
  · rw [foldCase, List.map_append]
    apply prefix_append_iff
    intro b hb
    obtain ⟨c, hc, rfl⟩ := Option.map_eq_some_iff.mp ((List.head?_map ..).symm.trans hb)
    have hsp := h c (List.mem_of_mem_head? hc)
    have hlower : toLower c = c := by grind [toLower, isSpace]
    rw [hlower]
    intro hmem
    have hnot : ∀ d ∈ lit "charset", isSpace d = false := by decide +kernel
    rw [hnot c hmem] at hsp
    cases hsp

/-- No section of the text starts with the word charset. -/
def NoCharset (s : Str) : Prop := ∀ sect ∈ s.splitOn 59, ¬ IsCharset sect

theorem noCharset_of_notMem {s : Str} (h : 59 ∉ s) : NoCharset s ↔ ¬ IsCharset s := by
  rw [NoCharset, List.splitOn_eq_singleton h]
  simp

theorem noCharset_append_cons {s : Str} (h : 59 ∉ s) (t : Str) :
    NoCharset (s ++ 59 :: t) ↔ ¬ IsCharset s ∧ NoCharset t := by
  rw [NoCharset, List.splitOn_append_cons_self_of_not_mem h]
  simp [NoCharset]

/-- Whitespace at the end changes nothing. -/
theorem noCharset_append_blank (s : Str) {blank : Str} (h : IsBlank blank) :
    NoCharset (s ++ blank) ↔ NoCharset s := by
  have hblank : 59 ∉ blank := fun hm => absurd (h 59 hm) (by decide)
  -- the induction needs what stands before in the same section
  suffices ∀ w : Str, 59 ∉ w → (NoCharset (w ++ (s ++ blank)) ↔ NoCharset (w ++ s)) from
    this [] List.not_mem_nil
  induction s with
  | nil =>
    intro w hw
    have hws : 59 ∉ w ++ blank := List.not_mem_append hw hblank
    rw [List.nil_append, List.append_nil, noCharset_of_notMem hws, noCharset_of_notMem hw,
      isCharset_append_blank w h]
  | cons b s ih =>
    intro w hw
    by_cases hb : b = 59
    · subst hb
      rw [List.cons_append, noCharset_append_cons hw, noCharset_append_cons hw]
      exact and_congr_right fun _ => ih [] List.not_mem_nil
    · have hw' : 59 ∉ w ++ [b] :=
        List.not_mem_append hw fun h => hb (List.mem_singleton.mp h).symm
      have := ih (w ++ [b]) hw'
      rwa [List.append_assoc, List.append_assoc] at this

theorem noCharset_append {w : Str} (hw : 59 ∉ w) (s : Str) :
    NoCharset (w ++ s) ↔ ¬ IsCharset (w ++ s.takeWhile (· ≠ 59)) ∧
      ∀ piece ∈ (s.splitOn 59).tail, ¬ IsCharset piece := by
  by_cases hs : 59 ∈ s
  · obtain ⟨s₁, s₂, rfl, hs₁⟩ := List.eq_append_cons_of_mem hs
    have htake : (s₁ ++ 59 :: s₂).takeWhile (· ≠ 59) = s₁ := by
      rw [List.takeWhile_append_of_pos (by
        intro b hb
        simpa using fun h : b = 59 => hs₁ (h ▸ hb))]
      simp
    rw [← List.append_assoc, noCharset_append_cons (List.not_mem_append hw hs₁), htake,
      List.splitOn_append_cons_self_of_not_mem hs₁]
    rfl
  · have htake : s.takeWhile (· ≠ 59) = s :=
      List.takeWhile_eq_self_iff.mpr fun b hb => by simpa using fun h : b = 59 => hs (h ▸ hb)
    rw [noCharset_of_notMem (List.not_mem_append hw hs), htake, List.splitOn_eq_singleton hs]
    simp

end ContentType

open ContentType Scan

/-! ### The sections of a parameter -/

theorem IsOws.isBlank {s : Str} (h : IsOws s) : IsBlank s := by
  intro b hb
  rcases h b hb with rfl | rfl <;> rfl

theorem IsToken.not_mem {s : Str} (h : IsToken s) {b : UInt8} (hb : isTchar b = false) : b ∉ s := by
  intro hm
  rw [h.tchars b hm] at hb
  cases hb

theorem QuotedText.not_mem_zero {s : Str} (h : QuotedText s) : 0 ∉ s := by
  induction h with
  | nil => exact List.not_mem_nil
  | text hb _ ih =>
    refine List.not_mem_cons_of_ne_of_not_mem ?_ ih
    rintro rfl
    cases hb
  | pair hb _ ih =>
    refine List.not_mem_cons_of_ne_of_not_mem (by decide) (List.not_mem_cons_of_ne_of_not_mem ?_ ih)
    rintro rfl
    cases hb

theorem IsParamValue.not_mem_zero {s : Str} (h : IsParamValue s) : 0 ∉ s := by
  cases h with
  | token h => exact h.not_mem rfl
  | quoted h => simpa using h.not_mem_zero

namespace Parameter
variable (p : Parameter)

theorem not_mem_zero_sect : 0 ∉ p.sect := by
  have hblank : ∀ s, IsOws s → 0 ∉ s := fun s hs hm => by
    rcases hs 0 hm with h | h <;> cases h
  have hname : 0 ∉ p.name := p.name_token.not_mem rfl
  simp [sect, hblank _ p.ows_before, hblank _ p.ows_behind, hname, p.value_wf.not_mem_zero]

/-- The word charset starts a section of a parameter, unless the parameter is harmless. -/
theorem noCharset_sect_iff : NoCharset p.sect ↔ p.Harmless := by
  have hblank := p.ows_before.isBlank
  have hsemi : 59 ∉ p.before ++ (p.name ++ [61]) := by
    have hbefore : 59 ∉ p.before := fun hm => absurd (hblank 59 hm) (by decide)
    have hname : 59 ∉ p.name := p.name_token.not_mem rfl
    simp [hbefore, hname]
  have hsect : p.sect = (p.before ++ (p.name ++ [61]) ++ p.value) ++ p.behind := by
    simp [sect]
  rw [hsect, noCharset_append_blank _ p.ows_behind.isBlank, noCharset_append hsemi, Harmless,
    List.append_assoc, isCharset_blank_append hblank]
  refine and_congr_left fun _ => not_congr ?_
  -- the equals sign ends the name
  obtain ⟨b, name, hname⟩ := List.exists_cons_of_ne_nil p.name_token.ne_nil
  have hb : ¬ isSpace b = true := by
    have := p.name_token.tchars b (hname ▸ List.mem_cons_self)
    grind [isTchar, isSpace]
  rw [IsCharset, hname, List.cons_append, List.cons_append, List.dropWhile_cons, if_neg hb,
    ← List.cons_append, ← List.cons_append, List.append_assoc, foldCase, List.map_append]
  apply prefix_append_iff
  intro c hc
  cases hc
  decide

end Parameter

/-! ### The loop over the sections of a text -/

theorem sectionLoop_noCharset (s : Str) (hzero : 0 ∉ s) (h : NoCharset s) (u : Str) :
    sectionLoop false (s ++ 59 :: u) = sectionLoop false u := by
  by_cases hs : 59 ∈ s
  · obtain ⟨s₁, s₂, rfl, hs₁⟩ := List.eq_append_cons_of_mem hs
    obtain ⟨h₁, h₂⟩ := (noCharset_append_cons hs₁ s₂).mp h
    rw [List.append_assoc, List.cons_append,
      sectionLoop_skip hs₁ (fun hm => hzero (List.mem_append_left _ hm)) h₁]
    exact sectionLoop_noCharset s₂ (fun hm => hzero (by simp [hm])) h₂ u
  · exact sectionLoop_skip hs hzero ((noCharset_of_notMem hs).mp h) u
termination_by s.length

theorem exists_of_isCharset {s : Str} (h : IsCharset s) : ∃ blank name w,
    s = blank ++ (name ++ w) ∧ IsBlank blank ∧ foldCase name = lit "charset" := by
  refine ⟨s.takeWhile isSpace, (s.dropWhile isSpace).take 7, (s.dropWhile isSpace).drop 7, ?_, ?_, ?_⟩
  · rw [List.take_append_drop, List.takeWhile_append_dropWhile]
  · exact fun b hb => List.mem_takeWhile_imp hb
  · have := List.prefix_iff_eq_take.mp h
    rw [foldCase, List.map_take]
    exact this.symm

/-- The loop stops behind the first word charset that starts a section. -/
theorem sectionLoop_found (s : Str) (hzero : 0 ∉ s) (h : ¬ NoCharset s) :
    ∃ w t, 59 ∉ w ∧ ∀ u, sectionLoop false (s ++ 59 :: u) = some ((), w ++ 59 :: (t ++ u)) := by
  have hfirst : ∀ s₁, 59 ∉ s₁ → IsCharset s₁ →
      ∃ w, 59 ∉ w ∧ ∀ u, sectionLoop false (s₁ ++ u) = some ((), w ++ u) := by
    intro s₁ hs₁ hcs
    obtain ⟨blank, name, w, rfl, hblank, hname⟩ := exists_of_isCharset hcs
    refine ⟨w, fun hm => hs₁ (by simp [hm]), fun u => ?_⟩
    rw [List.append_assoc, List.append_assoc]
    exact sectionLoop_name hblank hname (w ++ u)
  by_cases hs : 59 ∈ s
  · obtain ⟨s₁, s₂, rfl, hs₁⟩ := List.eq_append_cons_of_mem hs
    by_cases hcs : IsCharset s₁
    · obtain ⟨w, hw, hloop⟩ := hfirst s₁ hs₁ hcs
      refine ⟨w, s₂ ++ [59], hw, fun u => ?_⟩
      rw [List.append_assoc, List.append_assoc, List.singleton_append]
      exact hloop _
    · have h₂ : ¬ NoCharset s₂ := fun h₂ => h ((noCharset_append_cons hs₁ s₂).mpr ⟨hcs, h₂⟩)
      obtain ⟨w, t, hw, hloop⟩ := sectionLoop_found s₂ (fun hm => hzero (by simp [hm])) h₂
      refine ⟨w, t, hw, fun u => ?_⟩
      rw [List.append_assoc, List.cons_append,
        sectionLoop_skip hs₁ (fun hm => hzero (List.mem_append_left _ hm)) hcs]
      exact hloop u
  · obtain ⟨w, hw, hloop⟩ := hfirst s hs (not_not.mp fun hcs => h ((noCharset_of_notMem hs).mpr hcs))
    exact ⟨w, [], hw, fun u => hloop _⟩
termination_by s.length

/-- A value ends at the first byte that ends it. -/
theorem valueLoop_exists {isQuoted : Bool} {m : Str} (h : ∃ b ∈ m, EndsValue isQuoted b) :
    ∃ v e u, m = v ++ e :: u ∧ (∀ b ∈ v, ¬ EndsValue isQuoted b) ∧ EndsValue isQuoted e := by
  induction m with
  | nil => simp at h
  | cons b m ih =>
    by_cases hb : EndsValue isQuoted b
    · exact ⟨[], b, m, rfl, by simp, hb⟩
    · obtain ⟨c, hc, hend⟩ := h
      have hcm : c ∈ m := (List.mem_cons.mp hc).resolve_left fun h => hb (h ▸ hend)
      obtain ⟨v, e, u, rfl, hv, he⟩ := ih ⟨c, hcm, hend⟩
      exact ⟨b :: v, e, u, rfl, List.forall_mem_cons.mpr ⟨hb, hv⟩, he⟩

/-- What is read behind the word charset is settled before the semicolon, or it is a
quoted value that goes on behind it. -/
theorem charsetValue_semicolon {w : Str} (hw : 59 ∉ w) :
    (∃ r, ∀ u, ∃ m, charsetValue (w ++ 59 :: u) = some (r, m)) ∨
      ∃ q, (∀ b ∈ q, ¬ EndsValue true b) ∧
        ∀ u, charsetValue (w ++ 59 :: u) = valueLoop true (q ++ 59 :: u) := by
  have hskip : Within 59 skipSpaces := within_skipSpaces (by decide)
  have hloop : Within 59 (valueLoop false) := Within.loop (fun buf => ⟨buf, rfl⟩) []
  have hmore : ∀ {α : Type} {p : Scan UInt8 α}, Stable p → ∀ {m : Str} {a : α} {m' : Str},
      p (m ++ [59]) = some (a, m' ++ [59]) → ∀ u, p (m ++ 59 :: u) = some (a, m' ++ 59 :: u) := by
    intro α p hp m a m' h u
    have := hp _ _ _ u h
    rwa [List.append_assoc, List.append_assoc] at this
  obtain ⟨_, w₁, hw₁, h₁⟩ := hskip w hw
  obtain ⟨found, w₂, hw₂, h₂⟩ := (Within.accept (c := (61 : UInt8)) (by decide)) w₁ hw₁
  have h₁' := hmore stable_skipSpaces h₁
  have h₂' := hmore (Stable.accept 61) h₂
  cases found with
  | false =>
    refine Or.inl ⟨[], fun u => ⟨w₂ ++ 59 :: u, ?_⟩⟩
    rw [charsetValue, bind_of_eq (h₁' u), bind_of_eq (h₂' u)]
    rfl
  | true =>
    obtain ⟨_, w₃, hw₃, h₃⟩ := hskip w₂ hw₂
    obtain ⟨isQuoted, w₄, hw₄, h₄⟩ := (Within.accept (c := (34 : UInt8)) (by decide)) w₃ hw₃
    have h₃' := hmore stable_skipSpaces h₃
    have h₄' := hmore (Stable.accept 34) h₄
    have hvalue : ∀ u, charsetValue (w ++ 59 :: u) = valueLoop isQuoted (w₄ ++ 59 :: u) := by
      intro u
      rw [charsetValue, bind_of_eq (h₁' u), bind_of_eq (h₂' u), if_pos rfl, bind_of_eq (h₃' u),
        bind_of_eq (h₄' u)]
    cases isQuoted with
    | false =>
      obtain ⟨r, w₅, -, h₅⟩ := hloop w₄ hw₄
      exact Or.inl ⟨r, fun u => ⟨_, (hvalue u).trans (hmore (stable_valueLoop false) h₅ u)⟩⟩
    | true =>
      by_cases hend : ∃ b ∈ w₄, EndsValue true b
      · obtain ⟨v, e, x, rfl, hv, he⟩ := valueLoop_exists hend
        refine Or.inl ⟨(foldCase v).take 32, fun u => ⟨e :: (x ++ 59 :: u), ?_⟩⟩
        rw [hvalue, List.append_assoc]
        exact valueLoop_append hv he _
      · exact Or.inr ⟨w₄, fun b hb h => hend ⟨b, hb, h⟩, hvalue⟩

/-! ### The whole value -/

theorem charsetOf_text (type : TypeText) (u : Str) : charsetOf (type.text ++ 59 :: u) =
    (sectionLoop false u).bind fun x => (charsetValue x.2).map Prod.fst := by
  rw [charsetOf, parseContentType, parse,
    bind_of_eq (typeLoop_append type.no_semicolon type.terminated u)]
  change Option.map Prod.snd (Option.map Prod.fst ((sectionLoop false u).bind fun x =>
    (charsetValue x.2).bind fun y => some ((_, y.1), y.2))) = _
  cases sectionLoop false u with
  | none => rfl
  | some x => rw [Option.bind_some, Option.bind_some]; cases charsetValue x.2 <;> rfl

theorem params_text (ps : List Parameter) (u : Str) :
    ps.flatMap Parameter.text ++ 59 :: u = 59 :: (ps.flatMap (fun p => p.sect ++ [59]) ++ u) := by
  induction ps with
  | nil => rfl
  | cons p ps ih =>
    rw [List.flatMap_cons, List.append_assoc, ih, List.flatMap_cons]
    simp [Parameter.text]

theorem sectionLoop_params {ps : List Parameter} (h : ∀ p ∈ ps, p.Harmless) (u : Str) :
    sectionLoop false (ps.flatMap (fun p => p.sect ++ [59]) ++ u) = sectionLoop false u := by
  induction ps with
  | nil => rfl
  | cons p ps ih =>
    have hp := p.noCharset_sect_iff.mpr (h p List.mem_cons_self)
    rw [List.flatMap_cons, List.append_assoc, List.append_assoc, List.singleton_append,
      sectionLoop_noCharset _ p.not_mem_zero_sect hp]
    exact ih fun q hq => h q (List.mem_cons_of_mem p hq)

/-- The charset in a value with parameters between the type and the charset. -/
def charsetBehind (type : TypeText) (ps : List Parameter) (v rest : Str) : Option Str :=
  charsetOf (type.text ++ ps.flatMap Parameter.text ++ lit "; charset=" ++ v ++ 0 :: rest)

theorem charsetBehind_eq (type : TypeText) (ps : List Parameter) (v rest : Str) :
    charsetBehind type ps v rest =
      (sectionLoop false (ps.flatMap (fun p => p.sect ++ [59]) ++
        (lit " charset=" ++ (v ++ 0 :: rest)))).bind fun x => (charsetValue x.2).map Prod.fst := by
  rw [← charsetOf_text type, ← params_text, charsetBehind]
  simp only [List.append_assoc]
  rfl

/-- A charset of one letter is found where no parameter stands before it. -/
theorem charsetBehind_nil (type : TypeText) {c : UInt8} (hc : c = 97 ∨ c = 98) :
    charsetBehind type [] [c] [] = some [c] := by
  rw [charsetBehind_eq]
  rcases hc with rfl | rfl <;> decide

/-- With a parameter that is not harmless the charset found is the same for all charsets,
or it is none of one letter. -/
theorem charsetBehind_of_not_harmless (type : TypeText) {ps : List Parameter}
    (h : ∃ p ∈ ps, ¬ p.Harmless) :
    (∃ r, ∀ v, charsetBehind type ps v [] = some r) ∨
      ∀ v c, toLower c ≠ 59 → charsetBehind type ps v [] ≠ some [toLower c] := by
  -- the first of them
  obtain ⟨qs, p, rs, rfl, hqs, hp⟩ : ∃ qs p rs, ps = qs ++ p :: rs ∧
      (∀ q ∈ qs, q.Harmless) ∧ ¬ p.Harmless := by
    obtain ⟨p₀, hp₀, hharm⟩ := h
    obtain ⟨p, qs, rs, hqs, hp, hps, -⟩ := List.exists_of_eraseP (p := fun p => ¬ p.Harmless) hp₀
      (by simpa using hharm)
    exact ⟨qs, p, rs, hps, fun q hq => by simpa using hqs q hq, by simpa using hp⟩
  obtain ⟨w, t, hw, hloop⟩ := sectionLoop_found p.sect p.not_mem_zero_sect
    (fun hno => hp (p.noCharset_sect_iff.mp hno))
  have hvalue : ∀ v, ∃ u, 0 ∈ u ∧ charsetBehind type (qs ++ p :: rs) v [] =
      (charsetValue (w ++ 59 :: u)).map Prod.fst := by
    intro v
    refine ⟨t ++ (rs.flatMap (fun p => p.sect ++ [59]) ++ (lit " charset=" ++ (v ++ [0]))),
      by simp, ?_⟩
    rw [charsetBehind_eq, List.flatMap_append, List.append_assoc, sectionLoop_params hqs,
      List.flatMap_cons, List.append_assoc, List.append_assoc, List.singleton_append, hloop]
    rfl
  rcases charsetValue_semicolon hw with ⟨r, hr⟩ | ⟨q, hq, hquoted⟩
  · refine Or.inl ⟨r, fun v => ?_⟩
    obtain ⟨u, -, hu⟩ := hvalue v
    obtain ⟨m, hm⟩ := hr u
    rw [hu, hm]
    rfl
  · refine Or.inr fun v c hc => ?_
    obtain ⟨u, hzero, hu⟩ := hvalue v
    obtain ⟨x, e, y, rfl, hx, he⟩ := valueLoop_exists ⟨0, hzero, Or.inl rfl⟩
    have hends : ∀ b ∈ q ++ 59 :: x, ¬ EndsValue true b := by
      intro b hb
      rcases List.mem_append.mp hb with hb | hb
      · exact hq b hb
      · rcases List.mem_cons.mp hb with rfl | hb
        · rintro (h | h) <;> cases h
        · exact hx b hb
    have hread := valueLoop_append hends he y
    rw [List.append_assoc, List.cons_append] at hread
    rw [hu, hquoted, hread]
    intro heq
    -- the value read has the semicolon in it
    have hval : (foldCase (q ++ 59 :: x)).take 32 = [toLower c] := Option.some.inj heq
    have hlen := congrArg List.length hval
    simp only [foldCase, List.length_take, List.length_map, List.length_append, List.length_cons,
      List.length_nil] at hlen
    have hq : q = [] := List.length_eq_zero_iff.mp (by omega)
    rw [hq] at hval
    exact hc (List.cons.inj hval).1.symm

/-- Parameters between the type and the charset leave every charset as it is, if and only
if all of them are harmless. -/
theorem charsetBehind_eq_iff (type : TypeText) (ps : List Parameter) :
    (∀ v, IsParamValue v → ∀ rest,
      charsetBehind type ps v rest = charsetBehind type [] v rest) ↔ ∀ p ∈ ps, p.Harmless := by
  constructor
  · intro h
    by_contra hall
    have hharm : ∃ p ∈ ps, ¬ p.Harmless := by simpa using hall
    have htoken : ∀ c : UInt8, isTchar c = true → IsParamValue [c] := fun c hc =>
      .token ⟨List.cons_ne_nil c [], by simpa using hc⟩
    have ha := (h [97] (htoken 97 rfl) []).trans (charsetBehind_nil type (Or.inl rfl))
    have hb := (h [98] (htoken 98 rfl) []).trans (charsetBehind_nil type (Or.inr rfl))
    rcases charsetBehind_of_not_harmless type hharm with ⟨r, hr⟩ | hne
    · rw [hr] at ha hb
      exact absurd (ha.symm.trans hb) (by decide)
    · exact hne [97] 97 (by decide) ha
  · intro hharm v _ rest
    rw [charsetBehind_eq, charsetBehind_eq, sectionLoop_params hharm, List.flatMap_nil,
      List.nil_append]

/-- `charsetx=1` -/
def charsetxParam : Parameter where
  before := lit " "
  name := lit "charsetx"
  value := lit "1"
  behind := []
  ows_before := by unfold IsOws; decide +kernel
  ows_behind := by unfold IsOws; decide +kernel
  name_token := ⟨by decide +kernel, by decide +kernel⟩
  name_other := by decide
  value_wf := .token ⟨by decide +kernel, by decide +kernel⟩

theorem not_charsetBehind_eq : ¬ ∀ (type : TypeText) (ps : List Parameter) (v : Str),
    IsParamValue v → ∀ rest, charsetBehind type ps v rest = charsetBehind type [] v rest := by
  intro h
  have hvalue : IsParamValue (lit "utf-8") := .token ⟨by decide +kernel, by decide +kernel⟩
  have := h ⟨lit "text/html", by decide, by decide⟩ [charsetxParam] (lit "utf-8") hvalue []
  exact absurd this (by decide +kernel)

end Trequests
