import Trequests.Charset

/-! The names that the conversion of a charset changes. The families of numbered charsets
differ in the stem before the number, and the stem of a name is unique; so the name itself
tells whether the loops that check for digits have seen all of its number. -/

namespace Trequests

/-- The families of charsets with a number, and the ways to write them. -/
inductive CharsetFamily where
  | iso8859 (dash : Bool)
  | windows (dash : Bool)
  | cp (dash : Bool)
  | latin (iso isoDash long dash : Bool)
  deriving DecidableEq

namespace CharsetFamily

/-- What stands before the number. -/
def stem : CharsetFamily → Str
  | iso8859 dash => lit "iso" ++ optional (lit "-") dash ++ lit "8859-"
  | windows dash => lit "windows" ++ optional (lit "-") dash
  | cp dash => lit "cp" ++ optional (lit "-") dash
  | latin iso isoDash long dash =>
    optional (lit "iso" ++ optional (lit "-") isoDash) iso ++ lit "lat" ++
      optional (lit "in") long ++ optional (lit "-") dash

def encoding : CharsetFamily → Str → Str
  | iso8859 _, n => lit "iso8859-" ++ n
  | windows _, n | cp _, n => lit "cp" ++ n
  | latin .., n => latinEncoding n

/-- The stem is the one of a Tcl encoding. -/
def IsTcl (f : CharsetFamily) : Prop := f.stem = lit "iso8859-" ∨ f.stem = lit "cp"

/-! ### Stems -/

/-- Where a stem goes on behind another one, it does not go on with a digit. -/
theorem stem_prefix (f g : CharsetFamily) (h : f.stem <+: g.stem) :
    f.stem = g.stem ∨ ∃ b ∈ (g.stem.drop f.stem.length).head?, isDigit b = false := by
  -- the stems are finitely many
  cases f <;> cases g <;> decide +revert +kernel

theorem stem_eq_append {f g : CharsetFamily} {a n : Str} (h : g.stem = f.stem ++ a)
    (hn : SeemsNumber (a ++ n)) : a = [] := by
  rcases stem_prefix f g ⟨a, h.symm⟩ with heq | ⟨b, hb, hdigit⟩
  · rwa [heq, List.self_eq_append_right] at h
  · rw [h, List.drop_left] at hb
    have := hn b (by rw [List.head?_append, Option.mem_def.mp hb]; rfl)
    rw [hdigit] at this
    cases this

/-- A name is split in one way. -/
theorem stem_append_inj {f g : CharsetFamily} {n m : Str} (hn : SeemsNumber n)
    (hm : SeemsNumber m) (h : f.stem ++ n = g.stem ++ m) : f.stem = g.stem ∧ n = m := by
  rcases List.append_eq_append_iff.mp h with ⟨a, hstem, hnum⟩ | ⟨a, hstem, hnum⟩
  · have ha := stem_eq_append hstem (hnum ▸ hn)
    rw [hstem, hnum, ha]
    exact ⟨(List.append_nil _).symm, rfl⟩
  · have ha := stem_eq_append hstem (hnum ▸ hm)
    rw [hstem, hnum, ha]
    exact ⟨List.append_nil _, rfl⟩

theorem encoding_of_isTcl {f : CharsetFamily} (h : f.IsTcl) (n : Str) :
    f.encoding n = f.stem ++ n := by
  have : f = iso8859 false ∨ f = cp false := by
    unfold IsTcl at h
    cases f <;> decide +revert +kernel
  rcases this with rfl | rfl <;> rfl

/-- The encoding of a family is a Tcl stem with a number. -/
theorem encoding_eq (f : CharsetFamily) {n : Str} (h : SeemsNumber n) :
    ∃ g m, IsTcl g ∧ SeemsNumber m ∧ f.encoding n = g.stem ++ m := by
  have hiso : IsTcl (iso8859 false) := Or.inl rfl
  cases f with
  | iso8859 dash => exact ⟨iso8859 false, n, hiso, h, rfl⟩
  | windows dash | cp dash => exact ⟨cp false, n, Or.inr rfl, h, rfl⟩
  | latin iso isoDash long dash =>
    change ∃ g m, IsTcl g ∧ SeemsNumber m ∧ latinEncoding n = g.stem ++ m
    unfold latinEncoding
    split_ifs
    · exact ⟨iso8859 false, n, hiso, h, rfl⟩
    · exact ⟨iso8859 false, lit "9", hiso, by decide +kernel, rfl⟩
    · exact ⟨iso8859 false, lit "1", hiso, by decide +kernel, rfl⟩

end CharsetFamily

/-! ### What is converted -/

open CharsetFamily

/-- A step over an optional byte. -/
theorem exists_skipByte (c : UInt8) (s : Str) :
    ∃ given, s = optional [c] given ++ skipByte c s := by
  cases s with
  | nil => exact ⟨false, rfl⟩
  | cons b s =>
    by_cases hb : b = c
    · exact ⟨true, by rw [skipByte, if_pos hb, hb]; rfl⟩
    · exact ⟨false, by rw [skipByte, if_neg hb]; rfl⟩

theorem exists_append_of_isPrefixOf {part s : Str} (h : part.isPrefixOf s = true) :
    s = part ++ s.drop part.length :=
  (List.prefix_iff_eq_append.mp (List.isPrefixOf_iff_prefix.mp h)).symm

theorem exists_skipPart (part s : Str) : ∃ given, s = optional part given ++ skipPart part s := by
  by_cases h : part.isPrefixOf s = true
  · exact ⟨true, by rw [skipPart, if_pos h]; exact exists_append_of_isPrefixOf h⟩
  · exact ⟨false, by rw [skipPart, if_neg h]; rfl⟩

theorem convertCharset_family (f : CharsetFamily) {n : Str} (h : SeemsNumber n) :
    convertCharset (f.stem ++ n) = some (f.encoding n) := by
  cases f with
  | iso8859 dash => exact convertCharset_iso8859 dash h
  | windows dash => exact convertCharset_windows dash h
  | cp dash => exact convertCharset_cp dash h
  | latin iso isoDash long dash => exact convertCharset_latin iso isoDash long dash h

/-- A name that the conversion changes has one of the stems. -/
def HasStem (c : Str) : Prop := ∃ (f : CharsetFamily) (n : Str), SeemsNumber n ∧ c = f.stem ++ n

theorem hasStem_of_convertLatin (iso isoDash : Bool) {ptr e : Str}
    (hlat : (lit "lat").isPrefixOf ptr = true) (h : convertLatin ptr = some e) :
    HasStem (optional (lit "iso" ++ optional (lit "-") isoDash) iso ++ ptr) := by
  obtain ⟨long, hlong⟩ := exists_skipPart (lit "in") (ptr.drop 3)
  obtain ⟨dash, hdash⟩ := exists_skipByte 45 (skipPart (lit "in") (ptr.drop 3))
  have hptr : ptr = lit "lat" ++ ptr.drop 3 := exists_append_of_isPrefixOf hlat
  simp only [convertLatin] at h
  split at h
  · cases h
  · rename_i hdigits
    rw [not_not, digitsLoop_iff] at hdigits
    refine ⟨.latin iso isoDash long dash, _, hdigits, ?_⟩
    have hdash' : skipPart (lit "in") (ptr.drop 3) =
        optional (lit "-") dash ++ skipByte 45 (skipPart (lit "in") (ptr.drop 3)) := hdash
    simp only [stem, List.append_assoc]
    rw [← hdash', ← hlong, ← hptr]

theorem hasStem_of_convertIso {s e : Str} (h : convertIso (lit "iso" ++ s) = some e) :
    HasStem (lit "iso" ++ s) := by
  have hdrop : (lit "iso" ++ s).drop 3 = s := rfl
  obtain ⟨isoDash, hs⟩ := exists_skipByte 45 s
  simp only [convertIso, hdrop] at h
  generalize skipByte 45 s = ptr at h hs
  have hs' : s = optional (lit "-") isoDash ++ ptr := hs
  rw [hs', ← List.append_assoc]
  split_ifs at h with hnum hdigits h2022 hjp hlat
  · have hptr : ptr = lit "8859-" ++ ptr.drop 5 := exists_append_of_isPrefixOf hnum
    refine ⟨.iso8859 isoDash, ptr.drop 5, (digitsLoop_iff _).mp hdigits, ?_⟩
    simp only [stem, List.append_assoc]
    rw [← hptr]
  · -- no string is both `jp` and `kr`
    have : ptr.drop 5 = lit "jp" ∧ ptr.drop 5 = lit "kr" := by simpa using hjp
    exact absurd (this.1.symm.trans this.2) (by decide)
  · exact hasStem_of_convertLatin true isoDash hlat h

theorem hasStem_of_convertWindows {c e : Str}
    (hc : (lit "windows").isPrefixOf c = true ∨ (lit "cp").isPrefixOf c = true)
    (h : convertWindows c = some e) : HasStem c := by
  have hword : ∃ s, (c = lit "windows" ++ s ∨ c = lit "cp" ++ s) ∧
      c.drop (if c.head? = some 119 then 7 else 2) = s := by
    rcases hc with hc | hc
    · have hw := exists_append_of_isPrefixOf hc
      exact ⟨_, Or.inl hw, by rw [hw]; rfl⟩
    · have hw := exists_append_of_isPrefixOf hc
      exact ⟨_, Or.inr hw, by rw [hw]; rfl⟩
  obtain ⟨s, hw, hdrop⟩ := hword
  obtain ⟨dash, hs⟩ := exists_skipByte 45 s
  simp only [convertWindows, hdrop] at h
  generalize skipByte 45 s = n at h hs
  have hs' : s = optional (lit "-") dash ++ n := hs
  split_ifs at h with hdigits
  rw [digitsLoop_iff] at hdigits
  rcases hw with hw | hw
  · exact ⟨.windows dash, n, hdigits, by rw [hw, hs', ← List.append_assoc]; rfl⟩
  · exact ⟨.cp dash, n, hdigits, by rw [hw, hs', ← List.append_assoc]; rfl⟩

theorem convertShift_eq_none {c : Str} (h : (lit "shift").isPrefixOf c = true) :
    convertShift c = none := by
  rw [exists_append_of_isPrefixOf h]
  generalize c.drop (lit "shift").length = s
  -- the pointer is still at the word shift
  have hskip : convertShift (lit "shift" ++ s) =
      if lit "shift" ++ s ≠ lit "jis" then none else some (lit "shiftjis") := rfl
  rw [hskip, if_pos]
  intro hjis
  have : some (115 : UInt8) = some 106 := congrArg List.head? hjis
  exact absurd this (by decide)

/-- What is converted: one of the stems with what seems to be a number, or `us-ascii`. -/
theorem convertCharset_eq_some {c e : Str} (h : convertCharset c = some e) :
    (c = lit "us-ascii" ∧ e = lit "ascii") ∨
      ∃ (f : CharsetFamily) (n : Str), SeemsNumber n ∧ c = f.stem ++ n ∧ e = f.encoding n := by
  have hstem : (c = lit "us-ascii" ∧ e = lit "ascii") ∨ HasStem c := by
    unfold convertCharset at h
    split_ifs at h with hiso hshift hwindows hascii hlat
    · have hc := exists_append_of_isPrefixOf hiso
      rw [hc] at h ⊢
      exact Or.inr (hasStem_of_convertIso h)
    · rw [convertShift_eq_none hshift] at h
      cases h
    · exact Or.inr (hasStem_of_convertWindows hwindows h)
    · cases h
      exact Or.inl ⟨hascii, rfl⟩
    · exact Or.inr (hasStem_of_convertLatin false false hlat h)
  refine hstem.imp_right ?_
  rintro ⟨f, n, hn, rfl⟩
  rw [convertCharset_family f hn, Option.some.injEq] at h
  exact ⟨f, n, hn, rfl, h.symm⟩

/-- Every name that the conversion produces is left as it is. -/
theorem convertCharsetToEncoding_idem (charset : Str) :
    convertCharsetToEncoding (convertCharsetToEncoding charset) =
      convertCharsetToEncoding charset := by
  cases h : convertCharset charset with
  | none =>
    have hsame : convertCharsetToEncoding charset = charset := by
      rw [convertCharsetToEncoding, h, Option.getD_none]
    rw [hsame, hsame]
  | some e =>
    have he : convertCharsetToEncoding charset = e := by
      rw [convertCharsetToEncoding, h, Option.getD_some]
    rw [he]
    rcases convertCharset_eq_some h with ⟨-, rfl⟩ | ⟨f, n, hn, -, rfl⟩
    · decide
    · -- the encoding is a Tcl stem with what seems to be a number
      obtain ⟨g, m, hg, hm, heq⟩ := f.encoding_eq hn
      rw [heq, convertCharsetToEncoding, convertCharset_family g hm, Option.getD_some,
        encoding_of_isTcl hg]

/-! ### The names that are changed although they belong to no family -/

/-- A stem other than those of Tcl, and behind it nothing, or a digit with something that
is no digit further on. -/
def HalfNumbered (c : Str) : Prop :=
  ∃ (f : CharsetFamily) (n : Str), c = f.stem ++ n ∧ ¬ f.IsTcl ∧ SeemsNumber n ∧ ¬ IsNumber n

theorem alias_family (f : CharsetFamily) {n : Str} (h : IsNumber n) :
    CharsetAlias (f.stem ++ n) (f.encoding n) := by
  cases f with
  | iso8859 dash => exact .iso8859 dash h
  | windows dash => exact .windows dash h
  | cp dash => exact .cp dash h
  | latin iso isoDash long dash => exact .latin iso isoDash long dash h

/-- The aliases that have no number. -/
def unnumbered : List Str :=
  [lit "us-ascii", lit "iso2022-jp", lit "iso-2022-jp", lit "iso2022-kr", lit "iso-2022-kr",
   lit "shiftjis", lit "shift-jis", lit "shift_jis"]

theorem CharsetAlias.cases_number {c e : Str} (h : CharsetAlias c e) :
    c ∈ unnumbered ∨ ∃ (f : CharsetFamily) (n : Str), IsNumber n ∧ c = f.stem ++ n := by
  cases h with
  | iso8859 dash hn => exact Or.inr ⟨.iso8859 dash, _, hn, rfl⟩
  | windows dash hn => exact Or.inr ⟨.windows dash, _, hn, rfl⟩
  | cp dash hn => exact Or.inr ⟨.cp dash, _, hn, rfl⟩
  | latin iso isoDash long dash hn => exact Or.inr ⟨.latin iso isoDash long dash, _, hn, rfl⟩
  | iso2022jp dash | iso2022kr dash => cases dash <;> exact Or.inl (by decide)
  | shiftjis | shiftDashJis | shiftUnderscoreJis | usAscii => exact Or.inl (by decide)

theorem stem_not_prefix_unnumbered (f : CharsetFamily) : ∀ c ∈ unnumbered, ¬ f.stem <+: c := by
  cases f <;> decide +revert +kernel

/-- A half-numbered name is no alias. -/
theorem HalfNumbered.not_alias {c e : Str} (h : HalfNumbered c) : ¬ CharsetAlias c e := by
  obtain ⟨f, n, rfl, -, hn, hnot⟩ := h
  intro halias
  rcases halias.cases_number with hc | ⟨g, m, hm, heq⟩
  · exact stem_not_prefix_unnumbered f _ hc ⟨n, rfl⟩
  · have hnum := (stem_append_inj hn hm.seemsNumber heq).2
    exact hnot (hnum ▸ hm)

/-- Only the names with a Tcl stem are their own encodings. -/
theorem isTcl_of_encoding_eq {f : CharsetFamily} {n : Str} (hn : SeemsNumber n)
    (h : f.encoding n = f.stem ++ n) : f.IsTcl := by
  obtain ⟨g, m, hg, hm, heq⟩ := f.encoding_eq hn
  have hstem := (stem_append_inj hn hm (h.symm.trans heq)).1
  unfold IsTcl at hg ⊢
  rwa [hstem]

/-- The conversion changes a name only if it is an alias, if and only if the name is not
one of the half-numbered ones. -/
theorem convertCharsetToEncoding_changes_aliases_iff (c : Str) :
    (convertCharsetToEncoding c ≠ c → ∃ e, CharsetAlias c e) ↔ ¬ HalfNumbered c := by
  constructor
  · intro h hhalf
    have hchanged : convertCharsetToEncoding c ≠ c := by
      obtain ⟨f, n, rfl, htcl, hn, -⟩ := hhalf
      rw [convertCharsetToEncoding, convertCharset_family f hn, Option.getD_some]
      exact fun heq => htcl (isTcl_of_encoding_eq hn heq)
    obtain ⟨e, halias⟩ := h hchanged
    exact hhalf.not_alias halias
  · intro hhalf hchanged
    cases h : convertCharset c with
    | none => exact absurd (by rw [convertCharsetToEncoding, h, Option.getD_none]) hchanged
    | some e =>
      rcases convertCharset_eq_some h with ⟨rfl, rfl⟩ | ⟨f, n, hn, rfl, rfl⟩
      · exact ⟨_, .usAscii⟩
      · by_cases hnum : IsNumber n
        · exact ⟨_, alias_family f hnum⟩
        · -- the stem must be one of Tcl, whose names are not changed
          have htcl : f.IsTcl := by
            by_contra htcl
            exact hhalf ⟨f, n, rfl, htcl, hn, hnum⟩
          rw [convertCharsetToEncoding, h, Option.getD_some] at hchanged
          exact absurd (encoding_of_isTcl htcl n) hchanged

theorem not_changes_aliases_only :
    ¬ ∀ c : Str, convertCharsetToEncoding c ≠ c → ∃ e, CharsetAlias c e := by
  intro h
  obtain ⟨e, he⟩ := h (lit "windows-1252x") (by decide)
  have hx : ¬ IsNumber (lit "1252x") := fun hn => absurd (hn.digits 120 (by decide)) (by decide)
  have hhalf : HalfNumbered (lit "windows-1252x") :=
    ⟨.windows true, lit "1252x", rfl, by unfold IsTcl; decide +kernel, by decide +kernel, hx⟩
  exact hhalf.not_alias he

end Trequests
