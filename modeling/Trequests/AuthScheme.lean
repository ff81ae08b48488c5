import Trequests.Validation

/-! The value of `-auth_scheme`: which lists of words `treq_RequestAuthParseOption` accepts,
and the mask it makes of them. -/

namespace Trequests

/-- `treq_RequestAuthParseOption` with the variable that `result_ptr` points to, which is
written at the end. -/
def requestAuthParseOptionTo (objv : List Str) (resultPtr : BitVec 64) :
    BitVec 64 × Except Str Unit :=
  match requestAuthParseOption objv with
  | .error e => (resultPtr, .error e)
  | .ok result => (result, .ok ())

/-- The option that a word stands for. -/
def authOption (word : Str) : Option AuthOption :=
  ((getIndex false (authOptions.map Prod.fst) word).bind fun k => authOptions[k]?).map Prod.snd

namespace AuthOption

/-- The options that name one scheme. -/
def IsScheme : AuthOption → Prop
  | any | anysafe | only => False
  | basic | digest | digestIe | bearer | negotiate | ntlm | awsSigv4 => True

/-- What a word of the list adds to the mask. -/
def mask : AuthOption → BitVec 64
  | any => curlauthAny
  | anysafe => curlauthAnysafe
  | only => curlauthOnly
  | o => o.bit

/-- The options together. -/
def maskAll (os : List AuthOption) : BitVec 64 := os.foldr (fun o m => o.mask ||| m) 0

/-- The lists of options that make sense. -/
inductive Accepted : List AuthOption → Prop where
  | any : Accepted [any]
  | anysafe : Accepted [anysafe]
  | onlyFirst {o : AuthOption} (h : o.IsScheme) : Accepted [only, o]
  | onlySecond {o : AuthOption} (h : o.IsScheme) : Accepted [o, only]
  | schemes {os : List AuthOption} (hne : os ≠ []) (h : ∀ o ∈ os, o.IsScheme) : Accepted os

/-- What the pass for an option checks. -/
def Allowed (objc i : ℕ) (result : BitVec 64) : AuthOption → Prop
  | any | anysafe => objc = 1
  | only => objc = 2 ∧ ¬ (i = 1 ∧ result = curlauthOnly)
  | _ => True

/-- The mask after the pass. -/
def after (result : BitVec 64) : AuthOption → BitVec 64
  | any => curlauthAny
  | anysafe => curlauthAnysafe
  | o => result ||| o.mask

theorem IsScheme.allowed {o : AuthOption} (h : o.IsScheme) (objc i : ℕ) (result : BitVec 64) :
    o.Allowed objc i result := by
  cases o <;> first | exact trivial | exact h.elim

theorem IsScheme.after_eq {o : AuthOption} (h : o.IsScheme) (result : BitVec 64) :
    o.after result = result ||| o.mask := by
  cases o <;> first | rfl | exact h.elim

theorem mask_ne_only {o : AuthOption} (h : o.IsScheme) : o.mask ≠ curlauthOnly := by
  cases o <;> first | decide | exact h.elim

end AuthOption

open AuthOption

/-! ### One word -/

theorem authStep_ok_iff {objc i : ℕ} {word : Str} {result r : BitVec 64} :
    authStep objc i word result = .ok r ↔
      ∃ o, authOption word = some o ∧ o.Allowed objc i result ∧ r = o.after result := by
  unfold authStep authOption
  cases (getIndex false (authOptions.map Prod.fst) word).bind fun k => authOptions[k]? with
  | none => simp
  | some entry =>
    obtain ⟨name, o⟩ := entry
    simp only [Option.map_some, Option.some.injEq, exists_eq_left']
    cases o with
    | any | anysafe => by_cases hone : objc = 1 <;> simp [Allowed, after, hone, eq_comm]
    | only =>
      by_cases htwo : objc = 2
      · by_cases hdouble : i = 1 ∧ result = curlauthOnly <;>
          simp [Allowed, after, mask, htwo, hdouble, eq_comm]
      · simp [Allowed, htwo]
    | basic | digest | digestIe | bearer | negotiate | ntlm | awsSigv4 =>
      simp [Allowed, after, mask, eq_comm]

theorem authLoop_cons_ok {objc i : ℕ} {word : Str} {words : List Str} {result r : BitVec 64} :
    authLoop objc i (word :: words) result = .ok r ↔
      ∃ o, authOption word = some o ∧ o.Allowed objc i result ∧
        authLoop objc (i + 1) words (o.after result) = .ok r := by
  rw [authLoop]
  cases hstep : authStep objc i word result with
  | error e =>
    simp only [reduceCtorEq, false_iff, not_exists]
    rintro o ⟨ho, hallowed, -⟩
    have := authStep_ok_iff.mpr ⟨o, ho, hallowed, rfl⟩
    rw [hstep] at this
    cases this
  | ok m =>
    obtain ⟨o, ho, hallowed, rfl⟩ := authStep_ok_iff.mp hstep
    constructor
    · intro h
      exact ⟨o, ho, hallowed, h⟩
    · rintro ⟨o', ho', -, h⟩
      cases ho.symm.trans ho'
      exact h

/-! ### The loop -/

/-- Names of schemes pass every check, and their bits are added. -/
theorem authLoop_schemes {objc i : ℕ} {words : List Str} {os : List AuthOption}
    (hwords : words.map authOption = os.map some) (hos : ∀ o ∈ os, o.IsScheme)
    (result : BitVec 64) : authLoop objc i words result = .ok (result ||| maskAll os) := by
  induction words generalizing os i result with
  | nil =>
    obtain rfl : os = [] := List.map_eq_nil_iff.mp hwords.symm
    simp [authLoop, maskAll]
  | cons word words ih =>
    obtain ⟨o, os, rfl, ho, htail⟩ := List.map_eq_cons_iff.mp hwords.symm
    have hscheme := hos o List.mem_cons_self
    refine authLoop_cons_ok.mpr ⟨o, ho.symm, hscheme.allowed objc i result, ?_⟩
    rw [ih htail.symm (fun o' ho' => hos o' (List.mem_cons_of_mem o ho')), hscheme.after_eq,
      BitVec.or_assoc]
    rfl

/-- Where neither `any` nor `only` can pass its check, all words name schemes. -/
theorem schemes_of_authLoop {objc i : ℕ} (hone : objc ≠ 1) (htwo : objc ≠ 2) {words : List Str}
    {result r : BitVec 64} (h : authLoop objc i words result = .ok r) :
    ∃ os : List AuthOption, words.map authOption = os.map some ∧ ∀ o ∈ os, o.IsScheme := by
  induction words generalizing i result with
  | nil => exact ⟨[], rfl, by simp⟩
  | cons word words ih =>
    obtain ⟨o, ho, hallowed, hrest⟩ := authLoop_cons_ok.mp h
    obtain ⟨os, hos, hschemes⟩ := ih hrest
    have hscheme : o.IsScheme := by
      cases o with
      | any | anysafe => exact absurd hallowed hone
      | only => exact absurd hallowed.1 htwo
      | basic | digest | digestIe | bearer | negotiate | ntlm | awsSigv4 => trivial
    exact ⟨o :: os, by simp [ho, hos], List.forall_mem_cons.mpr ⟨hscheme, hschemes⟩⟩

theorem authLoop_one {word : Str} {r : BitVec 64} (h : authLoop 1 0 [word] 0 = .ok r) :
    ∃ o, authOption word = some o ∧ Accepted [o] := by
  obtain ⟨o, ho, hallowed, -⟩ := authLoop_cons_ok.mp h
  refine ⟨o, ho, ?_⟩
  cases o with
  | any => exact .any
  | anysafe => exact .anysafe
  | only => exact absurd hallowed.1 (by decide)
  | basic | digest | digestIe | bearer | negotiate | ntlm | awsSigv4 =>
    exact .schemes (List.cons_ne_nil _ _) (List.forall_mem_singleton.mpr trivial)

theorem authLoop_two {word word' : Str} {r : BitVec 64} (h : authLoop 2 0 [word, word'] 0 = .ok r) :
    ∃ o o', authOption word = some o ∧ authOption word' = some o' ∧ Accepted [o, o'] := by
  obtain ⟨o, ho, hallowed, hrest⟩ := authLoop_cons_ok.mp h
  obtain ⟨o', ho', hallowed', -⟩ := authLoop_cons_ok.mp hrest
  refine ⟨o, o', ho, ho', ?_⟩
  have hany : ∀ {p : AuthOption} {i m}, p.Allowed 2 i m → p = .only ∨ p.IsScheme := by
    intro p i m hp
    cases p with
    | any | anysafe => cases hp
    | only => exact Or.inl rfl
    | basic | digest | digestIe | bearer | negotiate | ntlm | awsSigv4 => exact Or.inr trivial
  rcases hany hallowed with rfl | hscheme
  · rcases hany hallowed' with rfl | hscheme'
    · -- the second `only` finds the mask of the first
      exact absurd ⟨rfl, rfl⟩ hallowed'.2
    · exact .onlyFirst hscheme'
  · rcases hany hallowed' with rfl | hscheme'
    · exact .onlySecond hscheme
    · refine .schemes (List.cons_ne_nil _ _) ?_
      rintro p hp
      rcases List.mem_cons.mp hp with rfl | hp
      · exact hscheme
      · exact List.mem_singleton.mp hp ▸ hscheme'

/-! ### The list -/

theorem authLoop_single {word : Str} {o : AuthOption} (ho : authOption word = some o)
    (hallowed : o.Allowed 1 0 0) : authLoop 1 0 [word] 0 = .ok (o.after 0) :=
  authLoop_cons_ok.mpr ⟨o, ho, hallowed, rfl⟩

theorem authLoop_pair {word word' : Str} {o o' : AuthOption} (ho : authOption word = some o)
    (ho' : authOption word' = some o') (hallowed : o.Allowed 2 0 0)
    (hallowed' : o'.Allowed 2 1 (o.after 0)) :
    authLoop 2 0 [word, word'] 0 = .ok (o'.after (o.after 0)) :=
  authLoop_cons_ok.mpr ⟨o, ho, hallowed, authLoop_cons_ok.mpr ⟨o', ho', hallowed', rfl⟩⟩

/-- An accepted list passes every check. -/
theorem authLoop_accepted {objv : List Str} {os : List AuthOption}
    (hwords : objv.map authOption = os.map some) (h : Accepted os) :
    authLoop objv.length 0 objv 0 = .ok (maskAll os) := by
  have hzero : ∀ m : BitVec 64, 0 ||| m = m := fun _ => BitVec.zero_or
  cases h with
  | any | anysafe =>
    obtain ⟨word, rfl, hword⟩ := List.map_eq_singleton_iff.mp hwords
    exact (authLoop_single hword rfl).trans (by decide)
  | onlyFirst h =>
    obtain ⟨word, words, rfl, hword, htail⟩ := List.map_eq_cons_iff.mp hwords
    obtain ⟨word', rfl, hword'⟩ := List.map_eq_singleton_iff.mp htail
    refine (authLoop_pair hword hword' ⟨rfl, by decide⟩ (h.allowed _ _ _)).trans ?_
    rw [h.after_eq]
    simp [after, mask, maskAll]
  | @onlySecond o h =>
    obtain ⟨word, words, rfl, hword, htail⟩ := List.map_eq_cons_iff.mp hwords
    obtain ⟨word', rfl, hword'⟩ := List.map_eq_singleton_iff.mp htail
    -- the mask of a scheme is not the one of `only`
    have hne : after 0 o ≠ curlauthOnly := by
      rw [h.after_eq, hzero]
      exact mask_ne_only h
    refine (authLoop_pair hword hword' (h.allowed _ _ _) ⟨rfl, fun hdouble => hne hdouble.2⟩).trans ?_
    rw [h.after_eq]
    simp [after, mask, maskAll]
  | schemes hne h =>
    rw [authLoop_schemes hwords h, hzero]

theorem requestAuthParseOption_ok_iff {objv : List Str} {r : BitVec 64} :
    requestAuthParseOption objv = .ok r ↔
      ∃ os, objv.map authOption = os.map some ∧ Accepted os ∧ r = maskAll os := by
  constructor
  · intro h
    unfold requestAuthParseOption at h
    split_ifs at h with hnil
    have haccepted : ∃ os, objv.map authOption = os.map some ∧ Accepted os := by
      match objv, h with
      | [word], h =>
        obtain ⟨o, ho, hacc⟩ := authLoop_one h
        exact ⟨[o], by simp [ho], hacc⟩
      | [word, word'], h =>
        obtain ⟨o, o', ho, ho', hacc⟩ := authLoop_two h
        exact ⟨[o, o'], by simp [ho, ho'], hacc⟩
      | word :: word' :: word'' :: words, h =>
        obtain ⟨os, hos, hschemes⟩ := schemes_of_authLoop (by simp) (by simp) h
        refine ⟨os, hos, .schemes ?_ hschemes⟩
        rintro rfl
        cases hos
    obtain ⟨os, hos, hacc⟩ := haccepted
    rw [authLoop_accepted hos hacc] at h
    exact ⟨os, hos, hacc, (Except.ok.inj h).symm⟩
  · rintro ⟨os, hos, hacc, rfl⟩
    have hnil : objv ≠ [] := by
      rintro rfl
      obtain rfl : os = [] := List.map_eq_nil_iff.mp hos.symm
      cases hacc with
      | schemes hne _ => exact hne rfl
    rw [requestAuthParseOption, if_neg hnil, authLoop_accepted hos hacc]

/-- The mask is made of the options that occur. -/
theorem getLsbD_maskAll (os : List AuthOption) (i : ℕ) :
    (maskAll os).getLsbD i = true ↔ ∃ o ∈ os, o.mask.getLsbD i = true := by
  induction os with
  | nil => simp [maskAll]
  | cons o os ih =>
    have hcons : maskAll (o :: os) = o.mask ||| maskAll os := rfl
    rw [hcons, BitVec.getLsbD_or, Bool.or_eq_true, ih]
    simp

theorem maskAll_congr {os os' : List AuthOption} (h : ∀ o, o ∈ os ↔ o ∈ os') :
    maskAll os = maskAll os' := by
  apply BitVec.eq_of_getLsbD_eq
  intro i _
  rw [Bool.eq_iff_iff, getLsbD_maskAll, getLsbD_maskAll]
  simp only [h]

/-- The parser accepts the lists that make sense, and leaves the mask of all options in the
variable; on any other list the variable keeps its value. The same options in another order
or number stand for the same mask. -/
theorem requestAuthParseOptionTo_spec (objv : List Str) (resultPtr : BitVec 64) :
    (∀ os, objv.map authOption = os.map some → Accepted os →
        requestAuthParseOptionTo objv resultPtr = (maskAll os, .ok ())) ∧
      ((¬ ∃ os, objv.map authOption = os.map some ∧ Accepted os) →
        ∃ e, requestAuthParseOptionTo objv resultPtr = (resultPtr, .error e)) ∧
      ∀ objv' result result',
        requestAuthParseOptionTo objv resultPtr = (result, .ok ()) →
        requestAuthParseOptionTo objv' resultPtr = (result', .ok ()) →
        (∀ o, o ∈ objv.map authOption ↔ o ∈ objv'.map authOption) → result = result' := by
  refine ⟨?_, ?_, ?_⟩
  · intro os hos hacc
    rw [requestAuthParseOptionTo, requestAuthParseOption_ok_iff.mpr ⟨os, hos, hacc, rfl⟩]
  · intro hnot
    cases h : requestAuthParseOption objv with
    | error e => exact ⟨e, by rw [requestAuthParseOptionTo, h]⟩
    | ok r =>
      obtain ⟨os, hos, hacc, -⟩ := requestAuthParseOption_ok_iff.mp h
      exact absurd ⟨os, hos, hacc⟩ hnot
  · intro objv' result result' h h' hsame
    have hok : ∀ {words m}, requestAuthParseOptionTo words resultPtr = (m, .ok ()) →
        ∃ os : List AuthOption, words.map authOption = os.map some ∧ m = maskAll os := by
      intro words m hm
      unfold requestAuthParseOptionTo at hm
      cases hr : requestAuthParseOption words with
      | error e =>
        rw [hr] at hm
        cases hm
      | ok r =>
        rw [hr] at hm
        cases hm
        obtain ⟨os, hos, -, heq⟩ := requestAuthParseOption_ok_iff.mp hr
        exact ⟨os, hos, heq⟩
    obtain ⟨os, hos, rfl⟩ := hok h
    obtain ⟨os', hos', rfl⟩ := hok h'
    apply maskAll_congr
    intro o
    have := hsame (some o)
    rw [hos, hos'] at this
    simpa using this

theorem requestAuthParseOptionTo_basicOnly :
    requestAuthParseOptionTo [lit "basic", lit "only"] 7 =
      (curlauthBasic ||| curlauthOnly, .ok ()) := by
  have h := (requestAuthParseOptionTo_spec [lit "basic", lit "only"] 7).1 [.basic, .only]
    (by decide) (.onlySecond trivial)
  exact h.trans (by decide)

end Trequests
