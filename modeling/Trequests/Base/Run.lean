import Mathlib.Data.Nat.Basic
import Mathlib.Logic.Basic

/-! Runs of a system given by a partial step function: `step s a = none` when
the action `a` cannot happen in the state `s`. A run is the list of its actions.
`Along` puts a condition on every step of a run, so that a property of a class of
runs is proved by one step lemma under that condition. -/

namespace Trequests.Run

variable {σ α : Type*} (step : σ → α → Option σ)

/-- The state a run leads to, if each of its actions can happen in turn. -/
def exec : σ → List α → Option σ
  | s, [] => some s
  | s, a :: as => (step s a).bind fun t => exec t as

/-- Every step of the run from `s` meets `ok` in the state it starts from. -/
def Along (ok : σ → α → Prop) : σ → List α → Prop
  | _, [] => True
  | s, a :: as => ok s a ∧ match step s a with
    | some t => Along ok t as
    | none => True

@[simp] theorem exec_nil (s : σ) : exec step s [] = some s := rfl

@[simp] theorem exec_cons (s : σ) (a : α) (as : List α) :
    exec step s (a :: as) = (step s a).bind fun t => exec step t as := rfl

theorem exec_append (s : σ) (as bs : List α) :
    exec step s (as ++ bs) = (exec step s as).bind fun t => exec step t bs := by
  induction as generalizing s with
  | nil => rfl
  | cons a as ih => simp only [List.cons_append, exec_cons, Option.bind_assoc, ih]

instance Along.decidable (ok : σ → α → Prop) [∀ s a, Decidable (ok s a)] :
    ∀ (s : σ) (as : List α), Decidable (Along step ok s as)
  | _, [] => inferInstanceAs (Decidable True)
  | s, a :: as =>
    have : Decidable (match step s a with | some t => Along step ok t as | none => True) :=
      match step s a with
      | some t => Along.decidable ok t as
      | none => inferInstanceAs (Decidable True)
    inferInstanceAs (Decidable (ok s a ∧ match step s a with
      | some t => Along step ok t as
      | none => True))

variable {step}

/-- A stronger condition on the steps holds along fewer runs. -/
theorem Along.imp {ok ok' : σ → α → Prop} (h : ∀ s a, ok s a → ok' s a) {s : σ} {as : List α}
    (ha : Along step ok s as) : Along step ok' s as := by
  induction as generalizing s with
  | nil => trivial
  | cons a as ih =>
    refine ⟨h s a ha.1, ?_⟩
    have ht := ha.2
    cases hs : step s a with
    | none => trivial
    | some t => rw [hs] at ht; exact ih ht

theorem Along.and {ok ok' : σ → α → Prop} {s : σ} {as : List α} (h : Along step ok s as)
    (h' : Along step ok' s as) : Along step (fun s a => ok s a ∧ ok' s a) s as := by
  induction as generalizing s with
  | nil => trivial
  | cons a as ih =>
    refine ⟨⟨h.1, h'.1⟩, ?_⟩
    have ht := h.2
    have ht' := h'.2
    cases hs : step s a with
    | none => trivial
    | some t => rw [hs] at ht ht'; exact ih ht ht'

/-- A condition holds along a run if it holds of every action in the state it is taken
in. -/
theorem along_iff_forall_prefix {ok : σ → α → Prop} {s : σ} {as : List α} :
    Along step ok s as ↔
      ∀ bs a t, bs ++ [a] <+: as → exec step s bs = some t → ok t a := by
  induction as generalizing s with
  | nil =>
    refine ⟨fun _ bs a t hp _ => ?_, fun _ => trivial⟩
    exact absurd (List.prefix_nil.mp hp) (by simp)
  | cons b as ih =>
    constructor
    · rintro ⟨hok, ht⟩ bs a t hp he
      cases bs with
      | nil =>
        obtain ⟨rfl, -⟩ := List.cons_prefix_cons.mp hp
        cases he
        exact hok
      | cons c bs =>
        obtain ⟨rfl, hbs⟩ := List.cons_prefix_cons.mp hp
        obtain ⟨u, hu, he⟩ := Option.bind_eq_some_iff.mp he
        rw [hu] at ht
        exact ih.mp ht bs a t hbs he
    · intro h
      refine ⟨h [] b s (List.cons_prefix_cons.mpr ⟨rfl, List.nil_prefix⟩) rfl, ?_⟩
      cases hs : step s b with
      | none => trivial
      | some u =>
        refine ih.mpr fun bs a t hp he => h (b :: bs) a t ?_ ?_
        · exact List.cons_prefix_cons.mpr ⟨rfl, hp⟩
        · rw [exec_cons, hs]; exact he

/-- What is asked of the actions only can be checked on the list. -/
theorem along_of_forall {ok : σ → α → Prop} {as : List α} (h : ∀ a ∈ as, ∀ s, ok s a) (s : σ) :
    Along step ok s as :=
  along_iff_forall_prefix.mpr fun bs a t hp _ =>
    h a (hp.subset (List.mem_append_right bs List.mem_cons_self)) t

/-- A condition that holds along a run holds along its beginning. -/
theorem Along.of_prefix {ok : σ → α → Prop} {s : σ} {as bs : List α} (h : Along step ok s as)
    (hp : bs <+: as) : Along step ok s bs :=
  along_iff_forall_prefix.mpr fun cs a t hc he =>
    along_iff_forall_prefix.mp h cs a t (hc.trans hp) he

/-- A run can be cut short. -/
theorem exec_of_prefix {s t : σ} {as bs : List α} (hp : bs <+: as) (he : exec step s as = some t) :
    ∃ u, exec step s bs = some u := by
  obtain ⟨cs, rfl⟩ := hp
  rw [exec_append] at he
  obtain ⟨u, hu, -⟩ := Option.bind_eq_some_iff.mp he
  exact ⟨u, hu⟩

/-- The step that a run takes after its beginning. -/
theorem step_of_prefix {s t u : σ} {as bs : List α} {a : α} (hp : bs ++ [a] <+: as)
    (he : exec step s as = some u) (ht : exec step s bs = some t) :
    ∃ v, step t a = some v ∧ exec step s (bs ++ [a]) = some v := by
  obtain ⟨v, hv⟩ := exec_of_prefix hp he
  have hstep := hv
  rw [exec_append, ht] at hstep
  exact ⟨v, by simpa using hstep, hv⟩

/-- Where what a step is asked for comes down to a condition on the state before it, all
steps of a run do it exactly if the condition holds along the run. -/
theorem forall_step_iff_along {ok : σ → α → Prop} {Q : σ → α → σ → Prop} {I : σ → Prop}
    (h : ∀ t a u, I t → step t a = some u → (Q t a u ↔ ok t a)) {s v : σ} {as : List α}
    (hI : ∀ bs t, bs <+: as → exec step s bs = some t → I t) (he : exec step s as = some v) :
    (∀ bs a t u, bs ++ [a] <+: as → exec step s bs = some t →
      exec step s (bs ++ [a]) = some u → Q t a u) ↔ Along step ok s as := by
  refine Iff.trans ?_ along_iff_forall_prefix.symm
  refine forall_congr' fun bs => forall_congr' fun a => forall_congr' fun t => ?_
  constructor
  · intro hq hp ht
    obtain ⟨u, hst, hu⟩ := step_of_prefix hp he ht
    exact (h t a u (hI bs t ((List.prefix_append bs [a]).trans hp) ht) hst).mp (hq u hp ht hu)
  · intro hok u hp ht hu
    obtain ⟨u', hst, hu'⟩ := step_of_prefix hp he ht
    cases hu.symm.trans hu'
    exact (h t a u (hI bs t ((List.prefix_append bs [a]).trans hp) ht) hst).mpr (hok hp ht)

/-- The invariant rule: what every step that meets `ok` preserves holds at the end
of every run whose steps all meet `ok`. -/
theorem exec_preserves {ok : σ → α → Prop} {I : σ → Prop}
    (hstep : ∀ s a t, I s → ok s a → step s a = some t → I t)
    {s t : σ} {as : List α} (hs : I s) (ha : Along step ok s as)
    (he : exec step s as = some t) : I t := by
  induction as generalizing s with
  | nil =>
    simp only [exec_nil, Option.some.injEq] at he
    exact he ▸ hs
  | cons a as ih =>
    obtain ⟨u, hu, hr⟩ := Option.bind_eq_some_iff.mp he
    have ht := ha.2
    rw [hu] at ht
    exact ih (hstep s a u hs ha.1 hu) ht hr

/-- What every step preserves holds at the end of every run. -/
theorem exec_invariant {I : σ → Prop} (hstep : ∀ s a t, I s → step s a = some t → I t)
    {s t : σ} {as : List α} (hs : I s) (he : exec step s as = some t) : I t := by
  have halong : Along step (fun _ _ => True) s as := along_of_forall (fun _ _ _ => trivial) s
  exact exec_preserves (fun s a t hs _ hst => hstep s a t hs hst) hs halong he

/-- Under an invariant of the runs that meet `ok`, a condition that follows from `ok`
in the states of the invariant holds along those runs. -/
theorem Along.of_preserves {ok ok' : σ → α → Prop} {I : σ → Prop}
    (hstep : ∀ s a t, I s → ok s a → step s a = some t → I t)
    (h : ∀ s a, I s → ok s a → ok' s a)
    {s : σ} {as : List α} (hs : I s) (ha : Along step ok s as) : Along step ok' s as := by
  induction as generalizing s with
  | nil => trivial
  | cons a as ih =>
    refine ⟨h s a hs ha.1, ?_⟩
    have ht := ha.2
    cases hst : step s a with
    | none => trivial
    | some t => rw [hst] at ht; exact ih (hstep s a t hs ha.1 hst) ht

/-- The erasure rule: if the actions that are not `visible` leave the related state alone
and the others are taken by both states alike, then the run without them leads to a
related state. -/
theorem exec_erase {visible : α → Bool} {R : σ → σ → Prop}
    (hidden : ∀ s a t s', visible a = false → R s s' → step s a = some t → R t s')
    (shown : ∀ s a t s', visible a = true → R s s' → step s a = some t →
      ∃ t', step s' a = some t' ∧ R t t')
    {s t s' : σ} {as : List α} (hs : R s s') (he : exec step s as = some t) :
    ∃ t', exec step s' (as.filter visible) = some t' ∧ R t t' := by
  induction as generalizing s s' with
  | nil =>
    cases he
    exact ⟨s', rfl, hs⟩
  | cons a as ih =>
    obtain ⟨u, hu, hr⟩ := Option.bind_eq_some_iff.mp he
    cases hv : visible a with
    | false =>
      rw [List.filter_cons_of_neg (by simp [hv])]
      exact ih (hidden s a u s' hv hs hu) hr
    | true =>
      obtain ⟨u', hu', hru⟩ := shown s a u s' hv hs hu
      obtain ⟨t', ht', hrt⟩ := ih hru hr
      rw [List.filter_cons_of_pos hv]
      exact ⟨t', by rw [exec_cons, hu']; exact ht', hrt⟩

/-! ### Reordering -/

section Reordering
variable {κ : Type*} [DecidableEq κ] {key : α → κ}
  (hcomm : ∀ s a b, key a ≠ key b →
    (step s a).bind (fun t => step t b) = (step s b).bind fun t => step t a)
include hcomm

omit [DecidableEq κ] in
/-- An action that is independent of those before it can be taken first. -/
theorem exec_front {s : σ} {a : α} {as bs : List α} (h : ∀ b ∈ as, key b ≠ key a) :
    exec step s (as ++ a :: bs) = exec step s (a :: (as ++ bs)) := by
  induction as generalizing s with
  | nil => rfl
  | cons b as ih =>
    have hb := hcomm s b a (h b List.mem_cons_self)
    have hstep : ∀ t, exec step t (as ++ a :: bs) = exec step t (a :: (as ++ bs)) := fun t =>
      ih fun c hc => h c (List.mem_cons_of_mem b hc)
    simp only [List.cons_append, exec_cons, hstep, ← Option.bind_assoc, hb]

/-- The reordering rule: where actions with different keys are independent, only the order
of those with the same key matters. -/
theorem exec_reorder {as bs : List α}
    (h : ∀ k, as.filter (fun a => key a = k) = bs.filter fun b => key b = k) (s : σ) :
    exec step s as = exec step s bs := by
  induction as generalizing bs s with
  | nil =>
    cases bs with
    | nil => rfl
    | cons b bs =>
      have := h (key b)
      simp at this
  | cons a as ih =>
    have ha := h (key a)
    rw [List.filter_cons_of_pos (by simp)] at ha
    obtain ⟨before, after, rfl, hbefore, -, hafter⟩ := List.filter_eq_cons_iff.mp ha.symm
    have hne : ∀ b ∈ before, key b ≠ key a := by simpa using hbefore
    rw [exec_front hcomm hne, exec_cons, exec_cons]
    refine congrArg _ (funext fun t => ih (fun k => ?_) t)
    by_cases hk : k = key a
    · subst hk
      rw [List.filter_append, List.filter_eq_nil_iff.mpr hbefore, hafter, List.nil_append]
    · have hold := h k
      simpa [List.filter_append, List.filter_cons, Ne.symm hk] using hold

end Reordering

/-! ### Termination -/

section Outputs
variable {β : Type*} (step) (out : σ → α → List β)

/-- What the steps of a run put out, in turn. -/
def outputs : σ → List α → List β
  | _, [] => []
  | s, a :: as => out s a ++ (match step s a with
    | some t => outputs t as
    | none => [])

variable {step out}

/-- The history rule: what relates the output so far to the state, and goes on to do so
with every step that meets `ok`, holds at the end of every run whose steps all meet `ok`. -/
theorem outputs_preserves {ok : σ → α → Prop} {I : List β → σ → Prop}
    (hstep : ∀ bs s a t, I bs s → ok s a → step s a = some t → I (bs ++ out s a) t) {s t : σ}
    {as : List α} (hs : I [] s) (ha : Along step ok s as) (he : exec step s as = some t) :
    I (outputs step out s as) t := by
  have hrun : ∀ bs s, I bs s → Along step ok s as → exec step s as = some t →
      I (bs ++ outputs step out s as) t := by
    clear hs ha he
    induction as with
    | nil =>
      rintro bs s h - he
      cases he
      rwa [outputs, List.append_nil]
    | cons a as ih =>
      intro bs s h ha he
      obtain ⟨u, hu, hr⟩ := Option.bind_eq_some_iff.mp he
      have halong := ha.2
      rw [hu] at halong
      have := ih _ u (hstep bs s a u h ha.1 hu) halong hr
      simpa only [outputs, hu, List.append_assoc] using this
  exact hrun [] s hs ha he

end Outputs

/-! ### Translation -/

section Translation
variable {β : Type*} (step) (g : σ → α → α)

variable {step g} {h : σ → σ}
  (hstep : ∀ s a t, step s a = some t → step (h s) (g s a) = some (h t))
include hstep

end Translation

end Trequests.Run
