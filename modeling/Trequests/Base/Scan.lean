import Mathlib.Data.List.Basic

/-! Programs that read memory through one cursor. The state is the readable memory from
the cursor on, and a program is undefined when it reads behind its end. A program is
stable when more readable memory changes nothing, and it stays within a terminator when
it is defined on every memory that ends there and leaves the cursor no later. Both
properties pass to sequences of programs and to loops. -/

namespace Trequests

abbrev Scan (β α : Type) := StateT (List β) Option α

namespace Scan
variable {α β γ σ : Type}

/-- A step over one element if it is the expected one. -/
def accept [DecidableEq β] (c : β) : Scan β Bool
  | [] => none
  | b :: m => if b = c then some (true, m) else some (false, b :: m)

/-- What a pass of a loop does: it breaks with the cursor in place, it breaks behind the
element, or it goes on behind the element. -/
inductive Next (σ : Type) where
  | stay (s : σ)
  | leave (s : σ)
  | next (s : σ)

def loop (body : σ → β → Next σ) : σ → Scan β σ
  | _, [] => none
  | s, b :: m => match body s b with
    | .stay s => some (s, b :: m)
    | .leave s => some (s, m)
    | .next s => loop body s m

/-- More readable memory changes nothing. -/
def Stable (p : Scan β α) : Prop :=
  ∀ m a m' rest, p m = some (a, m') → p (m ++ rest) = some (a, m' ++ rest)

/-- The program stops at or before the terminator. -/
def Within (stop : β) (p : Scan β α) : Prop :=
  ∀ u, stop ∉ u → ∃ a u', stop ∉ u' ∧ p (u ++ [stop]) = some (a, u' ++ [stop])

/-! ### Sequences -/

theorem bind_eq_some {p : Scan β α} {f : α → Scan β γ} {m : List β} {c : γ} {m' : List β} :
    (p >>= f) m = some (c, m') ↔ ∃ a u, p m = some (a, u) ∧ f a u = some (c, m') := by
  change (p m).bind (fun x => f x.1 x.2) = some (c, m') ↔ _
  rw [Option.bind_eq_some_iff]
  exact Prod.exists

/-- A sequence whose first part is known. -/
theorem bind_of_eq {p : Scan β α} {m u : List β} {a : α} (h : p m = some (a, u))
    (f : α → Scan β γ) : (p >>= f) m = f a u := by
  change (p m).bind (fun x => f x.1 x.2) = f a u
  rw [h, Option.bind_some]

theorem Stable.pure (a : α) : Stable (Pure.pure a : Scan β α) := by
  intro m a' m' rest h
  cases h
  rfl

theorem Stable.bind {p : Scan β α} {f : α → Scan β γ} (hp : Stable p) (hf : ∀ a, Stable (f a)) :
    Stable (p >>= f) := by
  intro m c m' rest h
  obtain ⟨a, u, hu, hc⟩ := bind_eq_some.mp h
  exact bind_eq_some.mpr ⟨a, u ++ rest, hp m a u rest hu, hf a u c m' rest hc⟩

theorem Within.pure (stop : β) (a : α) : Within stop (Pure.pure a : Scan β α) :=
  fun u hu => ⟨a, u, hu, rfl⟩

theorem Within.bind {stop : β} {p : Scan β α} {f : α → Scan β γ} (hp : Within stop p)
    (hf : ∀ a, Within stop (f a)) : Within stop (p >>= f) := by
  intro u hu
  obtain ⟨a, v, hv, ha⟩ := hp u hu
  obtain ⟨c, w, hw, hc⟩ := hf a v hv
  exact ⟨c, w, hw, bind_eq_some.mpr ⟨a, v ++ [stop], ha, hc⟩⟩

/-! ### One step and loops -/

theorem accept_cons [DecidableEq β] (c b : β) (m : List β) :
    accept c (b :: m) = if b = c then some (true, m) else some (false, b :: m) := rfl

theorem Stable.accept [DecidableEq β] (c : β) : Stable (accept c) := by
  intro m a m' rest h
  cases m with
  | nil => cases h
  | cons b m =>
    rw [accept_cons] at h
    rw [List.cons_append, accept_cons]
    split_ifs at h ⊢ <;> cases h <;> rfl

theorem Within.accept [DecidableEq β] {stop c : β} (hc : c ≠ stop) : Within stop (accept c) := by
  intro u hu
  cases u with
  | nil => exact ⟨false, [], hu, if_neg fun h => hc h.symm⟩
  | cons b u =>
    by_cases hb : b = c
    · exact ⟨true, u, fun hm => hu (List.mem_cons_of_mem b hm), if_pos hb⟩
    · exact ⟨false, b :: u, hu, if_neg hb⟩

theorem Stable.loop (body : σ → β → Next σ) (s : σ) : Stable (loop body s) := by
  intro m
  induction m generalizing s with
  | nil =>
    intro a m' rest h
    cases h
  | cons b m ih =>
    intro a m' rest h
    rw [List.cons_append]
    unfold Scan.loop at h ⊢
    cases hb : body s b with
    | stay s' => rw [hb] at h; cases h; rfl
    | leave s' => rw [hb] at h; cases h; rfl
    | next s' => rw [hb] at h; exact ih s' a m' rest h

/-- While every pass goes on, the loop folds over the elements. -/
theorem loop_append {body : σ → β → Next σ} {f : σ → β → σ} {u : List β}
    (h : ∀ s, ∀ b ∈ u, body s b = .next (f s b)) (s : σ) (m : List β) :
    loop body s (u ++ m) = loop body (u.foldl f s) m := by
  induction u generalizing s with
  | nil => rfl
  | cons b u ih =>
    have hb := h s b List.mem_cons_self
    rw [List.cons_append, Scan.loop, hb, List.foldl_cons]
    exact ih (fun s' b' hb' => h s' b' (List.mem_cons_of_mem b hb')) (f s b)

/-- A loop whose passes break at the terminator stays within it. -/
theorem Within.loop {stop : β} {body : σ → β → Next σ} (h : ∀ s, ∃ s', body s stop = .stay s')
    (s : σ) : Within stop (loop body s) := by
  intro u
  induction u generalizing s with
  | nil =>
    intro hu
    obtain ⟨s', hs⟩ := h s
    exact ⟨s', [], hu, by simp only [List.nil_append, Scan.loop, hs]⟩
  | cons b u ih =>
    intro hu
    have hu' : stop ∉ u := fun hm => hu (List.mem_cons_of_mem b hm)
    rw [List.cons_append]
    unfold Scan.loop
    cases body s b with
    | stay s' => exact ⟨s', b :: u, hu, rfl⟩
    | leave s' => exact ⟨s', u, hu', rfl⟩
    | next s' => exact ih s' hu'

end Scan

end Trequests
