import Mathlib.Data.List.Nodup
import Mathlib.Data.Fintype.Card
import Mathlib.Logic.Function.Basic

/-! Memory made of cells that hold an item and a pointer to the next cell. To read, write
or release a cell that is not allocated is an error, so a computation that succeeds has
released nothing twice and used nothing after its release. A path is the sequence of the
cells from one pointer to another. -/

namespace Trequests

structure Cell (α : Type*) where
  item : α
  next : Option ℕ

/-- A memory in which finitely many cells are allocated. -/
structure Heap (α : Type*) where
  cell : ℕ → Option (Cell α)
  bound : ℕ
  unused : ∀ a, bound ≤ a → cell a = none

/-- An allocator gives the address of a cell that is not in use. It may give one that has
been released. -/
structure Allocator (α : Type*) where
  address : Heap α → ℕ
  unused : ∀ h : Heap α, h.cell (address h) = none

/-- The allocator that goes on behind all cells. -/
def Allocator.bump (α : Type*) : Allocator α := ⟨Heap.bound, fun h => h.unused _ (Nat.le_refl _)⟩

namespace Heap
variable {α : Type*} (h : Heap α)

def empty : Heap α := ⟨fun _ => none, 0, fun _ _ => rfl⟩

/-- A new cell. -/
def store (a : ℕ) (c : Cell α) : Heap α where
  cell := Function.update h.cell a (some c)
  bound := max h.bound (a + 1)
  unused b hb := by
    have hne : b ≠ a := by omega
    rw [Function.update_of_ne hne]
    exact h.unused b (by omega)

theorem lt_bound {a : ℕ} {c : Cell α} (ha : h.cell a = some c) : a < h.bound := by
  by_contra hle
  rw [h.unused a (Nat.le_of_not_lt hle)] at ha
  cases ha

/-- The cell, with another pointer. -/
def setNext (a : ℕ) (next : Option ℕ) : Option (Heap α) :=
  match ha : h.cell a with
  | none => none
  | some c => some
    { cell := Function.update h.cell a (some { c with next })
      bound := h.bound
      unused := fun b hb => by
        have hne : b ≠ a := fun he => Nat.not_lt_of_le hb (he ▸ h.lt_bound ha)
        rw [Function.update_of_ne hne]
        exact h.unused b hb }

/-- The release of a cell. -/
def free (a : ℕ) : Option (Heap α) :=
  match h.cell a with
  | none => none
  | some _ => some
    { cell := Function.update h.cell a none
      bound := h.bound
      unused := fun b hb => by
        by_cases hne : b = a
        · rw [hne, Function.update_self]
        · rw [Function.update_of_ne hne]
          exact h.unused b hb }

variable {h}

theorem setNext_of_cell {a : ℕ} {x : α} {n : Option ℕ} (ha : h.cell a = some ⟨x, n⟩)
    (next : Option ℕ) : ∃ h', h.setNext a next = some h' ∧ h'.bound = h.bound ∧
      h'.cell = Function.update h.cell a (some ⟨x, next⟩) := by
  unfold setNext
  split
  · rename_i he
    rw [ha] at he
    cases he
  · rename_i c he
    rw [ha] at he
    cases he
    exact ⟨_, rfl, rfl, rfl⟩

theorem free_of_cell {a : ℕ} {c : Cell α} (ha : h.cell a = some c) :
    ∃ h', h.free a = some h' ∧ h'.bound = h.bound ∧ h'.cell = Function.update h.cell a none := by
  unfold free
  rw [ha]
  exact ⟨_, rfl, rfl, rfl⟩

/-! ### Paths -/

variable (h) in
/-- The cells from a pointer to another, with their items. -/
def Path : Option ℕ → List (ℕ × α) → Option ℕ → Prop
  | p, [], q => p = q
  | p, (a, x) :: cs, q => p = some a ∧ ∃ n, h.cell a = some ⟨x, n⟩ ∧ Path n cs q

@[simp] theorem path_nil {p q : Option ℕ} : h.Path p [] q ↔ p = q := Iff.rfl

@[simp] theorem path_cons {p q : Option ℕ} {a : ℕ} {x : α} {cs : List (ℕ × α)} :
    h.Path p ((a, x) :: cs) q ↔ p = some a ∧ ∃ n, h.cell a = some ⟨x, n⟩ ∧ h.Path n cs q := Iff.rfl

theorem path_append {p q : Option ℕ} {cs ds : List (ℕ × α)} :
    h.Path p (cs ++ ds) q ↔ ∃ n, h.Path p cs n ∧ h.Path n ds q := by
  induction cs generalizing p with
  | nil => simp
  | cons c cs ih =>
    obtain ⟨a, x⟩ := c
    simp only [List.cons_append, path_cons, ih]
    constructor
    · rintro ⟨hp, n, ha, m, hcs, hds⟩
      exact ⟨m, ⟨hp, n, ha, hcs⟩, hds⟩
    · rintro ⟨m, ⟨hp, n, ha, hcs⟩, hds⟩
      exact ⟨hp, n, ha, m, hcs, hds⟩

/-- A path only depends on its own cells. -/
theorem Path.congr {h' : Heap α} {p q : Option ℕ} {cs : List (ℕ × α)} (hp : h.Path p cs q)
    (hc : ∀ a ∈ cs.map Prod.fst, h'.cell a = h.cell a) : h'.Path p cs q := by
  induction cs generalizing p with
  | nil => exact hp
  | cons c cs ih =>
    obtain ⟨hp, n, ha, hcs⟩ := hp
    refine ⟨hp, n, ?_, ih hcs fun b hb => hc b (List.mem_cons_of_mem _ hb)⟩
    rw [hc c.1 List.mem_cons_self, ha]

/-- The cells of a path are allocated. -/
theorem Path.allocated {p q : Option ℕ} {cs : List (ℕ × α)} (hp : h.Path p cs q) {a : ℕ}
    (ha : a ∈ cs.map Prod.fst) : ∃ c, h.cell a = some c := by
  induction cs generalizing p with
  | nil => cases ha
  | cons c cs ih =>
    obtain ⟨-, n, hc, hcs⟩ := hp
    rcases List.mem_cons.mp ha with rfl | ha
    · exact ⟨_, hc⟩
    · exact ih hcs ha

/-- The last cell of a path may be given another end. -/
theorem Path.setNext {p q : Option ℕ} {cs : List (ℕ × α)} {a : ℕ} {x : α}
    (hp : h.Path p (cs ++ [(a, x)]) q) (ha : a ∉ cs.map Prod.fst) (next : Option ℕ) :
    ∃ h', h.setNext a next = some h' ∧ h'.bound = h.bound ∧
      h'.cell = Function.update h.cell a (some ⟨x, next⟩) ∧ h'.Path p (cs ++ [(a, x)]) next := by
  obtain ⟨m, hcs, hm⟩ := path_append.mp hp
  obtain ⟨rfl, n, hc, -⟩ := hm
  obtain ⟨h', hs, hb, hcell⟩ := setNext_of_cell hc next
  refine ⟨h', hs, hb, hcell, path_append.mpr ⟨some a, hcs.congr fun b hb => ?_, rfl, next, ?_, rfl⟩⟩
  · have hne : b ≠ a := fun he => ha (he ▸ hb)
    rw [hcell, Function.update_of_ne hne]
  · rw [hcell, Function.update_self]

/-- A path that visits no cell twice has no more cells than the memory has room for. -/
theorem Path.length_le {p q : Option ℕ} {cs : List (ℕ × α)} (hp : h.Path p cs q)
    (hn : (cs.map Prod.fst).Nodup) : cs.length ≤ h.bound := by
  have hsub : (cs.map Prod.fst).Subperm (List.range h.bound) := by
    apply List.subperm_of_subset hn
    intro a ha
    obtain ⟨c, hc⟩ := hp.allocated ha
    exact List.mem_range.mpr (h.lt_bound hc)
  simpa using hsub.length_le

end Heap

end Trequests
