import Mathlib.Data.Int.Notation
import Mathlib.Data.List.Basic

/-! Blocks of memory as an allocator hands them out. A block is the list of its
cells, and a cell that has never been written holds nothing. A write names its
offset, and it is undefined as soon as one of its cells lies outside of the block. -/

namespace Trequests

abbrev Block (α : Type*) := List (Option α)

namespace Block
variable {α : Type*}

def alloc (n : ℕ) : Block α := List.replicate n none

/-- A block of another size; what fits of the old contents is kept. -/
def realloc (b : Block α) (n : ℕ) : Block α := b.take n ++ alloc (n - b.length)

/-- The block that holds exactly these elements. -/
def ofList (data : List α) : Block α := data.map some

/-- The write of the elements at an offset; `none` when one of them falls outside of
the block. -/
def write (b : Block α) (offset : ℤ) (data : List α) : Option (Block α) :=
  if 0 ≤ offset ∧ offset + data.length ≤ b.length then
    some (b.take offset.toNat ++ ofList data ++ b.drop (offset.toNat + data.length))
  else none

@[simp] theorem length_alloc (n : ℕ) : (alloc n : Block α).length = n := List.length_replicate

@[simp] theorem length_ofList (data : List α) : (ofList data).length = data.length :=
  List.length_map some

theorem realloc_nil (n : ℕ) : realloc ([] : Block α) n = alloc n := by
  simp [realloc]

@[simp] theorem length_realloc (b : Block α) (n : ℕ) : (b.realloc n).length = n := by
  rw [realloc, List.length_append, List.length_take, length_alloc]
  omega

/-- A block that has just been extended takes the new elements behind the old ones. -/
theorem write_realloc (data chunk : List α) :
    ((ofList data).realloc (data.length + chunk.length)).write data.length chunk =
      some (ofList (data ++ chunk)) := by
  have hold : ((ofList data).realloc (data.length + chunk.length)).take data.length =
      ofList data := by
    rw [realloc, List.take_append_of_le_length (by simp), List.take_take]
    exact List.take_of_length_le (by simp)
  have hrest : ((ofList data).realloc (data.length + chunk.length)).drop
      (data.length + chunk.length) = [] := List.drop_of_length_le (by simp)
  rw [write, if_pos (by simp), Int.toNat_natCast, hold, hrest, List.append_nil]
  exact congrArg some (List.map_append).symm

end Block

end Trequests
