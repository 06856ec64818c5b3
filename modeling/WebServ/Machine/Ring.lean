import Mathlib.Data.List.Basic
import Mathlib.Data.List.Induction
import Mathlib.Data.Nat.ModEq

/-! # A list laid out in a ring of cells

`Holds cells first items` says that the cells from position `first` on, counted modulo the number of
cells, contain the items in order. Positions are taken modulo that number, so a caller may let them
grow or wrap them as it likes. The remaining cells may contain anything.
-/

namespace WebServ.Machine.Ring

variable {α : Type*} {cells items : List α} {first : ℕ} {item : α}

/-- The items lie in consecutive cells of the ring, the oldest at `first`. -/
structure Holds (cells : List α) (first : ℕ) (items : List α) : Prop where
  fits : items.length ≤ cells.length
  cell : ∀ offset < items.length, cells[(first + offset) % cells.length]? = items[offset]?

/-- Any position will do for an empty list. -/
theorem holds_nil (cells : List α) (first : ℕ) : Holds cells first [] where
  fits := Nat.zero_le _
  cell _ bound := absurd bound (Nat.not_lt_zero _)

/-- A list read by index. -/
theorem filterMap_range_getElem? (items : List α) :
    (List.range items.length).filterMap (items[·]?) = items := by
  induction items using List.reverseRecOn with
  | nil => rfl
  | append_singleton items item ih =>
    have before : ∀ offset ∈ List.range items.length, (items ++ [item])[offset]? = items[offset]? :=
      fun offset inside => List.getElem?_append_left (List.mem_range.mp inside)
    rw [List.length_append, List.length_singleton, List.range_succ, List.filterMap_append,
      List.filterMap_congr before, ih]
    simp

namespace Holds

/-- The cells in use, read in order. -/
theorem read (holds : Holds cells first items) :
    (List.range items.length).filterMap (fun offset => cells[(first + offset) % cells.length]?) = items := by
  rw [List.filterMap_congr fun offset inside => holds.cell offset (List.mem_range.mp inside)]
  exact filterMap_range_getElem? items

/-- Only the position in the ring matters. -/
theorem congr {other : ℕ} (holds : Holds cells first items)
    (same : other % cells.length = first % cells.length) : Holds cells other items where
  fits := holds.fits
  cell offset bound := by
    have shifted : (other + offset) % cells.length = (first + offset) % cells.length :=
      Nat.ModEq.add_right offset same
    rw [shifted]
    exact holds.cell offset bound

/-- The next free cell is not one of those in use. -/
theorem free_ne (room : items.length < cells.length) {offset : ℕ} (bound : offset < items.length) :
    (first + items.length) % cells.length ≠ (first + offset) % cells.length := by
  intro same
  have equal : items.length % cells.length = offset % cells.length :=
    Nat.ModEq.add_left_cancel' first same
  rw [Nat.mod_eq_of_lt room, Nat.mod_eq_of_lt (bound.trans room)] at equal
  exact bound.ne equal.symm

/-- An item is stored in the next free cell. -/
theorem push (holds : Holds cells first items) (room : items.length < cells.length) (item : α) :
    Holds (cells.set ((first + items.length) % cells.length) item) first (items ++ [item]) where
  fits := by
    rw [List.length_set, List.length_append]
    exact room
  cell offset bound := by
    have positive : 0 < cells.length := Nat.zero_lt_of_lt room
    rw [List.length_set]
    rw [List.length_append, List.length_singleton, Nat.lt_succ_iff_lt_or_eq] at bound
    rcases bound with inside | rfl
    · rw [List.getElem?_set_ne (free_ne room inside), holds.cell offset inside,
        List.getElem?_append_left inside]
    · rw [List.getElem?_set_self (Nat.mod_lt _ positive), List.getElem?_concat_length]

/-- The oldest item lies in the first cell. -/
theorem head (holds : Holds cells first (item :: items)) : cells[first % cells.length]? = some item :=
  holds.cell 0 (Nat.succ_pos _)

/-- Without the oldest item the list begins one cell later. -/
theorem tail (holds : Holds cells first (item :: items)) : Holds cells (first + 1) items where
  fits := Nat.le_of_succ_le holds.fits
  cell offset bound := by
    rw [Nat.add_assoc, Nat.add_comm 1]
    exact holds.cell (offset + 1) (Nat.succ_lt_succ bound)

/-- The newest item lies in the last cell in use. -/
theorem last (holds : Holds cells first (items ++ [item])) :
    cells[(first + items.length) % cells.length]? = some item := by
  have newest := holds.cell items.length (by simp)
  rwa [List.getElem?_concat_length] at newest

end Holds

end WebServ.Machine.Ring
