import Mathlib.Data.List.Perm.Subperm

/-! # The first free number

A table that hands out the lowest number not in use, as a kernel does with its descriptors. Which numbers
are in use is a list. The number handed out is below a bound exactly if the numbers below the bound are not
all in use, and with distinct numbers that is a matter of counting them.
-/

namespace WebServ.Machine

/-- The lowest number that is not in the list. -/
def firstFree (used : List ℕ) : ℕ :=
  ((List.range (used.length + 1)).find? (· ∉ used)).getD used.length

variable {used : List ℕ} {number : ℕ}

/-- One of the first numbers is free. -/
theorem exists_free (used : List ℕ) : ∃ number ∈ List.range (used.length + 1), number ∉ used := by
  by_contra taken
  have subset : List.range (used.length + 1) ⊆ used := by
    intro number member
    by_contra free
    exact taken ⟨number, member, free⟩
  have short := (List.subperm_of_subset List.nodup_range subset).length_le
  rw [List.length_range] at short
  exact Nat.not_succ_le_self _ short

theorem find_firstFree (used : List ℕ) :
    (List.range (used.length + 1)).find? (· ∉ used) = some (firstFree used) := by
  obtain ⟨number, member, free⟩ := exists_free used
  have found : ((List.range (used.length + 1)).find? (· ∉ used)).isSome :=
    List.find?_isSome.mpr ⟨number, member, by simpa using free⟩
  rw [firstFree]
  exact (Option.some_get found).symm.trans (congrArg some (Option.get_eq_getD _))

theorem firstFree_notMem (used : List ℕ) : firstFree used ∉ used := by
  simpa using List.find?_some (find_firstFree used)

theorem mem_of_lt_firstFree (less : number < firstFree used) : number ∈ used := by
  obtain ⟨_, _, below⟩ := List.find?_range_eq_some.mp (find_firstFree used)
  simpa using below number less

/-- The two facts determine it. -/
theorem firstFree_eq (free : number ∉ used) (below : ∀ other < number, other ∈ used) :
    firstFree used = number := by
  rcases Nat.lt_trichotomy (firstFree used) number with less | same | more
  · exact absurd (below _ less) (firstFree_notMem used)
  · exact same
  · exact absurd (mem_of_lt_firstFree more) free

/-- With distinct numbers in use, the next one is below the bound exactly if fewer than that many of them
are. -/
theorem firstFree_lt_iff (distinct : used.Nodup) (bound : ℕ) :
    firstFree used < bound ↔ used.countP (· < bound) < bound := by
  rw [List.countP_eq_length_filter]
  constructor
  · intro less
    have subset : firstFree used :: used.filter (· < bound) ⊆ List.range bound := by
      intro number member
      rw [List.mem_range]
      rcases List.mem_cons.mp member with rfl | inUse
      · exact less
      · exact of_decide_eq_true (List.mem_filter.mp inUse).2
    have fresh : firstFree used ∉ used.filter (· < bound) :=
      fun inUse => firstFree_notMem used (List.mem_filter.mp inUse).1
    have short := (List.subperm_of_subset
      (List.nodup_cons.mpr ⟨fresh, distinct.filter _⟩) subset).length_le
    rw [List.length_cons, List.length_range] at short
    exact short
  · intro few
    by_contra large
    have subset : List.range bound ⊆ used.filter (· < bound) := by
      intro number member
      have below := List.mem_range.mp member
      have inUse := mem_of_lt_firstFree (Nat.lt_of_lt_of_le below (Nat.le_of_not_lt large))
      exact List.mem_filter.mpr ⟨inUse, decide_eq_true below⟩
    have long := (List.subperm_of_subset List.nodup_range subset).length_le
    rw [List.length_range] at long
    exact Nat.not_lt.mpr long few

end WebServ.Machine
