import Mathlib.Data.List.Perm.Basic
import Mathlib.Data.List.Nodup

/-! # Lists whose elements have distinct keys

A table kept as a list is addressed by a key of its elements. Distinct keys make the entry with a key
unique, so that removing it by key removes exactly one element, and a change of one entry can be
carried through to a list that is equal to the table's image up to order.
-/

namespace WebServ.Machine

variable {α β : Type*} {key : α → β} {entries : List α} {entry : α}

/-- Equal keys belong to the same entry. -/
theorem eq_of_key_eq (unique : (entries.map key).Nodup) {other : α} (member : entry ∈ entries)
    (present : other ∈ entries) (same : key other = key entry) : other = entry :=
  List.inj_on_of_nodup_map unique present member same

/-- Removing by key takes out exactly the entry. -/
theorem perm_cons_filter_key [DecidableEq β] (unique : (entries.map key).Nodup)
    (member : entry ∈ entries) :
    entries.Perm (entry :: entries.filter fun other => key other ≠ key entry) := by
  induction entries with
  | nil => simp at member
  | cons first rest ih =>
    obtain ⟨absent, unique⟩ := List.nodup_cons.mp unique
    rcases List.mem_cons.mp member with rfl | member
    · have others : rest.filter (fun other => key other ≠ key entry) = rest := by
        apply List.filter_eq_self.mpr
        intro other present
        have differ : key other ≠ key entry := fun same => absent (same ▸ List.mem_map_of_mem present)
        simpa using differ
      rw [List.filter_cons_of_neg (by simp), others]
    · have differ : key first ≠ key entry := fun same => absent (same ▸ List.mem_map_of_mem member)
      rw [List.filter_cons_of_pos (by simpa using differ)]
      exact ((ih unique member).cons first).trans (List.Perm.swap entry first _)

end WebServ.Machine
