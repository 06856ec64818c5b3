import Mathlib.Data.List.Perm.Basic
import Mathlib.Algebra.Order.Group.Nat

/-! # Numbered threads

The states of a fixed number of threads are a list, and a step replaces the entry of the thread that
takes it. What is counted or collected over all threads changes by what the entry loses and gains; the
equations are written with a sum on both sides, so that neither needs a subtraction.
-/

namespace WebServ.Machine

variable {α β : Type*} {entries : List α} {index : ℕ} {old : α}

/-- A condition counted over all entries. -/
theorem countP_set_add (condition : α → Bool) (here : entries[index]? = some old) (new : α) :
    (entries.set index new).countP condition + (if condition old then 1 else 0) =
      entries.countP condition + if condition new then 1 else 0 := by
  obtain ⟨bound, value⟩ := List.getElem?_eq_some_iff.mp here
  have counted : (if condition old then 1 else 0) ≤ entries.countP condition := by
    split_ifs with holds
    · exact List.countP_pos_iff.mpr ⟨old, List.mem_of_getElem? here, holds⟩
    · exact Nat.zero_le _
  rw [List.countP_set bound, value]
  omega

/-- What the entries contain together. -/
theorem flatMap_set_perm (content : α → List β) (here : entries[index]? = some old) (new : α) :
    ((entries.set index new).flatMap content ++ content old).Perm
      (entries.flatMap content ++ content new) := by
  induction entries generalizing index with
  | nil => cases here
  | cons first rest ih =>
    cases index with
    | zero =>
      cases here
      simp only [List.set_cons_zero, List.flatMap_cons, List.append_assoc]
      refine (List.perm_append_comm_assoc _ _ _).trans ?_
      refine List.Perm.trans ?_ (List.perm_append_comm_assoc _ _ _)
      exact List.perm_append_comm.append_left _
    | succ index =>
      simp only [List.set_cons_succ, List.flatMap_cons, List.append_assoc]
      exact (ih here).append_left _

end WebServ.Machine
