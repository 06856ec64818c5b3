import Mathlib.Data.List.Basic
import Mathlib.Data.Option.Basic

/-! # Doubly linked segments

A memory maps addresses to nodes with a pointer to the node before and one to the node behind; a null
pointer is `none`. `Linked before nodes after` says that the nodes, in this order, are linked both ways,
that the first points back to `before` and the last on to `after`. A segment may be cut anywhere and put
together again, depends on its own nodes only, and its outer pointers are changed one at a time.
-/

namespace WebServ.Machine.DoublyLinked

variable {ι ν : Type*} (prev next : ν → Option ι)

/-- The pointer to the first node of a segment, or past an empty one. -/
def enter (nodes : List ι) (after : Option ι) : Option ι := nodes.head?.or after

/-- The pointer to the last node of a segment, or in front of an empty one. -/
def leave (before : Option ι) (nodes : List ι) : Option ι := nodes.getLast?.or before

/-- The nodes are linked both ways between two pointers. -/
def Linked (memory : ι → Option ν) : Option ι → List ι → Option ι → Prop
  | _, [], _ => True
  | before, first :: rest, after =>
      (∃ node, memory first = some node ∧ prev node = before ∧ next node = enter rest after) ∧
        Linked memory (some first) rest after

@[simp] theorem enter_nil (after : Option ι) : enter [] after = after := rfl

@[simp] theorem enter_cons (first : ι) (rest : List ι) (after : Option ι) :
    enter (first :: rest) after = some first := rfl

@[simp] theorem leave_nil (before : Option ι) : leave before ([] : List ι) = before := rfl

@[simp] theorem leave_concat (before : Option ι) (nodes : List ι) (last : ι) :
    leave before (nodes ++ [last]) = some last := by
  rw [leave, List.getLast?_concat, Option.some_or]

theorem enter_append (first second : List ι) (after : Option ι) :
    enter (first ++ second) after = enter first (enter second after) := by
  cases first <;> rfl

theorem leave_cons (before : Option ι) (first : ι) (rest : List ι) :
    leave before (first :: rest) = leave (some first) rest := by
  rw [leave, leave, List.getLast?_cons]
  cases rest.getLast? <;> rfl

variable {prev next} {memory changed : ι → Option ν} {before after : Option ι} {nodes : List ι} {place : ι}

/-- A segment is cut in two. -/
theorem linked_append (first second : List ι) : Linked prev next memory before (first ++ second) after ↔
    Linked prev next memory before first (enter second after) ∧
      Linked prev next memory (leave before first) second after := by
  induction first generalizing before with
  | nil => simp only [List.nil_append, Linked, true_and, leave_nil]
  | cons head rest ih => simp only [List.cons_append, Linked, enter_append, ih, leave_cons, and_assoc]

/-- A single node. -/
theorem linked_singleton {node : ν} (found : memory place = some node) :
    Linked prev next memory (prev node) [place] (next node) := ⟨⟨node, found, rfl, rfl⟩, trivial⟩

namespace Linked

/-- A segment depends on the pointers of its nodes only. -/
theorem retain (linked : Linked prev next memory before nodes after)
    (kept : ∀ place ∈ nodes, ∀ node, memory place = some node →
      ∃ new, changed place = some new ∧ prev new = prev node ∧ next new = next node) :
    Linked prev next changed before nodes after := by
  induction nodes generalizing before with
  | nil => trivial
  | cons first rest ih =>
    obtain ⟨here, others⟩ := List.forall_mem_cons.mp kept
    obtain ⟨⟨node, found, back, forward⟩, tail⟩ := linked
    obtain ⟨new, present, samePrev, sameNext⟩ := here node found
    exact ⟨⟨new, present, samePrev.trans back, sameNext.trans forward⟩, ih tail others⟩

/-- A segment depends on its own nodes only. -/
theorem congr (linked : Linked prev next memory before nodes after)
    (same : ∀ place ∈ nodes, changed place = memory place) :
    Linked prev next changed before nodes after :=
  linked.retain fun place member node found => ⟨node, (same place member).trans found, rfl, rfl⟩

/-- The first node points back elsewhere. -/
theorem setBefore {rest : List ι} (linked : Linked prev next memory before (place :: rest) after)
    (other : Option ι)
    (relinked : ∀ node, memory place = some node →
      ∃ new, changed place = some new ∧ prev new = other ∧ next new = next node)
    (same : ∀ query ∈ rest, changed query = memory query) :
    Linked prev next changed other (place :: rest) after := by
  obtain ⟨⟨node, found, _, forward⟩, tail⟩ := linked
  obtain ⟨new, present, back, kept⟩ := relinked node found
  exact ⟨⟨new, present, back, kept.trans forward⟩, tail.congr same⟩

/-- The last node points on elsewhere. -/
theorem setAfter (linked : Linked prev next memory before (nodes ++ [place]) after) (other : Option ι)
    (relinked : ∀ node, memory place = some node →
      ∃ new, changed place = some new ∧ prev new = prev node ∧ next new = other)
    (same : ∀ query ∈ nodes, changed query = memory query) :
    Linked prev next changed before (nodes ++ [place]) other := by
  obtain ⟨front, ⟨node, found, back, _⟩, _⟩ := (linked_append nodes [place]).mp linked
  obtain ⟨new, present, kept, forward⟩ := relinked node found
  refine (linked_append nodes [place]).mpr ⟨front.congr same, ?_, trivial⟩
  exact ⟨new, present, kept.trans back, forward⟩

end Linked

end WebServ.Machine.DoublyLinked
