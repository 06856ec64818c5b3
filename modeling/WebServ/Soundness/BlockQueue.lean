import WebServ.Proofs.BlockQueue
import WebServ.Machine.Path

/-! # The blocking queue is a bounded FIFO list

`Fifo` says which results a bounded list may give to the calls, without indexes, locks or waits. Every
locked section of the ring buffer that ends a call is one step of it, and the sections that only begin
to wait or go on waiting are none.
-/

namespace WebServ.Logging

open WebServ.Machine

variable {α : Type*}

/-- What a list of bounded length returns to a call, and the list afterwards. A `pop` without an element
may always return: the wait has failed, or the time is up. -/
inductive Fifo.Allows (capacity : ℕ) (items : List α) : Return α → List α → Prop where
  | pushed {item : α} (room : items.length < capacity) :
      Allows capacity items (.push item true) (items ++ [item])
  | refused {item : α} (full : capacity ≤ items.length) : Allows capacity items (.push item false) items
  | popped {thread : ℕ} {item : α} {rest : List α} (oldest : items = item :: rest) :
      Allows capacity items (.pop thread (some item)) rest
  | gaveUp {thread : ℕ} : Allows capacity items (.pop thread none) items
  | cleared : Allows capacity items .clear []
  | size : Allows capacity items (.size items.length) items
  | full : Allows capacity items (.full (decide (capacity ≤ items.length))) items
  | empty : Allows capacity items (.empty items.isEmpty) items
  | back : Allows capacity items (.back items.getLast?) items

/-- The calls return, in this order, what the list allows, starting with the empty list. -/
inductive Fifo.Behaves (capacity : ℕ) : List (Return α) → List α → Prop where
  | nil : Behaves capacity [] []
  | snoc {returned : List (Return α)} {items next : List α} {result : Return α}
      (before : Behaves capacity returned items) (allowed : Fifo.Allows capacity items result next) :
      Behaves capacity (returned ++ [result]) next

namespace Shared

open BlockQueue (Represents)

/-- What a step does to the queue and to the calls that have returned: it leaves both alone, or it is the
locked section that ends a call. -/
inductive Effect (shared : Shared α) : Shared α → Prop where
  | goesOn {next : Shared α} (queue : next.queue = shared.queue)
      (undefined : next.undefined = shared.undefined) (returned : next.returned = shared.returned) :
      Effect shared next
  | pushes (item : α) : Effect shared (shared.returnPush item)
  | takes (thread : ℕ) (nonempty : ¬ shared.queue.mSize ≤ 0) : Effect shared (shared.takeItem thread)
  | givesUp (thread : ℕ) : Effect shared (shared.giveUp thread)
  | clears : Effect shared ({ shared with queue := shared.queue.clear }.returns .clear)
  | sizes : Effect shared (shared.returns (.size shared.queue.mSize))
  | fulls : Effect shared (shared.returns (.full shared.queue.full))
  | empties : Effect shared (shared.returns (.empty shared.queue.empty))
  | backs : Effect shared shared.returnBack

theorem effect_of_step {shared next : Shared α} {event : QueueEvent α}
    (stepped : shared.step event = some next) : Effect shared next := by
  cases taken_of_step stepped with
  | advance usec => exact .goesOn rfl rfl rfl
  | push item => exact .pushes item
  | waits _ => exact .goesOn rfl rfl rfl
  | calls => exact .goesOn rfl rfl rfl
  | timewaits _ _ => exact .goesOn rfl rfl rfl
  | waitsOn _ _ => exact .goesOn rfl rfl rfl
  | takes thread _ nonempty => exact .takes thread nonempty
  | givesUp _ => exact .givesUp _
  | clear => exact .clears
  | size => exact .sizes
  | full => exact .fulls
  | empty => exact .empties
  | back => exact .backs

/-- The ring buffer represents the list that the calls so far have left. -/
structure Simulates (capacity : Capacity) (shared : Shared α) (items : List α) : Prop where
  represents : Represents capacity shared.queue items
  defined : shared.undefined = false
  behaves : Fifo.Behaves capacity.value shared.returned items

theorem simulates_initial [Inhabited α] (capacity : Capacity) (clock : ℕ) :
    Simulates capacity (initial capacity clock : Shared α) [] where
  represents := BlockQueue.represents_initial capacity
  defined := rfl
  behaves := .nil

variable {capacity : Capacity} {shared next : Shared α} {items after : List α}

namespace Simulates

/-- A call returns what the list allows. -/
theorem returns (simulates : Simulates capacity shared items) {queue : BlockQueue α}
    {result : Return α} (represents : Represents capacity queue after)
    (allowed : Fifo.Allows capacity.value items result after) :
    Simulates capacity ({ shared with queue }.returns result) after where
  represents := represents
  defined := simulates.defined
  behaves := .snoc simulates.behaves allowed

/-- Where a thread stands in its `pop` does not matter to the list. -/
theorem setPopping (simulates : Simulates capacity shared items) (thread : ℕ)
    (popping : Option Popping) : Simulates capacity (shared.setPopping thread popping) items :=
  { simulates with }

theorem giveUp (simulates : Simulates capacity shared items) (thread : ℕ) :
    Simulates capacity (shared.giveUp thread) items := by
  apply (simulates.setPopping thread none).returns simulates.represents
  exact .gaveUp

/-- A `pop` that has found the queue not empty. -/
theorem takeItem (simulates : Simulates capacity shared items) (thread : ℕ)
    (nonempty : ¬ shared.queue.mSize ≤ 0) :
    ∃ after, Simulates capacity (shared.takeItem thread) after := by
  rw [simulates.represents.isEmpty] at nonempty
  obtain ⟨item, rest, rfl⟩ := List.exists_cons_of_ne_nil nonempty
  obtain ⟨queue, taken, represents⟩ := simulates.represents.take
  rw [Shared.takeItem, taken]
  refine ⟨rest, ?_⟩
  apply (simulates.setPopping thread none).returns represents
  exact .popped rfl

theorem returnPush (simulates : Simulates capacity shared items) (item : α) :
    ∃ after, Simulates capacity (shared.returnPush item) after := by
  rw [Shared.returnPush]
  rcases Nat.lt_or_ge items.length capacity.value with room | full
  · obtain ⟨queue, pushed, represents⟩ := simulates.represents.push room _
    rw [pushed]
    exact ⟨_, simulates.returns represents (.pushed room)⟩
  · rw [simulates.represents.push_full full]
    exact ⟨_, simulates.returns simulates.represents (.refused full)⟩

theorem returnBack (simulates : Simulates capacity shared items) :
    Simulates capacity shared.returnBack items := by
  rw [Shared.returnBack, simulates.represents.back_eq]
  exact simulates.returns simulates.represents .back

/-- Every step is one of the list, or none. -/
theorem step {event : QueueEvent α} (simulates : Simulates capacity shared items)
    (stepped : shared.step event = some next) : ∃ after, Simulates capacity next after := by
  have represents := simulates.represents
  cases effect_of_step stepped with
  | goesOn queue undefined returned =>
    exact ⟨items, queue ▸ represents, undefined ▸ simulates.defined, returned ▸ simulates.behaves⟩
  | pushes item => exact simulates.returnPush item
  | takes thread nonempty => exact simulates.takeItem thread nonempty
  | givesUp thread => exact ⟨items, simulates.giveUp thread⟩
  | clears => exact ⟨[], simulates.returns represents.clear .cleared⟩
  | sizes =>
    rw [represents.size]
    exact ⟨items, simulates.returns represents .size⟩
  | fulls =>
    have same : shared.queue.full = decide (capacity.value ≤ items.length) :=
      decide_eq_decide.mpr represents.isFull
    rw [same]
    exact ⟨items, simulates.returns represents .full⟩
  | empties =>
    have same : shared.queue.empty = items.isEmpty := by
      rw [BlockQueue.empty, represents.size]
      cases items with
      | nil => rfl
      | cons item rest => simp; omega
    rw [same]
    exact ⟨items, simulates.returns represents .empty⟩
  | backs => exact ⟨items, simulates.returnBack⟩

end Simulates

/-- In every run, with any interleaving and any wake-ups, no call leaves the array, and the calls return
what one list of at most `max_size` elements returns to them: `push` appends if there is room, `pop`
takes the oldest element, `back` reads the newest. -/
theorem behaves_as_fifo [Inhabited α] (capacity : Capacity) (clock : ℕ) (events : List (QueueEvent α))
    (shared : Shared α) (ran : run step (initial capacity clock) events = some shared) :
    shared.undefined = false ∧
      ∃ items, Fifo.Behaves capacity.value shared.returned items ∧ shared.queue.mSize = items.length := by
  have preserved : ∀ (before : Shared α) (event : QueueEvent α) (after : Shared α),
      (∃ items, Simulates capacity before items) → step before event = some after →
        ∃ items, Simulates capacity after items := by
    rintro before event after ⟨items, simulates⟩ stepped
    exact simulates.step stepped
  obtain ⟨items, simulates⟩ := invariant preserved ⟨[], simulates_initial capacity clock⟩ ran
  exact ⟨simulates.defined, items, simulates.behaves, simulates.represents.size⟩

/-- Two consumers wait, one element wakes both, the ring of two cells wraps, and `clear` comes in the
middle. -/
theorem behaves_as_fifo_wrapped : ∃ shared : Shared ℕ, shared.undefined = false ∧
    ∃ items, Fifo.Behaves 2 shared.returned items ∧ shared.queue.mSize = items.length :=
  ⟨_, behaves_as_fifo ⟨2, by decide, by decide⟩ 0
    [.pop 1, .timedPop 2 5, .timedLock 2, .wake 1, .push 10, .wake 1, .push 11, .push 12, .push 13, .wake 2,
      .push 14, .back, .pop 1, .clear, .size, .push 15, .full, .empty, .back, .pop 3]
    _ (Option.some_get (by decide +kernel)).symm⟩

end Shared

end WebServ.Logging
