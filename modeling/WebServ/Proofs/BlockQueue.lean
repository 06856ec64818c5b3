import WebServ.Model.BlockQueue
import WebServ.Machine.Ring
import Mathlib.Data.Int.ModEq

/-! # The ring buffer of the blocking queue

`m_front` is the index of the element taken last and `m_back` that of the element stored last, both -1
before the first use. `Represents` is the relation between the fields and the list of the queued
elements, oldest first; one lemma for each operation says what it does to that list.
-/

namespace WebServ.Logging

open WebServ.Machine

variable {α : Type*}

namespace BlockQueue

/-- The queued elements, oldest first: `m_size` cells from the one behind `m_front` on. -/
def contents (queue : BlockQueue α) : List α :=
  (List.range queue.mSize.toNat).filterMap fun (offset : ℕ) =>
    queue.load ((queue.mFront + 1 + offset).tmod queue.mMaxSize)

/-- The fields hold exactly these elements, oldest first. -/
structure Represents (capacity : Capacity) (queue : BlockQueue α) (items : List α) : Prop where
  array : queue.mArray.length = capacity.value
  maxSize : queue.mMaxSize = capacity.value
  size : queue.mSize = items.length
  front : -1 ≤ queue.mFront ∧ queue.mFront < capacity.value
  back : -1 ≤ queue.mBack ∧ queue.mBack < capacity.value
  stored : items ≠ [] → 0 ≤ queue.mBack
  wraps : (queue.mBack + 1) % capacity.value = (queue.mFront + 1 + items.length) % capacity.value
  holds : Ring.Holds queue.mArray (queue.mFront + 1).toNat items

theorem represents_initial [Inhabited α] (capacity : Capacity) :
    Represents capacity (initial capacity : BlockQueue α) [] where
  array := List.length_replicate
  maxSize := rfl
  size := rfl
  front := ⟨le_refl _, by simp only [initial]; omega⟩
  back := ⟨le_refl _, by simp only [initial]; omega⟩
  stored nonempty := absurd rfl nonempty
  wraps := rfl
  holds := Ring.holds_nil _ _

variable {capacity : Capacity} {queue : BlockQueue α} {items : List α} {item : α}

namespace Represents

/-- No more elements than the capacity. -/
theorem length_le (represents : Represents capacity queue items) : items.length ≤ capacity.value :=
  represents.array ▸ represents.holds.fits

/-- The position of the oldest element, before it is wrapped. -/
theorem first (represents : Represents capacity queue items) :
    ((queue.mFront + 1).toNat : ℤ) = queue.mFront + 1 :=
  Int.toNat_of_nonneg (by have := represents.front.1; omega)

/-- The cell that follows the one stored last. -/
theorem nextBack (represents : Represents capacity queue items) :
    (queue.mBack + 1).tmod queue.mMaxSize =
      ((((queue.mFront + 1).toNat + items.length) % queue.mArray.length : ℕ) : ℤ) := by
  have nonneg : 0 ≤ queue.mBack + 1 := by
    have := represents.back.1
    omega
  rw [represents.maxSize, Int.tmod_eq_emod_of_nonneg nonneg, represents.wraps, represents.array,
    Int.natCast_emod, Nat.cast_add, represents.first]

/-- The cell of the oldest element. -/
theorem nextFront (represents : Represents capacity queue items) :
    (queue.mFront + 1).tmod queue.mMaxSize =
      (((queue.mFront + 1).toNat % queue.mArray.length : ℕ) : ℤ) := by
  have nonneg : 0 ≤ queue.mFront + 1 := by
    have := represents.front.1
    omega
  rw [represents.maxSize, Int.tmod_eq_emod_of_nonneg nonneg, represents.array, Int.natCast_emod,
    represents.first]

theorem isFull (represents : Represents capacity queue items) :
    queue.mMaxSize ≤ queue.mSize ↔ capacity.value ≤ items.length := by
  rw [represents.maxSize, represents.size, Int.ofNat_le]

theorem isEmpty (represents : Represents capacity queue items) : queue.mSize ≤ 0 ↔ items = [] := by
  rw [represents.size, ← List.length_eq_zero_iff]
  omega

/-- A cell of the array is read. -/
theorem load_natCast (queue : BlockQueue α) (index : ℕ) : queue.load index = queue.mArray[index]? := by
  rw [load, if_neg (Int.not_lt.mpr (Int.natCast_nonneg index)), Int.toNat_natCast]

theorem contents_eq (represents : Represents capacity queue items) : queue.contents = items := by
  rw [contents, represents.size, Int.toNat_natCast]
  refine Eq.trans (List.filterMap_congr fun offset _ => ?_) represents.holds.read
  have position : queue.mFront + 1 + offset = (((queue.mFront + 1).toNat + offset : ℕ) : ℤ) := by
    rw [Nat.cast_add, represents.first]
  rw [position, represents.maxSize, ← represents.array, ← Int.ofNat_tmod, load_natCast]

theorem clear (represents : Represents capacity queue items) : Represents capacity queue.clear [] where
  array := represents.array
  maxSize := represents.maxSize
  size := rfl
  front := ⟨le_refl _, by simp only [BlockQueue.clear]; omega⟩
  back := ⟨le_refl _, by simp only [BlockQueue.clear]; omega⟩
  stored nonempty := absurd rfl nonempty
  wraps := rfl
  holds := Ring.holds_nil _ _

/-- A full queue refuses the element. -/
theorem push_full (represents : Represents capacity queue items)
    (full : capacity.value ≤ items.length) : queue.push item = some (false, queue) :=
  if_pos (represents.isFull.mpr full)

/-- A queue with room appends it. -/
theorem push (represents : Represents capacity queue items) (room : items.length < capacity.value) (item : α) :
    ∃ next, queue.push item = some (true, next) ∧ Represents capacity next (items ++ [item]) := by
  have notFull : ¬ queue.mMaxSize ≤ queue.mSize := by
    rw [represents.isFull]
    exact Nat.not_le.mpr room
  have inside : ((queue.mFront + 1).toNat + items.length) % queue.mArray.length < queue.mArray.length :=
    Nat.mod_lt _ (represents.array ▸ capacity.pos)
  have pushed := represents.holds.push (represents.array ▸ room) item
  simp only [BlockQueue.push, notFull, ↓reduceIte, represents.nextBack, Int.natCast_nonneg, Int.ofNat_lt,
    inside, and_self, Int.toNat_natCast]
  refine ⟨_, rfl, ?_⟩
  rw [represents.array] at inside
  constructor
  · exact List.length_set.trans represents.array
  · exact represents.maxSize
  · rw [List.length_append, Nat.cast_add, represents.size]
    rfl
  · exact represents.front
  · dsimp only
    rw [represents.array]
    omega
  · exact fun _ => Int.natCast_nonneg _
  · dsimp only
    rw [represents.array, Int.natCast_emod, Int.emod_add_emod, Nat.cast_add, represents.first,
      List.length_append, Nat.cast_add, List.length_singleton, Nat.cast_one, ← Int.add_assoc]
  · exact pushed

/-- The oldest element is taken. -/
theorem take (represents : Represents capacity queue (item :: items)) :
    ∃ next, queue.take = some (item, next) ∧ Represents capacity next items := by
  have inside : (queue.mFront + 1).toNat % queue.mArray.length < queue.mArray.length :=
    Nat.mod_lt _ (represents.array ▸ capacity.pos)
  simp only [BlockQueue.take, represents.nextFront, load_natCast, represents.holds.head, Option.map_some]
  refine ⟨_, rfl, ?_⟩
  rw [represents.array] at inside
  constructor
  · exact represents.array
  · exact represents.maxSize
  · dsimp only
    rw [represents.size, List.length_cons, Nat.cast_succ]
    omega
  · dsimp only
    rw [represents.array]
    omega
  · exact represents.back
  · exact fun _ => represents.stored (List.cons_ne_nil item items)
  · dsimp only
    rw [represents.wraps, represents.array, Int.natCast_emod, represents.first,
      Int.add_assoc ((queue.mFront + 1) % _), Int.emod_add_emod, List.length_cons, Nat.cast_succ,
      Int.add_comm 1 (items.length : ℤ)]
  · apply represents.holds.tail.congr
    dsimp only
    rw [← Nat.cast_succ, Int.toNat_natCast]
    exact Nat.mod_add_mod _ _ 1

/-- The newest element is read. -/
theorem back_concat (represents : Represents capacity queue (items ++ [item])) :
    queue.back = some (some item) := by
  have nonneg : 0 ≤ queue.mBack := represents.stored (List.append_ne_nil_of_right_ne_nil _ (by simp))
  have cell : queue.mBack = (((queue.mFront + 1).toNat + items.length) % queue.mArray.length : ℕ) := by
    have wraps := represents.wraps
    rw [List.length_append, List.length_singleton, Nat.cast_add, Nat.cast_one, ← Int.add_assoc] at wraps
    have same : queue.mBack % capacity.value = (queue.mFront + 1 + items.length) % capacity.value :=
      Int.ModEq.add_right_cancel' 1 wraps
    rw [Int.emod_eq_of_lt nonneg represents.back.2] at same
    rw [same, represents.array, Int.natCast_emod, Nat.cast_add, represents.first]
  have nonempty : ¬ 0 = queue.mSize := by
    rw [represents.size, List.length_append, List.length_singleton]
    omega
  rw [BlockQueue.back, if_neg nonempty, cell, load_natCast, represents.holds.last, Option.map_some]

/-- `back` yields the newest element of a queue that is not empty. -/
theorem back_eq (represents : Represents capacity queue items) : queue.back = some items.getLast? := by
  rcases List.eq_nil_or_concat items with rfl | ⟨others, newest, rfl⟩
  · exact if_pos represents.size.symm
  · rw [List.concat_eq_append] at represents ⊢
    rw [represents.back_concat, List.getLast?_concat]

end Represents

end BlockQueue

/-! ## What the threads do -/

namespace Shared

variable {shared next : Shared α} {event : QueueEvent α}

/-- Why a `pop` returns false. -/
inductive Cause (shared : Shared α) (thread : ℕ) : QueueEvent α → Prop where
  | emptied {now : ℕ} {msTimeout : ℤ} {t : Timespec}
      (waits : shared.popping thread = some (.timewaiting now msTimeout t))
      (empty : shared.queue.mSize ≤ 0) : Cause shared thread (.wake thread)
  | timeIsUp {now : ℕ} {msTimeout : ℤ} {t : Timespec}
      (waits : shared.popping thread = some (.timewaiting now msTimeout t))
      (passed : t.Passed shared.clock) : Cause shared thread (.timeout thread)
  | waitFails : Cause shared thread (.waitFails thread)

/-- What each step does. -/
inductive Taken (shared : Shared α) : QueueEvent α → Shared α → Prop where
  | advance (usec : ℕ) : Taken shared (.advance usec) { shared with clock := shared.clock + usec }
  | push (item : α) : Taken shared (.push item) (shared.returnPush item)
  | waits {thread : ℕ} (empty : shared.queue.mSize ≤ 0) :
      Taken shared (.pop thread) (shared.setPopping thread (some .waiting))
  | calls {thread : ℕ} {msTimeout : ℤ} :
      Taken shared (.timedPop thread msTimeout)
        (shared.setPopping thread (some (.called shared.clock msTimeout)))
  | timewaits {thread now : ℕ} {msTimeout : ℤ} (called : shared.popping thread = some (.called now msTimeout))
      (empty : shared.queue.mSize ≤ 0) :
      Taken shared (.timedLock thread)
        (shared.setPopping thread (some (.timewaiting now msTimeout (deadline now msTimeout))))
  | waitsOn {thread : ℕ} (waits : shared.popping thread = some .waiting) (empty : shared.queue.mSize ≤ 0) :
      Taken shared (.wake thread) shared
  | takes {event : QueueEvent α} (thread : ℕ)
      (isPop : event = .pop thread ∨ event = .timedLock thread ∨ event = .wake thread)
      (nonempty : ¬ shared.queue.mSize ≤ 0) : Taken shared event (shared.takeItem thread)
  | givesUp {event : QueueEvent α} {thread : ℕ} (cause : Cause shared thread event) :
      Taken shared event (shared.giveUp thread)
  | clear : Taken shared .clear ({ shared with queue := shared.queue.clear }.returns .clear)
  | size : Taken shared .size (shared.returns (.size shared.queue.mSize))
  | full : Taken shared .full (shared.returns (.full shared.queue.full))
  | empty : Taken shared .empty (shared.returns (.empty shared.queue.empty))
  | back : Taken shared .back shared.returnBack

/-- The step function does nothing else. -/
theorem taken_of_step (stepped : shared.step event = some next) : Taken shared event next := by
  cases event with
  | advance usec =>
    cases stepped
    exact .advance usec
  | push item =>
    cases stepped
    exact .push item
  | pop thread =>
    simp only [Shared.step] at stepped
    split at stepped
    · split_ifs at stepped with empty
      · cases stepped
        exact .waits empty
      · cases stepped
        exact .takes thread (Or.inl rfl) empty
    · cases stepped
  | timedPop thread msTimeout =>
    simp only [Shared.step] at stepped
    split at stepped
    · cases stepped
      exact .calls
    · cases stepped
  | timedLock thread =>
    simp only [Shared.step] at stepped
    split at stepped
    · next called =>
      split_ifs at stepped with empty
      · cases stepped
        exact .timewaits called empty
      · cases stepped
        exact .takes thread (Or.inr (Or.inl rfl)) empty
    · cases stepped
  | wake thread =>
    simp only [Shared.step] at stepped
    split at stepped
    · next waits =>
      split_ifs at stepped with empty
      · cases stepped
        exact .waitsOn waits empty
      · cases stepped
        exact .takes thread (Or.inr (Or.inr rfl)) empty
    · next waits =>
      split_ifs at stepped with empty
      · cases stepped
        exact .givesUp (.emptied waits empty)
      · cases stepped
        exact .takes thread (Or.inr (Or.inr rfl)) empty
    · cases stepped
  | timeout thread =>
    simp only [Shared.step] at stepped
    split at stepped
    · next waits =>
      split_ifs at stepped with passed
      cases stepped
      exact .givesUp (.timeIsUp waits passed)
    · cases stepped
  | waitFails thread =>
    simp only [Shared.step] at stepped
    split at stepped
    · cases stepped
      exact .givesUp .waitFails
    · cases stepped
      exact .givesUp .waitFails
    · cases stepped
  | clear =>
    cases stepped
    exact .clear
  | size =>
    cases stepped
    exact .size
  | full =>
    cases stepped
    exact .full
  | empty =>
    cases stepped
    exact .empty
  | back =>
    cases stepped
    exact .back

end Shared

end WebServ.Logging
