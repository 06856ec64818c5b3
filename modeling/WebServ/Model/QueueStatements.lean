import WebServ.Model.BlockQueue
import WebServ.Machine.Monitor

/-! # The blocking queue statement by statement

The functions of `block_queue` between `m_mutex.lock()` and `m_mutex.unlock()`, one step for each statement, so
that other threads act between any two of them. A thread in `m_cond.wait` is asleep until a broadcast takes it
off the list of sleepers, or a spurious wake-up, a timeout or a failure does, and goes on when it has the lock
again. An access outside the array has no step. `front` and `max_size` are left out, and so is the destructor.
-/

namespace WebServ.Logging

open WebServ.Machine

/-- What is used under `m_mutex`: the fields, the threads asleep in `m_cond`, and the calls that have returned,
in the order of their unlocks. -/
structure QueueData (α : Type*) where
  queue : BlockQueue α
  sleepers : List ℕ
  returned : List (Return α)
deriving Repr

/-- Where a thread stands: outside the lock as in `Popping`, or in front of a statement under the lock. -/
inductive QueuePlace (α : Type*) where
  | idle
  | waiting
  | called (now : ℕ) (msTimeout : ℤ)
  | timewaiting (now : ℕ) (msTimeout : ℤ) (t : Timespec)
  | pushTest (item : α)
  | pushBack (item : α)
  | pushStore (item : α)
  | pushSize (item : α)
  | pushBroadcast (item : α) (result : Bool)
  | popTest
  | timedTest (now : ℕ) (msTimeout : ℤ)
  | timedRetest
  | takeFront
  | takeLoad
  | takeSize (item : α)
  | clearSize
  | clearFront
  | clearBack
  | size
  | full
  | empty
  | backTest
  | backLoad
  | unlock (result : Return α)
deriving DecidableEq, Repr

/-- What a thread outside the lock does next: a call, or the end of its wait. -/
inductive QueueChoice (α : Type*) where
  | push (item : α)
  | pop
  | timedPop (msTimeout : ℤ)
  | clear
  | size
  | full
  | empty
  | back
  | lock
  | wake
  | timeout
  | waitFails
deriving DecidableEq, Repr

variable {α : Type*}

namespace QueuePlace

/-- The thread has the lock. -/
def inside : QueuePlace α → Bool
  | .idle | .waiting | .called _ _ | .timewaiting _ _ _ => false
  | _ => true

/-- The statements up to the unlock, or the wait. -/
def left : QueuePlace α → ℕ
  | .idle | .waiting | .called _ _ | .timewaiting _ _ _ => 0
  | .unlock _ => 1
  | .pushBroadcast _ _ | .takeSize _ | .clearBack | .size | .full | .empty | .backLoad => 2
  | .pushSize _ | .takeLoad | .clearFront | .backTest => 3
  | .pushStore _ | .takeFront | .clearSize => 4
  | .pushBack _ | .popTest | .timedRetest => 5
  | .pushTest _ | .timedTest _ _ => 6

end QueuePlace

namespace QueueData

/-- The thread sleeps no more. -/
def awake (data : QueueData α) (thread : ℕ) : QueueData α :=
  { data with sleepers := data.sleepers.filter (· ≠ thread) }

/-- The statement of a thread outside the lock, at a time. -/
def outer (thread : ℕ) (place : QueuePlace α) (choice : QueueChoice α) (data : QueueData α) (clock : ℕ) :
    Option (QueuePlace α × QueueData α × ℕ) :=
  match place, choice with
  | .idle, .push item => some (.pushTest item, data, clock)
  | .idle, .pop => some (.popTest, data, clock)
  | .idle, .timedPop msTimeout => some (.called clock msTimeout, data, clock)
  | .idle, .clear => some (.clearSize, data, clock)
  | .idle, .size => some (.size, data, clock)
  | .idle, .full => some (.full, data, clock)
  | .idle, .empty => some (.empty, data, clock)
  | .idle, .back => some (.backTest, data, clock)
  | .called now msTimeout, .lock => some (.timedTest now msTimeout, data, clock)
  | .waiting, .wake => some (.popTest, data.awake thread, clock)
  | .waiting, .waitFails =>
      some (.unlock (.pop thread none), data.awake thread, clock)
  | .timewaiting _ _ _, .wake =>
      some (.timedRetest, data.awake thread, clock)
  | .timewaiting _ _ t, .timeout =>
      if t.Passed clock then
        some (.unlock (.pop thread none), data.awake thread, clock)
      else none
  | .timewaiting _ _ _, .waitFails =>
      some (.unlock (.pop thread none), data.awake thread, clock)
  | _, _ => none

/-- The statement of the thread that has the lock. -/
def inner (thread : ℕ) (place : QueuePlace α) (data : QueueData α) : Option (QueuePlace α × QueueData α) :=
  let queue := data.queue
  match place with
  | .pushTest item =>
      some (if queue.mMaxSize ≤ queue.mSize then .pushBroadcast item false else .pushBack item, data)
  | .pushBack item =>
      some (.pushStore item,
        { data with queue := { queue with mBack := (queue.mBack + 1).tmod queue.mMaxSize } })
  | .pushStore item =>
      if 0 ≤ queue.mBack ∧ queue.mBack < queue.mArray.length then
        some (.pushSize item,
          { data with queue := { queue with mArray := queue.mArray.set queue.mBack.toNat item } })
      else none
  | .pushSize item =>
      some (.pushBroadcast item true, { data with queue := { queue with mSize := queue.mSize + 1 } })
  | .pushBroadcast item result => some (.unlock (.push item result), { data with sleepers := [] })
  | .popTest =>
      some (if queue.mSize ≤ 0 then (.waiting, { data with sleepers := data.sleepers ++ [thread] })
        else (.takeFront, data))
  | .timedTest now msTimeout =>
      some (if queue.mSize ≤ 0 then
          (.timewaiting now msTimeout (deadline now msTimeout),
            { data with sleepers := data.sleepers ++ [thread] })
        else (.timedRetest, data))
  | .timedRetest =>
      some (if queue.mSize ≤ 0 then .unlock (.pop thread none) else .takeFront, data)
  | .takeFront =>
      some (.takeLoad, { data with queue := { queue with mFront := (queue.mFront + 1).tmod queue.mMaxSize } })
  | .takeLoad => (queue.load queue.mFront).map fun item => (.takeSize item, data)
  | .takeSize item =>
      some (.unlock (.pop thread (some item)), { data with queue := { queue with mSize := queue.mSize - 1 } })
  | .clearSize => some (.clearFront, { data with queue := { queue with mSize := 0 } })
  | .clearFront => some (.clearBack, { data with queue := { queue with mFront := -1 } })
  | .clearBack => some (.unlock .clear, { data with queue := { queue with mBack := -1 } })
  | .size => some (.unlock (.size queue.mSize), data)
  | .full => some (.unlock (.full queue.full), data)
  | .empty => some (.unlock (.empty queue.empty), data)
  | .backTest => some (if 0 = queue.mSize then .unlock (.back none) else .backLoad, data)
  | .backLoad => (queue.load queue.mBack).map fun item => (.unlock (.back (some item)), data)
  | .unlock result => some (.idle, { data with returned := data.returned ++ [result] })
  | _ => none

/-- A statement under the lock leaves fewer of them. -/
theorem left_inner {thread : ℕ} {place place' : QueuePlace α} {data data' : QueueData α}
    (within : place.inside = true) (taken : inner thread place data = some (place', data')) :
    place'.left < place.left := by
  cases place with
  | idle | waiting | called _ _ | timewaiting _ _ _ => cases within
  | pushTest _ | timedRetest | backTest =>
    cases taken
    split_ifs <;> simp [QueuePlace.left]
  | popTest | timedTest _ _ =>
    simp only [inner] at taken
    split_ifs at taken <;> cases taken <;> simp [QueuePlace.left]
  | pushStore item =>
    simp only [inner] at taken
    split_ifs at taken
    cases taken
    simp [QueuePlace.left]
  | takeLoad | backLoad =>
    obtain ⟨item, _, same⟩ := Option.map_eq_some_iff.mp taken
    cases same
    simp [QueuePlace.left]
  | pushBack _ | pushSize _ | pushBroadcast _ _ | takeFront | takeSize _ | clearSize | clearFront | clearBack
  | size | full | empty | unlock _ =>
    cases taken
    simp [QueuePlace.left]

/-- A statement outside that takes no lock only notes the time. -/
theorem outer_free {thread : ℕ} {place place' : QueuePlace α} {choice : QueueChoice α}
    {data data' : QueueData α} {clock clock' : ℕ}
    (taken : outer thread place choice data clock = some (place', data', clock'))
    (stays : place'.inside = false) :
    data' = data ∧ ∀ other, outer thread place choice other clock = some (place', other, clock') := by
  unfold outer at taken
  split at taken
  case h_3 =>
    cases taken
    exact ⟨rfl, fun _ => rfl⟩
  case h_13 =>
    split_ifs at taken
    cases taken
    cases stays
  all_goals cases taken <;> cases stays

/-- The functions of the queue under their lock. -/
def sections : Sections (QueuePlace α) (QueueData α) ℕ (QueueChoice α) where
  inside := QueuePlace.inside
  outer := outer
  inner := inner
  left := QueuePlace.left
  inner_left _ _ _ _ _ := left_inner
  outer_free _ _ _ _ _ _ _ _ := outer_free

/-- The queue with its threads. -/
abbrev Monitored (α : Type*) := Monitor (QueuePlace α) (QueueData α) ℕ

/-- The label of a step; time goes by in microseconds. -/
abbrev StatementEvent (α : Type*) := MonitorEvent (QueueChoice α) ℕ

/-- One statement. -/
abbrev step (monitor : Monitored α) (event : StatementEvent α) : Option (Monitored α) :=
  Monitor.step sections (fun usec clock => clock + usec) monitor event

/-- No call yet. -/
def initial [Inhabited α] (capacity : Capacity) (clock : ℕ) : Monitored α where
  data := ⟨.initial capacity, [], []⟩
  objects := clock
  places _ := .idle
  owner := none

end QueueData

end WebServ.Logging
