import Mathlib.Data.Int.Basic
import Mathlib.Logic.Function.Basic

/-! # The blocking queue

`block_queue<T>`: first its fields and what each operation does to them under the lock, then the
threads that call it. Every locked section is one step. A wait releases the lock, so each return from a
wait is a step of its own; it may come at any time, as a spurious wake-up may, and `broadcast` needs no
effect of its own. Times are microseconds, the unit of `gettimeofday`. The destructor is left out.
-/

namespace WebServ.Logging

/-- A constructor argument that does not end the program: a positive `int`. -/
structure Capacity where
  value : ℕ
  pos : 0 < value
  le : value ≤ 2147483647

/-- The fields of `block_queue`. -/
structure BlockQueue (α : Type*) where
  mArray : List α
  mSize : ℤ
  mMaxSize : ℤ
  mFront : ℤ
  mBack : ℤ
deriving Repr

variable {α : Type*}

namespace BlockQueue

/-- The queue after its constructor. -/
def initial [Inhabited α] (capacity : Capacity) : BlockQueue α where
  mArray := List.replicate capacity.value default
  mSize := 0
  mMaxSize := capacity.value
  mFront := -1
  mBack := -1

def clear (queue : BlockQueue α) : BlockQueue α :=
  { queue with mSize := 0, mFront := -1, mBack := -1 }

def full (queue : BlockQueue α) : Bool := queue.mMaxSize ≤ queue.mSize

def empty (queue : BlockQueue α) : Bool := 0 = queue.mSize

/-- `m_array[index]`; undefined outside the array. -/
def load (queue : BlockQueue α) (index : ℤ) : Option α :=
  if index < 0 then none else queue.mArray[index.toNat]?

/-- The value of `front`, if it returns true. -/
def front (queue : BlockQueue α) : Option (Option α) :=
  if 0 = queue.mSize then some none else (queue.load queue.mFront).map some

/-- The value of `back`, if it returns true. -/
def back (queue : BlockQueue α) : Option (Option α) :=
  if 0 = queue.mSize then some none else (queue.load queue.mBack).map some

/-- The result of `push` and the queue after it; undefined if it stores outside the array. -/
def push (queue : BlockQueue α) (item : α) : Option (Bool × BlockQueue α) :=
  if queue.mMaxSize ≤ queue.mSize then some (false, queue)
  else
    let mBack := (queue.mBack + 1).tmod queue.mMaxSize
    if 0 ≤ mBack ∧ mBack < queue.mArray.length then
      some (true, { queue with
        mBack, mArray := queue.mArray.set mBack.toNat item, mSize := queue.mSize + 1 })
    else none

/-- The end of both `pop` functions: an element is taken. -/
def take (queue : BlockQueue α) : Option (α × BlockQueue α) :=
  let mFront := (queue.mFront + 1).tmod queue.mMaxSize
  (queue.load mFront).map fun item => (item, { queue with mFront, mSize := queue.mSize - 1 })

end BlockQueue

/-- `struct timespec`. -/
structure Timespec where
  tvSec : ℤ
  tvNsec : ℤ
deriving DecidableEq, Repr

/-- The time the timed `pop` waits for, from the result of `gettimeofday` and `ms_timeout`. -/
def deadline (now : ℕ) (msTimeout : ℤ) : Timespec where
  tvSec := now / 1000000 + msTimeout.tdiv 1000
  tvNsec := msTimeout.tmod 1000 * 1000

/-- The time has come. -/
def Timespec.Passed (time : Timespec) (clock : ℕ) : Prop :=
  time.tvSec * 1000000000 + time.tvNsec ≤ (clock : ℤ) * 1000

instance (time : Timespec) (clock : ℕ) : Decidable (time.Passed clock) :=
  inferInstanceAs (Decidable (_ ≤ _))

/-- Where a thread stands in a `pop`: in the wait of `pop`, or, in the timed one, between
`gettimeofday` and the lock or in the wait. -/
inductive Popping where
  | waiting
  | called (now : ℕ) (msTimeout : ℤ)
  | timewaiting (now : ℕ) (msTimeout : ℤ) (t : Timespec)
deriving DecidableEq, Repr

/-- A call of the queue that has returned, with its result. -/
inductive Return (α : Type*) where
  | push (item : α) (result : Bool)
  | pop (thread : ℕ) (item : Option α)
  | clear
  | size (result : ℤ)
  | full (result : Bool)
  | empty (result : Bool)
  | back (item : Option α)
deriving DecidableEq, Repr

/-- The queue with the threads inside a `pop`; `returned` lists, for the statements only, the calls in
the order of their last locked sections. -/
structure Shared (α : Type*) where
  queue : BlockQueue α
  clock : ℕ
  popping : ℕ → Option Popping
  undefined : Bool
  returned : List (Return α)

/-- The label of a step. -/
inductive QueueEvent (α : Type*) where
  | advance (usec : ℕ)
  | push (item : α)
  | pop (thread : ℕ)
  | timedPop (thread : ℕ) (msTimeout : ℤ)
  | timedLock (thread : ℕ)
  | wake (thread : ℕ)
  | timeout (thread : ℕ)
  | waitFails (thread : ℕ)
  | clear
  | size
  | full
  | empty
  | back
deriving Repr

namespace Shared

/-- No call yet. -/
def initial [Inhabited α] (capacity : Capacity) (clock : ℕ) : Shared α where
  queue := .initial capacity
  clock := clock
  popping _ := none
  undefined := false
  returned := []

/-- A call returns. -/
def returns (shared : Shared α) (result : Return α) : Shared α :=
  { shared with returned := shared.returned ++ [result] }

/-- The thread's place in its `pop`. -/
def setPopping (shared : Shared α) (thread : ℕ) (popping : Option Popping) : Shared α :=
  { shared with popping := Function.update shared.popping thread popping }

/-- The thread's `pop` returns false. -/
def giveUp (shared : Shared α) (thread : ℕ) : Shared α :=
  (shared.setPopping thread none).returns (.pop thread none)

/-- The thread's `pop` takes an element and returns true. -/
def takeItem (shared : Shared α) (thread : ℕ) : Shared α :=
  match shared.queue.take with
  | some (item, queue) =>
      ({ shared with queue }.setPopping thread none).returns (.pop thread (some item))
  | none => { shared with undefined := true }

/-- `back` returns. -/
def returnBack (shared : Shared α) : Shared α :=
  match shared.queue.back with
  | some item => shared.returns (.back item)
  | none => { shared with undefined := true }

/-- `push` returns. -/
def returnPush (shared : Shared α) (item : α) : Shared α :=
  match shared.queue.push item with
  | some (result, queue) => { shared with queue }.returns (.push item result)
  | none => { shared with undefined := true }

/-- One action. -/
def step (shared : Shared α) : QueueEvent α → Option (Shared α)
  | .advance usec => some { shared with clock := shared.clock + usec }
  | .push item => some (shared.returnPush item)
  | .pop thread =>
      match shared.popping thread with
      | none =>
          if shared.queue.mSize ≤ 0 then some (shared.setPopping thread (some .waiting))
          else some (shared.takeItem thread)
      | _ => none
  | .timedPop thread msTimeout =>
      match shared.popping thread with
      | none => some (shared.setPopping thread (some (.called shared.clock msTimeout)))
      | _ => none
  | .timedLock thread =>
      match shared.popping thread with
      | some (.called now msTimeout) =>
          if shared.queue.mSize ≤ 0 then
            some (shared.setPopping thread
              (some (.timewaiting now msTimeout (deadline now msTimeout))))
          else some (shared.takeItem thread)
      | _ => none
  | .wake thread =>
      match shared.popping thread with
      | some .waiting =>
          if shared.queue.mSize ≤ 0 then some shared else some (shared.takeItem thread)
      | some (.timewaiting _ _ _) =>
          if shared.queue.mSize ≤ 0 then some (shared.giveUp thread)
          else some (shared.takeItem thread)
      | _ => none
  | .timeout thread =>
      match shared.popping thread with
      | some (.timewaiting _ _ t) =>
          if t.Passed shared.clock then some (shared.giveUp thread) else none
      | _ => none
  | .waitFails thread =>
      match shared.popping thread with
      | some .waiting | some (.timewaiting _ _ _) => some (shared.giveUp thread)
      | _ => none
  | .clear => some ({ shared with queue := shared.queue.clear }.returns .clear)
  | .size => some (shared.returns (.size shared.queue.mSize))
  | .full => some (shared.returns (.full shared.queue.full))
  | .empty => some (shared.returns (.empty shared.queue.empty))
  | .back => some shared.returnBack

end Shared

end WebServ.Logging
