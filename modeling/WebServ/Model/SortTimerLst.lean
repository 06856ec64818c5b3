import Mathlib.Data.List.AList
import Mathlib.Order.Lattice

/-! # The timer list in memory

`sort_timer_lst` with its nodes, their pointers and the two pointers of the list. Addresses are numbers,
a null pointer is `none`, and the heap holds the timers that have been allocated and not freed; an address
may be allocated again after it has been freed. Every operation is partial: it is undefined (`none`) where
the source would use a null or dangling pointer. A loop takes as many passes as there are timers in the
heap, and is undefined if that is not enough. `time_t` is any linear order. `tick` returns the
`user_data` it calls back with, in order; the callback leaves the list alone.
-/

namespace WebServ.Http

/-- `util_timer`, less the callback, which is the same for all. -/
structure UtilTimer (τ : Type) where
  expire : τ
  userData : ℕ
  prev : Option ℕ
  next : Option ℕ
deriving DecidableEq, Repr

/-- `sort_timer_lst` with the heap its timers lie in. -/
structure SortTimerLst (τ : Type) where
  heap : AList fun _ : ℕ => UtilTimer τ
  head : Option ℕ
  tail : Option ℕ

namespace SortTimerLst

variable {τ : Type}

/-- The list after its constructor, with no timer allocated. -/
def initial : SortTimerLst τ := ⟨∅, none, none⟩

/-- The timer at an address. -/
def load (list : SortTimerLst τ) (timer : ℕ) : Option (UtilTimer τ) := list.heap.lookup timer

/-- `*timer = node`. -/
def store (list : SortTimerLst τ) (timer : ℕ) (node : UtilTimer τ) : SortTimerLst τ :=
  { list with heap := list.heap.insert timer node }

/-- `timer->prev = value`. -/
def setPrev (list : SortTimerLst τ) (timer value : Option ℕ) : Option (SortTimerLst τ) := do
  let timer ← timer
  let node ← list.load timer
  some (list.store timer { node with prev := value })

/-- `timer->next = value`. -/
def setNext (list : SortTimerLst τ) (timer value : Option ℕ) : Option (SortTimerLst τ) := do
  let timer ← timer
  let node ← list.load timer
  some (list.store timer { node with next := value })

/-- `timer->expire = value`. -/
def setExpire (list : SortTimerLst τ) (timer : ℕ) (value : τ) : Option (SortTimerLst τ) := do
  let node ← list.load timer
  some (list.store timer { node with expire := value })

/-- `new util_timer`, with the fields that `main` sets. -/
def allocate (list : SortTimerLst τ) (timer : ℕ) (expire : τ) (userData : ℕ) : SortTimerLst τ :=
  list.store timer ⟨expire, userData, none, none⟩

/-- `delete timer`. -/
def delete (list : SortTimerLst τ) (timer : ℕ) : Option (SortTimerLst τ) :=
  if timer ∈ list.heap then some { list with heap := list.heap.erase timer } else none

/-- `timer->prev->next = timer->next` and `timer->next->prev = timer->prev`. -/
def unlink (list : SortTimerLst τ) (timer : ℕ) : Option (SortTimerLst τ) := do
  let node ← list.load timer
  let list ← list.setNext node.prev node.next
  let node ← list.load timer
  list.setPrev node.next node.prev

/-- `head = value`, and `head->prev = NULL` if it is not null. -/
def setHead (list : SortTimerLst τ) : Option ℕ → Option (SortTimerLst τ)
  | some head => { list with head := some head }.setPrev (some head) none
  | none => some { list with head := none }

/-- The loop of the destructor. -/
def destroyLoop : ℕ → Option ℕ → SortTimerLst τ → Option (SortTimerLst τ)
  | _, none, list => some list
  | 0, some _, _ => none
  | passes + 1, some tmp, list => do
      let node ← list.load tmp
      let list ← { list with head := node.next }.delete tmp
      destroyLoop passes list.head list

/-- `~sort_timer_lst()`. -/
def destroy (list : SortTimerLst τ) : Option (SortTimerLst τ) :=
  destroyLoop list.heap.keys.length list.head list

variable [LinearOrder τ]

/-- The loop of the private `add_timer` and what follows it. -/
def addLoop (timer : ℕ) : ℕ → Option ℕ → Option ℕ → SortTimerLst τ → Option (SortTimerLst τ)
  | _, prev, none, list => do
      let list ← list.setNext prev (some timer)
      let list ← list.setPrev (some timer) prev
      let list ← list.setNext (some timer) none
      some { list with tail := some timer }
  | 0, _, some _, _ => none
  | passes + 1, prev, some tmp, list => do
      let node ← list.load timer
      let other ← list.load tmp
      if node.expire < other.expire then
        let list ← list.setNext prev (some timer)
        let list ← list.setNext (some timer) (some tmp)
        let list ← list.setPrev (some tmp) (some timer)
        list.setPrev (some timer) prev
      else addLoop timer passes (some tmp) other.next list

/-- The private `add_timer(timer, lst_head)`. -/
def addFrom (list : SortTimerLst τ) (timer : ℕ) (lstHead : Option ℕ) : Option (SortTimerLst τ) := do
  let prev ← lstHead
  let node ← list.load prev
  addLoop timer list.heap.keys.length (some prev) node.next list

/-- The public `add_timer(timer)` of a timer that is not null. -/
def addTimer (list : SortTimerLst τ) (timer : ℕ) : Option (SortTimerLst τ) :=
  match list.head with
  | none => some { list with head := some timer, tail := some timer }
  | some head => do
      let node ← list.load timer
      let first ← list.load head
      if node.expire < first.expire then
        let list ← list.setNext (some timer) (some head)
        let list ← list.setPrev (some head) (some timer)
        some { list with head := some timer }
      else list.addFrom timer (some head)

/-- `adjust_timer(timer)` of a timer that is not null. -/
def adjustTimer (list : SortTimerLst τ) (timer : ℕ) : Option (SortTimerLst τ) := do
  let node ← list.load timer
  match node.next with
  | none => some list
  | some tmp =>
      let other ← list.load tmp
      if node.expire < other.expire then some list
      else if list.head = some timer then
        let list := { list with head := node.next }
        let list ← list.setPrev list.head none
        let list ← list.setNext (some timer) none
        list.addFrom timer list.head
      else
        let list ← list.unlink timer
        let node ← list.load timer
        list.addFrom timer node.next

/-- `del_timer(timer)` of a timer that is not null. -/
def delTimer (list : SortTimerLst τ) (timer : ℕ) : Option (SortTimerLst τ) :=
  if list.head = some timer ∧ list.tail = some timer then do
    let list ← list.delete timer
    some { list with head := none, tail := none }
  else if list.head = some timer then do
    let node ← list.load timer
    let list := { list with head := node.next }
    let list ← list.setPrev list.head none
    list.delete timer
  else if list.tail = some timer then do
    let node ← list.load timer
    let list := { list with tail := node.prev }
    let list ← list.setNext list.tail none
    list.delete timer
  else do
    let list ← list.unlink timer
    list.delete timer

/-- The loop of `tick` at the time `cur`, with the calls of the callback. -/
def tickLoop (cur : τ) : ℕ → Option ℕ → SortTimerLst τ → Option (List ℕ × SortTimerLst τ)
  | _, none, list => some ([], list)
  | 0, some _, _ => none
  | passes + 1, some tmp, list => do
      let node ← list.load tmp
      if cur < node.expire then some ([], list)
      else
        let list ← list.setHead node.next
        let list ← list.delete tmp
        let (calls, list) ← tickLoop cur passes list.head list
        some (node.userData :: calls, list)

/-- `tick()` at the time `cur`. -/
def tick (list : SortTimerLst τ) (cur : τ) : Option (List ℕ × SortTimerLst τ) :=
  tickLoop cur list.heap.keys.length list.head list

/-- A use of the list by `main`: a new timer is added, a member put off, a member deleted, or the list
ticked. -/
inductive Use (τ : Type) where
  | add (timer : ℕ) (expire : τ) (userData : ℕ)
  | adjust (timer : ℕ) (expire : τ)
  | del (timer : ℕ)
  | tick (cur : τ)
deriving DecidableEq, Repr

/-- One use. -/
def use (list : SortTimerLst τ) : Use τ → Option (SortTimerLst τ)
  | .add timer expire userData => (list.allocate timer expire userData).addTimer timer
  | .adjust timer expire => do
      let list ← list.setExpire timer expire
      list.adjustTimer timer
  | .del timer => list.delTimer timer
  | .tick cur => (list.tick cur).map Prod.snd

end SortTimerLst

end WebServ.Http
