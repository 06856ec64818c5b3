import WebServ.Soundness.BlockQueue

/-! # What `front` of the blocking queue reads

`pop` moves `m_front` on and takes the element there, so between two calls `m_front` is the place of the
element taken last. `front` reads that place as it is: outside the array before the first `pop` and after
`clear`, and otherwise what lies there still, which is the element taken last or, in a full queue, the
newest one. The oldest element is one place further on.
-/

namespace WebServ.Logging

open WebServ.Machine

variable {α : Type*}

/-- The element taken last, with the result of one more call. -/
def Return.popped : Return α → Option α → Option α
  | .pop _ (some item), _ => some item
  | .clear, _ => none
  | _, before => before

/-- The element taken last since the constructor or the last `clear`. -/
def lastPopped (returned : List (Return α)) : Option α :=
  returned.foldl (fun before result => result.popped before) none

/-- An element has been taken since the constructor or the last `clear`, and what lies in its place is the
oldest element: in a full queue the newest one, and otherwise itself. -/
def FrontIsOldest (capacity : ℕ) (returned : List (Return α)) (items : List α) : Prop :=
  ∃ popped, lastPopped returned = some popped ∧
    (if items.length = capacity then items.getLast? else some popped) = items.head?

theorem lastPopped_concat (returned : List (Return α)) (result : Return α) :
    lastPopped (returned ++ [result]) = result.popped (lastPopped returned) := by
  rw [lastPopped, List.foldl_append]
  rfl

namespace Shared

open BlockQueue (Represents)

/-- What lies at `m_front`. -/
structure Remembers (capacity : Capacity) (shared : Shared α) (items : List α) : Prop where
  represents : Represents capacity shared.queue items
  fresh : lastPopped shared.returned = none → shared.queue.mFront = -1
  kept : ∀ popped, lastPopped shared.returned = some popped → 0 ≤ shared.queue.mFront ∧
    shared.queue.load shared.queue.mFront =
      if items.length = capacity.value then items.getLast? else some popped

theorem remembers_initial [Inhabited α] (capacity : Capacity) (clock : ℕ) :
    Remembers capacity (initial capacity clock : Shared α) [] where
  represents := BlockQueue.represents_initial capacity
  fresh _ := rfl
  kept _ taken := nomatch taken

variable {capacity : Capacity} {shared next : Shared α} {items : List α}

/-- A place that is not in front of the array is a cell. -/
private theorem load_of_nonneg {queue : BlockQueue α} {index : ℤ} (nonneg : 0 ≤ index) :
    queue.load index = queue.mArray[index.toNat]? := by
  rw [BlockQueue.load, if_neg (Int.not_lt.mpr nonneg)]

/-- Where the element of a `push` goes. -/
private theorem push_fields {queue after : BlockQueue α} {item : α}
    (represents : Represents capacity queue items) (stored : queue.push item = some (true, after)) :
    after.mFront = queue.mFront ∧
      after.mArray = queue.mArray.set (((queue.mFront + 1).toNat + items.length) % capacity.value) item := by
  simp only [BlockQueue.push, represents.nextBack, represents.array] at stored
  split_ifs at stored
  · cases stored
  · cases stored
    rw [Int.toNat_natCast]
    exact ⟨rfl, rfl⟩

/-- An element that has been taken lies at the new `m_front`. -/
private theorem take_fields {queue after : BlockQueue α} {item : α}
    (taken : queue.take = some (item, after)) :
    0 ≤ after.mFront ∧ after.load after.mFront = some item := by
  obtain ⟨found, loaded, same⟩ := Option.map_eq_some_iff.mp taken
  cases same
  refine ⟨?_, loaded⟩
  rw [BlockQueue.load] at loaded
  split_ifs at loaded with negative
  exact Int.not_lt.mp negative

namespace Remembers

/-- A call that neither takes nor stores an element. -/
theorem returns (remembers : Remembers capacity shared items) {result : Return α}
    (quiet : result.popped (lastPopped shared.returned) = lastPopped shared.returned) :
    Remembers capacity (shared.returns result) items := by
  have same : lastPopped (shared.returns result).returned = lastPopped shared.returned :=
    (lastPopped_concat _ _).trans quiet
  exact ⟨remembers.represents, same ▸ remembers.fresh, same ▸ remembers.kept⟩

/-- A stored element takes the place of the one taken last exactly if it fills the queue. -/
theorem returnPush (remembers : Remembers capacity shared items) (item : α) :
    ∃ after, Remembers capacity (shared.returnPush item) after := by
  have represents := remembers.represents
  rw [Shared.returnPush]
  rcases Nat.lt_or_ge items.length capacity.value with room | full
  · obtain ⟨queue, stored, pushed⟩ := represents.push room item
    obtain ⟨front, array⟩ := push_fields represents stored
    rw [stored]
    have quiet : lastPopped (shared.returned ++ [.push item true]) = lastPopped shared.returned :=
      lastPopped_concat _ _
    refine ⟨items ++ [item], pushed, fun nothing => front.trans (remembers.fresh (quiet ▸ nothing)), ?_⟩
    intro popped taken
    obtain ⟨nonneg, loaded⟩ := remembers.kept popped (quiet ▸ taken)
    have inside := represents.front.2
    obtain ⟨place, isPlace⟩ := Int.eq_ofNat_of_zero_le nonneg
    dsimp only [Shared.returns]
    rw [front, load_of_nonneg nonneg, array, List.length_append, List.length_singleton,
      List.getLast?_concat]
    refine ⟨nonneg, ?_⟩
    rw [isPlace] at inside ⊢
    have next : ((place : ℤ) + 1).toNat = place + 1 := by omega
    rw [next, Int.toNat_natCast]
    split_ifs with fills
    · have wrapped : (place + 1 + items.length) % capacity.value = place := by
        rw [Nat.add_assoc, Nat.add_comm 1, fills, Nat.add_mod_right, Nat.mod_eq_of_lt (by omega)]
      rw [wrapped, List.getElem?_set_self (by rw [represents.array]; omega)]
    · have elsewhere : (place + 1 + items.length) % capacity.value ≠ place := by
        rcases Nat.lt_or_ge (place + 1 + items.length) capacity.value with before | wraps
        · rw [Nat.mod_eq_of_lt before]
          omega
        · rw [Nat.mod_eq_sub_mod wraps, Nat.mod_eq_of_lt (by omega)]
          omega
      rw [List.getElem?_set_ne elsewhere]
      rw [if_neg room.ne, load_of_nonneg nonneg, isPlace, Int.toNat_natCast] at loaded
      exact loaded
  · rw [represents.push_full full]
    exact ⟨items, remembers.returns rfl⟩

/-- The element taken leaves its place as it is. -/
theorem takeItem (remembers : Remembers capacity shared items) (thread : ℕ)
    (nonempty : ¬ shared.queue.mSize ≤ 0) :
    ∃ after, Remembers capacity (shared.takeItem thread) after := by
  have represents := remembers.represents
  rw [represents.isEmpty] at nonempty
  obtain ⟨item, rest, rfl⟩ := List.exists_cons_of_ne_nil nonempty
  obtain ⟨queue, taken, shorter⟩ := represents.take
  have room := represents.length_le
  obtain ⟨nonneg, loaded⟩ := take_fields taken
  rw [Shared.takeItem, taken]
  have popped : lastPopped (shared.returned ++ [.pop thread (some item)]) = some item :=
    lastPopped_concat _ _
  refine ⟨rest, shorter, fun nothing => ?_, fun other isOther => ?_⟩
  · cases popped.symm.trans nothing
  · obtain rfl := Option.some.inj (popped.symm.trans isOther)
    rw [List.length_cons] at room
    rw [if_neg (by omega)]
    exact ⟨nonneg, loaded⟩

theorem clear (remembers : Remembers capacity shared items) :
    Remembers capacity ({ shared with queue := shared.queue.clear }.returns .clear) [] where
  represents := remembers.represents.clear
  fresh _ := rfl
  kept popped taken := by
    have nothing : lastPopped (shared.returned ++ [.clear]) = none := lastPopped_concat _ _
    cases nothing.symm.trans taken

theorem step {event : QueueEvent α} (remembers : Remembers capacity shared items)
    (stepped : shared.step event = some next) : ∃ after, Remembers capacity next after := by
  cases effect_of_step stepped with
  | goesOn queue undefined returned =>
    exact ⟨items, queue ▸ remembers.represents, returned ▸ queue ▸ remembers.fresh,
      returned ▸ queue ▸ remembers.kept⟩
  | pushes item => exact remembers.returnPush item
  | takes thread nonempty => exact remembers.takeItem thread nonempty
  | givesUp thread =>
    have placed : Remembers capacity (shared.setPopping thread none) items := { remembers with }
    exact ⟨items, placed.returns rfl⟩
  | clears => exact ⟨[], remembers.clear⟩
  | sizes => exact ⟨items, remembers.returns rfl⟩
  | fulls => exact ⟨items, remembers.returns rfl⟩
  | empties => exact ⟨items, remembers.returns rfl⟩
  | backs =>
    rw [Shared.returnBack, remembers.represents.back_eq]
    exact ⟨items, remembers.returns rfl⟩

/-- `front` agrees with the next `pop` on a queue that is not empty exactly if the oldest element happens
to lie in the place of the one taken last. -/
theorem front_iff (remembers : Remembers capacity shared items) (nonempty : items ≠ []) :
    (∃ item rest, shared.queue.front = some (some item) ∧ shared.queue.take = some (item, rest)) ↔
      FrontIsOldest capacity.value shared.returned items := by
  have represents := remembers.represents
  obtain ⟨item, rest, rfl⟩ := List.exists_cons_of_ne_nil nonempty
  obtain ⟨queue, taken, _⟩ := represents.take
  have occupied : ¬ 0 = shared.queue.mSize := by
    rw [represents.size, List.length_cons]
    omega
  rw [BlockQueue.front, if_neg occupied, taken, FrontIsOldest]
  cases last : lastPopped shared.returned with
  | none =>
    have outside : shared.queue.load shared.queue.mFront = none := by
      rw [remembers.fresh last]
      rfl
    simp [outside]
  | some popped =>
    rw [(remembers.kept popped last).2]
    simp [eq_comm]

end Remembers

/-- After any sequence of calls by any threads, on a queue that is not empty: `front` reads inside the array
and yields the element that the next `pop` takes exactly if an element has been taken since the constructor
or the last `clear` and the oldest element equals the newest one in a full queue, and the one taken last
otherwise. -/
theorem front_iff_frontIsOldest [Inhabited α] (capacity : Capacity) (clock : ℕ) (events : List (QueueEvent α))
    (shared : Shared α) (ran : run step (initial capacity clock) events = some shared)
    (nonempty : shared.queue.empty = false) :
    (∃ item rest, shared.queue.front = some (some item) ∧ shared.queue.take = some (item, rest)) ↔
      FrontIsOldest capacity.value shared.returned shared.queue.contents := by
  have preserved : ∀ (before : Shared α) (event : QueueEvent α) (after : Shared α),
      (∃ items, Remembers capacity before items) → step before event = some after →
        ∃ items, Remembers capacity after items := by
    rintro before event after ⟨items, remembers⟩ stepped
    exact remembers.step stepped
  obtain ⟨items, remembers⟩ := invariant preserved ⟨[], remembers_initial capacity clock⟩ ran
  have some_item : items ≠ [] := by
    rintro rfl
    rw [BlockQueue.empty, remembers.represents.size] at nonempty
    simp at nonempty
  rw [remembers.represents.contents_eq]
  exact remembers.front_iff some_item

/-- A queue of one cell has only one place. -/
theorem front_iff_frontIsOldest_oneCell : ∃ shared : Shared ℕ,
    (∃ item rest, shared.queue.front = some (some item) ∧ shared.queue.take = some (item, rest)) ∧
      run step (initial ⟨1, by decide, by decide⟩ 0) [.push 10, .pop 1, .push 11] = some shared :=
  let ran := Option.some_get (by decide +kernel)
  ⟨_, (front_iff_frontIsOldest ⟨1, by decide, by decide⟩ 0 [.push 10, .pop 1, .push 11] _ ran.symm
    (by decide +kernel)).mpr ⟨10, by decide +kernel⟩, ran.symm⟩

/-- Before the first `pop` the read is outside the array, and after one `pop` it yields the element that is
gone. -/
theorem front_not_oldest :
    (∃ shared : Shared ℕ, run step (initial ⟨2, by decide, by decide⟩ 0) [.push 10] = some shared ∧
      shared.queue.contents = [10] ∧ shared.queue.front = none) ∧
    ∃ shared : Shared ℕ,
      run step (initial ⟨2, by decide, by decide⟩ 0) [.push 10, .push 11, .pop 1] = some shared ∧
      shared.queue.contents = [11] ∧ shared.queue.front = some (some 10) :=
  ⟨⟨_, (Option.some_get (by decide +kernel)).symm, by decide +kernel, by decide +kernel⟩,
    ⟨_, (Option.some_get (by decide +kernel)).symm, by decide +kernel, by decide +kernel⟩⟩

end Shared

end WebServ.Logging
