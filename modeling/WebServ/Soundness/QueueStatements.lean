import WebServ.Model.QueueStatements
import WebServ.Soundness.BlockQueue

/-! # The statements of the blocking queue make up its locked sections

Between two statements of one thread any others may run, and the fields are out of step with each other. Settled,
that is with the section of the owner of the lock done in one go, every state is one that the queue with locked
sections of one step reaches. So the statements keep the order of a bounded list too, no statement leaves the
array, and no consumer sleeps while there are elements.
-/

namespace WebServ.Logging

open WebServ.Machine

variable {α : Type*}

/-- What a thread outside the lock is to the queue with locked sections of one step. -/
def QueuePlace.popping : QueuePlace α → Option Popping
  | .waiting => some .waiting
  | .called now msTimeout => some (.called now msTimeout)
  | .timewaiting now msTimeout t => some (.timewaiting now msTimeout t)
  | _ => none

namespace QueueData

open BlockQueue (Represents)

variable {thread : ℕ} {item : α} {data : QueueData α} {queue : BlockQueue α}

/-! ## Whole sections -/

/-- The next statement of a section, when it is known. -/
theorem complete_eq {place place' : QueuePlace α} {data' : QueueData α} (within : place.inside = true)
    (taken : inner thread place data = some (place', data')) :
    sections.complete thread place data = sections.complete thread place' data' :=
  sections.complete_inner thread within taken

theorem complete_unlock (result : Return α) :
    sections.complete thread (.unlock result) data =
      (.idle, { data with returned := data.returned ++ [result] }) := rfl

theorem complete_pushTest {result : Bool} (pushed : data.queue.push item = some (result, queue)) :
    sections.complete thread (.pushTest item) data =
      (.idle, ⟨queue, [], data.returned ++ [.push item result]⟩) := by
  rw [BlockQueue.push] at pushed
  dsimp only at pushed
  split_ifs at pushed with full stored
  · cases pushed
    have tested : inner thread (.pushTest item) data = some (.pushBroadcast item false, data) := by
      simp only [inner, if_pos full]
    rw [complete_eq rfl tested]
    rfl
  · cases pushed
    have tested : inner thread (.pushTest item) data = some (.pushBack item, data) := by
      simp only [inner, if_neg full]
    rw [complete_eq rfl tested, complete_eq rfl rfl]
    have stores : ∀ back, 0 ≤ back ∧ back < (data.queue.mArray.length : ℤ) →
        inner thread (.pushStore item) { data with queue := { data.queue with mBack := back } } =
          some (.pushSize item, { data with queue := { data.queue with
            mBack := back, mArray := data.queue.mArray.set back.toNat item } }) := by
      intro back within
      simp only [inner, if_pos within]
    rw [complete_eq rfl (stores _ stored)]
    rfl

theorem complete_takeFront (taken : data.queue.take = some (item, queue)) :
    sections.complete thread .takeFront data =
      (.idle, { data with queue, returned := data.returned ++ [.pop thread (some item)] }) := by
  obtain ⟨loaded, load, same⟩ := Option.map_eq_some_iff.mp taken
  cases same
  rw [complete_eq rfl rfl]
  have loads : ∀ front, data.queue.load front = some item →
      inner thread .takeLoad { data with queue := { data.queue with mFront := front } } =
        some (.takeSize item, { data with queue := { data.queue with mFront := front } }) := by
    intro front load
    exact congrArg (Option.map _) load
  rw [complete_eq rfl (loads _ load)]
  rfl

/-- A thread goes to sleep. -/
theorem complete_popTest_empty (data : QueueData α) (empty : data.queue.mSize ≤ 0) :
    sections.complete thread .popTest data =
      (.waiting, { data with sleepers := data.sleepers ++ [thread] }) := by
  have tested : inner thread .popTest data =
      some (.waiting, { data with sleepers := data.sleepers ++ [thread] }) := by
    simp only [inner, if_pos empty]
  rw [complete_eq rfl tested]
  rfl

theorem complete_popTest (data : QueueData α) (nonempty : ¬ data.queue.mSize ≤ 0)
    (taken : data.queue.take = some (item, queue)) :
    sections.complete thread .popTest data =
      (.idle, { data with queue, returned := data.returned ++ [.pop thread (some item)] }) := by
  have tested : inner thread .popTest data = some (.takeFront, data) := by
    simp only [inner, if_neg nonempty]
  rw [complete_eq rfl tested, complete_takeFront taken]

theorem complete_timedRetest_empty (data : QueueData α) (empty : data.queue.mSize ≤ 0) :
    sections.complete thread .timedRetest data =
      (.idle, { data with returned := data.returned ++ [.pop thread none] }) := by
  have tested : inner thread .timedRetest data = some (.unlock (.pop thread none), data) := by
    simp only [inner, if_pos empty]
  rw [complete_eq rfl tested, complete_unlock]

theorem complete_timedRetest (data : QueueData α) (nonempty : ¬ data.queue.mSize ≤ 0)
    (taken : data.queue.take = some (item, queue)) :
    sections.complete thread .timedRetest data =
      (.idle, { data with queue, returned := data.returned ++ [.pop thread (some item)] }) := by
  have tested : inner thread .timedRetest data = some (.takeFront, data) := by
    simp only [inner, if_neg nonempty]
  rw [complete_eq rfl tested, complete_takeFront taken]

theorem complete_timedTest_empty (now : ℕ) (msTimeout : ℤ) (data : QueueData α) (empty : data.queue.mSize ≤ 0) :
    sections.complete thread (.timedTest now msTimeout) data =
      (.timewaiting now msTimeout (deadline now msTimeout),
        { data with sleepers := data.sleepers ++ [thread] }) := by
  have tested : inner thread (.timedTest now msTimeout) data =
      some (.timewaiting now msTimeout (deadline now msTimeout),
        { data with sleepers := data.sleepers ++ [thread] }) := by
    simp only [inner, if_pos empty]
  rw [complete_eq rfl tested]
  rfl

theorem complete_timedTest (now : ℕ) (msTimeout : ℤ) (data : QueueData α) (nonempty : ¬ data.queue.mSize ≤ 0)
    (taken : data.queue.take = some (item, queue)) :
    sections.complete thread (.timedTest now msTimeout) data =
      (.idle, { data with queue, returned := data.returned ++ [.pop thread (some item)] }) := by
  have tested : inner thread (.timedTest now msTimeout) data = some (.timedRetest, data) := by
    simp only [inner, if_neg nonempty]
  rw [complete_eq rfl tested, complete_timedRetest data nonempty taken]

theorem complete_backTest {newest : Option α} (backed : data.queue.back = some newest) :
    sections.complete thread .backTest data =
      (.idle, { data with returned := data.returned ++ [.back newest] }) := by
  rw [BlockQueue.back] at backed
  split_ifs at backed with empty
  · cases backed
    have tested : inner thread .backTest data = some (.unlock (.back none), data) := by
      simp only [inner, if_pos empty]
    rw [complete_eq rfl tested, complete_unlock]
  · obtain ⟨loaded, load, same⟩ := Option.map_eq_some_iff.mp backed
    cases same
    have tested : inner thread .backTest data = some (.backLoad, data) := by
      simp only [inner, if_neg empty]
    have loads : inner thread .backLoad data = some (.unlock (.back (some loaded)), data) :=
      congrArg (Option.map _) load
    rw [complete_eq rfl tested, complete_eq rfl loads, complete_unlock]

/-! ## The queue with locked sections of one step -/

/-- The state outside the lock is that of the queue with locked sections of one step, and there are no elements
while a thread sleeps. -/
structure Refines (monitor : Monitored α) (shared : Shared α) : Prop where
  queue : shared.queue = monitor.data.queue
  returned : shared.returned = monitor.data.returned
  clock : shared.clock = monitor.objects
  popping : ∀ thread, shared.popping thread = (monitor.places thread).popping
  outside : ∀ thread, (monitor.places thread).inside = false
  asleep : monitor.data.sleepers ≠ [] → monitor.data.queue.mSize ≤ 0

theorem refines_initial [Inhabited α] (capacity : Capacity) (clock : ℕ) :
    Refines (initial capacity clock) (Shared.initial capacity clock : Shared α) where
  queue := rfl
  returned := rfl
  clock := rfl
  popping _ := rfl
  outside _ := rfl
  asleep none := absurd rfl none

variable {monitor : Monitored α} {shared after : Shared α}

/-- A thread has gone on to another place outside, and the calls that have returned are noted. -/
theorem Refines.goTo (refines : Refines monitor shared) {place : QueuePlace α} {data : QueueData α} {clock : ℕ}
    (queue : after.queue = data.queue) (returned : after.returned = data.returned)
    (time : after.clock = clock) (own : after.popping thread = place.popping)
    (others : ∀ other ≠ thread, after.popping other = shared.popping other)
    (outside : place.inside = false) (asleep : data.sleepers ≠ [] → data.queue.mSize ≤ 0) :
    Refines (monitor.goTo thread place data clock monitor.owner) after where
  queue := queue
  returned := returned
  clock := time
  popping other := by
    by_cases same : other = thread
    · rw [same, own, Monitor.goTo_places_self]
    · rw [others other same, refines.popping, Monitor.goTo_places_of_ne same]
  outside other := by
    by_cases same : other = thread
    · rw [same, Monitor.goTo_places_self, outside]
    · rw [Monitor.goTo_places_of_ne same, refines.outside]
  asleep := asleep

theorem Refines.advance (refines : Refines monitor shared) (usec : ℕ) :
    Refines { monitor with objects := monitor.objects + usec } { shared with clock := shared.clock + usec } where
  queue := refines.queue
  returned := refines.returned
  clock := congrArg (· + usec) refines.clock
  popping := refines.popping
  outside := refines.outside
  asleep := refines.asleep

/-- The thread waits, and sleeps at first. -/
theorem Refines.waits (refines : Refines monitor shared) {place : QueuePlace α} {sleepers : List ℕ}
    (outside : place.inside = false) (empty : monitor.data.queue.mSize ≤ 0) :
    Refines (monitor.goTo thread place { monitor.data with sleepers } monitor.objects monitor.owner)
      (shared.setPopping thread place.popping) := by
  refine refines.goTo refines.queue refines.returned refines.clock ?_ ?_ outside fun _ => empty
  · exact Function.update_self ..
  · exact fun other differ => Function.update_of_ne differ ..

/-- A call returns that is no `pop`. -/
theorem Refines.returns (refines : Refines monitor shared) {result : Return α} {sleepers : List ℕ}
    (idle : shared.popping thread = none) (asleep : sleepers ≠ [] → queue.mSize ≤ 0) :
    Refines
      (monitor.goTo thread .idle ⟨queue, sleepers, monitor.data.returned ++ [result]⟩ monitor.objects
        monitor.owner)
      ({ shared with queue }.returns result) := by
  refine refines.goTo rfl ?_ refines.clock idle (fun _ _ => rfl) rfl asleep
  exact congrArg (· ++ [result]) refines.returned

/-- A call returns that only reads. -/
theorem Refines.answers (refines : Refines monitor shared) (idle : shared.popping thread = none)
    (result : Return α) :
    Refines
      (monitor.goTo thread .idle { monitor.data with returned := monitor.data.returned ++ [result] }
        monitor.objects monitor.owner)
      (shared.returns result) := by
  refine refines.goTo refines.queue ?_ refines.clock idle (fun _ _ => rfl) rfl refines.asleep
  exact congrArg (· ++ [result]) refines.returned

/-- A `pop` returns without an element; a sleeper may have been taken off the list. -/
theorem Refines.giveUp (refines : Refines monitor shared) {sleepers : List ℕ}
    (fewer : sleepers ⊆ monitor.data.sleepers) :
    Refines
      (monitor.goTo thread .idle
        ⟨monitor.data.queue, sleepers, monitor.data.returned ++ [.pop thread none]⟩ monitor.objects
        monitor.owner)
      (shared.giveUp thread) := by
  refine refines.goTo refines.queue ?_ refines.clock ?_ ?_ rfl fun some => refines.asleep ?_
  · exact congrArg (· ++ [Return.pop thread none]) refines.returned
  · exact Function.update_self ..
  · exact fun other differ => Function.update_of_ne differ ..
  · rintro none
    exact some (List.subset_nil.mp (none ▸ fewer))

/-- A `pop` returns with an element: nobody sleeps. -/
theorem Refines.takeItem (refines : Refines monitor shared) {sleepers : List ℕ}
    (fewer : sleepers ⊆ monitor.data.sleepers) (nonempty : ¬ monitor.data.queue.mSize ≤ 0)
    (taken : monitor.data.queue.take = some (item, queue)) :
    Refines
      (monitor.goTo thread .idle ⟨queue, sleepers, monitor.data.returned ++ [.pop thread (some item)]⟩
        monitor.objects monitor.owner)
      (shared.takeItem thread) := by
  have awake : sleepers = [] := by
    by_contra some
    refine nonempty (refines.asleep fun none => some ?_)
    exact List.subset_nil.mp (none ▸ fewer)
  rw [Shared.takeItem, refines.queue, taken]
  refine refines.goTo rfl ?_ refines.clock ?_ ?_ rfl fun some => absurd awake some
  · exact congrArg (· ++ [Return.pop thread (some item)]) refines.returned
  · exact Function.update_self ..
  · exact fun other differ => Function.update_of_ne differ ..

variable {capacity : Capacity} {items : List α}

theorem exists_take (simulates : shared.Simulates capacity items) (refines : Refines monitor shared)
    (nonempty : ¬ monitor.data.queue.mSize ≤ 0) :
    ∃ item queue, monitor.data.queue.take = some (item, queue) := by
  have represents := refines.queue ▸ simulates.represents
  rw [represents.isEmpty] at nonempty
  obtain ⟨item, rest, rfl⟩ := List.exists_cons_of_ne_nil nonempty
  obtain ⟨queue, taken, _⟩ := represents.take
  exact ⟨item, queue, taken⟩

/-- What a thread does outside, with the section that it may enter, is one step of the queue with locked
sections of one step. -/
theorem shared_of_outer (simulates : shared.Simulates capacity items) (refines : Refines monitor shared)
    {choice : QueueChoice α} {place : QueuePlace α} {data : QueueData α} {clock : ℕ}
    (taken : outer thread (monitor.places thread) choice monitor.data monitor.objects =
      some (place, data, clock)) :
    ∃ label after, shared.step label = some after ∧
      Refines
        (monitor.goTo thread (sections.complete thread place data).1 (sections.complete thread place data).2
          clock monitor.owner) after := by
  have there := refines.popping thread
  have represents := refines.queue ▸ simulates.represents
  have off : (monitor.data.awake thread).sleepers ⊆ monitor.data.sleepers := List.filter_subset_self ..
  generalize monitor.places thread = before at taken there
  unfold outer at taken
  split at taken
  case h_1 item =>
    cases taken
    rcases Nat.lt_or_ge items.length capacity.value with room | full
    · obtain ⟨queue, pushed, _⟩ := represents.push room item
      rw [complete_pushTest pushed]
      refine ⟨.push item, _, rfl, ?_⟩
      rw [Shared.returnPush, refines.queue, pushed]
      exact refines.returns there fun some => absurd rfl some
    · have refused : monitor.data.queue.push item = some (false, monitor.data.queue) :=
        represents.push_full full
      rw [complete_pushTest refused]
      refine ⟨.push item, _, rfl, ?_⟩
      rw [Shared.returnPush, refines.queue, refused]
      exact refines.returns there fun some => absurd rfl some
  case h_2 =>
    cases taken
    by_cases empty : monitor.data.queue.mSize ≤ 0
    · rw [complete_popTest_empty _ empty]
      refine ⟨.pop thread, shared.setPopping thread (some .waiting), ?_, refines.waits rfl empty⟩
      rw [Shared.step, there, refines.queue]
      exact if_pos empty
    · obtain ⟨item, queue, front⟩ := exists_take simulates refines empty
      rw [complete_popTest _ empty front]
      refine ⟨.pop thread, shared.takeItem thread, ?_, refines.takeItem (List.Subset.refl _) empty front⟩
      rw [Shared.step, there, refines.queue]
      exact if_neg empty
  case h_3 msTimeout =>
    cases taken
    have called : shared.step (.timedPop thread msTimeout) =
        some (shared.setPopping thread (some (.called shared.clock msTimeout))) := by
      rw [Shared.step, there]
      rfl
    refine ⟨_, _, called, ?_⟩
    have stays : sections.inside (.called monitor.objects msTimeout : QueuePlace α) = false := rfl
    rw [sections.complete_outside thread stays, refines.clock]
    refine refines.goTo refines.queue refines.returned refines.clock ?_ ?_ rfl refines.asleep
    · exact Function.update_self ..
    · exact fun other differ => Function.update_of_ne differ ..
  case h_4 =>
    cases taken
    exact ⟨.clear, _, rfl, refines.queue ▸ refines.returns there fun _ => Int.le_refl 0⟩
  case h_5 =>
    cases taken
    exact ⟨.size, _, rfl, refines.queue ▸ refines.answers there _⟩
  case h_6 =>
    cases taken
    exact ⟨.full, _, rfl, refines.queue ▸ refines.answers there _⟩
  case h_7 =>
    cases taken
    exact ⟨.empty, _, rfl, refines.queue ▸ refines.answers there _⟩
  case h_8 =>
    cases taken
    rw [complete_backTest represents.back_eq]
    refine ⟨.back, _, rfl, ?_⟩
    rw [Shared.returnBack, refines.queue, represents.back_eq]
    exact refines.answers there _
  case h_9 now msTimeout =>
    cases taken
    by_cases empty : monitor.data.queue.mSize ≤ 0
    · rw [complete_timedTest_empty now msTimeout _ empty]
      refine ⟨.timedLock thread, _, ?_, refines.waits rfl empty⟩
      rw [Shared.step, there, refines.queue]
      exact if_pos empty
    · obtain ⟨item, queue, front⟩ := exists_take simulates refines empty
      rw [complete_timedTest now msTimeout _ empty front]
      refine ⟨.timedLock thread, _, ?_, refines.takeItem (List.Subset.refl _) empty front⟩
      rw [Shared.step, there, refines.queue]
      exact if_neg empty
  case h_10 =>
    cases taken
    by_cases empty : monitor.data.queue.mSize ≤ 0
    · rw [complete_popTest_empty (monitor.data.awake thread) empty]
      refine ⟨.wake thread, shared, ?_, ?_⟩
      · rw [Shared.step, there, refines.queue]
        exact if_pos empty
      · exact refines.goTo refines.queue refines.returned refines.clock there (fun _ _ => rfl) rfl fun _ => empty
    · obtain ⟨item, queue, front⟩ := exists_take simulates refines empty
      rw [complete_popTest (monitor.data.awake thread) empty front]
      refine ⟨.wake thread, _, ?_, refines.takeItem off empty front⟩
      rw [Shared.step, there, refines.queue]
      exact if_neg empty
  case h_11 =>
    cases taken
    refine ⟨.waitFails thread, _, ?_, refines.giveUp off⟩
    rw [Shared.step, there]
    rfl
  case h_12 now msTimeout t =>
    cases taken
    by_cases empty : monitor.data.queue.mSize ≤ 0
    · rw [complete_timedRetest_empty (monitor.data.awake thread) empty]
      refine ⟨.wake thread, _, ?_, refines.giveUp off⟩
      rw [Shared.step, there, refines.queue]
      exact if_pos empty
    · obtain ⟨item, queue, front⟩ := exists_take simulates refines empty
      rw [complete_timedRetest (monitor.data.awake thread) empty front]
      refine ⟨.wake thread, _, ?_, refines.takeItem off empty front⟩
      rw [Shared.step, there, refines.queue]
      exact if_neg empty
  case h_13 now msTimeout t =>
    split_ifs at taken with passed
    cases taken
    refine ⟨.timeout thread, _, ?_, refines.giveUp off⟩
    rw [Shared.step, there, refines.clock]
    exact if_pos passed
  case h_14 now msTimeout t =>
    cases taken
    refine ⟨.waitFails thread, _, ?_, refines.giveUp off⟩
    rw [Shared.step, there]
    rfl
  case h_15 => cases taken

/-- A whole section, or a statement outside, is one step of the queue with locked sections of one step. -/
theorem shared_of_atomic (simulates : shared.Simulates capacity items) (refines : Refines monitor shared)
    {event : StatementEvent α} {next : Monitored α}
    (stepped : Monitor.atomicStep sections (fun usec clock => clock + usec) monitor event = some next) :
    ∃ label after, shared.step label = some after ∧ Refines next after := by
  cases event with
  | change usec =>
    cases stepped
    exact ⟨.advance usec, _, rfl, refines.advance usec⟩
  | outer thread choice =>
    rw [Monitor.atomicStep, if_neg (Bool.not_eq_true _ ▸ refines.outside thread)] at stepped
    obtain ⟨⟨place, data, clock⟩, taken, rfl⟩ := Option.map_eq_some_iff.mp stepped
    exact shared_of_outer simulates refines taken
  | inner thread => cases stepped

/-! ## Every run of statements -/

/-- Calls return in a statement under the lock, and their results stay. -/
theorem returned_inner {place place' : QueuePlace α} {data' : QueueData α}
    (taken : inner thread place data = some (place', data')) : data.returned <+: data'.returned := by
  cases place with
  | idle | waiting | called _ _ | timewaiting _ _ _ => cases taken
  | popTest | timedTest _ _ =>
    simp only [inner] at taken
    split_ifs at taken <;> cases taken <;> exact List.prefix_rfl
  | pushStore item =>
    simp only [inner] at taken
    split_ifs at taken
    cases taken
    exact List.prefix_rfl
  | takeLoad | backLoad =>
    obtain ⟨item, _, same⟩ := Option.map_eq_some_iff.mp taken
    cases same
    exact List.prefix_rfl
  | unlock result =>
    cases taken
    exact List.prefix_append ..
  | pushTest _ | timedRetest | backTest | pushBack _ | pushSize _ | pushBroadcast _ _ | takeFront | takeSize _
  | clearSize | clearFront | clearBack | size | full | empty =>
    cases taken
    exact List.prefix_rfl

theorem returned_settle (monitor : Monitored α) :
    monitor.data.returned <+: (monitor.settle sections).data.returned := by
  rcases holder : monitor.owner with _ | thread
  · exact ⟨[], by rw [List.append_nil, Monitor.settle_of_free holder]⟩
  · rw [Monitor.settle_of_owner holder]
    apply sections.complete_related thread fun first second => first.returned <+: second.returned
    · exact fun _ => List.prefix_rfl
    · exact List.IsPrefix.trans
    · exact fun _ _ _ _ _ => returned_inner

/-- What calls have returned before is allowed too. -/
theorem behaves_of_prefix {bound : ℕ} {first second : List (Return α)} (behaves : Fifo.Behaves bound second items)
    (before : first <+: second) : ∃ earlier, Fifo.Behaves bound first earlier := by
  induction behaves with
  | nil => exact ⟨[], List.prefix_nil.mp before ▸ .nil⟩
  | @snoc returned items next result behaves allowed ih =>
    rcases List.prefix_concat_iff.mp before with rfl | shorter
    · exact ⟨next, .snoc behaves allowed⟩
    · exact ih shorter

/-- The settled state is one that the queue with locked sections of one step reaches. -/
theorem exists_shared [Inhabited α] (capacity : Capacity) (clock : ℕ) (events : List (StatementEvent α))
    (final : Monitored α) (ran : run step (initial capacity clock) events = some final) :
    Monitor.Owned sections final ∧
      ∃ labels shared items, run Shared.step (Shared.initial capacity clock) labels = some shared ∧
        shared.Simulates capacity items ∧ Refines (final.settle sections) shared := by
  have starts : Monitor.Owned sections (initial capacity clock : Monitored α) :=
    Monitor.owned_of_outside rfl fun _ => rfl
  refine ⟨invariant (fun _ _ _ => Monitor.Owned.step) starts ran, ?_⟩
  obtain ⟨whole, settled⟩ := Monitor.exists_atomic_run starts ran
  have simulates : ∀ (monitor : Monitored α) (shared : Shared α) (event : StatementEvent α) (next : Monitored α),
      (Refines monitor shared ∧ ∃ items, shared.Simulates capacity items) →
        Monitor.atomicStep sections (fun usec clock => clock + usec) monitor event = some next →
          ∃ labels after, run Shared.step shared labels = some after ∧
            Refines next after ∧ ∃ items, after.Simulates capacity items := by
    rintro monitor shared event next ⟨refines, items, simulates⟩ stepped
    obtain ⟨label, after, taken, kept⟩ := shared_of_atomic simulates refines stepped
    exact ⟨[label], after, (run_cons_eq_some _).mpr ⟨after, taken, rfl⟩, kept, simulates.step taken⟩
  obtain ⟨labels, shared, reached, refines, items, kept⟩ :=
    exists_run_of_simulation simulates
      ⟨refines_initial capacity clock, [], Shared.simulates_initial capacity clock⟩ settled
  exact ⟨labels, shared, items, reached, kept, refines⟩

/-- In every run of the statements of the calls other than `front` and `max_size`, the lock excludes, its owner is
never stuck at a store or load outside the array, and the calls return what one list of at most `max_size`
elements returns to them. Whenever the lock is free, the fields represent that list. -/
theorem statements_behave_as_fifo [Inhabited α] (capacity : Capacity) (clock : ℕ)
    (events : List (StatementEvent α)) (final : Monitored α)
    (ran : run step (initial capacity clock) events = some final) :
    (∀ thread, (final.places thread).inside = true ↔ final.owner = some thread) ∧
      (∀ thread, final.owner = some thread → (inner thread (final.places thread) final.data).isSome) ∧
      ∃ items, Fifo.Behaves capacity.value final.data.returned items ∧
        (final.owner = none → Represents capacity final.data.queue items) := by
  obtain ⟨owned, labels, shared, items, -, simulates, refines⟩ := exists_shared capacity clock events final ran
  refine ⟨owned, fun thread holder => ?_, ?_⟩
  · apply sections.inner_isSome thread ((owned thread).mpr holder)
    have outside := refines.outside thread
    rw [Monitor.settle_of_owner holder, Monitor.goTo_places_self] at outside
    exact outside
  · rcases holder : final.owner with _ | thread
    · rw [Monitor.settle_of_free holder] at refines
      exact ⟨items, refines.returned ▸ simulates.behaves, fun _ => refines.queue ▸ simulates.represents⟩
    · obtain ⟨earlier, behaves⟩ :=
        behaves_of_prefix (refines.returned ▸ simulates.behaves) (returned_settle final)
      exact ⟨earlier, behaves, fun free => absurd free (Option.some_ne_none thread)⟩

/-- A consumer sleeps, a producer calls while another counts the elements, and the consumer is stopped after it
has read the cell. -/
theorem statements_behave_as_fifo_midway : ∃ final : Monitored ℕ,
    (∀ thread, (final.places thread).inside = true ↔ final.owner = some thread) ∧
      (∀ thread, final.owner = some thread → (inner thread (final.places thread) final.data).isSome) ∧
      ∃ items, Fifo.Behaves 2 final.data.returned items ∧
        (final.owner = none → Represents ⟨2, by decide, by decide⟩ final.data.queue items) :=
  ⟨_, statements_behave_as_fifo ⟨2, by decide, by decide⟩ 0
    [.outer 1 .pop, .inner 1, .outer 3 (.timedPop 5), .outer 2 (.push 10), .inner 2, .inner 2, .inner 2,
      .change 7, .inner 2, .inner 2, .inner 2, .outer 4 .size, .inner 4, .inner 4, .outer 1 .wake, .inner 1,
      .inner 1, .inner 1]
    _ (Option.some_get (by decide +kernel)).symm⟩

/-- No wake-up is lost: whenever the lock is free and there are elements, every thread in a wait has been woken
since it fell asleep. -/
theorem nobody_sleeps [Inhabited α] (capacity : Capacity) (clock : ℕ) (events : List (StatementEvent α))
    (final : Monitored α) (ran : run step (initial capacity clock) events = some final)
    (free : final.owner = none) (nonempty : 0 < final.data.queue.mSize) : final.data.sleepers = [] := by
  obtain ⟨-, labels, shared, items, -, -, refines⟩ := exists_shared capacity clock events final ran
  rw [Monitor.settle_of_free free] at refines
  by_contra some
  have empty := refines.asleep some
  omega

/-- Two consumers fall asleep before the element comes. -/
private def twoAsleep : List (StatementEvent ℕ) :=
  [.outer 1 .pop, .inner 1, .outer 3 (.timedPop 5), .outer 3 .lock, .inner 3, .outer 2 (.push 10), .inner 2,
    .inner 2, .inner 2, .inner 2, .inner 2, .inner 2]

/-- When the element has come, both have been woken. -/
theorem nobody_sleeps_pushed : ∃ final, run step (initial ⟨2, by decide, by decide⟩ 0) twoAsleep = some final ∧
    final.owner = none ∧ final.data.queue.mSize = 1 ∧ final.data.sleepers = [] := by
  obtain ⟨final, ran⟩ := Option.isSome_iff_exists.mp
    (show (run step (initial ⟨2, by decide, by decide⟩ 0) twoAsleep).isSome by decide +kernel)
  have pushed : (run step (initial ⟨2, by decide, by decide⟩ 0) twoAsleep).all fun final =>
      decide (final.owner = none ∧ final.data.queue.mSize = 1) := by decide +kernel
  rw [ran, Option.all_some, decide_eq_true_eq] at pushed
  obtain ⟨free, one⟩ := pushed
  exact ⟨final, ran, free, one, nobody_sleeps _ 0 twoAsleep final ran free (one ▸ Int.one_pos)⟩

end QueueData

end WebServ.Logging
