import WebServ.Soundness.Connections

/-! # What a connection is registered for

A descriptor that is registered for one event at most, and is reported for no other, stays so whatever the
server does with the other connections, and the events that concern it change its registration in one way
each. So the branch of the main loop that handles a connection is always the one its last `modfd` has asked
for.
-/

namespace WebServ.Http

/-- The event a branch of the main loop belongs to; a hangup is always reported. -/
def ClientEvent.interest? : ClientEvent → Option Interest
  | .hangup => none
  | .readable => some .input
  | .writable => some .output

namespace Server

/-- The descriptor is armed and reported for the event, if for any; a hangup may be reported. -/
structure Expects (server : Server) (fd : ℕ) (interest : Option Interest) : Prop where
  armed : ∀ descriptor ∈ server.descriptors, descriptor.fd = fd →
    descriptor.armed = none ∨ descriptor.armed = interest
  reported : ∀ cause, Ready.client fd cause ∈ server.batch →
    cause.interest? = none ∨ cause.interest? = interest

/-- The step does not take up, accept or give back the connection. -/
def Leaves (server : Server) (fd : ℕ) : Event → Prop
  | .accept other => other ≠ fd
  | .read true => server.front ≠ [fd]
  | .write (some _) => server.front ≠ [fd]
  | .finish slot _ => slot ≠ fd
  | _ => True

/-- What a step that leaves a connection alone does to it: it may be reported, taken by a worker or closed. -/
structure Aside (server next : Server) (fd : ℕ) : Prop where
  expects : ∀ {interest}, server.Expects fd interest → next.Expects fd interest
  busy : fd ∈ next.busy → fd ∈ server.busy
  openFds : fd ∈ next.openFds → fd ∈ server.openFds

variable {server next : Server} {fd : ℕ} {interest : Option Interest}

theorem mem_reported {cause : ClientEvent} {batch : List Ready} (member : Ready.client fd cause ∈ batch) :
    fd ∈ batch.filterMap Ready.fd? := List.mem_filterMap.mpr ⟨_, member, rfl⟩

/-- A descriptor that is not reported expects what it is armed for. -/
theorem expects_of_unreported (unreported : fd ∉ server.reported)
    (armed : ∀ descriptor ∈ server.descriptors, descriptor.fd = fd →
      descriptor.armed = none ∨ descriptor.armed = interest) : server.Expects fd interest where
  armed := armed
  reported _ member := absurd (mem_reported member) unreported

/-- `modfd` on a descriptor that is not reported. -/
theorem expects_of_modfd (unreported : fd ∉ server.reported) (event : Interest) :
    (server.modfd (some fd) event).Expects fd (some event) := by
  refine expects_of_unreported unreported (List.forall_mem_map.mpr fun descriptor member isFd => Or.inr ?_)
  split_ifs at isFd ⊢ with other
  · rfl
  · exact absurd (congrArg some isFd.symm) other

namespace Expects

theorem popBatch (expects : server.Expects fd interest) {ready : Ready} {rest : List Ready}
    (batch : server.batch = ready :: rest) : Expects { server with batch := rest } fd interest where
  armed := expects.armed
  reported cause member := expects.reported cause (batch ▸ List.mem_cons_of_mem _ member)

/-- Registering another descriptor. -/
theorem modfd (expects : server.Expects fd interest) {other : ℕ} (differ : other ≠ fd) (event : Interest) :
    (server.modfd (some other) event).Expects fd interest where
  armed := by
    refine List.forall_mem_map.mpr fun descriptor member isFd => ?_
    split_ifs at isFd ⊢ with same
    · exact absurd ((Option.some.inj same).trans isFd) differ
    · exact expects.armed descriptor member isFd
  reported := expects.reported

/-- Noting the time of an activity. -/
theorem touch (expects : server.Expects fd interest) (other : ℕ) :
    (server.touch other).Expects fd interest where
  armed := by
    refine List.forall_mem_map.mpr fun descriptor member isFd => ?_
    split_ifs at isFd ⊢ <;> exact expects.armed descriptor member isFd
  reported := expects.reported

/-- Queueing any connection. -/
theorem append (expects : server.Expects fd interest) (slot : ℕ) : (server.append slot).Expects fd interest := by
  obtain ⟨workqueue, same⟩ := append_eq server slot
  rw [same]
  exact ⟨expects.armed, expects.reported⟩

/-- A batch reports what the descriptors are armed for. -/
theorem epollWait (expects : server.Expects fd interest) {batch : List Ready}
    (reports : ∀ ready ∈ batch, server.Reports ready) :
    Expects { server.disarm (batch.filterMap Ready.fd?) with batch, waiting := false } fd interest where
  armed := by
    refine List.forall_mem_map.mpr fun descriptor member isFd => ?_
    split_ifs at isFd ⊢ with isReported
    · exact Or.inl rfl
    · exact expects.armed descriptor member isFd
  reported cause member := by
    obtain ⟨descriptor, present, isFd, registered⟩ := reports _ member
    have armed := expects.armed descriptor present isFd
    cases cause with
    | hangup => exact Or.inl rfl
    | readable => exact Or.inr ((armed.resolve_left (by rw [registered]; simp)).symm.trans registered).symm
    | writable => exact Or.inr ((armed.resolve_left (by rw [registered]; simp)).symm.trans registered).symm

end Expects

/-- `append` queues one slot at most. -/
theorem mem_busy_append {slot : ℕ} (isBusy : fd ∈ (server.append slot).busy) : fd = slot ∨ fd ∈ server.busy := by
  rw [append] at isBusy
  split_ifs at isBusy
  · exact Or.inr isBusy
  · rw [busy, List.mem_append, List.mem_append, List.mem_singleton] at isBusy
    rcases isBusy with (queued | isSlot) | held
    · exact Or.inr (List.mem_append_left _ queued)
    · exact Or.inl isSlot
    · exact Or.inr (List.mem_append_right _ held)

/-- The main loop leaves the connections behind the front of the batch alone. -/
theorem front_ne {other : ℕ} {cause : ClientEvent} {rest : List Ready}
    (batch : server.batch = .client other cause :: rest) (leaves : server.front ≠ [fd]) : other ≠ fd := by
  rintro rfl
  apply leaves
  rw [front, batch]
  rfl

/-- What every other step does to a connection. -/
theorem aside_of_step {event : Event} (consistent : Consistent server) (exclusive : Exclusive server)
    (spares : SparesBusy server event) (leaves : server.Leaves fd event)
    (stepped : server.step event = some next) : Aside server next fd := by
  cases taken_of_step stepped with
  | advance seconds => exact ⟨fun expects => ⟨expects.armed, expects.reported⟩, id, id⟩
  | epollWait idle once reports =>
    refine ⟨fun expects => expects.epollWait reports, id, fun isOpen => ?_⟩
    change fd ∈ (server.disarm _).openFds at isOpen
    rwa [disarm_openFds] at isOpen
  | acceptFails batch => exact ⟨fun expects => expects.popBatch batch, id, id⟩
  | @accept number rest _ batch isNew accepted =>
    rw [acceptConn] at accepted
    split_ifs at accepted
    · cases accepted
      exact ⟨fun expects => expects.popBatch batch, id, id⟩
    · cases accepted
      refine ⟨fun expects => ⟨?_, (expects.popBatch batch).reported⟩, id, fun isOpen => ?_⟩
      · exact List.forall_mem_cons.mpr ⟨fun isFd => absurd isFd leaves, expects.armed⟩
      · exact (List.mem_cons.mp isOpen).resolve_left (Ne.symm leaves)
  | signals batch =>
    exact ⟨fun expects => ⟨expects.armed, (expects.popBatch batch).reported⟩, id, id⟩
  | close number _ batch closed =>
    obtain ⟨timers, rfl⟩ := closeByTimer_eq_some closed
    refine ⟨fun expects => ⟨fun descriptor member => ?_, (expects.popBatch batch).reported⟩, id, fun isOpen => ?_⟩
    · exact expects.armed descriptor (List.mem_filter.mp member).1
    · obtain ⟨descriptor, member, rfl⟩ := List.mem_map.mp isOpen
      exact List.mem_map_of_mem (List.mem_filter.mp member).1
  | @read number socket _ _ batch pointer postponed =>
    obtain ⟨timers, rfl⟩ := postponeTimer_eq_some postponed
    have differ := front_ne batch leaves
    refine ⟨fun expects => ?_, fun isBusy => ?_, fun isOpen => ?_⟩
    · have queued := ((expects.popBatch batch).append number).touch socket
      exact ⟨queued.armed, queued.reported⟩
    · exact (mem_busy_append isBusy).resolve_left (Ne.symm differ)
    · change fd ∈ (touch (append _ _) _).openFds at isOpen
      rwa [touch_openFds, append_openFds] at isOpen
  | @write number socket _ interest _ batch pointer postponed =>
    obtain ⟨timers, rfl⟩ := postponeTimer_eq_some postponed
    have isSocket := (consistent.front batch).2.1
    obtain rfl := Option.some.inj (isSocket.symm.trans pointer)
    refine ⟨fun expects => ?_, id, fun isOpen => ?_⟩
    · have registered := ((expects.popBatch batch).modfd (front_ne batch leaves) interest).touch number
      exact ⟨registered.armed, registered.reported⟩
    · change fd ∈ (touch (modfd _ _ _) _).openFds at isOpen
      rwa [touch_openFds, modfd_openFds] at isOpen
  | writeClosed batch pointer _ =>
    have socket := (consistent.front batch).2.1
    rw [pointer] at socket
    cases socket
  | endBatch handled =>
    split_ifs with alarm
    · obtain ⟨descriptors, batch, workqueue, held⟩ := tickLoop_frame server.timerLst server
      refine ⟨fun expects => ⟨?_, ?_⟩, ?_, fun isOpen => ?_⟩
      · intro descriptor member
        change descriptor ∈ server.tick.descriptors at member
        rw [tick, descriptors] at member
        exact expects.armed descriptor (List.mem_filter.mp member).1
      · intro cause member
        change _ ∈ server.tick.batch at member
        rw [tick, batch] at member
        exact expects.reported cause member
      · rw [busy, busy]
        change fd ∈ server.tick.workqueue ++ server.tick.held.map _ → _
        rw [tick, workqueue, held]
        exact id
      · obtain ⟨descriptor, member, rfl⟩ := List.mem_map.mp isOpen
        change descriptor ∈ server.tick.descriptors at member
        rw [tick, descriptors] at member
        exact List.mem_map_of_mem (List.mem_filter.mp member).1
    · exact ⟨fun expects => ⟨expects.armed, expects.reported⟩, id, id⟩
  | take slot rest queued =>
    refine ⟨fun expects => ⟨expects.armed, expects.reported⟩, fun isBusy => ?_, id⟩
    have same : List.Perm (rest ++ slot :: server.held.map Prod.fst) server.busy := by
      rw [busy, queued]
      exact List.perm_middle
    exact same.mem_iff.mp isBusy
  | finish slot holds =>
    have isBusy : slot ∈ server.busy := List.mem_append_right _ (List.mem_map_of_mem holds)
    obtain ⟨descriptor, member, rfl⟩ := descriptor_of_open (exclusive.isOpen slot isBusy)
    rw [consistent.sockfd descriptor member]
    refine ⟨fun expects => ?_, fun still => ?_, fun isOpen => ?_⟩
    · have registered := expects.modfd leaves ‹Interest›
      exact ⟨registered.armed, registered.reported⟩
    · rcases List.mem_append.mp still with queued | held
      · exact List.mem_append_left _ queued
      · exact List.mem_append_right _ (List.map_subset _ List.erase_subset held)
    · change fd ∈ (modfd _ _ _).openFds at isOpen
      rwa [modfd_openFds] at isOpen
  | closeConn => cases spares.1
  | finishClosed holds => cases exclusive.processing _ holds

/-! ## The steps that concern a connection -/

/-- An accepted connection waits for input. -/
theorem expects_of_accept (consistent : Consistent server) (exclusive : Exclusive server)
    (room : server.userCount < maxFd) (stepped : server.step (.accept fd) = some next) :
    next.Expects fd (some .input) ∧ fd ∉ next.busy := by
  cases taken_of_step stepped with
  | close _ event_eq => simp at event_eq
  | accept batch isNew accepted =>
    rw [acceptConn] at accepted
    split_ifs at accepted with full
    · exact absurd room (not_lt.mpr full)
    · cases accepted
      refine ⟨expects_of_unreported ?_ (List.forall_mem_cons.mpr ⟨fun _ => Or.inr rfl, ?_⟩), ?_⟩
      · exact fun reported => isNew ((consistent.popBatch batch).reports _ reported)
      · exact fun descriptor member isFd => absurd (isFd ▸ List.mem_map_of_mem member) isNew
      · exact fun isBusy => isNew (exclusive.isOpen _ isBusy)

/-- A connection that has been read waits for nothing. -/
theorem expects_of_read (consistent : Consistent server) (exclusive : Exclusive server)
    (front : server.front = [fd]) (stepped : server.step (.read true) = some next) : next.Expects fd none := by
  cases taken_of_step stepped with
  | close _ event_eq => simp at event_eq
  | @read number socket rest _ batch pointer postponed =>
    obtain rfl : number = fd := by
      rw [Server.front, batch] at front
      exact List.singleton_inj.mp front
    obtain ⟨timers, rfl⟩ := postponeTimer_eq_some postponed
    have popped : Expects { server with batch := rest } number none := by
      apply expects_of_unreported (consistent.front batch).2.2
      intro descriptor member isFd
      exact Or.inl (exclusive.disarmed descriptor member (Or.inr (isFd ▸ (exclusive.front batch).1)))
    have queued := (popped.append number).touch socket
    exact ⟨queued.armed, queued.reported⟩

/-- A connection that has been written to waits for what `write` has registered it for. -/
theorem expects_of_write {event : Interest} (consistent : Consistent server) (exclusive : Exclusive server)
    (front : server.front = [fd]) (stepped : server.step (.write (some event)) = some next) :
    next.Expects fd (some event) ∧ fd ∉ next.busy := by
  cases taken_of_step stepped with
  | close _ event_eq => simp at event_eq
  | @write number socket rest _ _ batch pointer postponed =>
    obtain rfl : number = fd := by
      rw [Server.front, batch] at front
      exact List.singleton_inj.mp front
    obtain ⟨timers, rfl⟩ := postponeTimer_eq_some postponed
    have isSocket := (consistent.front batch).2.1
    obtain rfl := Option.some.inj (isSocket.symm.trans pointer)
    have registered : (modfd { server with batch := rest } (some number) event).Expects number (some event) :=
      expects_of_modfd (consistent.front batch).2.2 event
    have touched := registered.touch number
    exact ⟨⟨touched.armed, touched.reported⟩, (exclusive.front batch).2⟩
  | writeClosed batch pointer _ =>
    have socket := (consistent.front batch).2.1
    rw [pointer] at socket
    cases socket

/-- A connection that a worker gives back waits for what `process` has registered it for. -/
theorem expects_of_finish {event : Interest} (consistent : Consistent server) (exclusive : Exclusive server)
    (stepped : server.step (.finish fd event) = some next) :
    next.Expects fd (some event) ∧ fd ∉ next.busy := by
  cases taken_of_step stepped with
  | close _ event_eq => simp at event_eq
  | finish _ holds =>
    have isBusy : fd ∈ server.busy := List.mem_append_right _ (List.mem_map_of_mem holds)
    have socket : server.sockfd fd = some fd := by
      obtain ⟨descriptor, member, rfl⟩ := descriptor_of_open (exclusive.isOpen fd isBusy)
      exact consistent.sockfd descriptor member
    have same : List.Perm server.busy
        (fd :: (server.workqueue ++ (server.held.erase (fd, .processing)).map Prod.fst)) :=
      (((List.perm_cons_erase holds).map Prod.fst).append_left _).trans List.perm_middle
    refine ⟨?_, (List.nodup_cons.mp (same.nodup_iff.mp exclusive.once)).1⟩
    rw [socket]
    have registered := expects_of_modfd (fun reported => exclusive.apart _ reported isBusy) event
    exact ⟨registered.armed, registered.reported⟩

/-- The front of the batch. -/
theorem batch_of_front (front : server.front = [fd]) : ∃ cause rest, server.batch = .client fd cause :: rest := by
  rw [Server.front, Option.toList_eq_singleton_iff, Option.bind_eq_some_iff] at front
  obtain ⟨ready, first, isClient⟩ := front
  obtain ⟨rest, batch⟩ := List.head?_eq_some_iff.mp first
  cases ready with
  | client number cause =>
    cases isClient
    exact ⟨cause, rest, batch⟩
  | listen => cases isClient
  | signal => cases isClient

/-- The descriptor at the front of the batch is open. -/
theorem isOpen_of_front (consistent : Consistent server) (front : server.front = [fd]) : fd ∈ server.openFds := by
  obtain ⟨_, _, batch⟩ := batch_of_front front
  exact (consistent.front batch).1

/-- Only a connection that waits for input is read. -/
theorem Expects.interest_of_read {received : Bool} (expects : server.Expects fd interest)
    (front : server.front = [fd]) (stepped : server.step (.read received) = some next) :
    interest = some .input := by
  obtain ⟨cause, rest, batch⟩ := batch_of_front front
  rw [step, batch] at stepped
  cases cause with
  | hangup | writable => cases stepped
  | readable =>
    rcases expects.reported .readable (batch ▸ List.mem_cons_self) with none | same
    · cases none
    · exact same.symm

/-- Only a connection that waits for output is written to. -/
theorem Expects.interest_of_write {kept : Option Interest} (expects : server.Expects fd interest)
    (front : server.front = [fd]) (stepped : server.step (.write kept) = some next) :
    interest = some .output := by
  obtain ⟨cause, rest, batch⟩ := batch_of_front front
  rw [step, batch] at stepped
  cases cause with
  | hangup | readable => cases stepped
  | writable =>
    rcases expects.reported .writable (batch ▸ List.mem_cons_self) with none | same
    · cases none
    · exact same.symm

/-- A read or a write that fails closes the connection. -/
theorem notMem_openFds_of_close {event : Event} (front : server.front = [fd])
    (fails : event = .read false ∨ event = .write none) (stepped : server.step event = some next) :
    fd ∉ next.openFds := by
  obtain ⟨cause, rest, batch⟩ := batch_of_front front
  have closed : { server with batch := rest }.closeByTimer fd = some next := by
    rcases fails with rfl | rfl
    · rw [step, batch] at stepped
      cases cause with
      | readable => exact stepped
      | hangup | writable => cases stepped
    · rw [step, batch] at stepped
      cases cause with
      | writable => exact stepped
      | hangup | readable => cases stepped
  obtain ⟨timers, rfl⟩ := closeByTimer_eq_some closed
  intro isOpen
  obtain ⟨descriptor, member, same⟩ := List.mem_map.mp isOpen
  have differ := (List.mem_filter.mp member).2
  simp [same] at differ

end Server

end WebServ.Http
