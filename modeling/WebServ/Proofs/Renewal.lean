import WebServ.Soundness.Timers
import WebServ.Soundness.Ownership

/-! # The timer of an open connection

Whatever the workers do, the slot of an open descriptor has that descriptor for its socket, and the timer it
points to expires three time slots after the last activity: the reads and writes that note an activity
renew the timer as well. The list is sorted all the time, since a timer is only ever put off, and it is put
off to a time that no other timer exceeds.
-/

namespace WebServ.Http

open WebServ.Machine

namespace TimerList

/-- The list in ascending order. -/
def Ascending (timers : List Timer) : Prop :=
  timers.Pairwise fun first second => first.expire ≤ second.expire

theorem ascending_addTimer {timer : Timer} {timers : List Timer} (ascending : Ascending timers) :
    Ascending (addTimer timer timers) := by
  induction timers with
  | nil => exact List.pairwise_singleton ..
  | cons first rest ih =>
    obtain ⟨before, others⟩ := List.pairwise_cons.mp ascending
    rw [addTimer]
    split_ifs with earlier
    · refine List.pairwise_cons.mpr ⟨?_, ascending⟩
      refine List.forall_mem_cons.mpr ⟨Nat.le_of_lt earlier, fun other member => ?_⟩
      exact Nat.le_trans (Nat.le_of_lt earlier) (before other member)
    · refine List.pairwise_cons.mpr ⟨fun other member => ?_, ih others⟩
      rcases List.mem_cons.mp ((addTimer_perm timer rest).mem_iff.mp member) with rfl | member
      · exact Nat.le_of_not_lt earlier
      · exact before other member

theorem mem_adjustTimer {owner expire : ℕ} {timers : List Timer} {timer : Timer}
    (member : timer ∈ adjustTimer owner expire timers) : timer ∈ timers ∨ timer.expire = expire := by
  induction timers with
  | nil => cases member
  | cons first rest ih =>
    rw [adjustTimer] at member
    split_ifs at member
    · rcases List.mem_cons.mp ((addTimer_perm _ rest).mem_iff.mp member) with rfl | member
      · exact Or.inr rfl
      · exact Or.inl (List.mem_cons_of_mem _ member)
    · rcases List.mem_cons.mp member with rfl | member
      · exact Or.inl (List.mem_cons_self ..)
      · exact (ih member).imp_left (List.mem_cons_of_mem _)

/-- A timer put off to a time that no timer exceeds. -/
theorem ascending_adjustTimer {owner expire : ℕ} {timers : List Timer} (ascending : Ascending timers)
    (latest : ∀ timer ∈ timers, timer.expire ≤ expire) : Ascending (adjustTimer owner expire timers) := by
  induction timers with
  | nil => exact ascending
  | cons first rest ih =>
    obtain ⟨before, others⟩ := List.pairwise_cons.mp ascending
    obtain ⟨early, latest⟩ := List.forall_mem_cons.mp latest
    rw [adjustTimer]
    split_ifs
    · exact ascending_addTimer others
    · refine List.pairwise_cons.mpr ⟨fun other member => ?_, ih others latest⟩
      rcases mem_adjustTimer member with member | rfl
      · exact before other member
      · exact early

/-- The timers left by a tick expire later. -/
theorem lt_of_mem_dropWhile {timers : List Timer} {clock : ℕ} (ascending : Ascending timers) {timer : Timer}
    (left : timer ∈ timers.dropWhile fun timer => timer.expire ≤ clock) : clock < timer.expire := by
  induction timers with
  | nil => cases left
  | cons first rest ih =>
    obtain ⟨before, others⟩ := List.pairwise_cons.mp ascending
    by_cases due : first.expire ≤ clock
    · rw [List.dropWhile_cons_of_pos (by simpa using due)] at left
      exact ih others left
    · rw [List.dropWhile_cons_of_neg (by simpa using due)] at left
      rcases List.mem_cons.mp left with rfl | member
      · exact Nat.lt_of_not_le due
      · exact Nat.lt_of_lt_of_le (Nat.lt_of_not_le due) (before timer member)

end TimerList

namespace Server

variable {server next : Server}

/-- The records of the open descriptors that matter for their timers. -/
structure Renewed (server : Server) : Prop where
  socket : ∀ descriptor ∈ server.descriptors, server.sockfd descriptor.fd = some descriptor.fd
  own : ∀ slot fd, server.sockfd slot = some fd → fd = slot
  timer : ∀ descriptor ∈ server.descriptors, ∃ timer ∈ server.timerLst,
    server.userTimer descriptor.fd = some timer.owner ∧ timer.slot = descriptor.fd ∧
      timer.expire = descriptor.lastActive + 3 * timeslot
  latest : ∀ timer ∈ server.timerLst, timer.expire ≤ server.clock + 3 * timeslot
  ascending : TimerList.Ascending server.timerLst

theorem renewed_initial (clock : ℕ) : Renewed (initial clock) where
  socket := by simp [initial]
  own := by simp [initial]
  timer := by simp [initial]
  latest := by simp [initial]
  ascending := List.Pairwise.nil

/-- No activity is noted for a descriptor that is not open. -/
theorem touch_of_closed {fd : ℕ} (closed : fd ∉ server.openFds) : server.touch fd = server := by
  have same : (server.descriptors.map fun descriptor =>
      if descriptor.fd = fd then { descriptor with lastActive := server.clock } else descriptor) =
        server.descriptors := by
    refine (List.map_congr_left fun descriptor member => ?_).trans (List.map_id _)
    rw [if_neg, id_eq]
    rintro rfl
    exact closed (List.mem_map_of_mem member)
  rw [touch, same]

theorem tickLoop_clock (timers : List Timer) (server : Server) :
    (tickLoop timers server).clock = server.clock := by
  induction timers generalizing server with
  | nil => rfl
  | cons timer rest ih =>
    rw [tickLoop]
    split_ifs
    · rfl
    · exact ih (server.cbFunc timer.slot)

namespace Renewed

/-- Registrations do not matter. -/
theorem register (renewed : Renewed server) (change : Descriptor → Descriptor)
    (fd : ∀ descriptor, (change descriptor).fd = descriptor.fd)
    (lastActive : ∀ descriptor, (change descriptor).lastActive = descriptor.lastActive) :
    Renewed { server with descriptors := server.descriptors.map change } where
  socket := by
    intro after member
    obtain ⟨descriptor, present, rfl⟩ := List.mem_map.mp member
    rw [fd]
    exact renewed.socket descriptor present
  own := renewed.own
  timer := by
    intro after member
    obtain ⟨descriptor, present, rfl⟩ := List.mem_map.mp member
    rw [fd, lastActive]
    exact renewed.timer descriptor present
  latest := renewed.latest
  ascending := renewed.ascending

theorem modfd (renewed : Renewed server) (fd : Option ℕ) (interest : Interest) :
    Renewed (server.modfd fd interest) := by
  apply renewed.register
  all_goals
    intro descriptor
    split_ifs <;> rfl

theorem disarm (renewed : Renewed server) (fds : List ℕ) : Renewed (server.disarm fds) := by
  apply renewed.register
  all_goals
    intro descriptor
    split_ifs <;> rfl

theorem append (renewed : Renewed server) (slot : ℕ) : Renewed (server.append slot) := by
  obtain ⟨workqueue, same⟩ := append_eq server slot
  rw [same]
  exact { renewed with }

/-- A new connection. -/
theorem accept (renewed : Renewed server) {fd : ℕ} (isNew : fd ∉ server.openFds)
    (accepted : server.acceptConn fd = some next) : Renewed next := by
  rw [acceptConn] at accepted
  split_ifs at accepted
  · cases accepted
    exact renewed
  · cases accepted
    have others : ∀ descriptor ∈ server.descriptors, descriptor.fd ≠ fd :=
      fun descriptor member same => isNew (same ▸ List.mem_map_of_mem member)
    have added := TimerList.addTimer_perm ⟨server.nextConn, server.clock + 3 * timeslot, fd⟩ server.timerLst
    constructor
    · refine List.forall_mem_cons.mpr ⟨Function.update_self .., fun descriptor member => ?_⟩
      dsimp only
      rw [Function.update_of_ne (others descriptor member)]
      exact renewed.socket descriptor member
    · intro slot socket points
      dsimp only at points
      by_cases same : slot = fd
      · rw [same, Function.update_self] at points
        exact (Option.some.inj points).symm.trans same.symm
      · rw [Function.update_of_ne same] at points
        exact renewed.own slot socket points
    · refine List.forall_mem_cons.mpr ⟨?_, fun descriptor member => ?_⟩
      · exact ⟨_, added.mem_iff.mpr (List.mem_cons_self ..), Function.update_self .., rfl, rfl⟩
      · obtain ⟨timer, present, points, rest⟩ := renewed.timer descriptor member
        refine ⟨timer, added.mem_iff.mpr (List.mem_cons_of_mem _ present), ?_, rest⟩
        dsimp only
        rw [Function.update_of_ne (others descriptor member), points]
    · intro timer member
      rcases List.mem_cons.mp (added.mem_iff.mp member) with rfl | member
      · exact le_rfl
      · exact renewed.latest timer member
    · exact TimerList.ascending_addTimer renewed.ascending

/-- The main loop closes a reported descriptor. -/
theorem closeByTimer (renewed : Renewed server) {fd : ℕ}
    (others : ∀ timer ∈ server.timerLst, timer.slot ≠ fd → server.userTimer fd ≠ some timer.owner)
    (closed : server.closeByTimer fd = some next) : Renewed next := by
  rw [Server.closeByTimer] at closed
  split at closed
  · cases closed
  · next owner pointer =>
    split_ifs at closed
    cases closed
    constructor
    · exact fun descriptor member => renewed.socket descriptor (List.mem_of_mem_filter member)
    · exact renewed.own
    · intro descriptor member
      obtain ⟨member, differ⟩ := List.mem_filter.mp member
      obtain ⟨timer, present, points, slot, expire⟩ := renewed.timer descriptor member
      refine ⟨timer, List.mem_filter.mpr ⟨present, ?_⟩, points, slot, expire⟩
      have other := others timer present (slot ▸ by simpa using differ)
      rw [pointer] at other
      simpa using fun same => other (congrArg some same.symm)
    · exact fun timer member => renewed.latest timer (List.mem_of_mem_filter member)
    · exact renewed.ascending.filter _

/-- The main loop notes an activity and puts the timer off. -/
theorem postpone (renewed : Renewed server) (distinct : (server.timerLst.map Timer.owner).Nodup) {fd : ℕ}
    (others : ∀ timer ∈ server.timerLst, timer.slot ≠ fd → server.userTimer fd ≠ some timer.owner)
    (postponed : (server.touch fd).postponeTimer fd = some next) : Renewed next := by
  have pointer : (server.touch fd).userTimer fd = server.userTimer fd := rfl
  rw [Server.postponeTimer, pointer] at postponed
  split at postponed
  · next pointer =>
    cases postponed
    rw [touch_of_closed]
    · exact renewed
    · intro isOpen
      obtain ⟨descriptor, member, rfl⟩ := descriptor_of_open isOpen
      obtain ⟨_, _, points, _⟩ := renewed.timer descriptor member
      simp [pointer] at points
  · next owner pointer =>
    split_ifs at postponed
    cases postponed
    have moved := TimerList.adjustTimer_perm owner (server.clock + 3 * timeslot) distinct
    constructor
    · intro after member
      obtain ⟨descriptor, present, rfl⟩ := List.mem_map.mp member
      have socket := renewed.socket descriptor present
      split_ifs <;> exact socket
    · exact renewed.own
    · intro after member
      obtain ⟨descriptor, present, rfl⟩ := List.mem_map.mp member
      obtain ⟨timer, listed, points, slot, expire⟩ := renewed.timer descriptor present
      have adjusted := moved.mem_iff.mpr (List.mem_map_of_mem listed)
      by_cases same : descriptor.fd = fd
      · obtain rfl : owner = timer.owner := Option.some.inj (pointer.symm.trans (same ▸ points))
        rw [if_pos rfl] at adjusted
        rw [if_pos same]
        exact ⟨_, adjusted, points, slot, rfl⟩
      · have differ : timer.owner ≠ owner := fun equal =>
          others timer listed (slot ▸ same) (equal ▸ pointer)
        rw [if_neg differ] at adjusted
        rw [if_neg same]
        exact ⟨_, adjusted, points, slot, expire⟩
    · intro timer member
      rcases TimerList.mem_adjustTimer member with member | late
      · exact renewed.latest timer member
      · exact late.le
    · exact TimerList.ascending_adjustTimer renewed.ascending renewed.latest

/-- A tick closes the descriptors whose timers it removes. -/
theorem tick (renewed : Renewed server) : Renewed server.tick := by
  obtain ⟨timers, userTimer, _⟩ := tickLoop_timers server.timerLst server
  have descriptors := (tickLoop_frame server.timerLst server).1
  have sockfd := tickLoop_sockfd server.timerLst server
  have clock := tickLoop_clock server.timerLst server
  rw [Server.tick]
  constructor
  · rw [descriptors, sockfd]
    exact fun descriptor member => renewed.socket descriptor (List.mem_of_mem_filter member)
  · rw [sockfd]
    exact renewed.own
  · rw [descriptors, userTimer, timers]
    intro descriptor member
    obtain ⟨member, spared⟩ := List.mem_filter.mp member
    obtain ⟨timer, present, points, slot, expire⟩ := renewed.timer descriptor member
    refine ⟨timer, ?_, points, slot, expire⟩
    have cut : timer ∈ (server.timerLst.takeWhile fun timer => timer.expire ≤ server.clock) ++
        server.timerLst.dropWhile fun timer => timer.expire ≤ server.clock := by
      rwa [List.takeWhile_append_dropWhile]
    refine (List.mem_append.mp cut).resolve_left fun due => ?_
    have closes := List.mem_map_of_mem (f := Timer.slot) due
    rw [slot] at closes
    simp [closes] at spared
  · rw [timers, clock]
    exact fun timer member => renewed.latest timer ((List.dropWhile_suffix _).subset member)
  · rw [timers]
    exact renewed.ascending.sublist (List.dropWhile_suffix _).sublist

/-- Every step keeps the timers of the open descriptors renewed. -/
theorem step {event : Event} (renewed : Renewed server) (timed : Timed server)
    (stepped : server.step event = some next) : Renewed next := by
  have others : ∀ {fd : ℕ} {cause : ClientEvent} {rest : List Ready}, server.batch = .client fd cause :: rest →
      ∀ timer ∈ server.timerLst, timer.slot ≠ fd → server.userTimer fd ≠ some timer.owner := by
    intro fd cause rest batch timer present differ pointer
    have reported : fd ∈ server.reported := by
      rw [reported_of_batch batch]
      exact List.mem_cons_self ..
    obtain ⟨own, listed, points, ownSlot⟩ := timed.pointers fd (Or.inr reported)
    obtain rfl := timed.eq_of_owner listed present (Option.some.inj (pointer.symm.trans points))
    exact differ ownSlot
  cases taken_of_step stepped with
  | advance seconds =>
    refine { renewed with latest := fun timer member => ?_ }
    exact Nat.le_trans (renewed.latest timer member) (by dsimp only; omega)
  | epollWait idle once reports => exact { renewed.disarm _ with }
  | acceptFails batch => exact { renewed with }
  | @accept fd rest _ batch isNew accepted =>
    have popped : Renewed { server with batch := rest } := { renewed with }
    exact popped.accept isNew accepted
  | signals batch => exact { renewed with }
  | @close _ fd _ rest _ _ batch closed =>
    have popped : Renewed { server with batch := rest } := { renewed with }
    exact popped.closeByTimer (others batch) closed
  | @read slot socket rest _ batch pointer postponed =>
    obtain rfl := renewed.own _ _ pointer
    have popped : Renewed { server with batch := rest } := { renewed with }
    obtain ⟨workqueue, same⟩ := append_eq { server with batch := rest } socket
    have appended := popped.append socket
    rw [same] at postponed appended
    exact appended.postpone timed.distinct (others batch) postponed
  | @write slot socket rest _ _ batch pointer postponed =>
    obtain rfl := renewed.own _ _ pointer
    have popped : Renewed { server with batch := rest } := { renewed with }
    exact (popped.modfd _ _).postpone timed.distinct (others batch) postponed
  | @writeClosed fd rest interest _ batch pointer postponed =>
    have popped : Renewed { server with batch := rest } := { renewed with }
    have closed : fd ∉ ({ server with batch := rest }.modfd none interest).openFds := by
      rw [modfd_openFds]
      intro isOpen
      obtain ⟨descriptor, member, rfl⟩ := descriptor_of_open isOpen
      have socket := renewed.socket descriptor member
      simp [pointer] at socket
    rw [← touch_of_closed closed] at postponed
    exact (popped.modfd _ _).postpone timed.distinct (others batch) postponed
  | endBatch handled =>
    split_ifs
    · exact { renewed.tick with }
    · exact { renewed with }
  | take slot rest queued => exact { renewed with }
  | finish slot holds => exact { renewed.modfd _ _ with }
  | closeConn =>
    obtain ⟨_, ⟨fd, pointer, rfl⟩ | ⟨_, rfl⟩⟩ := closeConn_eq_some stepped
    · obtain rfl := renewed.own _ _ pointer
      refine { renewed with socket := ?_, own := ?_, timer := ?_ }
      · intro descriptor member
        obtain ⟨member, differ⟩ := List.mem_filter.mp member
        dsimp only
        rw [Function.update_of_ne (by simpa using differ)]
        exact renewed.socket descriptor member
      · intro slot socket points
        dsimp only at points
        by_cases same : slot = fd
        · rw [same, Function.update_self] at points
          cases points
        · rw [Function.update_of_ne same] at points
          exact renewed.own slot socket points
      · exact fun descriptor member => renewed.timer descriptor (List.mem_of_mem_filter member)
    · exact { renewed with }
  | finishClosed holds => exact { renewed.modfd _ _ with }

end Renewed

end Server

end WebServ.Http
