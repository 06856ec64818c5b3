import WebServ.Soundness.Connections

/-! # No timer is used or freed after its end

The slot of a connection keeps its timer pointer when the timer is freed, and a worker's `close_conn`
leaves the timer of a closed connection in the list. What makes the pointer safe all the same is its use:
an event is handled for a descriptor that was open when `epoll_wait` reported it, an open descriptor has
the timer its slot points to in the list, and what frees that timer closes the descriptor with it. This
holds in every run, whatever the workers close.
-/

namespace WebServ.Http

open WebServ.Machine

namespace Server

/-- The timers a step passes to `delete`. -/
def freedTimers (server : Server) : Event → List ℕ
  | .hangup | .read false | .write none =>
      ((server.batch.head?.bind Ready.fd?).bind server.userTimer).toList
  | .endBatch => if server.timeout then server.expired.map Timer.owner else []
  | _ => []

/-- The timers passed to `delete` in a run. -/
def freedInRun : Server → List Event → List ℕ
  | _, [] => []
  | server, event :: rest =>
      match server.step event with
      | some next => server.freedTimers event ++ freedInRun next rest
      | none => []

/-- The owners of the timers in the list. -/
def owners (server : Server) : List ℕ := server.timerLst.map Timer.owner

/-- The slot of every descriptor that is open or still reported points to a timer of its own in the
list. -/
structure Timed (server : Server) : Prop where
  distinct : server.owners.Nodup
  known : ∀ owner ∈ server.owners, owner < server.nextConn
  pointers : ∀ fd, fd ∈ server.openFds ∨ fd ∈ server.reported →
    ∃ timer ∈ server.timerLst, server.userTimer fd = some timer.owner ∧ timer.slot = fd
  once : server.reported.Nodup

theorem timed_initial (clock : ℕ) : Timed (initial clock) where
  distinct := List.nodup_nil
  known := by simp [initial, owners]
  pointers := by simp [initial, openFds, reported]
  once := List.nodup_nil

variable {server next : Server}

/-- The timers left by `tick` are those behind the expired ones. -/
theorem tickLoop_timers (timers : List Timer) (server : Server) :
    (tickLoop timers server).timerLst = timers.dropWhile (fun timer => timer.expire ≤ server.clock) ∧
      (tickLoop timers server).userTimer = server.userTimer ∧
      (tickLoop timers server).nextConn = server.nextConn := by
  induction timers generalizing server with
  | nil => exact ⟨rfl, rfl, rfl⟩
  | cons timer rest ih =>
    rw [tickLoop]
    split_ifs with pending
    · rw [List.dropWhile_cons_of_neg (by simpa using pending)]
      exact ⟨rfl, rfl, rfl⟩
    · rw [List.dropWhile_cons_of_pos (by simpa using pending)]
      exact ih (server.cbFunc timer.slot)

namespace Timed

/-- The timers and the pointers to them stay, and no descriptor comes up. -/
theorem fewer (timed : Timed server) (timerLst : next.timerLst = server.timerLst)
    (userTimer : next.userTimer = server.userTimer) (nextConn : next.nextConn = server.nextConn)
    (fds : ∀ fd, fd ∈ next.openFds ∨ fd ∈ next.reported → fd ∈ server.openFds ∨ fd ∈ server.reported)
    (once : next.reported.Nodup) : Timed next where
  distinct := by
    rw [owners, timerLst]
    exact timed.distinct
  known := by
    rw [owners, timerLst, nextConn]
    exact timed.known
  pointers fd either := by
    rw [timerLst, userTimer]
    exact timed.pointers fd (fds fd either)
  once := once

/-- Registrations and activity times do not matter. -/
theorem congr (timed : Timed server) (timerLst : next.timerLst = server.timerLst)
    (userTimer : next.userTimer = server.userTimer) (nextConn : next.nextConn = server.nextConn)
    (openFds : next.openFds = server.openFds) (batch : next.batch = server.batch) : Timed next := by
  have reported : next.reported = server.reported := by rw [Server.reported, Server.reported, batch]
  refine timed.fewer timerLst userTimer nextConn (fun fd => ?_) (reported ▸ timed.once)
  rw [openFds, reported]
  exact id

theorem modfd (timed : Timed server) (fd : Option ℕ) (interest : Interest) :
    Timed (server.modfd fd interest) :=
  timed.congr rfl rfl rfl (modfd_openFds ..) rfl

theorem touch (timed : Timed server) (fd : ℕ) : Timed (server.touch fd) :=
  timed.congr rfl rfl rfl (touch_openFds ..) rfl

/-- The event at the front of the batch is taken up. -/
theorem popBatch (timed : Timed server) {ready : Ready} {rest : List Ready}
    (batch : server.batch = ready :: rest) : Timed { server with batch := rest } := by
  have suffix : rest.filterMap Ready.fd? <:+ server.reported := by
    rw [reported, batch]
    exact (List.suffix_cons ready rest).filterMap _
  refine timed.fewer rfl rfl rfl (fun fd => ?_) (timed.once.sublist suffix.sublist)
  exact Or.imp_right fun member => suffix.subset member

/-- The timer a slot points to is the only one with its owner. -/
theorem eq_of_owner (timed : Timed server) {timer other : Timer} (member : timer ∈ server.timerLst)
    (present : other ∈ server.timerLst) (same : other.owner = timer.owner) : other = timer :=
  eq_of_key_eq timed.distinct member present same

/-- The main loop closes a descriptor and frees its timer. -/
theorem closeByTimer (timed : Timed server) {fd : ℕ} (unreported : fd ∉ server.reported)
    {timer : Timer} (member : timer ∈ server.timerLst) (pointer : server.userTimer fd = some timer.owner)
    (slot : timer.slot = fd) (closed : server.closeByTimer fd = some next) :
    Timed next ∧ next.nextConn = server.nextConn ∧
      next.owners = server.owners.filter (· ≠ timer.owner) := by
  rw [Server.closeByTimer, pointer] at closed
  dsimp only at closed
  split_ifs at closed with live
  cases closed
  have owners : ((TimerList.delTimer timer.owner server.timerLst).map Timer.owner) =
      server.owners.filter (· ≠ timer.owner) := by
    rw [TimerList.delTimer, Server.owners, List.filter_map]
    rfl
  refine ⟨⟨?_, ?_, ?_, timed.once⟩, rfl, owners⟩
  · rw [Server.owners, owners]
    exact timed.distinct.filter _
  · rw [Server.owners, owners]
    exact fun owner listed => timed.known owner (List.mem_of_mem_filter listed)
  · intro other either
    have differ : other ≠ fd := by
      rintro rfl
      rcases either with isOpen | reported
      · obtain ⟨descriptor, present, same⟩ := List.mem_map.mp isOpen
        exact absurd same (by simpa using (List.mem_filter.mp present).2)
      · exact unreported reported
    obtain ⟨own, present, points, ownSlot⟩ := timed.pointers other <| either.imp_left fun isOpen => by
      obtain ⟨descriptor, present, same⟩ := List.mem_map.mp isOpen
      exact List.mem_map.mpr ⟨descriptor, List.mem_of_mem_filter present, same⟩
    refine ⟨own, List.mem_filter.mpr ⟨present, ?_⟩, points, ownSlot⟩
    have others : own.owner ≠ timer.owner := by
      intro same
      obtain rfl := timed.eq_of_owner member present same
      exact differ (ownSlot.symm.trans slot)
    simpa using others

/-- Putting a timer off changes its expiry and its place only. -/
theorem postponeTimer (timed : Timed server) {fd : ℕ} (postponed : server.postponeTimer fd = some next) :
    Timed next ∧ next.nextConn = server.nextConn ∧ next.owners.Perm server.owners := by
  rw [Server.postponeTimer] at postponed
  split at postponed
  · cases postponed
    exact ⟨timed, rfl, List.Perm.refl _⟩
  · next owner _ =>
    split_ifs at postponed
    cases postponed
    have moved := TimerList.adjustTimer_perm owner (server.clock + 3 * timeslot) timed.distinct
    have owners : ((TimerList.adjustTimer owner (server.clock + 3 * timeslot) server.timerLst).map
        Timer.owner).Perm server.owners := by
      have renamed := moved.map Timer.owner
      rw [List.map_map] at renamed
      have same : Timer.owner ∘ (fun timer : Timer => if timer.owner = owner then
          { timer with expire := server.clock + 3 * timeslot } else timer) = Timer.owner := by
        funext timer
        simp only [Function.comp_apply]
        split_ifs <;> rfl
      rwa [same] at renamed
    refine ⟨⟨owners.nodup_iff.mpr timed.distinct, fun other listed => timed.known other
      (owners.mem_iff.mp listed), fun other either => ?_, timed.once⟩, rfl, owners⟩
    obtain ⟨own, present, points, slot⟩ := timed.pointers other either
    refine ⟨_, moved.mem_iff.mpr (List.mem_map_of_mem present), ?_⟩
    split_ifs
    · exact ⟨points, slot⟩
    · exact ⟨points, slot⟩

/-- A new connection brings its timer. -/
theorem accept (timed : Timed server) {fd : ℕ} (accepted : server.acceptConn fd = some next) :
    Timed next ∧ server.nextConn ≤ next.nextConn ∧
      ∀ owner ∈ next.owners, owner ∈ server.owners ∨ server.nextConn ≤ owner := by
  rw [acceptConn] at accepted
  split_ifs at accepted
  · cases accepted
    exact ⟨timed, le_rfl, fun owner listed => Or.inl listed⟩
  · cases accepted
    have added := TimerList.addTimer_perm ⟨server.nextConn, server.clock + 3 * timeslot, fd⟩ server.timerLst
    have owners := added.map Timer.owner
    rw [List.map_cons] at owners
    refine ⟨⟨?_, fun owner listed => ?_, fun other either => ?_, timed.once⟩, Nat.le_succ _,
      fun owner listed => ?_⟩
    · apply owners.nodup_iff.mpr
      exact List.nodup_cons.mpr ⟨fun listed => Nat.lt_irrefl _ (timed.known _ listed), timed.distinct⟩
    · rcases List.mem_cons.mp (owners.mem_iff.mp listed) with rfl | listed
      · exact Nat.lt_succ_self _
      · exact Nat.lt_succ_of_lt (timed.known owner listed)
    · dsimp only
      by_cases same : other = fd
      · rw [same, Function.update_self]
        exact ⟨_, added.mem_iff.mpr (List.mem_cons_self ..), rfl, rfl⟩
      · rw [Function.update_of_ne same]
        obtain ⟨own, present, points, slot⟩ := timed.pointers other <| either.imp_left fun isOpen =>
          (List.mem_cons.mp isOpen).resolve_left same
        exact ⟨own, added.mem_iff.mpr (List.mem_cons_of_mem _ present), points, slot⟩
    · rcases List.mem_cons.mp (owners.mem_iff.mp listed) with rfl | listed
      · exact Or.inr le_rfl
      · exact Or.inl listed

/-- A tick frees the expired timers and closes their descriptors. -/
theorem tick (timed : Timed server) (idle : server.batch = []) :
    Timed server.tick ∧ server.tick.nextConn = server.nextConn ∧
      server.owners = server.expired.map Timer.owner ++ server.tick.owners := by
  obtain ⟨timers, userTimer, nextConn⟩ := tickLoop_timers server.timerLst server
  obtain ⟨descriptors, batch, _⟩ := tickLoop_frame server.timerLst server
  have split : server.timerLst = server.expired ++ server.tick.timerLst := by
    rw [Server.tick, timers, Server.expired, List.takeWhile_append_dropWhile]
  have owners : server.owners = server.expired.map Timer.owner ++ server.tick.owners := by
    rw [Server.owners, Server.owners, ← List.map_append, ← split]
  have quiet : server.tick.reported = [] := by
    rw [reported, Server.tick, batch, idle]
    rfl
  refine ⟨⟨?_, fun owner listed => ?_, fun fd either => ?_, quiet ▸ List.nodup_nil⟩, nextConn, owners⟩
  · exact (List.nodup_append.mp (owners ▸ timed.distinct)).2.1
  · rw [Server.tick, nextConn]
    exact timed.known owner (owners ▸ List.mem_append_right _ listed)
  · rw [quiet, or_iff_left (List.not_mem_nil), openFds, Server.tick, descriptors] at either
    obtain ⟨descriptor, present, rfl⟩ := List.mem_map.mp either
    obtain ⟨present, spared⟩ := List.mem_filter.mp present
    obtain ⟨own, listed, points, slot⟩ := timed.pointers descriptor.fd (Or.inl (List.mem_map_of_mem present))
    rw [split] at listed
    rcases List.mem_append.mp listed with due | left
    · have closes : descriptor.fd ∈ server.expired.map Timer.slot := slot ▸ List.mem_map_of_mem due
      exact absurd closes (by simpa [Server.expired] using spared)
    · exact ⟨own, left, by rw [Server.tick, userTimer, points], slot⟩

end Timed

/-- A step frees timers that are in the list and takes them out of it; the others stay, and a new one is
numbered anew. -/
structure Frees (server : Server) (freed : List ℕ) (next : Server) : Prop where
  timed : Timed next
  later : server.nextConn ≤ next.nextConn
  members : ∀ owner ∈ freed, owner ∈ server.owners
  once : freed.Nodup
  rest : ∀ owner ∈ next.owners, (owner ∈ server.owners ∧ owner ∉ freed) ∨ server.nextConn ≤ owner

namespace Frees

/-- A step that frees no timer. -/
theorem none (timed : Timed next) (later : server.nextConn ≤ next.nextConn)
    (rest : ∀ owner ∈ next.owners, owner ∈ server.owners ∨ server.nextConn ≤ owner) :
    Frees server [] next where
  timed := timed
  later := later
  members := by simp
  once := List.nodup_nil
  rest owner listed := (rest owner listed).imp_left fun before => ⟨before, List.not_mem_nil⟩

/-- A step that leaves the list alone. -/
theorem same (timed : Timed next) (timerLst : next.timerLst = server.timerLst)
    (nextConn : next.nextConn = server.nextConn) : Frees server [] next := by
  refine Frees.none timed nextConn.ge fun owner listed => Or.inl ?_
  rwa [owners, timerLst] at listed

end Frees

/-- The three ways the main loop closes a descriptor free the timer its slot points to. -/
theorem freedTimers_close {event : Event} {fd : ℕ} {cause : ClientEvent} {rest : List Ready}
    (event_eq : event = .hangup ∨ event = .read false ∨ event = .write none)
    (batch : server.batch = .client fd cause :: rest) :
    server.freedTimers event = (server.userTimer fd).toList := by
  rcases event_eq with rfl | rfl | rfl
  all_goals
    rw [freedTimers, batch]
    rfl

namespace Timed

/-- Every step frees only timers in the list. -/
theorem step {event : Event} (timed : Timed server) (stepped : server.step event = some next) :
    Frees server (server.freedTimers event) next := by
  cases taken_of_step stepped with
  | advance seconds => exact Frees.same (timed.congr rfl rfl rfl rfl rfl) rfl rfl
  | epollWait idle once reports =>
    refine Frees.same (timed.fewer rfl rfl rfl (fun fd either => Or.inl ?_) once) rfl rfl
    rcases either with isOpen | member
    · rwa [← server.disarm_openFds]
    · obtain ⟨ready, present, isClient⟩ := List.mem_filterMap.mp member
      obtain ⟨descriptor, isMember, rfl, _⟩ := (reports ready present).armed isClient
      exact List.mem_map_of_mem isMember
  | acceptFails batch => exact Frees.same (timed.popBatch batch) rfl rfl
  | accept batch isNew accepted =>
    obtain ⟨after, later, rest⟩ := (timed.popBatch batch).accept accepted
    exact Frees.none after later rest
  | signals batch => exact Frees.same ((timed.popBatch batch).congr rfl rfl rfl rfl rfl) rfl rfl
  | close fd event_eq batch closed =>
    have reported := reported_of_batch batch
    obtain ⟨timer, member, pointer, slot⟩ :=
      timed.pointers fd (Or.inr (reported ▸ List.mem_cons_self ..))
    have unreported := (List.nodup_cons.mp (reported ▸ timed.once)).1
    obtain ⟨after, nextConn, owners⟩ :=
      (timed.popBatch batch).closeByTimer unreported member pointer slot closed
    rw [freedTimers_close event_eq batch, pointer, Option.toList_some]
    refine ⟨after, nextConn.ge, ?_, List.nodup_singleton _, fun owner listed => Or.inl ?_⟩
    · exact List.forall_mem_singleton.mpr (List.mem_map_of_mem member)
    · rw [owners] at listed
      exact ⟨List.mem_of_mem_filter listed, by simpa using (List.mem_filter.mp listed).2⟩
  | read batch pointer postponed =>
    obtain ⟨workqueue, appended⟩ := append_eq { server with batch := _ } _
    rw [appended] at postponed
    have queued : Timed { server with batch := _, workqueue } :=
      (timed.popBatch batch).congr rfl rfl rfl rfl rfl
    obtain ⟨after, nextConn, owners⟩ := (queued.touch _).postponeTimer postponed
    exact Frees.none after nextConn.ge fun owner listed => Or.inl (owners.mem_iff.mp listed)
  | write batch pointer postponed =>
    obtain ⟨after, nextConn, owners⟩ :=
      (((timed.popBatch batch).modfd _ _).touch _).postponeTimer postponed
    exact Frees.none after nextConn.ge fun owner listed => Or.inl (owners.mem_iff.mp listed)
  | writeClosed batch pointer postponed =>
    obtain ⟨after, nextConn, owners⟩ := ((timed.popBatch batch).modfd _ _).postponeTimer postponed
    exact Frees.none after nextConn.ge fun owner listed => Or.inl (owners.mem_iff.mp listed)
  | endBatch handled =>
    rw [freedTimers]
    split_ifs with alarm
    · obtain ⟨after, nextConn, owners⟩ := timed.tick handled
      have split := List.nodup_append.mp (owners ▸ timed.distinct)
      refine ⟨after.congr rfl rfl rfl rfl rfl, nextConn.ge, fun owner freed => ?_, split.1,
        fun owner listed => Or.inl ⟨?_, fun freed => split.2.2 owner freed owner listed rfl⟩⟩
      · exact owners ▸ List.mem_append_left _ freed
      · exact owners ▸ List.mem_append_right _ listed
    · exact Frees.same (timed.congr rfl rfl rfl rfl rfl) rfl rfl
  | take slot rest queued => exact Frees.same (timed.congr rfl rfl rfl rfl rfl) rfl rfl
  | finish slot holds => exact Frees.same ((timed.modfd _ _).congr rfl rfl rfl rfl rfl) rfl rfl
  | closeConn =>
    obtain ⟨_, ⟨fd, _, rfl⟩ | ⟨_, rfl⟩⟩ := closeConn_eq_some stepped
    · refine Frees.same (timed.fewer rfl rfl rfl (fun other => Or.imp_left ?_) timed.once) rfl rfl
      exact fun isOpen => (List.filter_sublist.map _).subset isOpen
    · exact Frees.same (timed.congr rfl rfl rfl rfl rfl) rfl rfl
  | finishClosed holds => exact Frees.same ((timed.modfd _ _).congr rfl rfl rfl rfl rfl) rfl rfl

/-- The timers freed in a run are distinct members of the list or timers created in the run. -/
theorem freedInRun {events : List Event} (timed : Timed server) :
    (freedInRun server events).Nodup ∧
      ∀ owner ∈ Server.freedInRun server events, owner ∈ server.owners ∨ server.nextConn ≤ owner := by
  induction events generalizing server with
  | nil => exact ⟨List.nodup_nil, by simp [Server.freedInRun]⟩
  | cons event rest ih =>
    rw [Server.freedInRun]
    split
    · next next stepped =>
      have frees := timed.step stepped
      obtain ⟨once, later⟩ := ih frees.timed
      -- what is freed afterwards is still in the list, or newer than everything in it now
      have apart : ∀ owner ∈ Server.freedInRun next rest,
          (owner ∈ server.owners ∧ owner ∉ server.freedTimers event) ∨ server.nextConn ≤ owner := by
        intro owner freed
        rcases later owner freed with listed | fresh
        · exact frees.rest owner listed
        · exact Or.inr (frees.later.trans fresh)
      refine ⟨List.nodup_append.mpr ⟨frees.once, once, ?_⟩, fun owner freed => ?_⟩
      · rintro owner now _ again rfl
        rcases apart owner again with ⟨_, spared⟩ | fresh
        · exact spared now
        · exact absurd (timed.known owner (frees.members owner now)) (Nat.not_lt.mpr fresh)
      · rcases List.mem_append.mp freed with now | again
        · exact Or.inl (frees.members owner now)
        · exact (apart owner again).imp_left And.left
    · exact ⟨List.nodup_nil, by simp⟩

end Timed

/-- In every run, with any closes by workers: when the main loop handles an event of a client descriptor,
the slot's timer pointer leads to a timer in the list that was created for the slot, and no timer is
freed twice. -/
theorem timer_live_and_freed_once (clock : ℕ) (events : List Event) (server : Server)
    (ran : run step (initial clock) events = some server) :
    (∀ fd cause rest, server.batch = .client fd cause :: rest →
      ∃ timer ∈ server.timerLst, server.userTimer fd = some timer.owner ∧ timer.slot = fd) ∧
    (freedInRun (initial clock) events).Nodup := by
  have timed : Timed server :=
    invariant (fun _ _ _ timed stepped => (timed.step stepped).timed) (timed_initial clock) ran
  refine ⟨fun fd cause rest batch => timed.pointers fd (Or.inr ?_), (timed_initial clock).freedInRun.1⟩
  rw [reported_of_batch batch]
  exact List.mem_cons_self ..

/-- A worker closes a connection, its number is given to another one, the orphaned timer expires on it,
and the number is given away once more. -/
theorem timer_live_and_freed_once_reused :
    ∃ server : Server, (∀ fd cause rest, server.batch = .client fd cause :: rest →
      ∃ timer ∈ server.timerLst, server.userTimer fd = some timer.owner ∧ timer.slot = fd) ∧
    (freedInRun (initial 0)
      [.epollWait [.listen], .accept 5, .endBatch, .epollWait [.client 5 .readable], .read true, .endBatch,
        .take, .closeConn 5, .finishClosed 5, .advance 14, .epollWait [.listen], .accept 5, .endBatch,
        .advance 1, .epollWait [.signal], .signals true, .endBatch, .epollWait [.listen], .accept 5,
        .endBatch, .advance 14, .epollWait [.client 5 .readable]]).Nodup :=
  ⟨_, timer_live_and_freed_once 0 _ _ (Option.some_get (by decide +kernel)).symm⟩

end Server

end WebServ.Http
