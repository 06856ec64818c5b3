import WebServ.Proofs.Server
import Mathlib.Data.List.TakeWhile

/-! # Counting, timing out and sharing connections

Three properties of whole runs of the server. As long as no worker calls `close_conn`, the count is
the number of open connections, and a tick closes only connections that have been idle for three
time slots, each by its own timer. If moreover no tick expires a connection that is queued or held
by a worker, no object is ever shared: it is not queued or processed twice, and `accept` does not
initialise it under a worker's hands. After each theorem stands a run that violates the property
without its condition.
-/

namespace WebServ.Http

open WebServ.Machine

namespace Server

/-- No step of the run is a worker's `close_conn`. -/
def NoWorkerClose (events : List Event) : Prop := ∀ event ∈ events, event.isCloseConn = false

instance (events : List Event) : Decidable (NoWorkerClose events) :=
  inferInstanceAs (Decidable (∀ _ ∈ _, _))

variable {server next : Server}

/-- The records agree after every run without a worker's close. -/
theorem consistent_of_run {clock : ℕ} {events : List Event} (kept : NoWorkerClose events)
    (ran : run step (initial clock) events = some server) : Consistent server :=
  invariant_of_guarded (fun _ _ _ consistent other stepped => consistent.step other stepped)
    (consistent_initial clock) (Guarded.of_forall kept) ran

/-- In every run whose workers never call `close_conn`, `m_user_count` is the number of accepted
connections that are still open. -/
theorem userCount_eq_open (clock : ℕ) (events : List Event) (server : Server)
    (kept : NoWorkerClose events) (ran : run step (initial clock) events = some server) :
    server.userCount = server.descriptors.length ∧ 0 ≤ server.userCount := by
  have count := (consistent_of_run kept ran).count
  omega

/-- A connection is accepted, read, answered and timed out. -/
theorem userCount_eq_open_timeout :
    ∃ server : Server, server.userCount = server.descriptors.length ∧ 0 ≤ server.userCount :=
  ⟨_, userCount_eq_open 0
    [.epollWait [.listen], .accept 5, .endBatch, .epollWait [.client 5 .readable], .read true, .endBatch,
      .take, .finish 5 .output, .advance 15, .epollWait [.signal], .signals true, .endBatch]
    _ (by decide) (Option.some_get (by decide +kernel)).symm⟩

/-- A worker closes a connection, and the tick that expires its timer subtracts it again. -/
theorem userCount_negative :
    ∃ server, run step (initial 0)
        [.epollWait [.listen], .accept 5, .endBatch, .epollWait [.client 5 .readable], .read true, .endBatch,
          .take, .closeConn 5, .finishClosed 5, .advance 15, .epollWait [.signal], .signals true, .endBatch] =
        some server ∧ server.descriptors = [] ∧ server.userCount = -1 :=
  ⟨_, (Option.some_get (by decide +kernel)).symm, by decide +kernel, by decide +kernel⟩

/-! ## Ticks -/

/-- A timer whose callback is invoked belongs to the connection its slot's descriptor has, and that
connection has been idle long enough. -/
theorem Consistent.expired (consistent : Consistent server) {timer : Timer}
    (due : timer ∈ server.expired) {descriptor : Descriptor} (member : descriptor ∈ server.descriptors)
    (slot : descriptor.fd = timer.slot) :
    timer.owner = descriptor.conn ∧ descriptor.lastActive + 3 * timeslot ≤ server.clock := by
  have late : timer.expire ≤ server.clock := by simpa using List.mem_takeWhile_imp due
  have listed := (List.takeWhile_prefix _).subset due
  obtain ⟨own, present, rfl⟩ := List.mem_map.mp (consistent.timers.mem_iff.mp listed)
  obtain rfl := eq_of_key_eq consistent.fds present member slot
  exact ⟨rfl, late⟩

/-- The descriptors `tick` closes are those of the expired timers; nothing else changes but the
list and the count. -/
theorem tickLoop_frame (timers : List Timer) (server : Server) :
    (tickLoop timers server).descriptors = server.descriptors.filter
        (fun descriptor => descriptor.fd ∉
          (timers.takeWhile fun timer => timer.expire ≤ server.clock).map Timer.slot) ∧
      (tickLoop timers server).batch = server.batch ∧
      (tickLoop timers server).workqueue = server.workqueue ∧
      (tickLoop timers server).held = server.held := by
  induction timers generalizing server with
  | nil => simp [tickLoop]
  | cons timer rest ih =>
    rw [tickLoop]
    split_ifs with pending
    · rw [List.takeWhile_cons_of_neg (by simpa using pending)]
      simp
    · obtain ⟨descriptors, others⟩ := ih (server.cbFunc timer.slot)
      refine ⟨?_, others⟩
      rw [descriptors, List.takeWhile_cons_of_pos (by simpa using pending)]
      rw [cbFunc, closeFd, List.filter_filter, List.map_cons]
      apply List.filter_congr
      intro descriptor _
      simp only [List.mem_cons, not_or, Bool.decide_and, Bool.and_comm]

/-- The end of a batch closes the descriptors of the expired timers if the alarm has rung. -/
theorem endBatch_frame (ticked : server.step .endBatch = some next) :
    next.descriptors = server.descriptors.filter (fun descriptor =>
        server.timeout = true → descriptor.fd ∉ server.expired.map Timer.slot) ∧
      server.batch = [] ∧ next.batch = [] ∧ next.workqueue = server.workqueue ∧
      next.held = server.held := by
  cases taken_of_step ticked with
  | close _ event_eq => simp at event_eq
  | endBatch handled =>
    by_cases alarm : server.timeout = true
    · obtain ⟨descriptors, batch, others⟩ := tickLoop_frame server.timerLst server
      simp only [alarm, ↓reduceIte, forall_const, tick]
      exact ⟨descriptors, handled, batch.trans handled, others⟩
    · simp only [alarm, Bool.false_eq_true, ↓reduceIte, false_implies, decide_true, List.filter_true,
        handled, and_self]

/-- In every run whose workers never call `close_conn`, a tick closes a connection only if it was last
accepted, read or written at least three time slots ago, and the callback that closes it is that of
its own timer. -/
theorem endBatch_closes_idle (clock : ℕ) (events : List Event) (server next : Server)
    (kept : NoWorkerClose events) (ran : run step (initial clock) events = some server)
    (ticked : server.step .endBatch = some next) :
    (∀ descriptor ∈ server.descriptors, descriptor.fd ∉ next.openFds →
      descriptor.lastActive + 3 * timeslot ≤ server.clock) ∧
    ∀ timer ∈ server.expired, ∀ descriptor ∈ server.descriptors, descriptor.fd = timer.slot →
      timer.owner = descriptor.conn ∧ descriptor.lastActive + 3 * timeslot ≤ server.clock := by
  have consistent := consistent_of_run kept ran
  refine ⟨?_, fun timer due descriptor member slot => consistent.expired due member slot⟩
  intro descriptor member isClosed
  rw [openFds, (endBatch_frame ticked).1] at isClosed
  have expires : descriptor.fd ∈ server.expired.map Timer.slot := by
    by_contra other
    apply isClosed
    exact List.mem_map_of_mem (List.mem_filter.mpr ⟨member, by simp [other]⟩)
  obtain ⟨timer, due, slot⟩ := List.mem_map.mp expires
  exact (consistent.expired due member slot.symm).2

/-- A run at whose end two connections are open, one of them idle for three time slots. -/
theorem endBatch_closes_idle_one :
    ∃ server next : Server, server.step .endBatch = some next ∧
      (∀ descriptor ∈ server.descriptors, descriptor.fd ∉ next.openFds →
        descriptor.lastActive + 3 * timeslot ≤ server.clock) ∧
      ∀ timer ∈ server.expired, ∀ descriptor ∈ server.descriptors, descriptor.fd = timer.slot →
        timer.owner = descriptor.conn ∧ descriptor.lastActive + 3 * timeslot ≤ server.clock := by
  obtain ⟨final, ran⟩ := Option.isSome_iff_exists.mp (show (run step (initial 0)
    ([.epollWait [.listen], .accept 5, .endBatch, .advance 10, .epollWait [.listen], .accept 6, .endBatch,
      .advance 5, .epollWait [.signal], .signals true] ++ [.endBatch])).isSome by decide +kernel)
  obtain ⟨server, next, before, ticked, _⟩ := (run_append_cons_eq_some step).mp ran
  exact ⟨server, next, ticked, endBatch_closes_idle 0
    [.epollWait [.listen], .accept 5, .endBatch, .advance 10, .epollWait [.listen], .accept 6, .endBatch,
      .advance 5, .epollWait [.signal], .signals true]
    server next (by decide) before ticked⟩

/-- A worker closes a connection, its number is given to another one, and after one more second the
timer of the first expires on the second. -/
theorem expired_other_connection :
    ∃ server, run step (initial 0)
        [.epollWait [.listen], .accept 5, .endBatch, .epollWait [.client 5 .readable], .read true, .endBatch,
          .take, .closeConn 5, .finishClosed 5, .advance 14, .epollWait [.listen], .accept 5, .endBatch,
          .advance 1, .epollWait [.signal], .signals true] = some server ∧
      ∃ timer ∈ server.expired, ∃ descriptor ∈ server.descriptors, descriptor.fd = timer.slot ∧
        timer.owner ≠ descriptor.conn ∧ descriptor.lastActive + 1 = server.clock :=
  ⟨_, (Option.some_get (by decide +kernel)).symm, by decide +kernel⟩

/-! ## Sharing -/

/-- The step is no worker's `close_conn`, and no tick that expires a queued or held connection. -/
def SparesBusy (server : Server) (event : Event) : Prop :=
  event.isCloseConn = false ∧
    (event = .endBatch → server.timeout = true → ∀ timer ∈ server.expired, timer.slot ∉ server.busy)

instance (server : Server) (event : Event) : Decidable (SparesBusy server event) :=
  inferInstanceAs (Decidable (_ ∧ _))

/-- A queued or held connection is open, waits for no event and is queued or held once. -/
structure Exclusive (server : Server) : Prop where
  once : server.busy.Nodup
  isOpen : ∀ slot ∈ server.busy, slot ∈ server.openFds
  disarmed : ∀ descriptor ∈ server.descriptors,
    descriptor.fd ∈ server.busy ∨ descriptor.fd ∈ server.reported → descriptor.armed = none
  apart : ∀ fd ∈ server.reported, fd ∉ server.busy
  processing : ∀ worker ∈ server.held, worker.2 = .processing

theorem exclusive_initial (clock : ℕ) : Exclusive (initial clock) where
  once := List.nodup_nil
  isOpen := by simp [initial, busy]
  disarmed := by simp [initial]
  apart := by simp [initial, reported]
  processing := by simp [initial]

/-- The main loop's close changes the descriptors, the count and the timers only. -/
theorem closeByTimer_eq_some {slot : ℕ} (closed : server.closeByTimer slot = some next) :
    ∃ timers, next = { server.cbFunc slot with timerLst := timers } := by
  rw [closeByTimer] at closed
  split at closed
  · cases closed
  · split_ifs at closed
    exact ⟨_, (Option.some.inj closed).symm⟩

theorem postponeTimer_eq_some {slot : ℕ} (postponed : server.postponeTimer slot = some next) :
    ∃ timers, next = { server with timerLst := timers } := by
  rw [postponeTimer] at postponed
  split at postponed
  · exact ⟨_, (Option.some.inj postponed).symm⟩
  · split_ifs at postponed
    exact ⟨_, (Option.some.inj postponed).symm⟩

namespace Exclusive

/-- Closing descriptors that are not busy. -/
theorem filter (exclusive : Exclusive server) (keep : Descriptor → Bool)
    (spared : ∀ descriptor ∈ server.descriptors, descriptor.fd ∈ server.busy → keep descriptor = true) :
    Exclusive { server with descriptors := server.descriptors.filter keep } where
  once := exclusive.once
  isOpen slot isBusy := by
    obtain ⟨descriptor, member, rfl⟩ := descriptor_of_open (exclusive.isOpen slot isBusy)
    exact List.mem_map_of_mem (List.mem_filter.mpr ⟨member, spared descriptor member isBusy⟩)
  disarmed descriptor member := exclusive.disarmed descriptor (List.mem_filter.mp member).1
  apart := exclusive.apart
  processing := exclusive.processing

/-- A change of registrations and activity times that arms no descriptor it must not. -/
theorem change (exclusive : Exclusive server) (change : Descriptor → Descriptor)
    (fd : ∀ descriptor, (change descriptor).fd = descriptor.fd)
    (armed : ∀ descriptor ∈ server.descriptors,
      descriptor.fd ∈ server.busy ∨ descriptor.fd ∈ server.reported → descriptor.armed = none →
        (change descriptor).armed = none) :
    Exclusive { server with descriptors := server.descriptors.map change } where
  once := exclusive.once
  isOpen slot isBusy := by
    rw [map_openFds _ _ fd]
    exact exclusive.isOpen slot isBusy
  disarmed := by
    refine List.forall_mem_map.mpr fun descriptor member either => ?_
    rw [fd] at either
    exact armed descriptor member either (exclusive.disarmed descriptor member either)
  apart := exclusive.apart
  processing := exclusive.processing

/-- Fewer busy slots and fewer reported descriptors. -/
theorem fewer (exclusive : Exclusive server) {workqueue : List ℕ} {held : List (ℕ × Phase)}
    {batch : List Ready} (busy : (workqueue ++ held.map Prod.fst).Subperm server.busy)
    (reported : batch.filterMap Ready.fd? ⊆ server.reported)
    (workers : ∀ worker ∈ held, worker.2 = .processing) : Exclusive { server with workqueue, held, batch } where
  once := by
    obtain ⟨list, same, sublist⟩ := busy
    exact same.nodup_iff.mp (exclusive.once.sublist sublist)
  isOpen slot isBusy := exclusive.isOpen slot (busy.subset isBusy)
  disarmed descriptor member either :=
    exclusive.disarmed descriptor member (either.imp (fun m => busy.subset m) (fun m => reported m))
  apart fd member isBusy := exclusive.apart fd (reported member) (busy.subset isBusy)
  processing := workers

/-- The descriptor at the front of the batch is not busy. -/
theorem front (exclusive : Exclusive server) {fd : ℕ} {event : ClientEvent} {rest : List Ready}
    (batch : server.batch = .client fd event :: rest) : fd ∈ server.reported ∧ fd ∉ server.busy := by
  have member : fd ∈ server.reported := by
    rw [reported, batch]
    exact List.mem_cons_self ..
  exact ⟨member, exclusive.apart fd member⟩

/-- The event at the front of the batch is taken up. -/
theorem popBatch (exclusive : Exclusive server) {ready : Ready} {rest : List Ready}
    (batch : server.batch = ready :: rest) : Exclusive { server with batch := rest } := by
  apply exclusive.fewer (List.Subperm.refl _) _ exclusive.processing
  rw [reported, batch]
  exact ((List.suffix_cons ready rest).filterMap _).subset

/-- Only four fields matter. -/
theorem congr (exclusive : Exclusive server) (descriptors : next.descriptors = server.descriptors)
    (batch : next.batch = server.batch) (workqueue : next.workqueue = server.workqueue)
    (held : next.held = server.held) : Exclusive next := by
  have busy : next.busy = server.busy := by rw [Server.busy, Server.busy, workqueue, held]
  have reported : next.reported = server.reported := by rw [Server.reported, Server.reported, batch]
  have openFds : next.openFds = server.openFds := by rw [Server.openFds, Server.openFds, descriptors]
  constructor
  · exact busy ▸ exclusive.once
  · exact busy ▸ openFds ▸ exclusive.isOpen
  · exact busy ▸ reported ▸ descriptors ▸ exclusive.disarmed
  · exact busy ▸ reported ▸ exclusive.apart
  · exact held ▸ exclusive.processing

/-- A descriptor that is open, not busy and disarmed goes into the queue. -/
theorem append (exclusive : Exclusive server) {slot : ℕ} (isOpen : slot ∈ server.openFds)
    (idle : slot ∉ server.busy) (unreported : slot ∉ server.reported)
    (disarmed : ∀ descriptor ∈ server.descriptors, descriptor.fd = slot → descriptor.armed = none) :
    Exclusive (server.append slot) := by
  rw [Server.append]
  split_ifs
  · exact exclusive
  · have same : List.Perm (server.workqueue ++ [slot] ++ server.held.map Prod.fst) (slot :: server.busy) := by
      rw [List.append_assoc]
      exact List.perm_middle
    constructor
    · exact same.nodup_iff.mpr (List.nodup_cons.mpr ⟨idle, exclusive.once⟩)
    · intro other isBusy
      rcases List.mem_cons.mp (same.mem_iff.mp isBusy) with rfl | isBusy
      · exact isOpen
      · exact exclusive.isOpen other isBusy
    · rintro descriptor member (isBusy | reported)
      · rcases List.mem_cons.mp (same.mem_iff.mp isBusy) with isSlot | isBusy
        · exact disarmed descriptor member isSlot
        · exact exclusive.disarmed descriptor member (Or.inl isBusy)
      · exact exclusive.disarmed descriptor member (Or.inr reported)
    · intro fd reported isBusy
      rcases List.mem_cons.mp (same.mem_iff.mp isBusy) with rfl | isBusy
      · exact unreported reported
      · exact exclusive.apart fd reported isBusy
    · exact exclusive.processing

/-- Registering a descriptor that is neither busy nor reported. -/
theorem modfd (exclusive : Exclusive server) {fd : ℕ} (idle : fd ∉ server.busy)
    (unreported : fd ∉ server.reported) (interest : Interest) :
    Exclusive (server.modfd (some fd) interest) := by
  apply exclusive.change
  · intro descriptor
    split_ifs <;> rfl
  · intro descriptor _ either disarmed
    have differ : some fd ≠ some descriptor.fd := by
      intro same
      cases same
      exact either.elim idle unreported
    rw [if_neg differ, disarmed]

theorem touch (exclusive : Exclusive server) (fd : ℕ) : Exclusive (server.touch fd) := by
  apply exclusive.change
  · intro descriptor
    split_ifs <;> rfl
  · intro descriptor _ _ disarmed
    split_ifs <;> exact disarmed

theorem tick (exclusive : Exclusive server)
    (spared : ∀ timer ∈ server.expired, timer.slot ∉ server.busy) : Exclusive server.tick := by
  obtain ⟨descriptors, batch, workqueue, held⟩ := tickLoop_frame server.timerLst server
  have filtered := exclusive.filter (fun descriptor => descriptor.fd ∉ server.expired.map Timer.slot) <| by
    intro descriptor _ isBusy
    simp only [decide_eq_true_eq, List.mem_map, not_exists, not_and]
    intro timer due same
    exact spared timer due (same ▸ isBusy)
  exact filtered.congr descriptors batch workqueue held

/-- Every step that spares the busy connections keeps them exclusive. -/
theorem step {event : Event} (exclusive : Exclusive server) (consistent : Consistent server)
    (spares : SparesBusy server event) (stepped : server.step event = some next) : Exclusive next := by
  cases taken_of_step stepped with
  | advance seconds => exact { exclusive with }
  | epollWait idle once reports =>
    refine ⟨exclusive.once, ?_, ?_, ?_, exclusive.processing⟩
    · intro slot isBusy
      change slot ∈ (server.disarm _).openFds
      rw [disarm_openFds]
      exact exclusive.isOpen slot isBusy
    · refine List.forall_mem_map.mpr fun descriptor member either => ?_
      split_ifs at either ⊢ with isReported
      · rfl
      · exact exclusive.disarmed descriptor member
          (Or.inl (either.resolve_right isReported))
    · intro fd member isBusy
      obtain ⟨ready, present, isClient⟩ := List.mem_filterMap.mp member
      obtain ⟨descriptor, isMember, rfl, armed⟩ := (reports ready present).armed isClient
      exact armed (exclusive.disarmed descriptor isMember (Or.inl isBusy))
  | acceptFails batch => exact exclusive.popBatch batch
  | accept batch isNew accepted =>
    rw [acceptConn] at accepted
    split_ifs at accepted
    · cases accepted
      exact exclusive.popBatch batch
    · cases accepted
      have popped := exclusive.popBatch batch
      have unreported := fun reported => isNew ((consistent.popBatch batch).reports _ reported)
      refine ⟨popped.once, fun slot isBusy => List.mem_cons_of_mem _ (popped.isOpen slot isBusy),
        List.forall_mem_cons.mpr ⟨fun either => ?_, popped.disarmed⟩, popped.apart, popped.processing⟩
      exact absurd either (not_or.mpr ⟨fun isBusy => isNew (exclusive.isOpen _ isBusy), unreported⟩)
  | signals batch => exact { exclusive.popBatch batch with }
  | close fd _ batch closed =>
    obtain ⟨timers, rfl⟩ := closeByTimer_eq_some closed
    obtain ⟨_, idle⟩ := exclusive.front batch
    have filtered := (exclusive.popBatch batch).filter (fun descriptor => descriptor.fd ≠ fd) <| by
      intro descriptor _ isBusy
      have differ : descriptor.fd ≠ fd := fun same => idle (same ▸ isBusy)
      simpa using differ
    exact { filtered with }
  | read batch pointer postponed =>
    obtain ⟨timers, rfl⟩ := postponeTimer_eq_some postponed
    obtain ⟨isOpen, _, unreported⟩ := consistent.front batch
    obtain ⟨reported, idle⟩ := exclusive.front batch
    have queued := (exclusive.popBatch batch).append isOpen idle unreported
      fun descriptor member same => exclusive.disarmed descriptor member (Or.inr (same ▸ reported))
    exact { queued.touch _ with }
  | write batch pointer postponed =>
    obtain ⟨timers, rfl⟩ := postponeTimer_eq_some postponed
    obtain ⟨_, socket, unreported⟩ := consistent.front batch
    obtain rfl := Option.some.inj (socket.symm.trans pointer)
    have registered := (exclusive.popBatch batch).modfd (exclusive.front batch).2 unreported
    exact { (registered _).touch _ with }
  | writeClosed batch pointer _ =>
    have socket := (consistent.front batch).2.1
    rw [pointer] at socket
    cases socket
  | endBatch handled =>
    split_ifs with alarm
    · exact { exclusive.tick (spares.2 rfl alarm) with }
    · exact { exclusive with }
  | take slot rest queued =>
    have same : List.Perm (rest ++ slot :: server.held.map Prod.fst) server.busy := by
      rw [busy, queued]
      exact List.perm_middle
    exact exclusive.fewer same.subperm (List.Subset.refl _)
      (List.forall_mem_cons.mpr ⟨rfl, exclusive.processing⟩)
  | finish slot holds =>
    have same : List.Perm server.busy
        (slot :: (server.workqueue ++ (server.held.erase (slot, .processing)).map Prod.fst)) :=
      (((List.perm_cons_erase holds).map Prod.fst).append_left _).trans List.perm_middle
    have isBusy : slot ∈ server.busy := same.mem_iff.mpr (List.mem_cons_self ..)
    obtain ⟨descriptor, member, rfl⟩ := descriptor_of_open (exclusive.isOpen slot isBusy)
    have released := exclusive.fewer (List.sublist_cons_self .. |>.subperm.trans same.symm.subperm)
      (List.Subset.refl _) fun worker present => exclusive.processing worker (List.mem_of_mem_erase present)
    have idle := (List.nodup_cons.mp (same.nodup_iff.mp exclusive.once)).1
    rw [consistent.sockfd descriptor member]
    exact { released.modfd idle (fun reported => exclusive.apart _ reported isBusy) _ with }
  | closeConn => cases spares.1
  | finishClosed holds =>
    have phase := exclusive.processing _ holds
    cases phase

end Exclusive

/-- In every run whose workers never call `close_conn` and whose ticks expire no queued or held
connection, no object is queued or held twice, and `accept` initialises none that is queued or held. -/
theorem busy_exclusive (clock : ℕ) (events : List Event) (server : Server)
    (spares : Guarded step SparesBusy (initial clock) events)
    (ran : run step (initial clock) events = some server) :
    server.busy.Nodup ∧ ∀ fd next, server.step (.accept fd) = some next → fd ∉ server.busy := by
  have preserved : ∀ s e t, Consistent s ∧ Exclusive s → SparesBusy s e → step s e = some t →
      Consistent t ∧ Exclusive t :=
    fun s e t both spares stepped =>
      ⟨both.1.step spares.1 stepped, both.2.step both.1 spares stepped⟩
  have exclusive := (invariant_of_guarded preserved
    ⟨consistent_initial clock, exclusive_initial clock⟩ spares ran).2
  refine ⟨exclusive.once, fun fd next stepped isBusy => ?_⟩
  cases taken_of_step stepped with
  | close _ event_eq => simp at event_eq
  | accept batch isNew _ => exact isNew (exclusive.isOpen fd isBusy)

/-- Two connections are queued, a worker holds one of them, and a third one is being accepted. -/
theorem busy_exclusive_three :
    ∃ server : Server, server.busy.Nodup ∧
      ∀ fd next, server.step (.accept fd) = some next → fd ∉ server.busy :=
  ⟨_, busy_exclusive 0
    [.epollWait [.listen], .accept 5, .endBatch, .epollWait [.client 5 .readable, .listen], .read true,
      .accept 6, .endBatch, .take, .epollWait [.client 6 .readable, .listen], .read true]
    _ (by decide +kernel) (Option.some_get (by decide +kernel)).symm⟩

/-- A request waits in the queue for three time slots; its connection is closed and the next one
accepted gets its number, so that the object is initialised while it is queued. -/
theorem accept_busy :
    ∃ server, run step (initial 0)
        [.epollWait [.listen], .accept 5, .endBatch, .epollWait [.client 5 .readable], .read true, .endBatch,
          .advance 15, .epollWait [.signal], .signals true, .endBatch, .epollWait [.listen]] = some server ∧
      5 ∈ server.workqueue ∧ ∃ next, server.step (.accept 5) = some next ∧ 5 ∈ next.workqueue ∧
        next.descriptors = [⟨5, 1, some .input, 15⟩] :=
  ⟨_, (Option.some_get (by decide +kernel)).symm, by decide +kernel, _,
    (Option.some_get (by decide +kernel)).symm, by decide +kernel, by decide +kernel⟩

end Server

end WebServ.Http
