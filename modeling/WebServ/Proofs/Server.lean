import WebServ.Model.Server
import WebServ.Machine.KeyedList

/-! # The server while no worker closes a connection

`Consistent` ties the four records of a connection together: the open descriptor, the slot's socket,
the slot's timer pointer and the timer in the list are records of the same connection, one of each
for every open descriptor, and the count is their number. Every step keeps it except a
`close_conn` in a worker, which takes the descriptor away and leaves the timer. The lemmas of this
module follow the actions of the source; the step lemma puts them together.
-/

namespace WebServ.Http

open WebServ.Machine

namespace Server

/-- What each step does, with the facts its guards establish. -/
inductive Taken (server : Server) : Event → Server → Prop where
  | advance (seconds : ℕ) :
      Taken server (.advance seconds) { server with clock := server.clock + seconds }
  | epollWait {batch : List Ready} (idle : server.waiting = true)
      (once : (batch.filterMap Ready.fd?).Nodup) (reports : ∀ ready ∈ batch, server.Reports ready) :
      Taken server (.epollWait batch)
        { server.disarm (batch.filterMap Ready.fd?) with batch, waiting := false }
  | acceptFails {rest : List Ready} (batch : server.batch = .listen :: rest) :
      Taken server .acceptFails { server with batch := rest }
  | accept {fd : ℕ} {rest : List Ready} {next : Server} (batch : server.batch = .listen :: rest)
      (isNew : fd ∉ server.openFds)
      (accepted : { server with batch := rest }.acceptConn fd = some next) :
      Taken server (.accept fd) next
  | signals {alarm : Bool} {rest : List Ready} (batch : server.batch = .signal :: rest) :
      Taken server (.signals alarm)
        { server with batch := rest, timeout := server.timeout || alarm }
  | close {event : Event} (fd : ℕ) {cause : ClientEvent} {rest : List Ready} {next : Server}
      (event_eq : event = .hangup ∨ event = .read false ∨ event = .write none)
      (batch : server.batch = .client fd cause :: rest)
      (closed : { server with batch := rest }.closeByTimer fd = some next) : Taken server event next
  | read {fd socket : ℕ} {rest : List Ready} {next : Server}
      (batch : server.batch = .client fd .readable :: rest) (pointer : server.sockfd fd = some socket)
      (postponed : (({ server with batch := rest }.append fd).touch socket).postponeTimer fd = some next) :
      Taken server (.read true) next
  | write {fd socket : ℕ} {rest : List Ready} {interest : Interest} {next : Server}
      (batch : server.batch = .client fd .writable :: rest) (pointer : server.sockfd fd = some socket)
      (postponed : (({ server with batch := rest }.modfd (some socket) interest).touch socket).postponeTimer
        fd = some next) :
      Taken server (.write (some interest)) next
  | writeClosed {fd : ℕ} {rest : List Ready} {interest : Interest} {next : Server}
      (batch : server.batch = .client fd .writable :: rest) (pointer : server.sockfd fd = none)
      (postponed : ({ server with batch := rest }.modfd none interest).postponeTimer fd = some next) :
      Taken server (.write (some interest)) next
  | endBatch (handled : server.batch = []) :
      Taken server .endBatch
        { (if server.timeout then server.tick else server) with timeout := false, waiting := true }
  | take (slot : ℕ) (rest : List ℕ) (queued : server.workqueue = slot :: rest) :
      Taken server .take
        { server with workqueue := rest, held := (slot, .processing) :: server.held }
  | finish (slot : ℕ) {interest : Interest} (holds : (slot, .processing) ∈ server.held) :
      Taken server (.finish slot interest)
        { server.modfd (server.sockfd slot) interest with
          held := server.held.erase (slot, .processing) }
  | closeConn {slot : ℕ} {next : Server} : Taken server (.closeConn slot) next
  | finishClosed {slot : ℕ} (holds : (slot, .closed) ∈ server.held) :
      Taken server (.finishClosed slot)
        { server.modfd (server.sockfd slot) .output with
          held := server.held.erase (slot, .closed) }

/-- `append` and the note of the activity time do not interfere. -/
theorem touch_append (server : Server) (socket slot : ℕ) :
    (server.touch socket).append slot = (server.append slot).touch socket := by
  have same : (server.touch socket).workqueue = server.workqueue := rfl
  rw [append, append, same]
  split_ifs <;> rfl

/-- `append` changes the queue alone. -/
theorem append_eq (server : Server) (slot : ℕ) :
    ∃ workqueue, server.append slot = { server with workqueue } := by
  rw [append]
  split_ifs
  · exact ⟨server.workqueue, rfl⟩
  · exact ⟨_, rfl⟩

/-- The step function does nothing else. A worker's `close_conn` is not described further. -/
theorem taken_of_step {server next : Server} {event : Event} (stepped : server.step event = some next) :
    Taken server event next := by
  cases event with
  | advance seconds =>
    cases stepped
    exact .advance seconds
  | epollWait batch =>
    rw [step] at stepped
    split_ifs at stepped with valid
    cases stepped
    exact .epollWait valid.1 valid.2.2.1 valid.2.2.2
  | acceptFails =>
    rw [step] at stepped
    split at stepped
    · next batch =>
      cases stepped
      exact .acceptFails batch
    · cases stepped
  | accept fd =>
    rw [step] at stepped
    split at stepped
    · next batch =>
      split_ifs at stepped with isNew
      exact .accept batch isNew stepped
    · cases stepped
  | signals alarm =>
    rw [step] at stepped
    split at stepped
    · next batch =>
      cases stepped
      exact .signals batch
    · cases stepped
  | hangup =>
    rw [step] at stepped
    split at stepped
    · next batch => exact .close _ (Or.inl rfl) batch stepped
    · cases stepped
  | read received =>
    rw [step] at stepped
    split at stepped
    · next batch =>
      cases received with
      | false => exact .close _ (Or.inr (Or.inl rfl)) batch stepped
      | true =>
        rw [if_pos rfl] at stepped
        split at stepped
        · next socket pointer =>
          split_ifs at stepped
          rw [touch_append] at stepped
          exact .read batch pointer stepped
        · cases stepped
    · cases stepped
  | write kept =>
    rw [step] at stepped
    split at stepped
    · next batch =>
      cases kept with
      | none => exact .close _ (Or.inr (Or.inr rfl)) batch stepped
      | some interest =>
        dsimp only at stepped
        split at stepped
        · next socket pointer =>
          rw [show server.sockfd _ = some socket from pointer] at stepped
          exact .write batch pointer stepped
        · next pointer =>
          rw [show server.sockfd _ = none from pointer] at stepped
          exact .writeClosed batch pointer stepped
    · cases stepped
  | endBatch =>
    rw [step] at stepped
    by_cases running : server.waiting = true ∨ server.batch ≠ []
    · rw [if_pos running] at stepped
      cases stepped
    · rw [if_neg running] at stepped
      cases stepped
      exact .endBatch (not_not.mp (not_or.mp running).2)
  | take =>
    rw [step] at stepped
    split at stepped
    · next queued =>
      split_ifs at stepped
      cases stepped
      exact .take _ _ queued
    · cases stepped
  | finish slot interest =>
    rw [step] at stepped
    split_ifs at stepped with holds
    cases stepped
    exact .finish slot holds
  | closeConn slot => exact .closeConn
  | finishClosed slot =>
    rw [step] at stepped
    split_ifs at stepped with holds
    cases stepped
    exact .finishClosed holds

/-- What a worker's `close_conn` does: the object's socket is closed, if it still has one. -/
theorem closeConn_eq_some {server next : Server} {slot : ℕ}
    (stepped : server.step (.closeConn slot) = some next) :
    (slot, .processing) ∈ server.held ∧
      ((∃ fd, server.sockfd slot = some fd ∧
        next = { server.closeFd fd with
          held := (slot, .closed) :: server.held.erase (slot, .processing)
          sockfd := Function.update server.sockfd slot none
          userCount := server.userCount - 1 }) ∨
      (server.sockfd slot = none ∧
        next = { server with held := (slot, .closed) :: server.held.erase (slot, .processing) })) := by
  rw [step] at stepped
  split_ifs at stepped with holds
  refine ⟨holds, ?_⟩
  dsimp only at stepped
  split at stepped
  · next fd pointer =>
    cases stepped
    exact Or.inl ⟨fd, pointer, rfl⟩
  · next pointer =>
    cases stepped
    exact Or.inr ⟨pointer, rfl⟩

end Server

/-- The timer that belongs to an open descriptor. -/
def Descriptor.timer (descriptor : Descriptor) : Timer :=
  ⟨descriptor.conn, descriptor.lastActive + 3 * timeslot, descriptor.fd⟩

namespace Server

/-- The client descriptors reported by `epoll_wait` and not handled yet. -/
def reported (server : Server) : List ℕ := server.batch.filterMap Ready.fd?

/-- All records of a connection agree, and there is one of each for every open descriptor. -/
structure Consistent (server : Server) : Prop where
  fds : (server.descriptors.map Descriptor.fd).Nodup
  conns : (server.descriptors.map Descriptor.conn).Nodup
  known : ∀ descriptor ∈ server.descriptors, descriptor.conn < server.nextConn
  timers : server.timerLst.Perm (server.descriptors.map Descriptor.timer)
  userTimer : ∀ descriptor ∈ server.descriptors, server.userTimer descriptor.fd = some descriptor.conn
  sockfd : ∀ descriptor ∈ server.descriptors, server.sockfd descriptor.fd = some descriptor.fd
  reports : ∀ fd ∈ server.reported, fd ∈ server.openFds
  once : server.reported.Nodup
  count : server.userCount = server.descriptors.length

theorem consistent_initial (clock : ℕ) : Consistent (initial clock) where
  fds := List.nodup_nil
  conns := List.nodup_nil
  known := by simp [initial]
  timers := List.Perm.refl _
  userTimer := by simp [initial]
  sockfd := by simp [initial]
  reports := by simp [initial, reported]
  once := List.nodup_nil
  count := rfl

variable {server next : Server}

/-- A client event at the front of the batch. -/
theorem reported_of_batch {fd : ℕ} {cause : ClientEvent} {rest : List Ready}
    (batch : server.batch = .client fd cause :: rest) :
    server.reported = fd :: rest.filterMap Ready.fd? := by
  rw [reported, batch]
  rfl

/-- Registrations do not open or close descriptors. -/
theorem map_openFds (server : Server) (change : Descriptor → Descriptor)
    (fd : ∀ descriptor, (change descriptor).fd = descriptor.fd) :
    openFds { server with descriptors := server.descriptors.map change } = server.openFds := by
  simp only [openFds, List.map_map]
  exact List.map_congr_left fun descriptor _ => fd descriptor

theorem modfd_openFds (server : Server) (fd : Option ℕ) (interest : Interest) :
    (server.modfd fd interest).openFds = server.openFds :=
  server.map_openFds _ fun _ => by split_ifs <;> rfl

theorem touch_openFds (server : Server) (fd : ℕ) : (server.touch fd).openFds = server.openFds :=
  server.map_openFds _ fun _ => by split_ifs <;> rfl

theorem disarm_openFds (server : Server) (fds : List ℕ) :
    (server.disarm fds).openFds = server.openFds :=
  server.map_openFds _ fun _ => by split_ifs <;> rfl

theorem append_openFds (server : Server) (slot : ℕ) : (server.append slot).openFds = server.openFds := by
  rw [append]
  split_ifs <;> rfl

/-- A reported client descriptor is open and armed. -/
theorem Reports.armed {server : Server} {ready : Ready} {fd : ℕ} (reports : server.Reports ready)
    (isClient : ready.fd? = some fd) :
    ∃ descriptor ∈ server.descriptors, descriptor.fd = fd ∧ descriptor.armed ≠ none := by
  cases ready with
  | client number event =>
    cases isClient
    obtain ⟨descriptor, member, same, registered⟩ := reports
    refine ⟨descriptor, member, same, ?_⟩
    cases event with
    | hangup => exact registered
    | readable => exact fun unarmed => nomatch registered.symm.trans unarmed
    | writable => exact fun unarmed => nomatch registered.symm.trans unarmed
  | listen => cases isClient
  | signal => cases isClient

/-- The descriptor with an open number. -/
theorem descriptor_of_open {fd : ℕ} (isOpen : fd ∈ server.openFds) :
    ∃ descriptor ∈ server.descriptors, descriptor.fd = fd := List.mem_map.mp isOpen

namespace Consistent

/-- The owners of the timers in the list are distinct. -/
theorem owners (consistent : Consistent server) : (server.timerLst.map Timer.owner).Nodup := by
  have same := consistent.timers.map Timer.owner
  rw [List.map_map] at same
  exact same.nodup_iff.mpr consistent.conns

/-- A change of registrations and activity times, with the timers that belong to it. -/
theorem change (consistent : Consistent server) (change : Descriptor → Descriptor)
    (fd : ∀ descriptor, (change descriptor).fd = descriptor.fd)
    (conn : ∀ descriptor, (change descriptor).conn = descriptor.conn) {timers : List Timer}
    (retimed : timers.Perm ((server.descriptors.map change).map Descriptor.timer)) :
    Consistent { server with descriptors := server.descriptors.map change, timerLst := timers } := by
  have fds : (server.descriptors.map change).map Descriptor.fd = server.descriptors.map Descriptor.fd := by
    rw [List.map_map]
    exact List.map_congr_left fun descriptor _ => fd descriptor
  have conns : (server.descriptors.map change).map Descriptor.conn =
      server.descriptors.map Descriptor.conn := by
    rw [List.map_map]
    exact List.map_congr_left fun descriptor _ => conn descriptor
  constructor
  · exact fds ▸ consistent.fds
  · exact conns ▸ consistent.conns
  · simpa only [List.forall_mem_map, conn] using consistent.known
  · exact retimed
  · simpa only [List.forall_mem_map, fd, conn] using consistent.userTimer
  · simpa only [List.forall_mem_map, fd] using consistent.sockfd
  · intro number member
    change number ∈ (server.descriptors.map change).map Descriptor.fd
    rw [fds]
    exact consistent.reports number member
  · exact consistent.once
  · simpa only [List.length_map] using consistent.count

/-- A change of the registrations alone. -/
theorem register (consistent : Consistent server) (change : Descriptor → Descriptor)
    (fd : ∀ descriptor, (change descriptor).fd = descriptor.fd)
    (timer : ∀ descriptor, (change descriptor).timer = descriptor.timer) :
    Consistent { server with descriptors := server.descriptors.map change } := by
  apply consistent.change change fd
  · exact fun descriptor => congrArg Timer.owner (timer descriptor)
  · have same : Descriptor.timer ∘ change = Descriptor.timer := funext timer
    rw [List.map_map, same]
    exact consistent.timers

theorem modfd (consistent : Consistent server) (fd : Option ℕ) (interest : Interest) :
    Consistent (server.modfd fd interest) := by
  apply consistent.register
  all_goals
    intro descriptor
    split_ifs <;> rfl

theorem disarm (consistent : Consistent server) (fds : List ℕ) : Consistent (server.disarm fds) := by
  apply consistent.register
  all_goals
    intro descriptor
    split_ifs <;> rfl

/-- The event at the front of the batch is taken up. -/
theorem popBatch (consistent : Consistent server) {ready : Ready} {rest : List Ready}
    (batch : server.batch = ready :: rest) : Consistent { server with batch := rest } := by
  have suffix : rest.filterMap Ready.fd? <:+ server.reported := by
    rw [reported, batch]
    exact (List.suffix_cons ready rest).filterMap _
  exact { consistent with
    reports := fun fd member => consistent.reports fd (suffix.subset member)
    once := consistent.once.sublist suffix.sublist }

/-- One close and the end of its timer take a connection out of every record. -/
theorem close (consistent : Consistent server) {descriptor : Descriptor}
    (member : descriptor ∈ server.descriptors) (unreported : descriptor.fd ∉ server.reported)
    {timers : List Timer} (removed : server.timerLst.Perm (descriptor.timer :: timers)) :
    Consistent { server.cbFunc descriptor.fd with timerLst := timers } := by
  have split := perm_cons_filter_key consistent.fds member
  have sublist : (server.descriptors.filter (·.fd ≠ descriptor.fd)).Sublist server.descriptors :=
    List.filter_sublist
  constructor
  · exact consistent.fds.sublist (sublist.map _)
  · exact consistent.conns.sublist (sublist.map _)
  · exact fun other present => consistent.known other (sublist.subset present)
  · exact ((removed.symm.trans consistent.timers).trans (split.map _)).cons_inv
  · exact fun other present => consistent.userTimer other (sublist.subset present)
  · exact fun other present => consistent.sockfd other (sublist.subset present)
  · intro fd reported
    obtain ⟨other, present, rfl⟩ := descriptor_of_open (consistent.reports fd reported)
    have differ : other.fd ≠ descriptor.fd := fun same => unreported (same ▸ reported)
    exact List.mem_map_of_mem (List.mem_filter.mpr ⟨present, by simpa using differ⟩)
  · exact consistent.once
  · have length := split.length_eq
    have count := consistent.count
    rw [List.length_cons] at length
    change server.userCount - 1 = ((server.descriptors.filter (·.fd ≠ descriptor.fd)).length : ℤ)
    omega

/-- The main loop's close of an open descriptor. -/
theorem closeByTimer (consistent : Consistent server) {fd : ℕ} (isOpen : fd ∈ server.openFds)
    (unreported : fd ∉ server.reported) (closed : server.closeByTimer fd = some next) :
    Consistent next := by
  obtain ⟨descriptor, member, rfl⟩ := descriptor_of_open isOpen
  rw [Server.closeByTimer, consistent.userTimer descriptor member] at closed
  dsimp only at closed
  split_ifs at closed with live
  cases closed
  apply consistent.close member unreported
  have present : descriptor.timer ∈ server.timerLst :=
    consistent.timers.mem_iff.mpr (List.mem_map_of_mem member)
  exact perm_cons_filter_key consistent.owners present

/-- A successful read or write renews the connection's timer together with its activity. -/
theorem postpone (consistent : Consistent server) {fd : ℕ} (isOpen : fd ∈ server.openFds)
    (postponed : (server.touch fd).postponeTimer fd = some next) : Consistent next := by
  obtain ⟨descriptor, member, rfl⟩ := descriptor_of_open isOpen
  have pointer : (server.touch descriptor.fd).userTimer descriptor.fd = some descriptor.conn :=
    consistent.userTimer descriptor member
  rw [Server.postponeTimer, pointer] at postponed
  dsimp only at postponed
  split_ifs at postponed with live
  cases postponed
  apply consistent.change
  · intro other
    split_ifs <;> rfl
  · intro other
    split_ifs <;> rfl
  · have adjusted := (TimerList.adjustTimer_perm descriptor.conn (server.clock + 3 * timeslot)
      consistent.owners).trans (consistent.timers.map _)
    rw [List.map_map] at adjusted ⊢
    rw [← List.map_congr_left fun other present => ?_]
    · exact adjusted
    · by_cases same : other.fd = descriptor.fd
      · obtain rfl := eq_of_key_eq consistent.fds member present same
        simp only [Function.comp_apply, Descriptor.timer, ↓reduceIte]
      · have differ : other.conn ≠ descriptor.conn := fun equal =>
          same (congrArg Descriptor.fd (eq_of_key_eq consistent.conns member present equal))
        simp only [Function.comp_apply, Descriptor.timer, same, differ, ↓reduceIte]

/-- A new connection on a descriptor that is not open. -/
theorem accept (consistent : Consistent server) {fd : ℕ} (isNew : fd ∉ server.openFds)
    (accepted : server.acceptConn fd = some next) : Consistent next := by
  rw [acceptConn] at accepted
  split_ifs at accepted
  · cases accepted
    exact consistent
  · cases accepted
    have others : ∀ descriptor ∈ server.descriptors, descriptor.fd ≠ fd :=
      fun descriptor member same => isNew (same ▸ List.mem_map_of_mem member)
    constructor
    · exact List.nodup_cons.mpr ⟨isNew, consistent.fds⟩
    · refine List.nodup_cons.mpr ⟨fun taken => ?_, consistent.conns⟩
      obtain ⟨descriptor, member, same⟩ := List.mem_map.mp taken
      exact absurd (consistent.known descriptor member) (by dsimp only at same; omega)
    · refine List.forall_mem_cons.mpr ⟨Nat.lt_succ_self _, fun descriptor member => ?_⟩
      exact Nat.lt_succ_of_lt (consistent.known descriptor member)
    · exact (TimerList.addTimer_perm _ _).trans (consistent.timers.cons _)
    · refine List.forall_mem_cons.mpr ⟨Function.update_self .., fun descriptor member => ?_⟩
      dsimp only
      rw [Function.update_of_ne (others descriptor member)]
      exact consistent.userTimer descriptor member
    · refine List.forall_mem_cons.mpr ⟨Function.update_self .., fun descriptor member => ?_⟩
      dsimp only
      rw [Function.update_of_ne (others descriptor member)]
      exact consistent.sockfd descriptor member
    · exact fun number reported => List.mem_cons_of_mem _ (consistent.reports number reported)
    · exact consistent.once
    · have count := consistent.count
      simp only [List.length_cons, Nat.cast_add, Nat.cast_one]
      omega

/-- The loop of `tick` closes the connections of the timers it removes. -/
theorem tickLoop (timers : List Timer) (consistent : Consistent { server with timerLst := timers })
    (idle : server.reported = []) : Consistent (tickLoop timers server) := by
  induction timers generalizing server with
  | nil => exact consistent
  | cons timer rest ih =>
    rw [Server.tickLoop]
    split_ifs with pending
    · exact consistent
    · obtain ⟨descriptor, member, rfl⟩ :=
        List.mem_map.mp (consistent.timers.mem_iff.mp (List.mem_cons_self ..))
      have unreported : descriptor.fd ∉ server.reported := by
        rw [idle]
        exact List.not_mem_nil
      exact ih (consistent.close member unreported (List.Perm.refl _)) idle

theorem tick (consistent : Consistent server) (idle : server.reported = []) :
    Consistent server.tick := consistent.tickLoop server.timerLst idle

/-- The descriptor at the front of the batch is open and will not come up again. -/
theorem front (consistent : Consistent server) {fd : ℕ} {event : ClientEvent} {rest : List Ready}
    (batch : server.batch = .client fd event :: rest) :
    fd ∈ server.openFds ∧ server.sockfd fd = some fd ∧ fd ∉ rest.filterMap Ready.fd? := by
  have reported := reported_of_batch batch
  have isOpen := consistent.reports fd (reported ▸ List.mem_cons_self ..)
  have once := consistent.once
  rw [reported] at once
  obtain ⟨descriptor, member, rfl⟩ := descriptor_of_open isOpen
  exact ⟨isOpen, consistent.sockfd descriptor member, (List.nodup_cons.mp once).1⟩

theorem append (consistent : Consistent server) (slot : ℕ) : Consistent (server.append slot) := by
  rw [Server.append]
  split_ifs
  · exact consistent
  · exact { consistent with }

/-- Every step but a worker's `close_conn` keeps the records in agreement. -/
theorem step {event : Event} (consistent : Consistent server)
    (kept : event.isCloseConn = false) (stepped : server.step event = some next) :
    Consistent next := by
  cases taken_of_step stepped with
  | advance seconds => exact { consistent with }
  | epollWait idle once reports =>
    refine { consistent.disarm _ with reports := ?_, once := once }
    intro fd member
    obtain ⟨ready, present, isClient⟩ := List.mem_filterMap.mp member
    change fd ∈ (server.disarm _).openFds
    rw [disarm_openFds]
    obtain ⟨descriptor, isMember, rfl, _⟩ := (reports ready present).armed isClient
    exact List.mem_map_of_mem isMember
  | acceptFails batch => exact consistent.popBatch batch
  | accept batch isNew accepted => exact (consistent.popBatch batch).accept isNew accepted
  | signals batch => exact { consistent.popBatch batch with }
  | close fd _ batch closed =>
    obtain ⟨isOpen, _, unreported⟩ := consistent.front batch
    exact (consistent.popBatch batch).closeByTimer isOpen unreported closed
  | read batch pointer postponed =>
    obtain ⟨isOpen, socket, _⟩ := consistent.front batch
    obtain rfl := Option.some.inj (socket.symm.trans pointer)
    exact ((consistent.popBatch batch).append _).postpone (by rwa [append_openFds]) postponed
  | write batch pointer postponed =>
    obtain ⟨isOpen, socket, _⟩ := consistent.front batch
    obtain rfl := Option.some.inj (socket.symm.trans pointer)
    exact ((consistent.popBatch batch).modfd _ _).postpone (by rwa [modfd_openFds]) postponed
  | writeClosed batch pointer _ =>
    have socket := (consistent.front batch).2.1
    rw [pointer] at socket
    cases socket
  | endBatch handled =>
    have idle : server.reported = [] := by
      rw [reported, handled]
      rfl
    split_ifs
    · exact { consistent.tick idle with }
    · exact { consistent with }
  | take slot rest queued => exact { consistent with }
  | finish slot holds => exact { consistent.modfd _ _ with }
  | closeConn => cases kept
  | finishClosed holds => exact { consistent.modfd _ _ with }

end Consistent

end Server

end WebServ.Http
