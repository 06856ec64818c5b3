import WebServ.Soundness.Connections

/-! # Somebody looks after every connection

A client descriptor is registered for one event at a time, so between two events it must be in other
hands: reported and not handled yet, in the work queue, or held by a worker. Every hand-over of the
source passes the descriptor on, arms it again or closes it, with one exception: the main loop ignores
that `append` has refused a request, and from then on nothing but the timer remembers the connection.
-/

namespace WebServ.Http

open WebServ.Machine

namespace Server

/-- The descriptor is registered for an event, reported to the main loop, queued or held by a worker. -/
def LooksAfter (server : Server) (descriptor : Descriptor) : Prop :=
  descriptor.armed ≠ none ∨ descriptor.fd ∈ server.reported ∨ descriptor.fd ∈ server.workqueue ∨
    descriptor.fd ∈ server.held.map Prod.fst

instance (server : Server) (descriptor : Descriptor) : Decidable (server.LooksAfter descriptor) :=
  inferInstanceAs (Decidable (_ ∨ _))

/-- A read that is to be queued finds room in the queue. -/
def FindsRoom (server : Server) (event : Event) : Prop :=
  event = .read true → server.workqueue.length < maxRequests

instance (server : Server) (event : Event) : Decidable (FindsRoom server event) :=
  inferInstanceAs (Decidable (_ → _))

/-- Every open descriptor is looked after and is the socket of its slot. -/
structure Watched (server : Server) : Prop where
  idle : server.waiting = true → server.batch = []
  sockfd : ∀ descriptor ∈ server.descriptors, server.sockfd descriptor.fd = some descriptor.fd
  own : ∀ slot fd, server.sockfd slot = some fd → fd = slot
  looksAfter : ∀ descriptor ∈ server.descriptors, server.LooksAfter descriptor

theorem watched_initial (clock : ℕ) : Watched (initial clock) where
  idle _ := rfl
  sockfd := by simp [initial]
  own := by simp [initial]
  looksAfter := by simp [initial]

variable {server next : Server}

/-- Another object stays in its worker's hands. -/
theorem mem_erase_held {held : List (ℕ × Phase)} {slot fd : ℕ} {phase : Phase}
    (holds : fd ∈ held.map Prod.fst) (differ : fd ≠ slot) :
    fd ∈ (held.erase (slot, phase)).map Prod.fst := by
  obtain ⟨worker, member, rfl⟩ := List.mem_map.mp holds
  refine List.mem_map_of_mem ((List.mem_erase_of_ne ?_).mpr member)
  exact fun same => differ (congrArg Prod.fst same)

/-- A tick leaves the sockets of the objects alone. -/
theorem tickLoop_sockfd (timers : List Timer) (server : Server) :
    (tickLoop timers server).sockfd = server.sockfd := by
  induction timers generalizing server with
  | nil => rfl
  | cons timer rest ih =>
    rw [tickLoop]
    split_ifs
    · rfl
    · exact ih (server.cbFunc timer.slot)

namespace Watched

/-- The sockets stay, and every descriptor left was there before and is still looked after. -/
theorem keep (watched : Watched server) (sockfd : next.sockfd = server.sockfd)
    (idle : next.waiting = true → next.batch = [])
    (kept : ∀ after ∈ next.descriptors, ∃ descriptor ∈ server.descriptors, after.fd = descriptor.fd ∧
      (server.LooksAfter descriptor → next.LooksAfter after)) : Watched next where
  idle := idle
  sockfd after member := by
    obtain ⟨descriptor, before, same, _⟩ := kept after member
    rw [sockfd, same]
    exact watched.sockfd descriptor before
  own := by
    rw [sockfd]
    exact watched.own
  looksAfter after member := by
    obtain ⟨descriptor, before, _, looks⟩ := kept after member
    exact looks (watched.looksAfter descriptor before)

/-- An event without a client is taken up. -/
theorem popOther (watched : Watched server) {ready : Ready} {rest : List Ready}
    (batch : server.batch = ready :: rest) (other : ready.fd? = none) :
    Watched { server with batch := rest } := by
  have same : rest.filterMap Ready.fd? = server.reported := by
    rw [reported, batch, List.filterMap_cons_none other]
  refine watched.keep rfl (fun waiting => ?_) fun descriptor member => ⟨descriptor, member, rfl, ?_⟩
  · rw [watched.idle waiting] at batch
    cases batch
  · rw [LooksAfter, ← same]
    exact id

/-- A new connection is registered for input. -/
theorem accept (watched : Watched server) {fd : ℕ} (accepted : server.acceptConn fd = some next) :
    Watched next := by
  rw [acceptConn] at accepted
  split_ifs at accepted
  · cases accepted
    exact watched
  · cases accepted
    refine ⟨watched.idle, ?_, ?_, ?_⟩
    · refine List.forall_mem_cons.mpr ⟨Function.update_self .., fun descriptor member => ?_⟩
      dsimp only
      rw [Function.update_apply]
      split_ifs with same
      · rw [same]
      · exact watched.sockfd descriptor member
    · intro slot other points
      dsimp only at points
      rw [Function.update_apply] at points
      split_ifs at points with same
      · exact (Option.some.inj points).symm.trans same.symm
      · exact watched.own slot other points
    · exact List.forall_mem_cons.mpr ⟨Or.inl (Option.some_ne_none _), watched.looksAfter⟩

/-- Descriptors are closed, and the others keep what looks after them. -/
theorem filter (watched : Watched server) (keep : Descriptor → Bool) (sockfd : next.sockfd = server.sockfd)
    (idle : next.waiting = true → next.batch = [])
    (descriptors : next.descriptors = server.descriptors.filter keep)
    (looks : ∀ descriptor ∈ server.descriptors, keep descriptor = true →
      server.LooksAfter descriptor → next.LooksAfter descriptor) : Watched next := by
  refine watched.keep sockfd idle fun descriptor member => ?_
  rw [descriptors] at member
  obtain ⟨before, kept⟩ := List.mem_filter.mp member
  exact ⟨descriptor, before, rfl, looks descriptor before kept⟩

/-- Registrations and activity times change, and every descriptor keeps what looks after it. -/
theorem map (watched : Watched server) (change : Descriptor → Descriptor)
    (sockfd : next.sockfd = server.sockfd) (idle : next.waiting = true → next.batch = [])
    (descriptors : next.descriptors = server.descriptors.map change)
    (fd : ∀ descriptor, (change descriptor).fd = descriptor.fd)
    (looks : ∀ descriptor ∈ server.descriptors,
      server.LooksAfter descriptor → next.LooksAfter (change descriptor)) : Watched next := by
  refine watched.keep sockfd idle fun after member => ?_
  rw [descriptors] at member
  obtain ⟨descriptor, before, rfl⟩ := List.mem_map.mp member
  exact ⟨descriptor, before, fd descriptor, looks descriptor before⟩

/-- A worker lets go of an object, having registered its socket. -/
theorem release (watched : Watched server) (slot : ℕ) (phase : Phase) (interest : Interest) :
    Watched { server.modfd (server.sockfd slot) interest with held := server.held.erase (slot, phase) } := by
  refine watched.map _ rfl watched.idle rfl (fun descriptor => ?_) fun descriptor member looks => ?_
  · split_ifs <;> rfl
  · split_ifs with isSocket
    · exact Or.inl (Option.some_ne_none interest)
    · have differ : descriptor.fd ≠ slot := by
        rintro rfl
        exact isSocket (watched.sockfd descriptor member)
      exact looks.imp_right (Or.imp_right (Or.imp_right fun held => mem_erase_held held differ))

/-- A worker closes the socket of its object. -/
theorem closeSocket (watched : Watched server) (slot : ℕ) :
    Watched { server.closeFd slot with
      held := (slot, .closed) :: server.held.erase (slot, .processing)
      sockfd := Function.update server.sockfd slot none
      userCount := server.userCount - 1 } where
  idle := watched.idle
  sockfd descriptor member := by
    obtain ⟨before, kept⟩ := List.mem_filter.mp member
    have differ : descriptor.fd ≠ slot := by simpa using kept
    dsimp only
    rw [Function.update_of_ne differ]
    exact watched.sockfd descriptor before
  own other fd points := by
    dsimp only at points
    rw [Function.update_apply] at points
    split_ifs at points
    exact watched.own other fd points
  looksAfter descriptor member := by
    obtain ⟨before, kept⟩ := List.mem_filter.mp member
    have differ : descriptor.fd ≠ slot := by simpa using kept
    exact (watched.looksAfter descriptor before).imp_right (Or.imp_right (Or.imp_right fun held =>
      List.mem_cons_of_mem _ (mem_erase_held held differ)))

/-- Every step keeps watch, if a read that is to be queued finds room. -/
theorem step {event : Event} (watched : Watched server) (room : FindsRoom server event)
    (stepped : server.step event = some next) : Watched next := by
  cases taken_of_step stepped with
  | advance seconds => exact { watched with }
  | epollWait idle once reports =>
    have quiet : server.reported = [] := by
      rw [reported, watched.idle idle]
      rfl
    refine watched.map _ rfl (fun waiting => by cases waiting) rfl (fun descriptor => ?_) ?_
    · split_ifs <;> rfl
    · intro descriptor _ looks
      rw [LooksAfter, quiet] at looks
      split_ifs with isReported
      · exact Or.inr (Or.inl isReported)
      · exact looks.imp_right (Or.imp_left fun none => absurd none List.not_mem_nil)
  | acceptFails batch => exact watched.popOther batch rfl
  | accept batch isNew accepted => exact (watched.popOther batch rfl).accept accepted
  | signals batch => exact { watched.popOther batch rfl with }
  | close fd _ batch closed =>
    obtain ⟨timers, rfl⟩ := closeByTimer_eq_some closed
    refine watched.filter _ rfl (fun waiting => ?_) rfl fun descriptor _ kept looks => ?_
    · rw [watched.idle waiting] at batch
      cases batch
    · rw [LooksAfter, reported_of_batch batch, List.mem_cons] at looks
      have differ : descriptor.fd ≠ fd := by simpa using kept
      exact looks.imp_right (Or.imp_left fun either => either.resolve_left differ)
  | @read fd socket rest _ batch pointer postponed =>
    obtain ⟨timers, rfl⟩ := postponeTimer_eq_some postponed
    have free : ¬ maxRequests ≤ server.workqueue.length := Nat.not_le.mpr (room rfl)
    rw [append, if_neg free]
    refine watched.map _ rfl (fun waiting => ?_) rfl (fun descriptor => ?_) ?_
    · rw [watched.idle waiting] at batch
      cases batch
    · split_ifs <;> rfl
    · intro descriptor _ looks
      rw [LooksAfter, reported_of_batch batch, List.mem_cons] at looks
      have queued : descriptor.fd = fd ∨ descriptor.fd ∈ server.workqueue →
          descriptor.fd ∈ server.workqueue ++ [fd] := by
        rintro (rfl | queued)
        · exact List.mem_append_right _ (List.mem_singleton_self _)
        · exact List.mem_append_left _ queued
      have after : descriptor.armed ≠ none ∨ descriptor.fd ∈ rest.filterMap Ready.fd? ∨
          descriptor.fd ∈ server.workqueue ++ [fd] ∨ descriptor.fd ∈ server.held.map Prod.fst := by
        rcases looks with armed | (isFd | reported) | waiting | held
        · exact Or.inl armed
        · exact Or.inr (Or.inr (Or.inl (queued (Or.inl isFd))))
        · exact Or.inr (Or.inl reported)
        · exact Or.inr (Or.inr (Or.inl (queued (Or.inr waiting))))
        · exact Or.inr (Or.inr (Or.inr held))
      split_ifs
      · exact after
      · exact after
  | @write fd socket rest interest _ batch pointer postponed =>
    obtain ⟨timers, rfl⟩ := postponeTimer_eq_some postponed
    obtain rfl := watched.own fd socket pointer
    refine watched.map _ rfl (fun waiting => ?_) (List.map_map ..) (fun descriptor => ?_) ?_
    · rw [watched.idle waiting] at batch
      cases batch
    · simp only [Function.comp_apply]
      split_ifs <;> rfl
    · intro descriptor _ looks
      rw [LooksAfter, reported_of_batch batch, List.mem_cons] at looks
      by_cases same : descriptor.fd = socket
      · refine Or.inl ?_
        simp only [Function.comp_apply, same, ↓reduceIte]
        exact Option.some_ne_none interest
      · have differ : some socket ≠ some descriptor.fd := fun equal => same (Option.some.inj equal).symm
        simp only [Function.comp_apply, same, differ, ↓reduceIte]
        exact looks.imp_right (Or.imp_left fun either => either.resolve_left same)
  | @writeClosed fd rest interest _ batch pointer postponed =>
    obtain ⟨timers, rfl⟩ := postponeTimer_eq_some postponed
    refine watched.map _ rfl (fun waiting => ?_) rfl (fun descriptor => ?_) ?_
    · rw [watched.idle waiting] at batch
      cases batch
    · split_ifs <;> rfl
    · intro descriptor member looks
      rw [LooksAfter, reported_of_batch batch, List.mem_cons] at looks
      have differ : descriptor.fd ≠ fd := by
        rintro rfl
        rw [watched.sockfd descriptor member] at pointer
        cases pointer
      rw [if_neg (by simp)]
      exact looks.imp_right (Or.imp_left fun either => either.resolve_left differ)
  | endBatch handled =>
    split_ifs
    · obtain ⟨descriptors, batch, workqueue, held⟩ := tickLoop_frame server.timerLst server
      have same : server.tick.reported = server.reported := by rw [reported, reported, tick, batch]
      refine watched.filter _ (tickLoop_sockfd _ _) (fun _ => batch.trans handled) descriptors
        fun descriptor _ _ looks => ?_
      change descriptor.armed ≠ none ∨ descriptor.fd ∈ server.tick.reported ∨
        descriptor.fd ∈ server.tick.workqueue ∨ descriptor.fd ∈ server.tick.held.map Prod.fst
      rw [same, tick, workqueue, held]
      exact looks
    · exact { watched with idle := fun _ => handled }
  | take slot rest queued =>
    refine watched.keep rfl watched.idle fun descriptor member => ⟨descriptor, member, rfl, fun looks => ?_⟩
    rw [LooksAfter, queued, List.mem_cons] at looks
    rcases looks with armed | reported | (isSlot | waiting) | held
    · exact Or.inl armed
    · exact Or.inr (Or.inl reported)
    · exact Or.inr (Or.inr (Or.inr (isSlot ▸ List.mem_cons_self ..)))
    · exact Or.inr (Or.inr (Or.inl waiting))
    · exact Or.inr (Or.inr (Or.inr (List.mem_cons_of_mem _ held)))
  | finish slot holds => exact watched.release slot .processing _
  | @closeConn slot _ =>
    obtain ⟨_, ⟨fd, pointer, rfl⟩ | ⟨pointer, rfl⟩⟩ := closeConn_eq_some stepped
    · obtain rfl := watched.own _ fd pointer
      exact watched.closeSocket fd
    · refine watched.keep rfl watched.idle fun descriptor member => ⟨descriptor, member, rfl, ?_⟩
      have differ : descriptor.fd ≠ slot := by
        rintro rfl
        rw [watched.sockfd descriptor member] at pointer
        cases pointer
      exact Or.imp_right (Or.imp_right (Or.imp_right fun held =>
        List.mem_cons_of_mem _ (mem_erase_held held differ)))
  | @finishClosed slot holds => exact watched.release slot .closed _

end Watched

/-- In every run in which each read that is to be queued finds room, every open descriptor is registered
for an event, reported to the main loop, in the work queue or held by a worker. -/
theorem looksAfter_of_findsRoom (clock : ℕ) (events : List Event) (server : Server)
    (room : Guarded step FindsRoom (initial clock) events)
    (ran : run step (initial clock) events = some server) :
    ∀ descriptor ∈ server.descriptors,
      (descriptor.armed = some .input ∨ descriptor.armed = some .output) ∨
        descriptor.fd ∈ server.reported ∨ descriptor.fd ∈ server.workqueue ∨
        ∃ phase, (descriptor.fd, phase) ∈ server.held := by
  have watched : Watched server := invariant_of_guarded
    (fun _ _ _ watched room stepped => watched.step room stepped) (watched_initial clock) room ran
  intro descriptor member
  refine (watched.looksAfter descriptor member).imp (fun armed => ?_)
    (Or.imp_right (Or.imp_right fun held => ?_))
  · rcases found : descriptor.armed with _ | interest
    · exact absurd found armed
    · cases interest with
      | input => exact Or.inl rfl
      | output => exact Or.inr rfl
  · obtain ⟨worker, present, same⟩ := List.mem_map.mp held
    exact ⟨worker.2, same ▸ present⟩

/-- A connection whose worker has closed it, whose number is in use again, and a second one that is
queued. -/
theorem looksAfter_of_findsRoom_two :
    ∃ server : Server, ∀ descriptor ∈ server.descriptors,
      (descriptor.armed = some .input ∨ descriptor.armed = some .output) ∨
        descriptor.fd ∈ server.reported ∨ descriptor.fd ∈ server.workqueue ∨
        ∃ phase, (descriptor.fd, phase) ∈ server.held :=
  ⟨_, looksAfter_of_findsRoom 0
    [.epollWait [.listen], .accept 5, .endBatch, .epollWait [.client 5 .readable], .read true, .endBatch,
      .take, .closeConn 5, .epollWait [.listen], .accept 5, .endBatch, .epollWait [.listen], .accept 6,
      .endBatch, .finishClosed 5, .epollWait [.client 6 .readable], .read true]
    _ (by decide +kernel) (Option.some_get (by decide +kernel)).symm⟩

/-! ## A full queue -/

/-- The idle server after a client has connected on `fd`. -/
private def connected (server : Server) (fd : ℕ) : Server :=
  { server with
    userCount := server.userCount + 1
    sockfd := Function.update server.sockfd fd (some fd)
    userTimer := Function.update server.userTimer fd (some server.nextConn)
    timerLst := TimerList.addTimer ⟨server.nextConn, server.clock + 3 * timeslot, fd⟩ server.timerLst
    descriptors := ⟨fd, server.nextConn, some .input, server.clock⟩ :: server.descriptors
    nextConn := server.nextConn + 1
    batch := [] }

/-- A client connects to an idle server. -/
private theorem run_connect {fd : ℕ} (waiting : server.waiting = true) (timeout : server.timeout = false)
    (isNew : fd ∉ server.openFds) (few : server.userCount < maxFd) (small : fd < maxFd) :
    run step server [.epollWait [.listen], .accept fd, .endBatch] = some (server.connected fd) := by
  have reported : server.step (.epollWait [.listen]) =
      some { server with batch := [.listen], waiting := false } := by
    simp [step, waiting, Reports, disarm, Ready.fd?, List.filterMap_cons]
  have accepted : step { server with batch := [.listen], waiting := false } (.accept fd) =
      acceptConn { server with batch := [], waiting := false } fd := by
    simp only [step]
    exact if_neg isNew
  simp only [run, reported, Option.bind_some, accepted, acceptConn, Int.not_le.mpr few,
    Nat.not_le.mpr small, ↓reduceIte]
  simp [step, timeout, waiting, connected]

/-- The server after this client's request has been read and passed to `append`. -/
private def requested (server : Server) (fd : ℕ) : Server :=
  ({ (server.connected fd).disarm [fd] with batch := [], waiting := false }.touch fd).append fd

/-- The client that has just connected sends its request. -/
private theorem run_send (fd : ℕ) (waiting : server.waiting = true) :
    ∃ timerLst, run step (server.connected fd) [.epollWait [.client fd .readable], .read true] =
      some { server.requested fd with timerLst } := by
  have reported : (server.connected fd).step (.epollWait [.client fd .readable]) =
      some { (server.connected fd).disarm [fd] with
        batch := [.client fd .readable], waiting := false } := by
    simp [step, connected, waiting, Reports, Ready.fd?]
  have isOpen : fd ∈ ((server.connected fd).disarm [fd]).openFds := by
    rw [disarm_openFds]
    exact List.mem_cons_self ..
  have handled : step { (server.connected fd).disarm [fd] with
        batch := [.client fd .readable], waiting := false } (.read true) =
      (server.requested fd).postponeTimer fd := by
    simp only [step, ↓reduceIte, disarm, connected, Function.update_self]
    exact if_pos isOpen
  obtain ⟨workqueue, appended⟩ :=
    append_eq ({ (server.connected fd).disarm [fd] with batch := [], waiting := false }.touch fd) fd
  have pointer : (server.requested fd).userTimer fd = some server.nextConn := by
    rw [requested, appended]
    exact Function.update_self ..
  have live : TimerList.Live server.nextConn (server.requested fd).timerLst := by
    rw [requested, appended]
    exact ((TimerList.addTimer_perm _ _).map Timer.owner).mem_iff.mpr (List.mem_cons_self ..)
  simp only [run, reported, Option.bind_some, handled, postponeTimer, pointer, live, ↓reduceIte]
  exact ⟨_, rfl⟩

/-- The first `count` clients are queued, no worker has taken any, and the main loop waits. -/
private structure Flooded (server : Server) (count : ℕ) : Prop where
  waiting : server.waiting = true
  timeout : server.timeout = false
  userCount : server.userCount = count
  held : server.held = []
  workqueue : server.workqueue = List.range count
  small : ∀ fd ∈ server.openFds, fd < count

/-- A client connects and sends its request. -/
private def arrive (fd : ℕ) : List Event :=
  [.epollWait [.listen], .accept fd, .endBatch] ++ [.epollWait [.client fd .readable], .read true]

/-- One more client arrives. -/
private theorem Flooded.run_arrive {count : ℕ} (flooded : Flooded server count) (few : count < maxFd) :
    ∃ timerLst, run step server (arrive count) = some { server.requested count with timerLst } := by
  have isNew : count ∉ server.openFds := fun isOpen => (flooded.small count isOpen).false
  have fits : server.userCount < maxFd := by
    rw [flooded.userCount]
    exact_mod_cast few
  have connected := run_connect flooded.waiting flooded.timeout isNew fits few
  rw [arrive, run_append, connected, Option.bind_some]
  exact run_send count flooded.waiting

/-- While there is room in the queue, one more client is queued. -/
private theorem Flooded.succ {count : ℕ} (flooded : Flooded server count) (room : count < maxRequests) :
    ∃ next, run step server (arrive count ++ [.endBatch]) = some next ∧ Flooded next (count + 1) := by
  have few : count < maxFd := room.trans (by decide)
  obtain ⟨timerLst, arrived⟩ := flooded.run_arrive few
  have free : ¬ maxRequests ≤ server.workqueue.length := by
    rw [flooded.workqueue, List.length_range]
    exact Nat.not_le.mpr room
  have appended : server.requested count =
      { { (server.connected count).disarm [count] with batch := [], waiting := false }.touch count with
        workqueue := server.workqueue ++ [count] } := if_neg free
  have openFds : (server.requested count).openFds = count :: server.openFds := by
    rw [requested, append_openFds, touch_openFds]
    exact disarm_openFds ..
  have ended : step { server.requested count with timerLst } .endBatch =
      some { server.requested count with timerLst, timeout := false, waiting := true } := by
    rw [appended]
    simp [step, touch, disarm, connected, flooded.timeout]
  refine ⟨{ server.requested count with timerLst, timeout := false, waiting := true }, ?_, ?_⟩
  · rw [run_append, arrived, Option.bind_some, run, ended]
    rfl
  constructor
  · rfl
  · rfl
  · rw [appended, Nat.cast_succ, ← flooded.userCount]
    rfl
  · rw [appended]
    exact flooded.held
  · rw [appended, List.range_succ, ← flooded.workqueue]
  · intro fd isOpen
    change fd ∈ (server.requested count).openFds at isOpen
    rw [openFds, List.mem_cons] at isOpen
    rcases isOpen with rfl | before
    · exact Nat.lt_succ_self fd
    · exact Nat.lt_succ_of_lt (flooded.small fd before)

/-- Clients fill the queue. -/
private theorem exists_flooded {count : ℕ} (few : count ≤ maxRequests) :
    ∃ events server, run step (initial 0) events = some server ∧ Flooded server count := by
  induction count with
  | zero => exact ⟨[], initial 0, rfl, rfl, rfl, rfl, rfl, rfl, fun _ isOpen => nomatch isOpen⟩
  | succ count ih =>
    obtain ⟨events, server, ran, flooded⟩ := ih (Nat.le_of_succ_le few)
    obtain ⟨next, more, flooded⟩ := flooded.succ (Nat.lt_of_succ_le few)
    refine ⟨events ++ (arrive count ++ [.endBatch]), next, ?_, flooded⟩
    rw [run_append, ran]
    exact more

/-- With the queue full, the request of one more client is refused: its connection stays open, not
registered for any event, not queued and not held. -/
theorem refused_connection_forgotten :
    ∃ events server, run step (initial 0) events = some server ∧
      ∃ descriptor ∈ server.descriptors, descriptor.armed = none ∧
        descriptor.fd ∉ server.reported ∧ descriptor.fd ∉ server.workqueue ∧
        ∀ phase, (descriptor.fd, phase) ∉ server.held := by
  obtain ⟨events, server, ran, flooded⟩ := exists_flooded (le_refl maxRequests)
  obtain ⟨timerLst, arrived⟩ := flooded.run_arrive (by decide)
  have full : maxRequests ≤ server.workqueue.length := by
    rw [flooded.workqueue, List.length_range]
  have refused : server.requested maxRequests =
      { (server.connected maxRequests).disarm [maxRequests] with
        batch := [], waiting := false }.touch maxRequests := if_pos full
  refine ⟨events ++ arrive maxRequests, { server.requested maxRequests with timerLst }, ?_,
    ⟨maxRequests, server.nextConn, none, server.clock⟩, ?_, rfl, ?_, ?_, ?_⟩
  · rw [run_append, ran]
    exact arrived
  · rw [refused]
    simp [touch, disarm, connected]
  · rw [refused]
    exact List.not_mem_nil
  · rw [refused]
    change maxRequests ∉ server.workqueue
    rw [flooded.workqueue]
    exact List.not_mem_range_self
  · intro phase
    rw [refused]
    change (maxRequests, phase) ∉ server.held
    rw [flooded.held]
    exact List.not_mem_nil

end Server

end WebServ.Http
