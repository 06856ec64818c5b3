import WebServ.Model.MemoryServer
import WebServ.Soundness.SortTimerLst
import WebServ.Soundness.Timers
import WebServ.Machine.FirstFree

/-! # The timers of the server in memory

The server whose timers lie in memory goes through the same runs as the server with a list of members, whatever
addresses `new` returns and whatever stands in `users_timer` before it is set. What makes it so is that each
number of a timer has had an address since the timer was made, and that a pointer is followed only for a
descriptor that is open or has been reported.
-/

namespace WebServ.Http

open WebServ.Machine SortTimerLst

/-- A timer as it lies in memory, where its address identifies it. -/
def Timer.inMemory (address : ℕ → ℕ) (timer : Timer) : Timer := { timer with owner := address timer.owner }

/-! ## The operations on members under their addresses -/

namespace TimerList

variable {address : ℕ → ℕ} {timers : List Timer}

theorem addTimer_inMemory (address : ℕ → ℕ) (timer : Timer) (timers : List Timer) :
    (addTimer timer timers).map (Timer.inMemory address) =
      addTimer (timer.inMemory address) (timers.map (Timer.inMemory address)) := by
  induction timers with
  | nil => rfl
  | cons first rest ih =>
    rw [addTimer, List.map_cons, addTimer]
    change _ = if timer.expire < first.expire then _ else _
    split_ifs
    · rfl
    · rw [List.map_cons, ih]

/-- The address of a timer leads to no other member. -/
theorem adjustTimer_inMemory {owner : ℕ} (expire : ℕ)
    (apart : ∀ timer ∈ timers, address timer.owner = address owner → timer.owner = owner) :
    (adjustTimer owner expire timers).map (Timer.inMemory address) =
      adjustTimer (address owner) expire (timers.map (Timer.inMemory address)) := by
  induction timers with
  | nil => rfl
  | cons first rest ih =>
    obtain ⟨here, others⟩ := List.forall_mem_cons.mp apart
    rw [adjustTimer, List.map_cons, adjustTimer]
    change _ = if address first.owner = address owner then _ else _
    by_cases same : first.owner = owner
    · rw [if_pos same, if_pos (congrArg address same), addTimer_inMemory]
      rfl
    · rw [if_neg same, if_neg (mt here same), List.map_cons, ih others]

theorem delTimer_inMemory {owner : ℕ}
    (apart : ∀ timer ∈ timers, address timer.owner = address owner → timer.owner = owner) :
    (delTimer owner timers).map (Timer.inMemory address) =
      delTimer (address owner) (timers.map (Timer.inMemory address)) := by
  rw [delTimer, delTimer, List.filter_map]
  apply congrArg
  apply List.filter_congr
  intro timer member
  have same : timer.owner = owner ↔ address timer.owner = address owner :=
    ⟨congrArg address, apart timer member⟩
  change decide (timer.owner ≠ owner) = decide (address timer.owner ≠ address owner)
  exact decide_eq_decide.mpr same.not

end TimerList

/-! ## The two levels -/

namespace Server

@[simp] theorem withoutTimers_batch (server : Server) : server.withoutTimers.batch = server.batch := rfl

@[simp] theorem withoutTimers_sockfd (server : Server) : server.withoutTimers.sockfd = server.sockfd := rfl

@[simp] theorem withoutTimers_openFds (server : Server) : server.withoutTimers.openFds = server.openFds := rfl

@[simp] theorem withoutTimers_waiting (server : Server) : server.withoutTimers.waiting = server.waiting := rfl

@[simp] theorem withoutTimers_timeout (server : Server) : server.withoutTimers.timeout = server.timeout := rfl

@[simp] theorem withoutTimers_workqueue (server : Server) :
    server.withoutTimers.workqueue = server.workqueue := rfl

@[simp] theorem modfd_sockfd (server : Server) (fd : Option ℕ) (interest : Interest) :
    (server.modfd fd interest).sockfd = server.sockfd := rfl

/-- The queue has nothing to do with the timers. -/
theorem append_withoutTimers (server : Server) (slot : ℕ) :
    (server.append slot).withoutTimers = server.withoutTimers.append slot := by
  rw [append, append, withoutTimers_workqueue]
  split_ifs <;> rfl

/-- The callbacks of a tick, as far as the server without its timers goes. -/
theorem tickLoop_withoutTimers (timers : List Timer) (server : Server) :
    (tickLoop timers server).withoutTimers =
      ((timers.takeWhile fun timer => timer.expire ≤ server.clock).map Timer.slot).foldl cbFunc
        server.withoutTimers := by
  induction timers generalizing server with
  | nil => rfl
  | cons timer rest ih =>
    rw [tickLoop]
    split_ifs with pending
    · rw [List.takeWhile_cons_of_neg (by simpa using pending)]
      rfl
    · rw [List.takeWhile_cons_of_pos (by simpa using pending), List.map_cons, List.foldl_cons]
      exact ih (server.cbFunc timer.slot)

end Server

namespace MemoryServer

/-- The server and the memory agree: each member of the list lies at the address of its number, and the slot
of every descriptor that is open or still reported holds the address of its timer. -/
structure Mirrors (server : Server) (memory : MemoryServer) (address : ℕ → ℕ) (entries : List (Entry ℕ)) :
    Prop where
  rest : memory.server = server.withoutTimers
  represents : Represents memory.timerLst entries
  members : entries.map Entry.toTimer = server.timerLst.map (Timer.inMemory address)
  pointers : ∀ fd, fd ∈ server.openFds ∨ fd ∈ server.reported →
    memory.timer fd = (server.userTimer fd).map address

/-- For some addresses. -/
def Mirrored (server : Server) (memory : MemoryServer) : Prop :=
  ∃ address entries, Mirrors server memory address entries

theorem mirrors_initial (clock : ℕ) (usersTimer : ℕ → Option ℕ) :
    Mirrors (.initial clock) (initial clock usersTimer) id [] where
  rest := rfl
  represents := represents_initial
  members := rfl
  pointers fd either := by simp [Server.initial, Server.openFds, Server.reported] at either

variable {new : ℕ → List ℕ → ℕ} {server next : Server} {memory : MemoryServer} {address : ℕ → ℕ}
  {entries : List (Entry ℕ)} {fd : ℕ} {timer : Timer}

namespace Mirrors

/-- The timers and the pointers to them stay, and no descriptor comes up. -/
theorem fewer (mirrors : Mirrors server memory address entries) (timerLst : next.timerLst = server.timerLst)
    (userTimer : next.userTimer = server.userTimer)
    (fds : ∀ fd, fd ∈ next.openFds ∨ fd ∈ next.reported → fd ∈ server.openFds ∨ fd ∈ server.reported) :
    Mirrors next { memory with server := next.withoutTimers } address entries where
  rest := rfl
  represents := mirrors.represents
  members := by
    rw [timerLst]
    exact mirrors.members
  pointers fd either := by
    rw [userTimer]
    exact mirrors.pointers fd (fds fd either)

/-- The event at the front of the batch is taken up. -/
theorem popBatch (mirrors : Mirrors server memory address entries) {ready : Ready} {rest : List Ready}
    (batch : server.batch = ready :: rest) :
    Mirrors { server with batch := rest } { memory with server := { memory.server with batch := rest } } address
      entries := by
  rw [mirrors.rest]
  refine mirrors.fewer rfl rfl fun fd => Or.imp_right fun member => ?_
  have suffix : rest.filterMap Ready.fd? <:+ server.reported := by
    rw [Server.reported, batch]
    exact (List.suffix_cons ready rest).filterMap _
  exact suffix.subset member

/-- Registrations, activity times and the queue have nothing to do with the timers. -/
theorem modfd (mirrors : Mirrors server memory address entries) (fd : Option ℕ) (interest : Interest) :
    Mirrors (server.modfd fd interest) { memory with server := memory.server.modfd fd interest } address
      entries := by
  rw [mirrors.rest]
  refine mirrors.fewer rfl rfl fun other => Or.imp_left fun isOpen => ?_
  rwa [← Server.modfd_openFds]

theorem touch (mirrors : Mirrors server memory address entries) (fd : ℕ) :
    Mirrors (server.touch fd) { memory with server := memory.server.touch fd } address entries := by
  rw [mirrors.rest]
  refine mirrors.fewer rfl rfl fun other => Or.imp_left fun isOpen => ?_
  rwa [← Server.touch_openFds]

theorem append (mirrors : Mirrors server memory address entries) (slot : ℕ) :
    Mirrors (server.append slot) { memory with server := memory.server.append slot } address entries := by
  rw [mirrors.rest, ← Server.append_withoutTimers]
  obtain ⟨workqueue, queued⟩ := Server.append_eq server slot
  rw [queued]
  exact mirrors.fewer rfl rfl fun _ => id

/-- The pass ends. -/
theorem endPass (mirrors : Mirrors server memory address entries) :
    Mirrors { server with timeout := false, waiting := true }
      { memory with server := { memory.server with timeout := false, waiting := true } } address entries := by
  rw [mirrors.rest]
  exact mirrors.fewer rfl rfl fun _ => id

/-- The timer of a descriptor whose event is taken up. -/
theorem timer_of_batch (mirrors : Mirrors server memory address entries) (timed : server.Timed)
    {cause : ClientEvent} {rest : List Ready} (batch : server.batch = .client fd cause :: rest) :
    ∃ timer ∈ server.timerLst, server.userTimer fd = some timer.owner ∧
      memory.timer fd = some (address timer.owner) := by
  have reported : fd ∈ server.reported := by
    rw [Server.reported_of_batch batch]
    exact List.mem_cons_self ..
  obtain ⟨timer, member, points, _⟩ := timed.pointers fd (Or.inr reported)
  refine ⟨timer, member, points, ?_⟩
  rw [← Option.map_some, ← points]
  exact mirrors.pointers fd (Or.inr reported)

/-- A member lies at its address. -/
theorem exists_entry (mirrors : Mirrors server memory address entries) (member : timer ∈ server.timerLst) :
    ∃ front entry back, entries = front ++ entry :: back ∧ entry.timer = address timer.owner := by
  have present : timer.inMemory address ∈ entries.map Entry.toTimer := by
    rw [mirrors.members]
    exact List.mem_map_of_mem member
  obtain ⟨entry, listed, same⟩ := List.mem_map.mp present
  obtain ⟨front, back, split⟩ := List.append_of_mem listed
  exact ⟨front, entry, back, split, congrArg Timer.owner same⟩

/-- No two members lie at one address. -/
theorem apart (mirrors : Mirrors server memory address entries) (member : timer ∈ server.timerLst) :
    ∀ other ∈ server.timerLst, address other.owner = address timer.owner → other.owner = timer.owner := by
  have distinct := mirrors.represents.nodup
  have places : timers entries = server.timerLst.map fun timer => address timer.owner := by
    have owners := congrArg (List.map Timer.owner) mirrors.members
    rw [List.map_map, List.map_map] at owners
    exact owners
  rw [places] at distinct
  intro other present same
  exact congrArg Timer.owner (eq_of_key_eq distinct member present same)

/-- The main loop closes a descriptor by its timer. -/
theorem closeByTimer (mirrors : Mirrors server memory address entries) (member : timer ∈ server.timerLst)
    (points : server.userTimer fd = some timer.owner) (holds : memory.timer fd = some (address timer.owner)) :
    Option.Rel Mirrored (server.closeByTimer fd) (memory.closeByTimer fd) := by
  obtain ⟨front, entry, back, rfl, place⟩ := mirrors.exists_entry member
  obtain ⟨node, found, _⟩ := mirrors.represents.neighbours
  obtain ⟨after, members, deleted, represents, same⟩ := delTimer_members mirrors.represents
  have live : TimerList.Live timer.owner server.timerLst := List.mem_map_of_mem member
  rw [place] at found deleted
  simp only [Server.closeByTimer, points, live, ↓reduceIte, MemoryServer.closeByTimer, holds, found, deleted,
    Option.bind_eq_bind, Option.bind_some]
  refine .some ⟨address, members, ?_, represents, ?_, ?_⟩
  · rw [mirrors.rest]
    rfl
  · rw [same, mirrors.members, place, TimerList.delTimer_inMemory (mirrors.apart member)]
  · intro other either
    apply mirrors.pointers other
    refine either.imp_left fun isOpen => ?_
    exact (List.filter_sublist.map _).subset isOpen

/-- It puts a timer off. -/
theorem postponeTimer (mirrors : Mirrors server memory address entries) (member : timer ∈ server.timerLst)
    (points : server.userTimer fd = some timer.owner) (holds : memory.timer fd = some (address timer.owner)) :
    Option.Rel Mirrored (server.postponeTimer fd) (memory.postponeTimer fd) := by
  obtain ⟨front, entry, back, rfl, place⟩ := mirrors.exists_entry member
  obtain ⟨after, members, adjusted, represents, same⟩ :=
    adjustTimer_members mirrors.represents (server.clock + 3 * timeslot)
  have live : TimerList.Live timer.owner server.timerLst := List.mem_map_of_mem member
  have clock : memory.server.clock = server.clock := by
    rw [mirrors.rest]
    rfl
  rw [place] at adjusted
  simp only [Server.postponeTimer, points, live, ↓reduceIte, MemoryServer.postponeTimer, holds, clock, adjusted,
    Option.map_some]
  refine .some ⟨address, members, mirrors.rest, represents, ?_, mirrors.pointers⟩
  rw [same, mirrors.members, place, TimerList.adjustTimer_inMemory _ (mirrors.apart member)]

/-- A timer is made for a connection, at an address that is not in use. -/
theorem acceptConn (mirrors : Mirrors server memory address entries) (timed : server.Timed)
    (fresh : ∀ count used, new count used ∉ used) (fd : ℕ) :
    Option.Rel Mirrored (server.acceptConn fd) (memory.acceptConn new fd) := by
  have rest := mirrors.rest
  by_cases full : (maxFd : ℤ) ≤ server.userCount
  · have also : (maxFd : ℤ) ≤ memory.server.userCount := by
      rw [rest]
      exact full
    rw [Server.acceptConn, if_pos full, MemoryServer.acceptConn, if_pos also]
    exact .some ⟨address, entries, mirrors⟩
  by_cases beyond : maxFd ≤ fd
  · have refused : memory.server.acceptConn fd = none := by
      rw [rest, Server.acceptConn]
      exact (if_neg full).trans (if_pos beyond)
    have room : ¬ (maxFd : ℤ) ≤ memory.server.userCount := by
      rw [rest]
      exact full
    rw [Server.acceptConn, if_neg full, if_pos beyond, MemoryServer.acceptConn, if_neg room, refused]
    exact .none
  · set place := new server.nextConn memory.timerLst.heap.keys with isPlace
    set entry : Entry ℕ := ⟨place, server.clock + 3 * timeslot, fd, 0⟩
    have unused : entry.timer ∉ timers entries := fun member =>
      fresh _ _ (mirrors.represents.keys.mem_iff.mpr member)
    obtain ⟨after, members, added, represents, same⟩ := addTimer_members mirrors.represents unused
    have used : memory.timerLst.use (.add place (server.clock + 3 * timeslot) fd) = some after := added
    rw [MemoryServer.acceptConn, rest]
    simp only [Server.acceptConn, Server.withoutTimers, full, beyond, ↓reduceIte, Option.bind_eq_bind,
      Option.bind_some, ← isPlace, used]
    -- the number of the new timer has had no address so far
    have older : ∀ timer ∈ server.timerLst, timer.owner ≠ server.nextConn := by
      intro timer member
      exact Nat.ne_of_lt (timed.known _ (List.mem_map_of_mem member))
    have keeps : server.timerLst.map (Timer.inMemory (Function.update address server.nextConn place)) =
        server.timerLst.map (Timer.inMemory address) := by
      apply List.map_congr_left
      intro timer member
      rw [Timer.inMemory, Timer.inMemory, Function.update_of_ne (older timer member)]
    refine .some ⟨Function.update address server.nextConn place, members, rfl, represents, ?_, ?_⟩
    · rw [same, mirrors.members, TimerList.addTimer_inMemory, keeps, Timer.inMemory, Function.update_self]
      rfl
    · intro other either
      dsimp only
      by_cases isNew : other = fd
      · rw [isNew, Function.update_self, Function.update_self, Option.map_some, Function.update_self]
      · have before : other ∈ server.openFds ∨ other ∈ server.reported :=
          either.imp_left fun isOpen => (List.mem_cons.mp isOpen).resolve_left isNew
        obtain ⟨timer, member, points, _⟩ := timed.pointers other before
        rw [Function.update_of_ne isNew, Function.update_of_ne isNew, mirrors.pointers other before, points,
          Option.map_some, Option.map_some, Function.update_of_ne (older timer member)]

/-- A tick closes the descriptors of the timers whose time has come. -/
theorem tick (mirrors : Mirrors server memory address entries) :
    ∃ after, memory.tick = some after ∧ Mirrored server.tick after := by
  have clock : memory.server.clock = server.clock := by
    rw [mirrors.rest]
    rfl
  obtain ⟨after, ticked, represents⟩ := mirrors.represents.tick memory.server.clock
  obtain ⟨timers, userTimer, _⟩ := Server.tickLoop_timers server.timerLst server
  obtain ⟨descriptors, batch, _⟩ := Server.tickLoop_frame server.timerLst server
  have due : (entries.takeWhile fun entry => entry.expire ≤ server.clock).map Entry.userData =
      server.expired.map Timer.slot := by
    have shown := congrArg (fun timers => (timers.takeWhile fun timer : Timer => timer.expire ≤ server.clock).map
      Timer.slot) mirrors.members
    simp only [List.takeWhile_map, List.map_map] at shown
    exact shown
  have left : (entries.dropWhile fun entry => entry.expire ≤ server.clock).map Entry.toTimer =
      (server.timerLst.dropWhile fun timer => timer.expire ≤ server.clock).map (Timer.inMemory address) := by
    have shown := congrArg (fun timers => timers.dropWhile fun timer : Timer => timer.expire ≤ server.clock)
      mirrors.members
    simp only [List.dropWhile_map] at shown
    exact shown
  rw [clock] at ticked represents
  refine ⟨_, by rw [MemoryServer.tick, clock, ticked, Option.map_some], address, _, ?_, represents, ?_, ?_⟩
  · dsimp only
    rw [due, mirrors.rest, Server.tick, Server.tickLoop_withoutTimers]
    rfl
  · rw [left, Server.tick, timers]
  · intro fd either
    rw [Server.tick, userTimer]
    apply mirrors.pointers fd
    rw [Server.tick, Server.openFds, descriptors, Server.reported, batch] at either
    exact either.imp_left fun isOpen => (List.filter_sublist.map _).subset isOpen

end Mirrors

end MemoryServer

/-! ## Every action -/

/-- The action concerns no timer. -/
def Event.sparesTimers : Event → Bool
  | .accept _ | .hangup | .read _ | .write _ | .endBatch => false
  | _ => true

namespace Server

variable {server next : Server} {event : Event}

/-- Such an action does not need the timers. -/
theorem step_withoutTimers (spares : event.sparesTimers = true) :
    server.withoutTimers.step event = (server.step event).map withoutTimers := by
  cases event with
  | accept _ | hangup | read _ | write _ | endBatch => cases spares
  | advance seconds => rfl
  | epollWait batch =>
    by_cases valid : server.waiting = true ∧ batch.Nodup ∧ (batch.filterMap Ready.fd?).Nodup ∧
        ∀ ready ∈ batch, server.Reports ready
    · rw [step, step, if_pos valid]
      exact if_pos valid
    · rw [step, step, if_neg valid]
      exact if_neg valid
  | acceptFails | signals alarm =>
    rw [step, step, withoutTimers_batch]
    rcases server.batch with _ | ⟨_ | _ | _, _⟩ <;> rfl
  | take =>
    rw [step, step, withoutTimers_workqueue]
    rcases server.workqueue with _ | ⟨slot, rest⟩
    · rfl
    · by_cases free : server.held.length < threadNumber
      · dsimp only
        rw [if_pos free]
        exact if_pos free
      · dsimp only
        rw [if_neg free]
        exact if_neg free
  | finish slot interest =>
    by_cases holds : (slot, .processing) ∈ server.held
    · rw [step, step, if_pos holds]
      exact if_pos holds
    · rw [step, step, if_neg holds]
      exact if_neg holds
  | closeConn slot =>
    by_cases holds : (slot, .processing) ∈ server.held
    · rw [step, step, if_pos holds]
      apply (if_pos holds).trans
      dsimp only
      rw [withoutTimers_sockfd]
      cases server.sockfd slot <;> rfl
    · rw [step, step, if_neg holds]
      exact if_neg holds
  | finishClosed slot =>
    by_cases holds : (slot, .closed) ∈ server.held
    · rw [step, step, if_pos holds]
      exact if_pos holds
    · rw [step, step, if_neg holds]
      exact if_neg holds

/-- It leaves the timers and the pointers to them, and no descriptor comes up. -/
theorem timers_of_step (spares : event.sparesTimers = true) (stepped : server.step event = some next) :
    next.timerLst = server.timerLst ∧ next.userTimer = server.userTimer ∧
      ∀ fd, fd ∈ next.openFds ∨ fd ∈ next.reported → fd ∈ server.openFds ∨ fd ∈ server.reported := by
  cases taken_of_step stepped with
  | accept | read | write | writeClosed | endBatch => cases spares
  | close _ event_eq => rcases event_eq with rfl | rfl | rfl <;> cases spares
  | advance | take => exact ⟨rfl, rfl, fun _ => id⟩
  | epollWait _ _ reports =>
    refine ⟨rfl, rfl, fun fd either => Or.inl ?_⟩
    rcases either with isOpen | member
    · rwa [← server.disarm_openFds]
    · obtain ⟨ready, present, isClient⟩ := List.mem_filterMap.mp member
      obtain ⟨descriptor, isMember, rfl, _⟩ := (reports ready present).armed isClient
      exact List.mem_map_of_mem isMember
  | acceptFails batch | signals batch =>
    refine ⟨rfl, rfl, fun fd => Or.imp_right fun member => ?_⟩
    rw [reported, batch]
    exact ((List.suffix_cons _ _).filterMap _).subset member
  | finish | finishClosed =>
    refine ⟨rfl, rfl, fun fd => Or.imp_left fun isOpen => ?_⟩
    rwa [← server.modfd_openFds]
  | closeConn =>
    obtain ⟨_, ⟨fd, _, rfl⟩ | ⟨_, rfl⟩⟩ := closeConn_eq_some stepped
    · refine ⟨rfl, rfl, fun other => Or.imp_left fun isOpen => ?_⟩
      exact (List.filter_sublist.map _).subset isOpen
    · exact ⟨rfl, rfl, fun _ => id⟩

end Server

namespace MemoryServer

variable {new : ℕ → List ℕ → ℕ} {server : Server} {memory : MemoryServer} {address : ℕ → ℕ}
  {entries : List (Entry ℕ)}

/-- An action that concerns no timer. -/
theorem Mirrors.step_of_spares {event : Event} (mirrors : Mirrors server memory address entries)
    (spares : event.sparesTimers = true) :
    Option.Rel Mirrored (server.step event)
      ((memory.server.step event).map fun server => { memory with server }) := by
  rw [mirrors.rest, Server.step_withoutTimers spares, Option.map_map]
  cases stepped : server.step event with
  | none => exact .none
  | some next =>
    obtain ⟨timerLst, userTimer, fds⟩ := Server.timers_of_step spares stepped
    exact .some ⟨address, entries, mirrors.fewer timerLst userTimer fds⟩

/-- Both levels refuse an action, or both take it and agree again. -/
theorem Mirrors.step (mirrors : Mirrors server memory address entries) (timed : server.Timed)
    (fresh : ∀ count used, new count used ∉ used) (event : Event) :
    Option.Rel Mirrored (server.step event) (memory.step new event) := by
  obtain ⟨own, timerLst, pointers⟩ := memory
  obtain rfl : own = server.withoutTimers := mirrors.rest
  cases event with
  | accept fd =>
    rw [Server.step, MemoryServer.step, Server.withoutTimers_batch]
    rcases batch : server.batch with _ | ⟨_ | _ | _, rest⟩
    case cons.listen =>
      have popped := (mirrors.popBatch batch).acceptConn (timed.popBatch batch) fresh fd
      by_cases taken : fd ∈ server.openFds
      · simp only [Server.withoutTimers_openFds, taken, ↓reduceIte]
        exact .none
      · simp only [Server.withoutTimers_openFds, taken, ↓reduceIte]
        exact popped
    all_goals exact .none
  | hangup =>
    rw [Server.step, MemoryServer.step, Server.withoutTimers_batch]
    rcases batch : server.batch with _ | ⟨_ | _ | ⟨fd, _ | _ | _⟩, rest⟩
    case cons.client.hangup =>
      obtain ⟨timer, member, points, holds⟩ := mirrors.timer_of_batch timed batch
      exact (mirrors.popBatch batch).closeByTimer member points holds
    all_goals exact .none
  | read received =>
    rw [Server.step, MemoryServer.step, Server.withoutTimers_batch]
    rcases batch : server.batch with _ | ⟨_ | _ | ⟨fd, _ | _ | _⟩, rest⟩
    case cons.client.readable =>
      obtain ⟨timer, member, points, holds⟩ := mirrors.timer_of_batch timed batch
      have popped := mirrors.popBatch batch
      cases received with
      | false => exact popped.closeByTimer member points holds
      | true =>
        simp only [Server.withoutTimers_sockfd, ↓reduceIte]
        cases server.sockfd fd with
        | none => exact .none
        | some socket =>
          by_cases isOpen : socket ∈ server.openFds
          · simp only [Server.withoutTimers_openFds, isOpen, ↓reduceIte]
            have queued := (popped.touch socket).append fd
            obtain ⟨workqueue, same⟩ := Server.append_eq ({ server with batch := rest }.touch socket) fd
            rw [same] at queued ⊢
            exact queued.postponeTimer member points holds
          · simp only [Server.withoutTimers_openFds, isOpen, ↓reduceIte]
            exact .none
    all_goals exact .none
  | write kept =>
    rw [Server.step, MemoryServer.step, Server.withoutTimers_batch]
    rcases batch : server.batch with _ | ⟨_ | _ | ⟨fd, _ | _ | _⟩, rest⟩
    case cons.client.writable =>
      obtain ⟨timer, member, points, holds⟩ := mirrors.timer_of_batch timed batch
      have popped := mirrors.popBatch batch
      cases kept with
      | none => exact popped.closeByTimer member points holds
      | some interest =>
        simp only [Server.modfd_sockfd, Server.withoutTimers_sockfd]
        cases server.sockfd fd with
        | none => exact (popped.modfd none interest).postponeTimer member points holds
        | some socket =>
          exact ((popped.modfd (some socket) interest).touch socket).postponeTimer member points holds
    all_goals exact .none
  | endBatch =>
    rw [Server.step, MemoryServer.step]
    by_cases running : server.waiting = true ∨ server.batch ≠ []
    · rw [if_pos running]
      simp only [Server.withoutTimers_waiting, Server.withoutTimers_batch, running, ↓reduceIte]
      exact .none
    · rw [if_neg running]
      simp only [Server.withoutTimers_waiting, Server.withoutTimers_batch, running, ↓reduceIte]
      by_cases alarm : server.timeout = true
      · obtain ⟨after, ticked, address, entries, mirrors⟩ := mirrors.tick
        simp only [Server.withoutTimers_timeout, alarm, ↓reduceIte, ticked, Option.map_some]
        exact .some ⟨address, entries, mirrors.endPass⟩
      · simp only [Server.withoutTimers_timeout, alarm]
        exact .some ⟨address, entries, mirrors.endPass⟩
  | advance _ | epollWait _ | acceptFails | signals _ | take | finish _ _ | closeConn _ | finishClosed _ =>
    exact mirrors.step_of_spares rfl

/-! ## Runs -/

/-- The memory is in order: its list links the timers of the server, in the same order; they are all that is
allocated, and the destructor frees them; an open descriptor has a timer; whenever an event of a client is taken
up, its timer can be deleted and put off, and a tick can be made at any time. -/
structure InOrder (server : Server) (memory : MemoryServer) : Prop where
  rest : memory.server = server.withoutTimers
  timers : ∃ entries, Represents memory.timerLst entries ∧
    entries.map (fun entry => (entry.expire, entry.userData)) =
      server.timerLst.map fun timer => (timer.expire, timer.slot)
  pointers : ∀ fd ∈ server.openFds, ∃ timer node, memory.timer fd = some timer ∧
    memory.timerLst.load timer = some node ∧ node.userData = fd
  closes : ∀ fd cause rest, server.batch = .client fd cause :: rest → (memory.closeByTimer fd).isSome
  postpones : ∀ fd cause rest, server.batch = .client fd cause :: rest → (memory.postponeTimer fd).isSome
  ticks : memory.tick.isSome
  freed : ∃ after, memory.timerLst.destroy = some after ∧ after.heap.keys = []

theorem Mirrors.inOrder (mirrors : Mirrors server memory address entries) (timed : server.Timed) :
    InOrder server memory where
  rest := mirrors.rest
  timers := by
    refine ⟨entries, mirrors.represents, ?_⟩
    have shown := congrArg (List.map fun timer : Timer => (timer.expire, timer.slot)) mirrors.members
    rw [List.map_map, List.map_map] at shown
    exact shown
  pointers fd isOpen := by
    obtain ⟨timer, member, points, slot⟩ := timed.pointers fd (Or.inl isOpen)
    have present : timer.inMemory address ∈ entries.map Entry.toTimer := by
      rw [mirrors.members]
      exact List.mem_map_of_mem member
    obtain ⟨entry, listed, same⟩ := List.mem_map.mp present
    obtain ⟨node, found, _, userData⟩ := mirrors.represents.stored entry listed
    refine ⟨entry.timer, node, ?_, found, ?_⟩
    · rw [mirrors.pointers fd (Or.inl isOpen), points, Option.map_some]
      exact congrArg some (congrArg Timer.owner same).symm
    · exact userData.trans ((congrArg Timer.slot same).trans slot)
  closes fd cause rest batch := by
    obtain ⟨timer, member, points, holds⟩ := mirrors.timer_of_batch timed batch
    apply isSome_of_rel (mirrors.closeByTimer member points holds)
    have live : TimerList.Live timer.owner server.timerLst := List.mem_map_of_mem member
    simp only [Server.closeByTimer, points, live, ↓reduceIte, Option.isSome_some]
  postpones fd cause rest batch := by
    obtain ⟨timer, member, points, holds⟩ := mirrors.timer_of_batch timed batch
    apply isSome_of_rel (mirrors.postponeTimer member points holds)
    have live : TimerList.Live timer.owner server.timerLst := List.mem_map_of_mem member
    simp only [Server.postponeTimer, points, live, ↓reduceIte, Option.isSome_some]
  ticks := by
    obtain ⟨after, ticked, _⟩ := mirrors.tick
    rw [ticked]
    rfl
  freed := mirrors.represents.destroy

/-- With any addresses from `new` that are not in use when it returns them, and anything in `users_timer` at
first: the server with its timers in memory takes exactly the runs of the server with a list of members, so that
no null, dangling or uninitialised pointer is used and nothing is freed twice; and in every state the memory is
in order. -/
theorem timers_in_memory (new : ℕ → List ℕ → ℕ) (fresh : ∀ count used, new count used ∉ used)
    (usersTimer : ℕ → Option ℕ) (clock : ℕ) (events : List Event) :
    Option.Rel InOrder (run Server.step (.initial clock) events)
      (run (step new) (initial clock usersTimer) events) := by
  have lockstep : ∀ (server : Server) (memory : MemoryServer) event, server.Timed ∧ Mirrored server memory →
      Option.Rel (fun server memory => server.Timed ∧ Mirrored server memory) (server.step event)
        (memory.step new event) := by
    rintro server memory event ⟨timed, address, entries, mirrors⟩
    have both := mirrors.step timed fresh event
    cases stepped : server.step event with
    | none =>
      rw [stepped] at both
      cases refused : memory.step new event with
      | none => exact .none
      | some after =>
        rw [refused] at both
        cases both
    | some next =>
      rw [stepped] at both
      cases taken : memory.step new event with
      | none =>
        rw [taken] at both
        cases both
      | some after =>
        rw [taken] at both
        cases both with
        | some mirrored => exact .some ⟨(timed.step stepped).timed, mirrored⟩
  have runs := run_rel lockstep ⟨Server.timed_initial clock, id, [], mirrors_initial clock usersTimer⟩ events
  generalize run Server.step (.initial clock) events = first at runs ⊢
  generalize run (step new) (initial clock usersTimer) events = second at runs ⊢
  cases runs with
  | none => exact .none
  | some both =>
    obtain ⟨timed, address, entries, mirrors⟩ := both
    exact .some (mirrors.inOrder timed)

/-- A worker closes a connection and its number is given to another one, the orphaned timer expires on that, and
its address is used again. -/
private def reusedAddress : List Event :=
  [.epollWait [.listen], .accept 5, .endBatch, .epollWait [.client 5 .readable, .listen], .read true, .accept 6,
    .endBatch, .take, .closeConn 5, .finishClosed 5, .advance 14, .epollWait [.listen], .accept 5, .endBatch,
    .advance 1, .epollWait [.signal], .signals true, .endBatch, .epollWait [.listen], .accept 5, .endBatch]

/-- What stands in `users_timer` at first is no address at all. -/
theorem timers_in_memory_reused : ∃ memory after,
    run (step fun _ => firstFree) (initial 0 fun _ => some 77) reusedAddress = some memory ∧
      memory.timer 5 = some 0 ∧ memory.timerLst.destroy = some after ∧ after.heap.keys = [] := by
  have runs := timers_in_memory (fun _ => firstFree) (fun _ => firstFree_notMem) (fun _ => some 77) 0
    reusedAddress
  obtain ⟨server, ran⟩ := Option.isSome_iff_exists.mp
    (show (run Server.step (.initial 0) reusedAddress).isSome by decide +kernel)
  obtain ⟨memory, alike⟩ := Option.isSome_iff_exists.mp (isSome_of_rel runs (ran ▸ rfl))
  have again : (run (step fun _ => firstFree) (initial 0 fun _ => some 77) reusedAddress).bind
      (fun memory => memory.timer 5) = some 0 := by decide +kernel
  rw [alike, Option.bind_some] at again
  rw [ran, alike] at runs
  obtain ⟨after, destroyed, empty⟩ := (Option.rel_some_some.mp runs).freed
  exact ⟨memory, after, alike, again, destroyed, empty⟩

end MemoryServer

end WebServ.Http
