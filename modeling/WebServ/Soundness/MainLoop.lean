import WebServ.Model.MainLoop
import WebServ.Proofs.Renewal

/-! # The alarm rings on, and no open connection is idle for long

The next tick is always on its way: the alarm is set, or its signal is in the pipe, or the flag is set that
makes the end of the pass tick and set the alarm again. The signal can only be forgotten in a pipe that holds
nothing but the order to end, and once `main` has read that order it finishes the pass and does no more.
While it is not told to end, and keeps up with its events, every open connection has been active within the
last four time slots, whatever the workers do.
-/

namespace WebServ.Http

open WebServ.Machine

/-- The actions that take up the event at the front of the batch. -/
def Event.handles : Event → Bool
  | .acceptFails | .accept _ | .hangup | .read _ | .write _ | .signals _ => true
  | _ => false

namespace Server

variable {server next : Server}

/-- What stays: the clock, the flag, and the timers but for those set to the latest time. -/
structure Keeps (server next : Server) : Prop where
  clock : next.clock = server.clock
  timeout : next.timeout = server.timeout
  waiting : next.waiting = server.waiting
  timers : ∀ timer ∈ next.timerLst, timer ∈ server.timerLst ∨ timer.expire = server.clock + 3 * timeslot

theorem keeps_of_postponeTimer {fd : ℕ} (postponed : server.postponeTimer fd = some next) :
    Keeps server next := by
  rw [postponeTimer] at postponed
  split at postponed
  · cases postponed
    exact ⟨rfl, rfl, rfl, fun _ => Or.inl⟩
  · split_ifs at postponed
    cases postponed
    exact ⟨rfl, rfl, rfl, fun timer member => TimerList.mem_adjustTimer member⟩

/-- The actions that are not those of the pass keep all that. -/
theorem keeps_of_step {event : Event} (other : event.isMains = false)
    (stepped : server.step event = some next) : Keeps server next := by
  cases taken_of_step stepped with
  | advance | epollWait | signals | endBatch => cases other
  | acceptFails | take | finish | finishClosed => exact ⟨rfl, rfl, rfl, fun _ => Or.inl⟩
  | accept batch isNew accepted =>
    rw [acceptConn] at accepted
    split_ifs at accepted
    · cases accepted
      exact ⟨rfl, rfl, rfl, fun _ => Or.inl⟩
    · cases accepted
      refine ⟨rfl, rfl, rfl, fun timer member => ?_⟩
      rcases List.mem_cons.mp ((TimerList.addTimer_perm ..).mem_iff.mp member) with rfl | member
      · exact Or.inr rfl
      · exact Or.inl member
  | close fd _ batch closed =>
    rw [closeByTimer] at closed
    split at closed
    · cases closed
    · split_ifs at closed
      cases closed
      exact ⟨rfl, rfl, rfl, fun timer member => Or.inl (List.mem_of_mem_filter member)⟩
  | @read fd _ rest _ batch pointer postponed =>
    obtain ⟨workqueue, same⟩ := append_eq { server with batch := rest } fd
    rw [same] at postponed
    exact { keeps_of_postponeTimer postponed with }
  | write batch pointer postponed => exact { keeps_of_postponeTimer postponed with }
  | writeClosed batch pointer postponed => exact { keeps_of_postponeTimer postponed with }
  | closeConn =>
    obtain ⟨_, ⟨fd, pointer, rfl⟩ | ⟨_, rfl⟩⟩ := closeConn_eq_some stepped
    · exact ⟨rfl, rfl, rfl, fun _ => Or.inl⟩
    · exact ⟨rfl, rfl, rfl, fun _ => Or.inl⟩

/-- Handling an event takes it off the batch; the workers leave the batch alone. -/
theorem batch_of_step {event : Event} (other : event.isMains = false)
    (stepped : server.step event = some next) :
    if event.handles then ∃ ready, server.batch = ready :: next.batch else next.batch = server.batch := by
  cases taken_of_step stepped with
  | advance | epollWait | signals | endBatch => cases other
  | acceptFails batch => exact ⟨_, batch⟩
  | take | finish | finishClosed => rfl
  | @accept _ rest _ batch isNew accepted =>
    rw [acceptConn] at accepted
    split_ifs at accepted
    · cases accepted
      exact ⟨_, batch⟩
    · cases accepted
      exact ⟨_, batch⟩
  | close fd event_eq batch closed =>
    obtain ⟨timers, rfl⟩ := closeByTimer_eq_some closed
    rcases event_eq with rfl | rfl | rfl
    · exact ⟨_, batch⟩
    · exact ⟨_, batch⟩
    · exact ⟨_, batch⟩
  | @read fd _ rest _ batch pointer postponed =>
    obtain ⟨timers, rfl⟩ := postponeTimer_eq_some postponed
    obtain ⟨workqueue, same⟩ := append_eq { server with batch := rest } fd
    rw [same]
    exact ⟨_, batch⟩
  | write batch pointer postponed =>
    obtain ⟨timers, rfl⟩ := postponeTimer_eq_some postponed
    exact ⟨_, batch⟩
  | writeClosed batch pointer postponed =>
    obtain ⟨timers, rfl⟩ := postponeTimer_eq_some postponed
    exact ⟨_, batch⟩
  | closeConn =>
    obtain ⟨_, ⟨fd, pointer, rfl⟩ | ⟨_, rfl⟩⟩ := closeConn_eq_some stepped
    · rfl
    · rfl

end Server

/-- The steps of `main`. -/
def MainEvent.isMain : MainEvent → Bool
  | .server event => event.handles
  | .epollWait _ | .epollFails | .recv _ | .endBatch => true
  | .advance _ | .raise _ => false

namespace MainLoop

variable {loop next : MainLoop} {room : ℕ}

/-- What each step does, with the facts its guards establish. -/
inductive Passes (room : ℕ) (loop : MainLoop) : MainEvent → MainLoop → Prop where
  | server {event : Event} {server : Server} (other : event.isMains = false)
      (stepped : loop.server.step event = some server) :
      Passes room loop (.server event) { loop with server }
  | advance (seconds : ℕ) :
      Passes room loop (.advance seconds)
        { loop with server := { loop.server with clock := loop.server.clock + seconds } }
  | sigterm : Passes room loop (.raise .sigterm) (loop.sigHandler room .sigterm)
  | sigalrm {due : ℕ} (armed : loop.alarm = some due) (late : due ≤ loop.server.clock) :
      Passes room loop (.raise .sigalrm) { loop.sigHandler room .sigalrm with alarm := none }
  | epollWait {batch : List Ready} {server : Server}
      (stepped : loop.server.step (.epollWait batch) = some server) :
      Passes room loop (.epollWait batch) { loop with server }
  | epollFails (waiting : loop.server.waiting = true) :
      Passes room loop .epollFails { loop with ended := true }
  | recv {ret : ℕ} {timeout stopServer : Bool} {server : Server}
      (handled : handleSignals (loop.pipe.take ret) (loop.server.timeout, loop.stopServer) =
        (timeout, stopServer))
      (stepped : loop.server.step (.signals timeout) = some server) :
      Passes room loop (.recv ret) { loop with server, stopServer, pipe := loop.pipe.drop ret }
  | endBatch {server : Server} (stepped : loop.server.step .endBatch = some server) :
      Passes room loop .endBatch (loop.endPass server)

theorem passes_of_step {event : MainEvent} (stepped : loop.step room event = some next) :
    loop.ended = false ∧ Passes room loop event next := by
  rw [step.eq_def] at stepped
  have running : loop.ended = false := by
    by_contra ended
    rw [if_pos (by simpa using ended)] at stepped
    cases stepped
  rw [if_neg (by simp [running])] at stepped
  refine ⟨running, ?_⟩
  cases event with
  | server event =>
    dsimp only at stepped
    split_ifs at stepped with mains
    obtain ⟨server, moved, rfl⟩ := Option.map_eq_some_iff.mp stepped
    exact .server (by simpa using mains) moved
  | advance seconds =>
    cases stepped
    exact .advance seconds
  | raise sig =>
    cases sig with
    | sigterm =>
      cases stepped
      exact .sigterm
    | sigalrm =>
      dsimp only at stepped
      split_ifs at stepped with due
      cases stepped
      rcases armed : loop.alarm with _ | time
      · simp [armed] at due
      · exact .sigalrm armed (by simpa [armed] using due)
  | epollWait batch =>
    dsimp only at stepped
    split_ifs at stepped
    obtain ⟨server, moved, rfl⟩ := Option.map_eq_some_iff.mp stepped
    exact .epollWait moved
  | epollFails =>
    dsimp only at stepped
    split_ifs at stepped with waiting
    cases stepped
    exact .epollFails waiting
  | recv ret =>
    dsimp only at stepped
    split_ifs at stepped
    obtain ⟨server, moved, rfl⟩ := Option.map_eq_some_iff.mp stepped
    exact .recv rfl moved
  | endBatch =>
    obtain ⟨server, moved, rfl⟩ := Option.map_eq_some_iff.mp stepped
    exact .endBatch moved

/-- The signals that are due, raised or noted. -/
def beats (loop : MainLoop) : ℕ :=
  loop.alarm.toList.length + loop.pipe.count .sigalrm + loop.server.timeout.toNat

/-- `SIGTERM` is in the pipe, or the loop is at its end. -/
def ToldToEnd (loop : MainLoop) : Prop :=
  .sigterm ∈ loop.pipe ∨ loop.stopServer = true ∨ loop.ended = true

theorem handleSignals_eq (signals : List Signal) (timeout stopServer : Bool) :
    handleSignals signals (timeout, stopServer) =
      (timeout || decide (.sigalrm ∈ signals), stopServer || decide (.sigterm ∈ signals)) := by
  induction signals generalizing timeout stopServer with
  | nil => simp [handleSignals]
  | cons sig rest ih =>
    cases sig with
    | sigalrm =>
      rw [handleSignals, ih]
      simp
    | sigterm =>
      rw [handleSignals, ih]
      simp

/-- An order to end is read or stays. -/
theorem sigterm_read (ret : ℕ) (ordered : .sigterm ∈ loop.pipe) :
    .sigterm ∈ loop.pipe.take ret ∨ .sigterm ∈ loop.pipe.drop ret := by
  rwa [← List.mem_append, List.take_append_drop]

/-- One alarm at most is on its way, and one is unless the loop is told to end; an order to end is read in
the middle of a pass. -/
structure Beating (loop : MainLoop) : Prop where
  few : loop.beats ≤ 1
  rings : loop.beats = 1 ∨ loop.ToldToEnd
  idle : loop.server.waiting = true → loop.server.batch = []
  quiet : loop.server.waiting = true →
    loop.server.timeout = false ∧ (loop.stopServer = true → loop.ended = true)

theorem beating_initial (clock : ℕ) : Beating (initial clock) where
  few := le_rfl
  rings := Or.inl rfl
  idle _ := rfl
  quiet _ := ⟨rfl, nofun⟩

namespace Beating

/-- A signal that is not `SIGALRM`. -/
theorem sigterm (beating : Beating loop) : Beating (loop.sigHandler room .sigterm) := by
  rw [sigHandler]
  split_ifs
  · refine ⟨?_, Or.inr (Or.inl (by simp)), beating.idle, beating.quiet⟩
    simpa [beats] using beating.few
  · exact beating

/-- Where `SIGALRM` is forgotten, the pipe holds an order to end. -/
theorem sigalrm (beating : Beating loop) (roomy : 0 < room) {due : ℕ} (armed : loop.alarm = some due) :
    Beating { loop.sigHandler room .sigalrm with alarm := none } := by
  have few := beating.few
  rw [beats, armed, Option.toList_some, List.length_singleton] at few
  have none : loop.pipe.count .sigalrm = 0 := by omega
  have unset : loop.server.timeout.toNat = 0 := by omega
  rw [sigHandler]
  split_ifs with fits
  · have one : beats { loop with pipe := loop.pipe ++ [.sigalrm], alarm := Option.none } = 1 := by
      simp [beats, none, unset]
    exact ⟨one.le, Or.inl one, beating.idle, beating.quiet⟩
  · refine ⟨?_, Or.inr (Or.inl ?_), beating.idle, beating.quiet⟩
    · simp [beats, none, unset]
    · obtain ⟨sig, member⟩ := List.exists_mem_of_length_pos (show 0 < loop.pipe.length by omega)
      cases sig with
      | sigalrm => exact absurd member (List.count_eq_zero.mp none)
      | sigterm => exact member

/-- The signals that are read set the flags. -/
theorem recv (beating : Beating loop) {ret : ℕ} {timeout stopServer : Bool} {server : Server}
    (handled : handleSignals (loop.pipe.take ret) (loop.server.timeout, loop.stopServer) =
      (timeout, stopServer))
    (moved : loop.server.step (.signals timeout) = some server) :
    Beating { loop with server, stopServer, pipe := loop.pipe.drop ret } := by
  rw [handleSignals_eq] at handled
  obtain ⟨rfl, rfl⟩ := Prod.mk.inj handled
  have few := beating.few
  have rings := beating.rings
  have counted : (loop.pipe.take ret).count .sigalrm + (loop.pipe.drop ret).count .sigalrm =
      loop.pipe.count .sigalrm := by
    rw [← List.count_append, List.take_append_drop]
  cases Server.taken_of_step moved with
  | close _ event_eq => simp at event_eq
  | @signals _ rest batch =>
    have reading : loop.server.waiting ≠ true := fun waits => by simp [beating.idle waits] at batch
    have same : beats { loop with
        server := { loop.server with
          batch := rest
          timeout := loop.server.timeout ||
            (loop.server.timeout || decide (Signal.sigalrm ∈ loop.pipe.take ret)) }
        stopServer := loop.stopServer || decide (Signal.sigterm ∈ loop.pipe.take ret)
        pipe := loop.pipe.drop ret } = loop.beats := by
      rw [beats] at few
      rw [beats, beats, ← counted]
      dsimp only
      by_cases rung : Signal.sigalrm ∈ loop.pipe.take ret
      · have positive := List.count_pos_iff.mpr rung
        have one : (loop.pipe.take ret).count .sigalrm = 1 := by omega
        have unset : loop.server.timeout = false := by
          rw [← Bool.toNat_eq_zero]
          omega
        simp only [unset, rung, one, decide_true, Bool.or_true, Bool.toNat_true, Bool.toNat_false]
        omega
      · have none := List.count_eq_zero.mpr rung
        simp only [rung, none, decide_false, Bool.or_false, Bool.or_self]
        omega
    refine ⟨same.le.trans few, ?_, fun waits => absurd waits reading, fun waits => absurd waits reading⟩
    rcases rings with one | ordered | stopped | ended
    · exact Or.inl (same.trans one)
    · rcases sigterm_read ret ordered with taken | left
      · exact Or.inr (Or.inr (Or.inl (by simp [taken])))
      · exact Or.inr (Or.inl left)
    · exact Or.inr (Or.inr (Or.inl (by simp [stopped])))
    · exact Or.inr (Or.inr (Or.inr ended))

/-- The end of a pass ticks and sets the alarm. -/
theorem endBatch (beating : Beating loop) (running : loop.ended = false) {server : Server}
    (moved : loop.server.step .endBatch = some server) : Beating (loop.endPass server) := by
  have few := beating.few
  have batch := (Server.endBatch_frame moved).2.2.1
  have flags : server.timeout = false := by
    cases Server.taken_of_step moved with
    | close _ event_eq => simp at event_eq
    | endBatch => rfl
  have same : (loop.endPass server).beats = loop.beats := by
    rw [beats] at few
    rw [beats, beats, endPass, flags]
    by_cases due : loop.server.timeout = true
    · simp only [due, Bool.toNat_true] at few
      have none : loop.alarm.toList.length = 0 := by omega
      simp [due, none, Nat.add_comm]
    · simp [due]
  refine ⟨same.le.trans few, ?_, fun _ => batch, fun _ => ⟨flags, id⟩⟩
  rcases beating.rings with one | ordered | stopped | ended
  · exact Or.inl (same.trans one)
  · exact Or.inr (Or.inl ordered)
  · exact Or.inr (Or.inr (Or.inl stopped))
  · simp [running] at ended

/-- Every step. -/
theorem step {event : MainEvent} (beating : Beating loop) (roomy : 0 < room)
    (stepped : loop.step room event = some next) : Beating next := by
  obtain ⟨running, passes⟩ := passes_of_step stepped
  cases passes with
  | server other moved =>
    obtain ⟨_, timeout, waiting, _⟩ := Server.keeps_of_step other moved
    have few := beating.few
    have rings := beating.rings
    rw [beats, ← timeout] at few rings
    refine ⟨few, rings, fun waits => ?_, fun waits => ?_⟩
    · have batch := Server.batch_of_step other moved
      rw [beating.idle (waiting ▸ waits)] at batch
      split_ifs at batch
      · obtain ⟨_, nonempty⟩ := batch
        cases nonempty
      · exact batch
    · rw [timeout]
      exact beating.quiet (waiting ▸ waits)
  | advance seconds => exact ⟨beating.few, beating.rings, beating.idle, beating.quiet⟩
  | sigterm => exact beating.sigterm
  | sigalrm armed late => exact beating.sigalrm roomy armed
  | epollWait moved =>
    cases Server.taken_of_step moved with
    | close _ event_eq => simp at event_eq
    | epollWait => exact ⟨beating.few, beating.rings, nofun, nofun⟩
  | epollFails waiting =>
    exact ⟨beating.few, Or.inr (Or.inr (Or.inr rfl)), beating.idle, fun _ => ⟨(beating.quiet waiting).1, fun _ => rfl⟩⟩
  | recv handled moved => exact beating.recv handled moved
  | endBatch moved => exact beating.endBatch running moved

end Beating

theorem beating_of_run {clock : ℕ} {events : List MainEvent} (roomy : 0 < room)
    (ran : run (step room) (initial clock) events = some loop) : Beating loop :=
  invariant (fun _ _ _ beating stepped => beating.step roomy stepped) (beating_initial clock) ran

/-! ## The end -/

/-- The steps left after an order to end has been read. -/
def stepsLeft (loop : MainLoop) : ℕ := if loop.ended then 0 else loop.server.batch.length + 1

/-- An order to end stays one. -/
theorem told_of_step {event : MainEvent} (told : loop.ToldToEnd) (stepped : loop.step room event = some next) :
    next.ToldToEnd := by
  obtain ⟨running, passes⟩ := passes_of_step stepped
  rcases told with ordered | stopped | ended
  · cases passes with
    | server | advance | epollWait | epollFails | endBatch => exact Or.inl ordered
    | sigterm | sigalrm =>
      refine Or.inl ?_
      rw [sigHandler]
      split_ifs
      · exact List.mem_append_left _ ordered
      · exact ordered
    | @recv ret _ _ _ handled moved =>
      rw [handleSignals_eq] at handled
      obtain ⟨_, rfl⟩ := Prod.mk.inj handled
      rcases sigterm_read ret ordered with taken | left
      · exact Or.inr (Or.inl (by simp [taken]))
      · exact Or.inl left
  · cases passes with
    | server | advance | epollWait | epollFails | sigterm | sigalrm | endBatch =>
      exact Or.inr (Or.inl stopped)
    | recv handled moved =>
      rw [handleSignals_eq] at handled
      obtain ⟨_, rfl⟩ := Prod.mk.inj handled
      exact Or.inr (Or.inl (by simp [stopped]))
  · simp [running] at ended

/-- After an order to end has been read, `main` only handles the rest of its events. -/
theorem nearer_of_step {event : MainEvent} (beating : Beating loop) (stopped : loop.stopServer = true)
    (stepped : loop.step room event = some next) : next.stopServer = true ∧
      (∀ batch, event ≠ .epollWait batch) ∧
        next.stepsLeft + (if event.isMain then 1 else 0) ≤ loop.stepsLeft := by
  obtain ⟨running, passes⟩ := passes_of_step stepped
  have reading : loop.server.waiting ≠ true := fun waits => by
    simp [(beating.quiet waits).2 stopped] at running
  have left : loop.stepsLeft = loop.server.batch.length + 1 := by rw [stepsLeft, running]; rfl
  cases passes with
  | @server event server other moved =>
    have batch := Server.batch_of_step other moved
    have more : stepsLeft { loop with server } = server.batch.length + 1 := by
      rw [stepsLeft, running]
      rfl
    refine ⟨stopped, nofun, ?_⟩
    rw [left, more]
    split_ifs at batch with handles
    · obtain ⟨ready, batch⟩ := batch
      simp [MainEvent.isMain, handles, batch]
    · simp [MainEvent.isMain, handles, batch]
  | advance => exact ⟨stopped, nofun, le_rfl⟩
  | sigterm => exact ⟨stopped, nofun, le_rfl⟩
  | sigalrm => exact ⟨stopped, nofun, le_rfl⟩
  | epollWait moved =>
    cases Server.taken_of_step moved with
    | close _ event_eq => simp at event_eq
    | epollWait idle => exact absurd idle reading
  | epollFails waits => exact absurd waits reading
  | @recv ret _ _ _ handled moved =>
    rw [handleSignals_eq] at handled
    obtain ⟨_, rfl⟩ := Prod.mk.inj handled
    cases Server.taken_of_step moved with
    | close _ event_eq => simp at event_eq
    | @signals _ rest batch =>
      refine ⟨by simp [stopped], nofun, ?_⟩
      rw [left, batch, stepsLeft, running]
      exact le_rfl
  | endBatch =>
    refine ⟨stopped, nofun, ?_⟩
    rw [left, stepsLeft, endPass, stopped]
    simp [MainEvent.isMain]

theorem ends_of_run {later : List MainEvent} {final : MainLoop} (roomy : 0 < room) (beating : Beating loop)
    (stopped : loop.stopServer = true) (ran : run (step room) loop later = some final) :
    (∀ batch, .epollWait batch ∉ later) ∧ later.countP MainEvent.isMain ≤ loop.stepsLeft := by
  induction later generalizing loop with
  | nil => exact ⟨fun _ => List.not_mem_nil, Nat.zero_le _⟩
  | cons event later ih =>
    obtain ⟨next, taken, ran⟩ := (run_cons_eq_some _).mp ran
    obtain ⟨stays, other, nearer⟩ := nearer_of_step beating stopped taken
    obtain ⟨others, few⟩ := ih (beating.step roomy taken) stays ran
    refine ⟨fun batch member => ?_, ?_⟩
    · rcases List.mem_cons.mp member with same | member
      · exact other batch same.symm
      · exact others batch member
    · rw [List.countP_cons]
      omega

/-- In every run, with room for one byte in the pipe: of the alarm, its signals in the pipe and the flag there
is one at most, and there is one unless the loop is told to end, which it then stays. Once an order to end
has been read there is no further `epoll_wait`, and `main` takes a step for each event it has still to handle
and one for the end of the pass at most. -/
theorem rings_until_told (clock : ℕ) (roomy : 0 < room) (events : List MainEvent) (loop : MainLoop)
    (ran : run (step room) (initial clock) events = some loop) :
    loop.beats ≤ 1 ∧ (loop.beats = 1 ∨ loop.ToldToEnd) ∧
    ∀ (later : List MainEvent) (final : MainLoop), run (step room) loop later = some final →
      (loop.ToldToEnd → final.ToldToEnd) ∧
      (loop.stopServer = true → (∀ batch, .epollWait batch ∉ later) ∧
        later.countP MainEvent.isMain ≤ loop.server.batch.length + 1) := by
  have beating := beating_of_run roomy ran
  refine ⟨beating.few, beating.rings, fun later final ran => ⟨fun told => ?_, fun stopped => ?_⟩⟩
  · exact invariant (fun _ _ _ told stepped => told_of_step told stepped) told ran
  · obtain ⟨waits, few⟩ := ends_of_run roomy beating stopped ran
    refine ⟨waits, few.trans ?_⟩
    rw [stepsLeft]
    split_ifs
    · exact Nat.zero_le _
    · exact le_rfl

private theorem orderRead_runs : (run (step 1000) (initial 0)
    [.advance 5, .raise .sigalrm, .raise .sigterm, .epollWait [.signal, .listen], .recv 2]).isSome := by
  decide +kernel

/-- The alarm and an order to end are read together; the accepted connection behind them is handled, and the
last tick sets the alarm once more. -/
theorem rings_until_told_both : ∃ loop final : MainLoop,
    run (step 1000) loop [.server (.accept 7), .endBatch] = some final ∧ loop.stopServer = true ∧
      final.ended = true ∧ final.alarm = some 10 ∧ (loop.beats = 1 ∨ loop.ToldToEnd) ∧
      [MainEvent.server (.accept 7), .endBatch].countP MainEvent.isMain ≤ loop.server.batch.length + 1 :=
  have stopped : ((run (step 1000) (initial 0) [.advance 5, .raise .sigalrm, .raise .sigterm,
    .epollWait [.signal, .listen], .recv 2]).get orderRead_runs).stopServer = true := by decide +kernel
  let told := rings_until_told 0 (by decide) _ _ (Option.some_get orderRead_runs).symm
  have ends := (Option.some_get (by decide +kernel)).symm
  ⟨_, _, ends, stopped, by decide +kernel, by decide +kernel, told.2.1, ((told.2.2 _ _ ends).2 stopped).2⟩

/-! ## Idle connections -/

/-- `main` keeps up with its events and is not told to end: time passes only while it waits with nothing to
read, and not past the alarm. -/
def Prompt (loop : MainLoop) : MainEvent → Prop
  | .advance seconds => loop.server.waiting = true ∧ loop.pipe = [] ∧
      ∀ due ∈ loop.alarm, loop.server.clock + seconds ≤ due
  | .raise .sigterm | .epollFails => False
  | _ => True

instance (loop : MainLoop) (event : MainEvent) : Decidable (loop.Prompt event) :=
  match event with
  | .advance _ => inferInstanceAs (Decidable (_ ∧ _))
  | .raise .sigterm | .epollFails => isFalse id
  | .server _ | .raise .sigalrm | .epollWait _ | .recv _ | .endBatch => isTrue trivial

/-- All timers expire after the last tick, and the next one is due a time slot after it. -/
structure Punctual (loop : MainLoop) (last : ℕ) : Prop where
  past : last ≤ loop.server.clock
  soon : loop.server.clock ≤ last + timeslot
  alarm : ∀ due ∈ loop.alarm, due ≤ last + timeslot
  timers : ∀ timer ∈ loop.server.timerLst, last < timer.expire

/-- The server takes its own steps only. -/
theorem server_of_step {event : MainEvent} (stepped : loop.step room event = some next) :
    next.server = loop.server ∨ ∃ label, loop.server.step label = some next.server := by
  cases (passes_of_step stepped).2 with
  | server _ moved | epollWait moved | recv _ moved | endBatch moved => exact Or.inr ⟨_, moved⟩
  | advance seconds => exact Or.inr ⟨.advance seconds, rfl⟩
  | sigterm | sigalrm | epollFails => exact Or.inl rfl

/-- Nobody tells a prompt loop to end. -/
theorem calm_of_step {event : MainEvent} (calm : ¬loop.ToldToEnd) (prompt : loop.Prompt event)
    (stepped : loop.step room event = some next) : ¬next.ToldToEnd := by
  rw [ToldToEnd, not_or, not_or] at calm ⊢
  obtain ⟨ordered, stopped, running⟩ := calm
  cases (passes_of_step stepped).2 with
  | server | advance | epollWait => exact ⟨ordered, stopped, running⟩
  | sigterm => exact absurd prompt id
  | epollFails => exact absurd prompt id
  | sigalrm =>
    refine ⟨?_, stopped, running⟩
    rw [sigHandler]
    split_ifs
    · simpa using ordered
    · exact ordered
  | @recv ret _ _ _ handled moved =>
    rw [handleSignals_eq] at handled
    obtain ⟨_, rfl⟩ := Prod.mk.inj handled
    refine ⟨fun left => ordered (List.mem_of_mem_drop left), ?_, running⟩
    have unread : Signal.sigterm ∉ loop.pipe.take ret := fun taken => ordered (List.mem_of_mem_take taken)
    simpa [unread] using stopped
  | endBatch => exact ⟨ordered, stopped, stopped⟩

namespace Punctual

variable {last : ℕ}

/-- A step that changes neither the clock, the timers nor the time of the alarm. -/
theorem congr (punctual : Punctual loop last) (clock : next.server.clock = loop.server.clock)
    (alarm : ∀ due ∈ next.alarm, due ∈ loop.alarm)
    (timers : ∀ timer ∈ next.server.timerLst,
      timer ∈ loop.server.timerLst ∨ timer.expire = loop.server.clock + 3 * timeslot) :
    Punctual next last where
  past := clock ▸ punctual.past
  soon := clock ▸ punctual.soon
  alarm due armed := punctual.alarm due (alarm due armed)
  timers timer member := by
    have past := punctual.past
    have positive : 0 < timeslot := by decide
    rcases timers timer member with member | late
    · exact punctual.timers timer member
    · rw [late]
      omega

/-- A tick starts anew. -/
theorem endBatch (punctual : Punctual loop last) (renewed : loop.server.Renewed) {server : Server}
    (moved : loop.server.step .endBatch = some server) : ∃ last, Punctual (loop.endPass server) last := by
  cases Server.taken_of_step moved with
  | close _ event_eq => simp at event_eq
  | endBatch handled =>
    by_cases due : loop.server.timeout = true
    · have timers := (Server.tickLoop_timers loop.server.timerLst loop.server).1
      have clock := Server.tickLoop_clock loop.server.timerLst loop.server
      refine ⟨loop.server.clock, ?_⟩
      rw [endPass, due]
      constructor
      · exact clock.ge
      · exact Nat.le_add_right_of_le clock.le
      · intro time armed
        cases armed
        exact le_rfl
      · intro timer member
        change timer ∈ (Server.tickLoop loop.server.timerLst loop.server).timerLst at member
        rw [timers] at member
        exact TimerList.lt_of_mem_dropWhile renewed.ascending member
    · refine ⟨last, punctual.congr ?_ ?_ ?_⟩
      · simp [endPass, due]
      · simp [endPass, due]
      · simp only [endPass, due, Bool.false_eq_true, ↓reduceIte]
        exact fun _ => Or.inl

/-- Every prompt step. -/
theorem step {event : MainEvent} (punctual : Punctual loop last) (beating : Beating loop)
    (calm : ¬loop.ToldToEnd) (renewed : loop.server.Renewed) (prompt : loop.Prompt event)
    (stepped : loop.step room event = some next) : ∃ last, Punctual next last := by
  cases (passes_of_step stepped).2 with
  | server other moved =>
    obtain ⟨clock, _, _, timers⟩ := Server.keeps_of_step other moved
    exact ⟨last, punctual.congr clock (fun _ => id) timers⟩
  | advance seconds =>
    obtain ⟨waits, empty, due⟩ := prompt
    -- the alarm is all there is while the loop waits with an empty pipe
    have one := beating.rings.resolve_right calm
    rw [beats, empty, (beating.quiet waits).1, List.count_nil, Bool.toNat_false] at one
    obtain ⟨time, armed⟩ : ∃ time, loop.alarm = some time := by
      rcases armed : loop.alarm with _ | time
      · simp [armed] at one
      · exact ⟨time, rfl⟩
    have bound := punctual.alarm time armed
    have early := due time armed
    refine ⟨last, ⟨?_, ?_, punctual.alarm, punctual.timers⟩⟩
    · exact Nat.le_trans punctual.past (Nat.le_add_right ..)
    · exact Nat.le_trans early bound
  | sigterm => exact absurd prompt id
  | epollFails => exact absurd prompt id
  | sigalrm => exact ⟨last, punctual.congr rfl nofun fun _ => Or.inl⟩
  | epollWait moved =>
    cases Server.taken_of_step moved with
    | close _ event_eq => simp at event_eq
    | epollWait => exact ⟨last, punctual.congr rfl (fun _ => id) fun _ => Or.inl⟩
  | recv handled moved =>
    cases Server.taken_of_step moved with
    | close _ event_eq => simp at event_eq
    | signals => exact ⟨last, punctual.congr rfl (fun _ => id) fun _ => Or.inl⟩
  | endBatch moved => exact punctual.endBatch renewed moved

end Punctual

/-- What holds in every run of prompt steps. -/
structure Kept (loop : MainLoop) : Prop where
  beating : Beating loop
  calm : ¬loop.ToldToEnd
  timed : loop.server.Timed
  renewed : loop.server.Renewed
  punctual : ∃ last, Punctual loop last

theorem kept_initial (clock : ℕ) : Kept (initial clock) where
  beating := beating_initial clock
  calm := by simp [ToldToEnd, initial]
  timed := Server.timed_initial clock
  renewed := Server.renewed_initial clock
  punctual := ⟨clock, le_rfl, Nat.le_add_right .., fun due armed => by cases armed; exact le_rfl, nofun⟩

theorem Kept.step {event : MainEvent} (kept : Kept loop) (roomy : 0 < room) (prompt : loop.Prompt event)
    (stepped : loop.step room event = some next) : Kept next where
  beating := kept.beating.step roomy stepped
  calm := calm_of_step kept.calm prompt stepped
  timed := by
    rcases server_of_step stepped with same | ⟨label, moved⟩
    · rw [same]
      exact kept.timed
    · exact (kept.timed.step moved).timed
  renewed := by
    rcases server_of_step stepped with same | ⟨label, moved⟩
    · rw [same]
      exact kept.renewed
    · exact kept.renewed.step kept.timed moved
  punctual := by
    obtain ⟨last, punctual⟩ := kept.punctual
    exact punctual.step kept.beating kept.calm kept.renewed prompt stepped

/-- In every run in which `main` keeps up with its events and is not told to end, whatever the workers do:
every open connection was accepted, read or written less than four time slots ago. -/
theorem active_within_four_slots (clock : ℕ) (roomy : 0 < room) (events : List MainEvent) (loop : MainLoop)
    (prompt : Guarded (step room) Prompt (initial clock) events)
    (ran : run (step room) (initial clock) events = some loop) :
    ∀ descriptor ∈ loop.server.descriptors, loop.server.clock < descriptor.lastActive + 4 * timeslot := by
  have kept : Kept loop := invariant_of_guarded
    (fun _ _ _ kept prompt stepped => kept.step roomy prompt stepped) (kept_initial clock) prompt ran
  obtain ⟨last, punctual⟩ := kept.punctual
  intro descriptor member
  obtain ⟨timer, listed, _, _, expire⟩ := kept.renewed.timer descriptor member
  have later := punctual.timers timer listed
  have soon := punctual.soon
  omega

/-- A worker closes a connection, and its number is accepted again; the other connection is read once more
before the tick that would close it. -/
private def idleRun : List MainEvent :=
  [.epollWait [.listen], .server (.accept 7), .endBatch, .advance 4, .epollWait [.listen], .server (.accept 8),
    .endBatch, .epollWait [.client 7 .readable], .server (.read true), .endBatch, .server .take,
    .server (.closeConn 7), .server (.finishClosed 7), .epollWait [.listen], .server (.accept 7), .endBatch,
    .advance 1, .raise .sigalrm, .epollWait [.signal], .recv 1, .endBatch, .advance 5, .raise .sigalrm,
    .epollWait [.signal], .recv 1, .endBatch, .advance 5, .raise .sigalrm, .epollWait [.signal], .recv 1,
    .endBatch, .epollWait [.client 8 .readable], .server (.read true), .endBatch, .advance 4]

theorem active_within_four_slots_reused : ∃ loop : MainLoop,
    (∀ descriptor ∈ loop.server.descriptors, loop.server.clock < descriptor.lastActive + 4 * timeslot) ∧
      loop.server.clock = 19 ∧ loop.server.openFds = [7, 8] :=
  let ran := Option.some_get (by decide +kernel)
  ⟨_, active_within_four_slots 0 (show 0 < 1 by decide) idleRun _ (by decide +kernel) ran.symm,
    by decide +kernel, by decide +kernel⟩

end MainLoop

end WebServ.Http
