import WebServ.Model.Server

/-! # The main loop with its signals

The server together with what drives its ticks and ends it: the alarm of the process, the handler
`sig_handler` that writes the number of a signal into the pipe, the pipe, and the flags of `main`. The write
end of the pipe does not block, so a signal is forgotten while the pipe is full. The pipe is watched level
triggered, so it is reported only while it holds something. `epoll_wait` that a signal interrupts is one that
reports nothing. A step is one of the server, of the kernel, which raises a signal or reads the clock, or of
`main`. The end of `main`, which deletes the objects the workers use, is left out.
-/

namespace WebServ.Http

/-- The signals `sig_handler` is registered for. -/
inductive Signal where
  | sigalrm
  | sigterm
deriving DecidableEq, Repr

/-- The state of `main`; `alarm` is the time the next `SIGALRM` is due. -/
structure MainLoop where
  server : Server
  alarm : Option ℕ
  pipe : List Signal
  stopServer : Bool
  ended : Bool

/-- The label of a step. -/
inductive MainEvent where
  | server (event : Event)
  | advance (seconds : ℕ)
  | raise (sig : Signal)
  | epollWait (batch : List Ready)
  | epollFails
  | recv (ret : ℕ)
  | endBatch
deriving DecidableEq, Repr

/-- The actions of the server that `main` takes with its signals. -/
def Event.isMains : Event → Bool
  | .advance _ | .epollWait _ | .signals _ | .endBatch => true
  | _ => false

namespace MainLoop

/-- In front of the loop: the alarm is set. -/
def initial (clock : ℕ) : MainLoop where
  server := .initial clock
  alarm := some (clock + timeslot)
  pipe := []
  stopServer := false
  ended := false

/-- `sig_handler`, with the number of bytes the pipe has room for. -/
def sigHandler (room : ℕ) (loop : MainLoop) (sig : Signal) : MainLoop :=
  { loop with pipe := if loop.pipe.length < room then loop.pipe ++ [sig] else loop.pipe }

/-- The loop over the received signals. -/
def handleSignals : List Signal → Bool × Bool → Bool × Bool
  | [], flags => flags
  | .sigalrm :: rest, (_, stopServer) => handleSignals rest (true, stopServer)
  | .sigterm :: rest, (timeout, _) => handleSignals rest (timeout, true)

/-- The end of a pass: `timer_handler` if the flag is set, and the test of the loop. -/
def endPass (loop : MainLoop) (server : Server) : MainLoop :=
  { loop with
    server
    alarm := if loop.server.timeout then some (loop.server.clock + timeslot) else loop.alarm
    ended := loop.stopServer }

/-- One action. -/
def step (room : ℕ) (loop : MainLoop) (event : MainEvent) : Option MainLoop :=
  if loop.ended then none
  else
    match event with
    | .server event =>
        if event.isMains then none
        else (loop.server.step event).map fun server => { loop with server }
    | .advance seconds => (loop.server.step (.advance seconds)).map fun server => { loop with server }
    | .raise .sigterm => some (loop.sigHandler room .sigterm)
    | .raise .sigalrm =>
        if loop.alarm.any (· ≤ loop.server.clock) then
          some { loop.sigHandler room .sigalrm with alarm := none }
        else none
    | .epollWait batch =>
        if .signal ∈ batch ∧ loop.pipe = [] then none
        else (loop.server.step (.epollWait batch)).map fun server => { loop with server }
    | .epollFails => if loop.server.waiting then some { loop with ended := true } else none
    | .recv ret =>
        if ret ≤ loop.pipe.length ∧ ret ≤ 1024 then
          let (timeout, stopServer) :=
            handleSignals (loop.pipe.take ret) (loop.server.timeout, loop.stopServer)
          (loop.server.step (.signals timeout)).map fun server =>
            { loop with server, stopServer, pipe := loop.pipe.drop ret }
        else none
    | .endBatch => (loop.server.step .endBatch).map loop.endPass

end MainLoop

end WebServ.Http
