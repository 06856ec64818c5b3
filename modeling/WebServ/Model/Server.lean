import WebServ.Model.TimerList
import WebServ.Machine.Path
import Mathlib.Algebra.Order.Ring.Int

/-! # The server: main loop, timers and workers

One step is one action of the main thread, of a worker or of the environment. Open client
descriptors are kernel objects: each carries its epoll registration and, for the statements only,
the number of the connection it belongs to and the time it was last active. What an `http_conn`
object computes is a choice of the environment here; the slot keeps its `m_sockfd`. A step is
refused (`none`) when its label does not fit the state, or when the source would use a null or freed
timer or index beyond its arrays. A worker holds an object from `pop_front` to the `modfd` that ends
`process`. The end of the server by SIGTERM is left out.
-/

namespace WebServ.Http

/-- `MAX_FD`. -/
abbrev maxFd : ℕ := 65536

/-- `TIMESLOT`. -/
abbrev timeslot : ℕ := 5

/-- `thread_number` of the pool. -/
abbrev threadNumber : ℕ := 8

/-- `max_requests` of the pool. -/
abbrev maxRequests : ℕ := 10000

/-- The events a client descriptor is registered for. -/
inductive Interest where
  | input
  | output
deriving DecidableEq, Repr

/-- The branch of the main loop a client event leads to. -/
inductive ClientEvent where
  | hangup
  | readable
  | writable
deriving DecidableEq, Repr

/-- A ready descriptor reported by `epoll_wait`: the listening socket, the signal pipe, a client. -/
inductive Ready where
  | listen
  | signal
  | client (fd : ℕ) (event : ClientEvent)
deriving DecidableEq, Repr

/-- The client descriptor of a report. -/
def Ready.fd? : Ready → Option ℕ
  | .client fd _ => some fd
  | _ => none

/-- An open descriptor of an accepted connection. -/
structure Descriptor where
  fd : ℕ
  conn : ℕ
  armed : Option Interest
  lastActive : ℕ
deriving DecidableEq, Repr

/-- Where a worker stands in `process`: before or behind `close_conn`. -/
inductive Phase where
  | processing
  | closed
deriving DecidableEq, Repr

/-- The state of the server. -/
structure Server where
  clock : ℕ
  userCount : ℤ
  sockfd : ℕ → Option ℕ
  userTimer : ℕ → Option ℕ
  timerLst : List Timer
  descriptors : List Descriptor
  nextConn : ℕ
  waiting : Bool
  batch : List Ready
  timeout : Bool
  workqueue : List ℕ
  held : List (ℕ × Phase)

/-- The label of a step. -/
inductive Event where
  | advance (seconds : ℕ)
  | epollWait (batch : List Ready)
  | acceptFails
  | accept (fd : ℕ)
  | signals (alarm : Bool)
  | hangup
  | read (received : Bool)
  | write (kept : Option Interest)
  | endBatch
  | take
  | finish (slot : ℕ) (interest : Interest)
  | closeConn (slot : ℕ)
  | finishClosed (slot : ℕ)
deriving DecidableEq, Repr

/-- The step of a worker that calls `close_conn`, because `process_write` has failed. -/
def Event.isCloseConn : Event → Bool
  | .closeConn _ => true
  | _ => false

namespace Server

/-- No connection yet. -/
def initial (clock : ℕ) : Server where
  clock := clock
  userCount := 0
  sockfd _ := none
  userTimer _ := none
  timerLst := []
  descriptors := []
  nextConn := 0
  waiting := true
  batch := []
  timeout := false
  workqueue := []
  held := []

/-- The open client descriptors. -/
def openFds (server : Server) : List ℕ := server.descriptors.map Descriptor.fd

/-- The slots in the work queue or held by a worker. -/
def busy (server : Server) : List ℕ := server.workqueue ++ server.held.map Prod.fst

/-- `close(fd)`: an open descriptor goes away, with its registration. -/
def closeFd (server : Server) (fd : ℕ) : Server :=
  { server with descriptors := server.descriptors.filter (·.fd ≠ fd) }

/-- `modfd`; it fails without effect on a closed descriptor. -/
def modfd (server : Server) (fd : Option ℕ) (interest : Interest) : Server :=
  { server with descriptors := server.descriptors.map fun descriptor =>
      if fd = some descriptor.fd then { descriptor with armed := some interest } else descriptor }

/-- Note the time of a successful read or write. -/
def touch (server : Server) (fd : ℕ) : Server :=
  { server with descriptors := server.descriptors.map fun descriptor =>
      if descriptor.fd = fd then { descriptor with lastActive := server.clock } else descriptor }

/-- `cb_func(&users_timer[slot])`. -/
def cbFunc (server : Server) (slot : ℕ) : Server :=
  { server.closeFd slot with userCount := server.userCount - 1 }

/-- The accept branch with the descriptor returned by the kernel. -/
def acceptConn (server : Server) (fd : ℕ) : Option Server :=
  if (maxFd : ℤ) ≤ server.userCount then some server
  else if maxFd ≤ fd then none
  else some { server with
    userCount := server.userCount + 1
    sockfd := Function.update server.sockfd fd (some fd)
    userTimer := Function.update server.userTimer fd (some server.nextConn)
    timerLst := TimerList.addTimer ⟨server.nextConn, server.clock + 3 * timeslot, fd⟩ server.timerLst
    descriptors := ⟨fd, server.nextConn, some .input, server.clock⟩ :: server.descriptors
    nextConn := server.nextConn + 1 }

/-- The main loop closes a connection: the callback and `del_timer` of the slot's timer. -/
def closeByTimer (server : Server) (slot : ℕ) : Option Server :=
  match server.userTimer slot with
  | none => none
  | some timer =>
      if TimerList.Live timer server.timerLst then
        some { server.cbFunc slot with timerLst := TimerList.delTimer timer server.timerLst }
      else none

/-- The main loop puts a connection's timer off. -/
def postponeTimer (server : Server) (slot : ℕ) : Option Server :=
  match server.userTimer slot with
  | none => some server
  | some timer =>
      if TimerList.Live timer server.timerLst then
        some { server with
          timerLst := TimerList.adjustTimer timer (server.clock + 3 * timeslot) server.timerLst }
      else none

/-- `pool->append`. -/
def append (server : Server) (slot : ℕ) : Server :=
  if maxRequests ≤ server.workqueue.length then server
  else { server with workqueue := server.workqueue ++ [slot] }

/-- The loop of `tick` from a member on. -/
def tickLoop : List Timer → Server → Server
  | [], server => { server with timerLst := [] }
  | timer :: rest, server =>
      if server.clock < timer.expire then { server with timerLst := timer :: rest }
      else tickLoop rest (server.cbFunc timer.slot)

/-- `timer_lst.tick()`. -/
def tick (server : Server) : Server := tickLoop server.timerLst server

/-- The timers whose callback `tick` invokes. -/
def expired (server : Server) : List Timer :=
  server.timerLst.takeWhile fun timer => timer.expire ≤ server.clock

/-- A report `epoll_wait` may give: the descriptor is registered for the event. -/
def Reports (server : Server) : Ready → Prop
  | .client fd event => ∃ descriptor ∈ server.descriptors, descriptor.fd = fd ∧
      match event with
      | .hangup => descriptor.armed ≠ none
      | .readable => descriptor.armed = some .input
      | .writable => descriptor.armed = some .output
  | _ => True

instance (server : Server) (ready : Ready) : Decidable (server.Reports ready) :=
  match ready with
  | .client _ .hangup => List.decidableBEx _ _
  | .client _ .readable => List.decidableBEx _ _
  | .client _ .writable => List.decidableBEx _ _
  | .listen => inferInstanceAs (Decidable True)
  | .signal => inferInstanceAs (Decidable True)

/-- A delivered one-shot event disarms its descriptor. -/
def disarm (server : Server) (fds : List ℕ) : Server :=
  { server with descriptors := server.descriptors.map fun descriptor =>
      if descriptor.fd ∈ fds then { descriptor with armed := none } else descriptor }

/-- One action. -/
def step (server : Server) : Event → Option Server
  | .advance seconds => some { server with clock := server.clock + seconds }
  | .epollWait batch =>
      if server.waiting ∧ batch.Nodup ∧ (batch.filterMap Ready.fd?).Nodup ∧
          ∀ ready ∈ batch, server.Reports ready then
        some { server.disarm (batch.filterMap Ready.fd?) with batch, waiting := false }
      else none
  | .acceptFails =>
      match server.batch with
      | .listen :: rest => some { server with batch := rest }
      | _ => none
  | .accept fd =>
      match server.batch with
      | .listen :: rest =>
          if fd ∈ server.openFds then none else { server with batch := rest }.acceptConn fd
      | _ => none
  | .signals alarm =>
      match server.batch with
      | .signal :: rest => some { server with batch := rest, timeout := server.timeout || alarm }
      | _ => none
  | .hangup =>
      match server.batch with
      | .client fd .hangup :: rest => { server with batch := rest }.closeByTimer fd
      | _ => none
  | .read received =>
      match server.batch with
      | .client fd .readable :: rest =>
          if received then
            match server.sockfd fd with
            | some socket =>
                if socket ∈ server.openFds then
                  (({ server with batch := rest }.touch socket).append fd).postponeTimer fd
                else none
            | none => none
          else { server with batch := rest }.closeByTimer fd
      | _ => none
  | .write kept =>
      match server.batch with
      | .client fd .writable :: rest =>
          match kept with
          | some interest =>
              let server := { server with batch := rest }.modfd (server.sockfd fd) interest
              match server.sockfd fd with
              | some socket => (server.touch socket).postponeTimer fd
              | none => server.postponeTimer fd
          | none => { server with batch := rest }.closeByTimer fd
      | _ => none
  | .endBatch =>
      if server.waiting ∨ server.batch ≠ [] then none
      else some { (if server.timeout then server.tick else server) with timeout := false, waiting := true }
  | .take =>
      match server.workqueue with
      | slot :: rest =>
          if server.held.length < threadNumber then
            some { server with workqueue := rest, held := (slot, .processing) :: server.held }
          else none
      | [] => none
  | .finish slot interest =>
      if (slot, .processing) ∈ server.held then
        some { server.modfd (server.sockfd slot) interest with
          held := server.held.erase (slot, .processing) }
      else none
  | .closeConn slot =>
      if (slot, .processing) ∈ server.held then
        let server := { server with held := (slot, .closed) :: server.held.erase (slot, .processing) }
        match server.sockfd slot with
        | some fd => some { server.closeFd fd with
            sockfd := Function.update server.sockfd slot none
            userCount := server.userCount - 1 }
        | none => some server
      else none
  | .finishClosed slot =>
      if (slot, .closed) ∈ server.held then
        some { server.modfd (server.sockfd slot) .output with
          held := server.held.erase (slot, .closed) }
      else none

/-- The client descriptor whose event is handled next. -/
def front (server : Server) : List ℕ := (server.batch.head?.bind Ready.fd?).toList

/-- The descriptors an action closes, by the timer callback or by `close_conn`. -/
def closes (server : Server) : Event → List ℕ
  | .hangup => server.front
  | .read false => server.front
  | .write none => server.front
  | .endBatch => if server.timeout then server.expired.map Timer.slot else []
  | .closeConn slot => (server.sockfd slot).toList
  | _ => []

end Server

end WebServ.Http
