import WebServ.Model.Server
import WebServ.Model.Workers

/-! # The main loop and the workers together

The server of the main loop, whose work queue is the queue of the thread pool, and the workers with their
connections to the database; a request is a slot of `users`. `main` and the environment, a worker, or the two
pools take a step each, and four steps are taken by both sides: `append` behind a `read_once` that has
succeeded, `pop_front` that finds a request, and the two calls that `process` ends with. The return of
`process` is the `modfd` it ends with: behind it the worker touches the object no more. The post of `append`
may come at any later time.
-/

namespace WebServ.Http

open WebServ.Pool

/-- The state of `main` with its pools. -/
structure WebServer where
  server : Server
  workers : Workers ℕ

/-- The label of a step; no interest stands for the `modfd` behind `close_conn`. -/
inductive WebServerEvent where
  | main (event : Event)
  | append (slot : ℕ)
  | take (worker : ℕ)
  | worker (event : WorkersEvent ℕ)
  | process (worker : ℕ) (interest : Option Interest)
  | closeConn (worker : ℕ)
deriving Repr

/-- The actions of the server that the workers take or take part in. -/
def Event.isShared : Event → Bool
  | .read true | .take | .finish .. | .closeConn _ | .finishClosed _ => true
  | _ => false

/-- How `process` ends: with `modfd`, or with `close_conn` and `modfd`. -/
def endOfProcess (slot : ℕ) : Option Interest → Event
  | some interest => .finish slot interest
  | none => .finishClosed slot

namespace WebServer

/-- Before the first event, with the connections that have been made. -/
def initial (clock : ℕ) (connections : ConnectionPool) (mysql : ℕ → Option ℕ) : WebServer where
  server := .initial clock
  workers := .initial .default connections mysql

/-- The actions of the workers that the server takes part in. -/
def shares (web : WebServer) : WorkersEvent ℕ → Bool
  | .pool (.append _) | .process _ => true
  | .pool (.popFront _) => !web.workers.requests.workqueue.isEmpty
  | _ => false

/-- The slot a worker in `process` has. -/
def slot? (web : WebServer) (worker : ℕ) : Option ℕ :=
  match web.workers.places worker, web.workers.requests.stages[worker]? with
  | .processing _, some (.processing slot) => some slot
  | _, _ => none

/-- Both sides take their step. -/
def both (web : WebServer) (event : Event) (other : WorkersEvent ℕ) : Option WebServer :=
  (web.server.step event).bind fun server =>
    (web.workers.step .default other).map fun workers => ⟨server, workers⟩

/-- One action. -/
def step (web : WebServer) : WebServerEvent → Option WebServer
  | .main event =>
      if event.isShared then none else (web.server.step event).map fun server => { web with server }
  | .append slot => if web.server.front = [slot] then web.both (.read true) (.pool (.append slot)) else none
  | .take worker =>
      if web.shares (.pool (.popFront worker)) then web.both .take (.pool (.popFront worker)) else none
  | .worker event =>
      if web.shares event then none
      else (web.workers.step .default event).map fun workers => { web with workers }
  | .process worker interest =>
      (web.slot? worker).bind fun slot => web.both (endOfProcess slot interest) (.process worker)
  | .closeConn worker =>
      (web.slot? worker).bind fun slot =>
        (web.server.step (.closeConn slot)).map fun server => { web with server }

end WebServer

end WebServ.Http
