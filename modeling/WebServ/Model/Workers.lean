import WebServ.Model.ConnectionPool

/-! # The workers and their connections

The whole body of `run`: a worker that has taken a request gets a connection in the constructor of
`connectionRAII`, processes the request, and gives the connection back in the destructor. The thread pool and
the connection pool take their own steps; between them stand the assignments of the constructor, which go by
way of the member `mysql` of the request, and the call of `process`. A release of a connection that the thread
does not hold has no step. `initmysql_result` has given its connection back before there is a request.
-/

namespace WebServ.Pool

/-- Where a worker stands in the body of its loop: outside, in `GetConnection`, in front of the assignments to
`*SQL` and to `conRAII`, in `process`, in front of the locked part and of the post of `ReleaseConnection`, and
at the end. -/
inductive RunPlace where
  | outside
  | getting
  | got (con : Option ℕ)
  | assigned
  | processing (conRAII : Option ℕ)
  | releasing (conRAII : Option ℕ)
  | posting
  | ended
deriving DecidableEq, Repr

/-- The thread pool, the connection pool, and the workers between them. -/
structure Workers (α : Type*) where
  requests : ThreadPool α
  connections : ConnectionPool
  places : ℕ → RunPlace
  mysql : α → Option ℕ

/-- The label of a step. -/
inductive WorkersEvent (α : Type*) where
  | pool (event : PoolEvent α)
  | connection (event : ConnectionEvent)
  | assign (worker : ℕ)
  | construct (worker : ℕ)
  | process (worker : ℕ)
  | finish (worker : ℕ)
deriving Repr

/-- The thread that takes the step. -/
def ConnectionEvent.thread : ConnectionEvent → ℕ
  | .check thread | .wait thread | .interrupted thread | .takeFront thread | .release thread _
  | .post thread => thread

/-- Where the worker stands after a step in the connection pool, if it is due to take it. -/
def RunPlace.behind (connections : ConnectionPool) : RunPlace → ConnectionEvent → Option RunPlace
  | .getting, .check _ => some (if connections.connList.length = 0 then .got none else .getting)
  | .getting, .wait _ => some .getting
  | .getting, .interrupted _ => some .getting
  | .getting, .takeFront _ => some (.got connections.connList.head?)
  | .releasing conRAII, .release _ con =>
      if con = conRAII then some (if con = none then .ended else .posting) else none
  | .posting, .post _ => some .ended
  | _, _ => none

namespace Workers

variable {α : Type*}

/-- The constructed pools; the workers wait. -/
def initial (size : Size) (connections : ConnectionPool) (mysql : α → Option ℕ) : Workers α where
  requests := .initial size
  connections := connections
  places _ := .outside
  mysql := mysql

/-- The worker goes on to another place. -/
def goTo (workers : Workers α) (worker : ℕ) (place : RunPlace) : Workers α :=
  { workers with places := Function.update workers.places worker place }

/-- One action. -/
def step [DecidableEq α] (size : Size) (workers : Workers α) : WorkersEvent α → Option (Workers α)
  | .pool (.processed _) => none
  | .pool (.popFront worker) =>
      (workers.requests.step size (.popFront worker)).map fun requests =>
        let workers' := { workers with requests }
        if workers.requests.workqueue.isEmpty then workers' else workers'.goTo worker .getting
  | .pool event => (workers.requests.step size event).map fun requests => { workers with requests }
  | .connection event =>
      ((workers.places event.thread).behind workers.connections event).bind fun place =>
        (workers.connections.step event).map fun connections =>
          { workers with connections }.goTo event.thread place
  | .assign worker =>
      match workers.places worker, workers.requests.stages[worker]? with
      | .got con, some (.processing request) =>
          some ({ workers with mysql := Function.update workers.mysql request con }.goTo worker .assigned)
      | _, _ => none
  | .construct worker =>
      match workers.places worker, workers.requests.stages[worker]? with
      | .assigned, some (.processing request) =>
          some (workers.goTo worker (.processing (workers.mysql request)))
      | _, _ => none
  | .process worker =>
      match workers.places worker with
      | .processing conRAII => some (workers.goTo worker (.releasing conRAII))
      | _ => none
  | .finish worker =>
      match workers.places worker with
      | .ended =>
          (workers.requests.step size (.processed worker)).map fun requests =>
            { workers with requests }.goTo worker .outside
      | _ => none

end Workers

end WebServ.Pool
