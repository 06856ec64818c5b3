import WebServ.Machine.Fairness

/-! # The thread pool

`threadpool<T>` with its semaphore, one step for each part of `append` and `run` that the mutex or
the semaphore makes atomic: the locked part of `append`, `post`, `wait`, the locked part of `run`, and
the return of `process`. `run` ignores the result of `wait`, so a wait that a signal interrupts goes on
like any other. Requests are not null. `accepted` and `dequeued` record the calls of `push_back` and
`pop_front` for the statements only. The destructor is left out.
-/

namespace WebServ.Pool

/-- The largest value of a semaphore, and of an `int`. -/
abbrev semValueMax : ℕ := 2147483647

/-- Constructor arguments that do not throw; `max_requests` is an `int`. -/
structure Size where
  threadNumber : ℕ
  maxRequests : ℕ
  threads_pos : 0 < threadNumber
  requests_pos : 0 < maxRequests
  requests_le : maxRequests ≤ semValueMax

/-- The default arguments. -/
def Size.default : Size where
  threadNumber := 8
  maxRequests := 10000
  threads_pos := by decide
  requests_pos := by decide
  requests_le := by decide

/-- Where a worker stands in its loop: before the end of `wait`, between `wait` and the locked part, or
in `process`. -/
inductive Stage (α : Type*) where
  | waiting
  | woken
  | processing (request : α)
deriving DecidableEq, Repr

/-- The request that the worker has. -/
def Stage.request? {α : Type*} : Stage α → Option α
  | .processing request => some request
  | _ => none

/-- The worker is past `wait` and before its `pop_front`. -/
def Stage.isWoken {α : Type*} : Stage α → Bool
  | .woken => true
  | _ => false

/-- The state of the pool; `posting` counts the appending threads between `push_back` and `post`. -/
structure ThreadPool (α : Type*) where
  workqueue : List α
  queuestat : ℕ
  posting : ℕ
  stages : List (Stage α)
  undefined : Bool
  accepted : List α
  dequeued : List (α × ℕ)
deriving Repr

/-- The label of a step. -/
inductive PoolEvent (α : Type*) where
  | append (request : α)
  | post
  | wait (worker : ℕ)
  | interrupted (worker : ℕ)
  | popFront (worker : ℕ)
  | processed (worker : ℕ)
deriving Repr

variable {α : Type*}

/-- The worker that takes the step. -/
def PoolEvent.worker? : PoolEvent α → Option ℕ
  | .wait worker | .interrupted worker | .popFront worker | .processed worker => some worker
  | _ => none

/-- `sem_post`: it fails without effect at the largest value. -/
def semPost (value : ℕ) : ℕ := if value < semValueMax then value + 1 else value

namespace ThreadPool

/-- The pool after its constructor. -/
def initial (size : Size) : ThreadPool α where
  workqueue := []
  queuestat := 0
  posting := 0
  stages := List.replicate size.threadNumber .waiting
  undefined := false
  accepted := []
  dequeued := []

/-- The worker goes on to another stage. -/
def setStage (pool : ThreadPool α) (worker : ℕ) (stage : Stage α) : ThreadPool α :=
  { pool with stages := pool.stages.set worker stage }

/-- `front` and `pop_front`; undefined on an empty list. -/
def takeFront (pool : ThreadPool α) (worker : ℕ) : ThreadPool α :=
  match pool.workqueue with
  | [] => { pool with undefined := true }
  | request :: rest =>
      { pool.setStage worker (.processing request) with
        workqueue := rest
        dequeued := pool.dequeued ++ [(request, worker)] }

/-- One action. -/
def step (size : Size) (pool : ThreadPool α) : PoolEvent α → Option (ThreadPool α)
  | .append request =>
      if size.maxRequests ≤ pool.workqueue.length then some pool
      else some { pool with
        workqueue := pool.workqueue ++ [request]
        posting := pool.posting + 1
        accepted := pool.accepted ++ [request] }
  | .post =>
      if 0 < pool.posting then
        some { pool with queuestat := semPost pool.queuestat, posting := pool.posting - 1 }
      else none
  | .wait worker =>
      match pool.stages[worker]? with
      | some .waiting =>
          if 0 < pool.queuestat then
            some { pool.setStage worker .woken with queuestat := pool.queuestat - 1 }
          else none
      | _ => none
  | .interrupted worker =>
      match pool.stages[worker]? with
      | some .waiting => some (pool.setStage worker .woken)
      | _ => none
  | .popFront worker =>
      match pool.stages[worker]? with
      | some .woken =>
          if pool.workqueue.isEmpty then some (pool.setStage worker .waiting)
          else some (pool.takeFront worker)
      | _ => none
  | .processed worker =>
      match pool.stages[worker]? with
      | some (.processing _) => some (pool.setStage worker .waiting)
      | _ => none

end ThreadPool

end WebServ.Pool
