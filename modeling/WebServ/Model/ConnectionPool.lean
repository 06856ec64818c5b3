import WebServ.Model.ThreadPool

/-! # The database connection pool

`connection_pool` with its semaphore and a fixed number of threads that use it. A connection is known by
its number in the loop of `init`. The parts of `GetConnection` and `ReleaseConnection` that the lock or
the semaphore makes atomic are one step each, and so is the unlocked test for an empty list. The result
of `wait` is ignored, so a wait that a signal interrupts goes on like any other. A thread releases only
what it holds, as `connectionRAII` does. `returned` records the results of `GetConnection` for the
statements only. `DestroyPool` is left out.
-/

namespace WebServ.Pool

/-- Where a thread stands: outside the pool, in `GetConnection` before the end of `wait` or before the
locked part, or in `ReleaseConnection` before `post`. -/
inductive Place where
  | outside
  | checked
  | granted
  | posting
deriving DecidableEq, Repr

/-- A thread with the connections it holds. -/
structure Client where
  place : Place
  held : List ℕ
deriving DecidableEq, Repr

/-- The members of `connection_pool` and the threads that use it. -/
structure ConnectionPool where
  connList : List ℕ
  freeConn : UInt32
  curConn : UInt32
  maxConn : UInt32
  reserve : ℕ
  clients : List Client
  undefined : Bool
  returned : List (ℕ × Option ℕ)
deriving Repr

/-- The label of a step. -/
inductive ConnectionEvent where
  | check (thread : ℕ)
  | wait (thread : ℕ)
  | interrupted (thread : ℕ)
  | takeFront (thread : ℕ)
  | release (thread : ℕ) (con : Option ℕ)
  | post (thread : ℕ)
deriving DecidableEq, Repr

/-- The label of a wait that returns without a token. -/
def ConnectionEvent.isInterrupted : ConnectionEvent → Bool
  | .interrupted _ => true
  | _ => false

namespace ConnectionPool

/-- The static object before `init`, and the threads that will use it. -/
def blank (threads : ℕ) : ConnectionPool where
  connList := []
  freeConn := 0
  curConn := 0
  maxConn := 0
  reserve := 0
  clients := List.replicate threads ⟨.outside, []⟩
  undefined := false
  returned := []

/-- The loop of `init` from connection `i` on; the program ends if one cannot be made. -/
def createConnections (connects : ℕ → Bool) : ℕ → ℕ → ConnectionPool → Option ConnectionPool
  | 0, _, pool => some pool
  | count + 1, i, pool =>
      if connects i then
        createConnections connects count (i + 1)
          { pool with connList := pool.connList ++ [i], freeConn := pool.freeConn + 1 }
      else none

/-- `init`, when it returns; assigning the new semaphore copies its value. With a `MaxConn` beyond the
range of `int` it does not: the loop counter overflows, and no semaphore has such a value. -/
def init (connects : ℕ → Bool) (maxConn : UInt32) (threads : ℕ) : Option ConnectionPool :=
  if semValueMax < maxConn.toNat then none
  else (createConnections connects maxConn.toNat 0 (blank threads)).map fun pool =>
    { pool with reserve := pool.freeConn.toNat, maxConn := pool.freeConn }

/-- The thread goes on to another place, with other connections. -/
def setClient (pool : ConnectionPool) (thread : ℕ) (client : Client) : ConnectionPool :=
  { pool with clients := pool.clients.set thread client }

/-- The locked part of `GetConnection`; undefined on an empty list. -/
def takeFront (pool : ConnectionPool) (thread : ℕ) (held : List ℕ) : ConnectionPool :=
  match pool.connList with
  | [] => { pool with undefined := true }
  | con :: rest =>
      { pool.setClient thread ⟨.outside, con :: held⟩ with
        connList := rest
        freeConn := pool.freeConn - 1
        curConn := pool.curConn + 1
        returned := pool.returned ++ [(thread, some con)] }

/-- The locked part of `ReleaseConnection`. -/
def pushBack (pool : ConnectionPool) (thread : ℕ) (held : List ℕ) (con : ℕ) : ConnectionPool :=
  { pool.setClient thread ⟨.posting, held.erase con⟩ with
    connList := pool.connList ++ [con]
    freeConn := pool.freeConn + 1
    curConn := pool.curConn - 1 }

/-- One action. -/
def step (pool : ConnectionPool) : ConnectionEvent → Option ConnectionPool
  | .check thread =>
      match pool.clients[thread]? with
      | some ⟨.outside, held⟩ =>
          if pool.connList.length = 0 then
            some { pool with returned := pool.returned ++ [(thread, none)] }
          else some (pool.setClient thread ⟨.checked, held⟩)
      | _ => none
  | .wait thread =>
      match pool.clients[thread]? with
      | some ⟨.checked, held⟩ =>
          if 0 < pool.reserve then
            some { pool.setClient thread ⟨.granted, held⟩ with reserve := pool.reserve - 1 }
          else none
      | _ => none
  | .interrupted thread =>
      match pool.clients[thread]? with
      | some ⟨.checked, held⟩ => some (pool.setClient thread ⟨.granted, held⟩)
      | _ => none
  | .takeFront thread =>
      match pool.clients[thread]? with
      | some ⟨.granted, held⟩ => some (pool.takeFront thread held)
      | _ => none
  | .release thread con =>
      match pool.clients[thread]? with
      | some ⟨.outside, held⟩ =>
          match con with
          | none => some pool
          | some con => if con ∈ held then some (pool.pushBack thread held con) else none
      | _ => none
  | .post thread =>
      match pool.clients[thread]? with
      | some ⟨.posting, held⟩ =>
          some { pool.setClient thread ⟨.outside, held⟩ with reserve := semPost pool.reserve }
      | _ => none

end ConnectionPool

end WebServ.Pool
