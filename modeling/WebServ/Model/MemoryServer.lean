import WebServ.Model.Server
import WebServ.Model.SortTimerLst

/-! # The server with its timers in memory

The server once more, where the timers are those of `timer_lst` in memory and `users_timer` holds their
addresses: a descriptor is closed if a callback in memory closes it. `new` returns any address that is not in
use, one that has been freed before included, and `users_timer` is not initialised, so that its pointers are
anything at first. A step that uses a null, dangling or uninitialised pointer is refused, as are the steps that
`Server` refuses.
-/

namespace WebServ.Http

/-- The server without what it knows of the timers. -/
def Server.withoutTimers (server : Server) : Server := { server with timerLst := [], userTimer := fun _ => none }

/-- The server, less its own list of timers, with `timer_lst` and the member `timer` of `users_timer`. -/
structure MemoryServer where
  server : Server
  timerLst : SortTimerLst ℕ
  timer : ℕ → Option ℕ

namespace MemoryServer

/-- No connection yet; the array of `users_timer` is as `new` returns it. -/
def initial (clock : ℕ) (usersTimer : ℕ → Option ℕ) : MemoryServer where
  server := .initial clock
  timerLst := .initial
  timer := usersTimer

/-- The accept branch with the descriptor returned by the kernel; `new` is told how many timers it has made and
which addresses are in use. -/
def acceptConn (new : ℕ → List ℕ → ℕ) (memory : MemoryServer) (fd : ℕ) : Option MemoryServer :=
  if (maxFd : ℤ) ≤ memory.server.userCount then some memory
  else do
    let server ← memory.server.acceptConn fd
    let timer := new memory.server.nextConn memory.timerLst.heap.keys
    let timerLst ← memory.timerLst.use (.add timer (memory.server.clock + 3 * timeslot) fd)
    some { server := server.withoutTimers, timerLst, timer := Function.update memory.timer fd (some timer) }

/-- `timer->cb_func(&users_timer[slot])` and `timer_lst.del_timer(timer)`. -/
def closeByTimer (memory : MemoryServer) (slot : ℕ) : Option MemoryServer := do
  let timer ← memory.timer slot
  let _ ← memory.timerLst.load timer
  let timerLst ← memory.timerLst.delTimer timer
  some { memory with server := memory.server.cbFunc slot, timerLst }

/-- `timer->expire = cur + 3 * TIMESLOT` and `timer_lst.adjust_timer(timer)`, unless the pointer is null. -/
def postponeTimer (memory : MemoryServer) (slot : ℕ) : Option MemoryServer :=
  match memory.timer slot with
  | none => some memory
  | some timer =>
      (memory.timerLst.use (.adjust timer (memory.server.clock + 3 * timeslot))).map fun timerLst =>
        { memory with timerLst }

/-- `timer_lst.tick()`: the callbacks close the descriptors of their `user_data`. -/
def tick (memory : MemoryServer) : Option MemoryServer :=
  (memory.timerLst.tick memory.server.clock).map fun (calls, timerLst) =>
    { memory with server := calls.foldl Server.cbFunc memory.server, timerLst }

/-- One action. -/
def step (new : ℕ → List ℕ → ℕ) (memory : MemoryServer) (event : Event) : Option MemoryServer :=
  let server := memory.server
  match event with
  | .accept fd =>
      match server.batch with
      | .listen :: rest =>
          if fd ∈ server.openFds then none
          else { memory with server := { server with batch := rest } }.acceptConn new fd
      | _ => none
  | .hangup =>
      match server.batch with
      | .client fd .hangup :: rest => { memory with server := { server with batch := rest } }.closeByTimer fd
      | _ => none
  | .read received =>
      match server.batch with
      | .client fd .readable :: rest =>
          if received then
            match server.sockfd fd with
            | some socket =>
                if socket ∈ server.openFds then
                  { memory with server := ({ server with batch := rest }.touch socket).append fd }.postponeTimer fd
                else none
            | none => none
          else { memory with server := { server with batch := rest } }.closeByTimer fd
      | _ => none
  | .write kept =>
      match server.batch with
      | .client fd .writable :: rest =>
          match kept with
          | some interest =>
              let server := { server with batch := rest }.modfd (server.sockfd fd) interest
              match server.sockfd fd with
              | some socket => { memory with server := server.touch socket }.postponeTimer fd
              | none => { memory with server }.postponeTimer fd
          | none => { memory with server := { server with batch := rest } }.closeByTimer fd
      | _ => none
  | .endBatch =>
      if server.waiting ∨ server.batch ≠ [] then none
      else (if server.timeout then memory.tick else some memory).map fun memory =>
        { memory with server := { memory.server with timeout := false, waiting := true } }
  | other => (server.step other).map fun server => { memory with server }

end MemoryServer

end WebServ.Http
