import WebServ.Model.Process
import WebServ.Machine.Ledger

/-! # The server with its objects and file mappings

The actions of `Server` together with what they do to the array `users`, to the registered users and to the
address space. A worker between `pop_front` and `modfd` first runs `process_read`, with `do_request` where the
parser calls it, and later the rest of `process`; the main thread may act in between. The file system, the
database and the sockets are the environment: each label says what they answer. A mapping has a number
of its own, so that one that is gone is never mistaken for a later one at the same address. Calls of
`munmap` that give back no mapping with its size, and the slots with a response that is due or on its way,
are kept for the statements only.
-/

namespace WebServ.Http

open WebServ.Text WebServ.Machine

namespace HttpConn

/-- The mapping `m_file_address` points to, with the size `unmap` will give. -/
def mapping (conn : HttpConn) : Option (ℕ × ℕ) :=
  match conn.fileAddress with
  | .mapped id => some (id, conn.fileStat.size)
  | _ => none

/-- The loop of `write`, with the results of its calls of `writev`. -/
def writeLoop : List WritevResult → HttpConn → Option (WriteEnd × HttpConn)
  | [], _ => none
  | result :: rest, conn =>
      match conn.writePass result with
      | (some ended, conn) => if rest = [] then some (ended, conn) else none
      | (none, conn) => writeLoop rest conn

end HttpConn

/-- The event a call of `write` registers; a call that fails or ends the connection returns false. -/
def WriteEnd.registers : WriteEnd → Option Interest
  | .again => some .output
  | .kept => some .input
  | .failed => none
  | .closed => none

/-- The server's action behind `process`. -/
def Processed.event (done : Processed) (slot : ℕ) : Event :=
  if done.written = some false then .closeConn slot else .finish slot done.interest

/-- An action that touches no object. -/
def Event.sparesUsers : Event → Bool
  | .advance _ => true
  | .epollWait _ => true
  | .acceptFails => true
  | .signals _ => true
  | .hangup => true
  | .endBatch => true
  | .take => true
  | .finishClosed _ => true
  | _ => false

/-- What the environment answers in a call of `do_request`: the files, the database, and whether `open` and
`mmap` succeed. -/
structure Disk where
  stat : Bytes → Option FileStat
  query : Bytes → ℤ
  opens : Bool

/-- The state of the whole server. -/
structure Program where
  server : Server
  users : ℕ → HttpConn
  registry : Registry
  answered : List (ℕ × HttpCode)
  mappings : Ledger ℕ
  misused : List (FileAddress × ℕ)
  unfinished : ℕ → Bool

/-- The label of a step. -/
inductive ProgramEvent where
  | server (event : Event)
  | accept (fd : ℕ)
  | read (available : Bytes)
  | write (results : List WritevResult)
  | processRead (slot : ℕ) (disk : Disk)
  | respond (slot : ℕ) (code : HttpCode)

namespace Program

/-- No connection yet. -/
def initial (clock : ℕ) (registry : Registry) : Program where
  server := .initial clock
  users _ := .blank
  registry := registry
  answered := []
  mappings := .empty
  misused := []
  unfinished _ := false

/-- The file tree of a call of `do_request`: a successful `mmap` makes the next mapping; there is none of
length zero. -/
def tree (program : Program) (disk : Disk) : FileTree where
  stat := disk.stat
  mmap path :=
    if disk.opens ∧ (disk.stat path).any (·.size ≠ 0) then .mapped program.mappings.next else .failed

/-- The call of `munmap` in `unmap()`, which is made for any address but null. -/
def munmap (program : Program) (conn : HttpConn) : Program :=
  if conn.fileAddress = .null then program
  else
    match conn.mapping.bind program.mappings.release with
    | some mappings => { program with mappings }
    | none => { program with misused := program.misused ++ [(conn.fileAddress, conn.fileStat.size)] }

/-- The object of a slot after an action. -/
def setUser (program : Program) (slot : ℕ) (conn : HttpConn) : Program :=
  { program with users := Function.update program.users slot conn }

@[simp] theorem setUser_self (program : Program) (slot : ℕ) (conn : HttpConn) :
    (program.setUser slot conn).users slot = conn := Function.update_self ..

theorem setUser_of_ne (program : Program) {slot other : ℕ} (differ : other ≠ slot) (conn : HttpConn) :
    (program.setUser slot conn).users other = program.users other := Function.update_of_ne differ ..

/-- Note whether a response is due or on its way. -/
def setUnfinished (program : Program) (slot : ℕ) (unfinished : Bool) : Program :=
  { program with unfinished := Function.update program.unfinished slot unfinished }

theorem setUnfinished_of_ne (program : Program) {slot other : ℕ} (differ : other ≠ slot) (unfinished : Bool) :
    (program.setUnfinished slot unfinished).unfinished other = program.unfinished other :=
  Function.update_of_ne differ ..

/-- The mappings after a call of `process_read`: `mmap` has made one if `do_request` has come that far and it
has not failed. -/
def afterMmap (program : Program) (code : HttpCode) (conn : HttpConn) : Ledger ℕ :=
  if code = .fileRequest ∧ conn.fileAddress ≠ .failed then program.mappings.acquire conn.fileStat.size
  else program.mappings

/-- A call of `write` on the object of a slot. -/
def writeUser (program : Program) (fd : ℕ) (results : List WritevResult) : Option Program :=
  let conn := program.users fd
  if conn.bytesToSend = 0 then
    if results = [] then
      (program.server.step (.write (some .input))).map fun server =>
        ({ program with server }.setUser fd conn.init).setUnfinished fd false
    else none
  else do
    let (ended, after) ← conn.writeLoop results
    let server ← program.server.step (.write ended.registers)
    if ended = .again then some ({ program with server }.setUser fd after)
    else some ((({ program with server }.munmap conn).setUser fd after).setUnfinished fd false)

/-- One action. -/
def step (program : Program) : ProgramEvent → Option Program
  | .server event =>
      if event.sparesUsers then
        (program.server.step event).map fun server => { program with server }
      else none
  | .accept fd =>
      (program.server.step (.accept fd)).map fun server =>
        if (maxFd : ℤ) ≤ program.server.userCount then { program with server }
        else ({ program with server }.setUser fd ((program.users fd).accept fd)).setUnfinished fd false
  | .read available =>
      match program.server.batch with
      | .client fd .readable :: _ =>
          let (received, conn) := (program.users fd).readOnce available
          (program.server.step (.read received)).map fun server => { program with server }.setUser fd conn
      | _ => none
  | .write results =>
      match program.server.batch with
      | .client fd .writable :: _ => program.writeUser fd results
      | _ => none
  | .processRead slot disk =>
      if program.answered.countP (·.1 = slot) < program.server.held.count (slot, .processing) then do
        let read ← (program.users slot).processRead
        let (code, conn, registry) ←
          HttpConn.answerRead (program.tree disk) disk.query program.registry read
        some { program with
          users := Function.update program.users slot conn
          registry
          answered := (slot, code) :: program.answered
          mappings := program.afterMmap code conn
          unfinished := Function.update program.unfinished slot
            (program.unfinished slot || code ≠ .noRequest) }
      else none
  | .respond slot code =>
      if (slot, code) ∈ program.answered then
        let done := (program.users slot).respond program.registry code
        (program.server.step (done.event slot)).map fun server =>
          { program with server, answered := program.answered.erase (slot, code) }.setUser slot done.conn
      else none

end Program

end WebServ.Http
