import WebServ.Soundness.Exchange
import WebServ.Soundness.Mappings
import WebServ.Soundness.Registration
import Mathlib.Data.List.Count

/-! # The server and its clients

The whole server with what is on the way to it and what has come out of it. A client is connected through a
descriptor; its pieces come out of the socket one for each `recv`, what `writev` takes of the iovecs reaches
it, and a mapping shows the file it was made of. The files do not change. Who connects and what is sent, what
`writev` takes, whether a file can be opened, and what the database answers are choices of the environment, as
is the order in which the main loop and the workers act.
-/

namespace WebServ.Http

open WebServ.Text WebServ.Machine

/-- The files: what `stat` tells of a path, and what stands there. -/
structure Files where
  stat : Bytes → Option FileStat
  file : Bytes → Bytes
  size : ∀ path fileStat, stat path = some fileStat → (file path).length = fileStat.size

/-- The files as far as `stat` goes. -/
def Files.tree (files : Files) : FileTree where
  stat := files.stat
  mmap _ := .failed

namespace HttpConn

/-- A condition on each `writev` of a call of `write`. -/
def EachPass (condition : HttpConn → WritevResult → Prop) : HttpConn → List WritevResult → Prop :=
  Guarded (fun conn result => some (conn.writePass result).2) condition

instance (condition : HttpConn → WritevResult → Prop) [∀ conn result, Decidable (condition conn result)]
    (conn : HttpConn) (results : List WritevResult) : Decidable (EachPass condition conn results) :=
  inferInstanceAs (Decidable (Guarded _ _ _ _))

/-- The bytes that a call of `write` sends. -/
def sends (content : FileAddress → ℤ → UInt8) : HttpConn → List WritevResult → Bytes
  | _, [] => []
  | conn, result :: rest => conn.taken content result ++ sends content (conn.writePass result).2 rest

end HttpConn

/-- The server, the memory its mappings show, and for each descriptor the pieces its client will send and
the bytes its client has received. -/
structure Network where
  program : Program
  memory : FileAddress → ℤ → UInt8
  incoming : ℕ → List Bytes
  received : ℕ → Bytes

/-- The label of a step. -/
inductive NetworkEvent where
  | server (event : Event)
  | accept (fd : ℕ) (pieces : List Bytes)
  | read
  | write (results : List WritevResult)
  | processRead (slot : ℕ) (query : Bytes → ℤ) (opens : Bool)
  | respond (slot : ℕ) (code : HttpCode)

/-- A new mapping shows a file; behind its end and elsewhere the memory stays what it is. -/
def mapFile (memory : FileAddress → ℤ → UInt8) (number : ℕ) (bytes : Bytes) : FileAddress → ℤ → UInt8 :=
  fun address offset =>
    if address = .mapped number ∧ 0 ≤ offset then bytes[offset.toNat]?.getD (memory address offset)
    else memory address offset

namespace Network

/-- No client yet. -/
def initial (clock : ℕ) (registry : Registry) (memory : FileAddress → ℤ → UInt8) : Network where
  program := .initial clock registry
  memory := memory
  incoming _ := []
  received _ := []

/-- The piece that a `recv` from a descriptor finds; none at the end of what the client sends. -/
def piece (network : Network) (fd : ℕ) : Bytes := (network.incoming fd).headD []

/-- The action of the server. -/
def action (files : Files) (network : Network) : NetworkEvent → ProgramEvent
  | .server event => .server event
  | .accept fd _ => .accept fd
  | .read => .read (network.program.server.front.flatMap network.piece)
  | .write results => .write results
  | .processRead slot query opens => .processRead slot ⟨files.stat, query, opens⟩
  | .respond slot code => .respond slot code

/-- What `writev` returns is what the operating system may give. -/
def Admits (network : Network) : NetworkEvent → Prop
  | .write results => ∀ fd ∈ network.program.server.front,
      HttpConn.EachPass HttpConn.Admits (network.program.users fd) results
  | _ => True

instance (network : Network) (event : NetworkEvent) : Decidable (network.Admits event) :=
  match event with
  | .write _ => inferInstanceAs (Decidable (∀ _ ∈ _, _))
  | .server _ | .accept _ _ | .read | .processRead _ _ _ | .respond _ _ => isTrue trivial

/-- The pieces that are left when a piece has been read. -/
def unread (network : Network) (fd : ℕ) : List Bytes :=
  let room := readBufferSize - (network.program.users fd).readIdx
  (if room < (network.piece fd).length then [(network.piece fd).drop room] else []) ++
    (network.incoming fd).tail

/-- The memory behind a call of `process_read`, which has made a mapping if its number has been used. -/
def memoryAfter (files : Files) (network : Network) (slot : ℕ) (program : Program) : FileAddress → ℤ → UInt8 :=
  if program.mappings.next = network.program.mappings.next then network.memory
  else
    match (program.users slot).realFile.cstr 0 with
    | some path => mapFile network.memory network.program.mappings.next (files.file path)
    | none => network.memory

/-- The network behind an action of the server. -/
def after (files : Files) (network : Network) (program : Program) : NetworkEvent → Network
  | .accept fd pieces =>
      if (maxFd : ℤ) ≤ network.program.server.userCount then { network with program }
      else { network with
        program
        incoming := Function.update network.incoming fd pieces
        received := Function.update network.received fd [] }
  | .read =>
      match network.program.server.front with
      | [fd] => { network with program, incoming := Function.update network.incoming fd (network.unread fd) }
      | _ => { network with program }
  | .write results =>
      match network.program.server.front with
      | [fd] => { network with
          program
          received := Function.update network.received fd
            (network.received fd ++ (network.program.users fd).sends network.memory results) }
      | _ => { network with program }
  | .processRead slot _ _ => { network with program, memory := network.memoryAfter files slot program }
  | .server _ => { network with program }
  | .respond _ _ => { network with program }

/-- One action. -/
def step (files : Files) (network : Network) (event : NetworkEvent) : Option Network :=
  if network.Admits event then
    (network.program.step (network.action files event)).map fun program => network.after files program event
  else none

end Network

/-! ## The main loop and the workers in every state -/

namespace Program

/-- The action is no `close_conn` of a worker, and no tick that expires a connection that is queued or held. -/
def SparesBusy (program : Program) : ProgramEvent → Prop
  | .server event => program.server.SparesBusy event
  | .respond slot code =>
      program.server.SparesBusy (((program.users slot).respond program.registry code).event slot)
  | _ => True

instance (program : Program) (event : ProgramEvent) : Decidable (program.SparesBusy event) :=
  match event with
  | .server event => inferInstanceAs (Decidable (program.server.SparesBusy event))
  | .respond slot code => inferInstanceAs (Decidable
      (program.server.SparesBusy (((program.users slot).respond program.registry code).event slot)))
  | .accept _ | .read _ | .write _ | .processRead _ _ => isTrue trivial

/-- The main loop and the workers do not share an object, and each result of `process_read` belongs to a
worker that has not gone on. -/
structure Steady (program : Program) : Prop where
  consistent : program.server.Consistent
  exclusive : program.server.Exclusive
  answered : ∀ slot, program.answered.countP (·.1 = slot) ≤ program.server.held.count (slot, .processing)

theorem steady_initial (clock : ℕ) (registry : Registry) : Steady (initial clock registry) where
  consistent := Server.consistent_initial clock
  exclusive := Server.exclusive_initial clock
  answered _ := Nat.le_refl _

variable {program next : Program}

/-- `munmap` touches the mappings alone, and uses no number. -/
theorem munmap_same (program : Program) (conn : HttpConn) :
    (program.munmap conn).users = program.users ∧ (program.munmap conn).answered = program.answered ∧
      (program.munmap conn).mappings.next = program.mappings.next := by
  rw [Program.munmap]
  split_ifs
  · exact ⟨rfl, rfl, rfl⟩
  · split
    · next mappings released =>
      refine ⟨rfl, rfl, ?_⟩
      obtain ⟨entry, _, released⟩ := Option.bind_eq_some_iff.mp released
      rw [Ledger.release] at released
      split_ifs at released
      cases released
      rfl
    · exact ⟨rfl, rfl, rfl⟩

/-- A call of `write` is the main loop's action on the front of the batch. -/
theorem writeUser_eq_some {fd : ℕ} {results : List WritevResult}
    (taken : program.writeUser fd results = some next) :
    ∃ kept conn, program.server.step (.write kept) = some next.server ∧
      next.users = Function.update program.users fd conn ∧ next.answered = program.answered ∧
      next.mappings.next = program.mappings.next ∧
      ((program.users fd).bytesToSend ≠ 0 →
        ∃ ended, (program.users fd).writeLoop results = some (ended, conn) ∧ kept = ended.registers) := by
  rw [writeUser] at taken
  by_cases nothing : (program.users fd).bytesToSend = 0
  · simp only [if_pos nothing] at taken
    split_ifs at taken
    obtain ⟨server, stepped, rfl⟩ := Option.map_eq_some_iff.mp taken
    exact ⟨some .input, _, stepped, rfl, rfl, rfl, fun other => absurd nothing other⟩
  · simp only [if_neg nothing, bind, Option.bind_eq_some_iff] at taken
    obtain ⟨⟨ended, after⟩, sent, server, stepped, taken⟩ := taken
    dsimp only at taken
    split_ifs at taken with again
    · cases taken
      exact ⟨_, after, stepped, rfl, rfl, rfl, fun _ => ⟨ended, sent, rfl⟩⟩
    · cases taken
      obtain ⟨users, answered, made⟩ := munmap_same { program with server } (program.users fd)
      refine ⟨_, after, ?_, ?_, answered, made, fun _ => ⟨ended, sent, rfl⟩⟩
      · simpa [setUnfinished, setUser] using stepped
      · rw [setUnfinished, setUser, users]

/-- What each action does to the objects, with the action of the server behind it. -/
inductive Moves (program next : Program) : ProgramEvent → Prop where
  | server {event : Event} (spares : event.sparesUsers = true)
      (stepped : program.server.step event = some next.server)
      (same : next = { program with server := next.server }) : Moves program next (.server event)
  | accept {fd : ℕ} (stepped : program.server.step (.accept fd) = some next.server)
      (others : ∀ other, other ≠ fd → next.users other = program.users other)
      (own : program.server.userCount < maxFd → next.users fd = (program.users fd).accept fd)
      (answered : next.answered = program.answered) (made : next.mappings = program.mappings) :
      Moves program next (.accept fd)
  | read {available : Bytes} (fd : ℕ) (front : program.server.front = [fd])
      (stepped : program.server.step (.read ((program.users fd).readOnce available).1) = some next.server)
      (users : next.users = Function.update program.users fd ((program.users fd).readOnce available).2)
      (answered : next.answered = program.answered) (made : next.mappings = program.mappings) :
      Moves program next (.read available)
  | write {results : List WritevResult} (fd : ℕ) (kept : Option Interest) (conn : HttpConn)
      (front : program.server.front = [fd]) (stepped : program.server.step (.write kept) = some next.server)
      (users : next.users = Function.update program.users fd conn)
      (answered : next.answered = program.answered) (made : next.mappings.next = program.mappings.next)
      (sent : (program.users fd).bytesToSend ≠ 0 →
        ∃ ended, (program.users fd).writeLoop results = some (ended, conn) ∧ kept = ended.registers) :
      Moves program next (.write results)
  | processRead {slot : ℕ} {disk : Disk} (read : ReadResult × HttpConn) (code : HttpCode) (conn : HttpConn)
      (holds : program.answered.countP (·.1 = slot) < program.server.held.count (slot, .processing))
      (ran : (program.users slot).processRead = some read)
      (answer : HttpConn.answerRead (program.tree disk) disk.query program.registry read =
        some (code, conn, next.registry))
      (server : next.server = program.server)
      (users : next.users = Function.update program.users slot conn)
      (answered : next.answered = (slot, code) :: program.answered)
      (made : next.mappings = program.afterMmap code conn) : Moves program next (.processRead slot disk)
  | respond {slot : ℕ} {code : HttpCode} (due : (slot, code) ∈ program.answered)
      (stepped : program.server.step (((program.users slot).respond program.registry code).event slot) =
        some next.server)
      (users : next.users =
        Function.update program.users slot ((program.users slot).respond program.registry code).conn)
      (answered : next.answered = program.answered.erase (slot, code))
      (made : next.mappings = program.mappings) : Moves program next (.respond slot code)

theorem moves_of_step {event : ProgramEvent} (taken : program.step event = some next) :
    Moves program next event := by
  cases event with
  | server event =>
    rw [Program.step] at taken
    split_ifs at taken with spares
    obtain ⟨server, stepped, rfl⟩ := Option.map_eq_some_iff.mp taken
    exact .server spares stepped rfl
  | accept fd =>
    obtain ⟨server, stepped, rfl⟩ := Option.map_eq_some_iff.mp taken
    split_ifs with full
    · exact .accept stepped (fun _ _ => rfl) (fun room => absurd room (not_lt.mpr full)) rfl rfl
    · exact .accept stepped (fun _ differ => setUser_of_ne _ differ _) (fun _ => setUser_self ..) rfl rfl
  | read available =>
    rw [Program.step] at taken
    split at taken
    · next fd rest batch =>
      obtain ⟨server, stepped, rfl⟩ := Option.map_eq_some_iff.mp taken
      exact .read fd (Server.front_of_batch batch) stepped rfl rfl rfl
    · cases taken
  | write results =>
    rw [Program.step] at taken
    split at taken
    · next fd rest batch =>
      obtain ⟨kept, conn, stepped, users, answered, made, sent⟩ := writeUser_eq_some taken
      exact .write fd kept conn (Server.front_of_batch batch) stepped users answered made sent
    · cases taken
  | processRead slot disk =>
    rw [Program.step] at taken
    split_ifs at taken with holds
    simp only [bind, Option.bind_eq_some_iff] at taken
    obtain ⟨read, ran, ⟨code, conn, registry⟩, answer, taken⟩ := taken
    cases taken
    exact .processRead read code conn holds ran answer rfl rfl rfl rfl
  | respond slot code =>
    rw [Program.step] at taken
    split_ifs at taken with due
    obtain ⟨server, stepped, rfl⟩ := Option.map_eq_some_iff.mp taken
    exact .respond due stepped rfl rfl rfl

/-- No number of a mapping is used again. -/
theorem Moves.next_le {event : ProgramEvent} (moves : Moves program next event) :
    program.mappings.next ≤ next.mappings.next := by
  cases moves with
  | server _ _ same => rw [same]
  | accept _ _ _ _ made => rw [made]
  | read _ _ _ _ _ made => rw [made]
  | write _ _ _ _ _ _ _ made => rw [made]
  | processRead _ code conn _ _ _ _ _ _ made =>
    rw [made, afterMmap]
    split_ifs
    · exact Nat.le_succ _
    · exact Nat.le_refl _
  | respond _ _ _ _ made => rw [made]

/-- The action of the server that a step of the program takes, if any, spares the busy connections. -/
theorem Moves.server_step {event : ProgramEvent} (moves : Moves program next event)
    (spares : program.SparesBusy event) : next.server = program.server ∨
      ∃ action, program.server.step action = some next.server ∧ program.server.SparesBusy action := by
  cases moves with
  | server _ stepped _ => exact Or.inr ⟨_, stepped, spares⟩
  | accept stepped => exact Or.inr ⟨_, stepped, rfl, by simp⟩
  | read _ _ stepped => exact Or.inr ⟨_, stepped, rfl, by simp⟩
  | write _ _ _ _ stepped => exact Or.inr ⟨_, stepped, rfl, by simp⟩
  | processRead _ _ _ _ _ _ server => exact Or.inl server
  | respond _ stepped => exact Or.inr ⟨_, stepped, spares⟩

/-- A worker takes an object, gives its own back, or neither. -/
inductive HeldBy (server after : Server) : Event → Prop where
  | same {action : Event} (held : after.held = server.held) (other : ∀ slot interest, action ≠ .finish slot interest) :
      HeldBy server after action
  | take (slot : ℕ) (held : after.held = (slot, .processing) :: server.held) : HeldBy server after .take
  | finish (slot : ℕ) (interest : Interest) (holds : (slot, .processing) ∈ server.held)
      (held : after.held = server.held.erase (slot, .processing)) : HeldBy server after (.finish slot interest)

theorem heldBy_of_step {server after : Server} {action : Event} (exclusive : server.Exclusive)
    (spares : server.SparesBusy action) (stepped : server.step action = some after) :
    HeldBy server after action := by
  cases Server.taken_of_step stepped with
  | advance | epollWait | acceptFails | signals => exact .same rfl (by simp)
  | accept _ _ accepted =>
    rw [Server.acceptConn] at accepted
    split_ifs at accepted <;> cases accepted <;> exact .same rfl (by simp)
  | close _ event_eq _ closed =>
    obtain ⟨timers, rfl⟩ := Server.closeByTimer_eq_some closed
    refine .same rfl fun slot interest finish => ?_
    rw [finish] at event_eq
    simp at event_eq
  | @read fd _ rest _ _ _ postponed =>
    obtain ⟨timers, rfl⟩ := Server.postponeTimer_eq_some postponed
    obtain ⟨workqueue, same⟩ := Server.append_eq { server with batch := rest } fd
    exact .same (by rw [same]; rfl) (by simp)
  | write _ _ postponed | writeClosed _ _ postponed =>
    obtain ⟨timers, rfl⟩ := Server.postponeTimer_eq_some postponed
    exact .same rfl (by simp)
  | endBatch handled => exact .same (Server.endBatch_frame stepped).2.2.2.2 (by simp)
  | take slot rest queued => exact .take slot rfl
  | finish slot holds => exact .finish slot _ holds rfl
  | closeConn => cases spares.1
  | finishClosed holds => cases exclusive.processing _ holds

/-- A worker that does not call `close_conn` ends `process` with `modfd`. -/
theorem event_of_spares {server : Server} {done : Processed} {slot : ℕ}
    (spares : server.SparesBusy (done.event slot)) :
    done.written ≠ some false ∧ done.event slot = .finish slot done.interest := by
  have other : done.written ≠ some false := by
    intro failed
    have closes := spares.1
    rw [Processed.event, if_pos failed] at closes
    cases closes
  exact ⟨other, if_neg other⟩

theorem Steady.step {event : ProgramEvent} (steady : Steady program) (moves : Moves program next event)
    (spares : program.SparesBusy event) : Steady next := by
  obtain ⟨consistent, exclusive⟩ : next.server.Consistent ∧ next.server.Exclusive := by
    rcases moves.server_step spares with same | ⟨action, stepped, spared⟩
    · rw [same]
      exact ⟨steady.consistent, steady.exclusive⟩
    · exact ⟨steady.consistent.step spared.1 stepped, steady.exclusive.step steady.consistent spared stepped⟩
  refine ⟨consistent, exclusive, fun slot => ?_⟩
  have before := steady.answered slot
  -- an action that is not the end of `process`
  have keeps : ∀ {action}, program.server.step action = some next.server → program.server.SparesBusy action →
      (∀ slot interest, action ≠ .finish slot interest) → next.answered = program.answered →
        next.answered.countP (·.1 = slot) ≤ next.server.held.count (slot, .processing) := by
    intro action stepped spared other answered
    rw [answered]
    apply before.trans
    cases heldBy_of_step steady.exclusive spared stepped with
    | same held => rw [held]
    | take taken held =>
      rw [held]
      exact List.count_le_count_cons
    | finish slot interest => exact absurd rfl (other slot interest)
  cases moves with
  | server spared stepped same =>
    apply keeps stepped spares
    · rintro slot interest rfl
      cases spared
    · rw [same]
  | accept stepped _ _ answered => exact keeps stepped ⟨rfl, by simp⟩ (by simp) answered
  | read _ _ stepped _ answered => exact keeps stepped ⟨rfl, by simp⟩ (by simp) answered
  | write _ _ _ _ stepped _ answered => exact keeps stepped ⟨rfl, by simp⟩ (by simp) answered
  | processRead _ _ _ holds _ _ server _ answered =>
    rw [server, answered, List.countP_cons]
    split_ifs with same
    · obtain rfl := of_decide_eq_true same
      exact holds
    · exact before
  | @respond other code due stepped _ answered _ =>
    obtain ⟨-, isFinish⟩ := event_of_spares spares
    rw [SparesBusy, isFinish] at spares
    rw [isFinish] at stepped
    cases heldBy_of_step steady.exclusive spares stepped with
    | same _ never => exact absurd rfl (never _ _)
    | finish _ _ holds held =>
      rw [answered, held, List.countP_erase, List.count_erase]
      by_cases same : slot = other
      · subst same
        simp only [due, decide_true, and_self, ↓reduceIte, BEq.rfl]
        exact Nat.sub_le_sub_right before 1
      · simp only [Ne.symm same, decide_false, Bool.false_eq_true, and_false, ↓reduceIte, Nat.sub_zero,
          beq_iff_eq, Prod.mk.injEq, and_true]
        exact before

end Program

end WebServ.Http
