import WebServ.Soundness.Network

/-! # Every client of the server

The objects of a concurrent server are never in two hands, so each connection goes through the states of a
session of its own, whatever the other connections, the workers and the timers do in between. What a client
receives from the whole server is therefore what it would receive if it were alone.
-/

namespace WebServ.Http

open WebServ.Text WebServ.Machine

namespace Network

variable {files : Files} {network next : Network} {fd : ℕ}

/-! ## What a step does to one connection -/

/-- A mapping at this address has been made already, if the address is that of a mapping. -/
def Made (network : Network) (address : FileAddress) : Prop :=
  ∀ number, address = .mapped number → number < network.program.mappings.next

/-- The results of `process_read` for a connection that have not been answered. -/
def codes (network : Network) (fd : ℕ) : List (ℕ × HttpCode) := network.program.answered.filter (·.1 = fd)

/-- The step leaves the connection alone. -/
structure Aside (fd : ℕ) (network next : Network) : Prop where
  users : next.program.users fd = network.program.users fd
  incoming : next.incoming fd = network.incoming fd
  received : next.received fd = network.received fd
  codes : next.codes fd = network.codes fd
  memory : ∀ address, network.Made address → next.memory address = network.memory address
  made : ∀ address, network.Made address → next.Made address
  server : Server.Aside network.program.server next.program.server fd

/-- What each step does to one connection. -/
inductive Moves (files : Files) (fd : ℕ) (network next : Network) : NetworkEvent → Prop where
  | aside {event : NetworkEvent} (aside : Aside fd network next) : Moves files fd network next event
  | read (front : network.program.server.front = [fd])
      (stepped : network.program.server.step (.read ((network.program.users fd).readOnce (network.piece fd)).1) =
        some next.program.server)
      (users : next.program.users fd = ((network.program.users fd).readOnce (network.piece fd)).2)
      (incoming : next.incoming fd = network.unread fd) (received : next.received fd = network.received fd)
      (codes : next.codes fd = network.codes fd) (memory : next.memory = network.memory) :
      Moves files fd network next .read
  | write {results : List WritevResult} (kept : Option Interest) (front : network.program.server.front = [fd])
      (admits : HttpConn.EachPass HttpConn.Admits (network.program.users fd) results)
      (stepped : network.program.server.step (.write kept) = some next.program.server)
      (sent : (network.program.users fd).bytesToSend ≠ 0 → ∃ ended,
        (network.program.users fd).writeLoop results = some (ended, next.program.users fd) ∧ kept = ended.registers)
      (incoming : next.incoming fd = network.incoming fd)
      (received : next.received fd =
        network.received fd ++ (network.program.users fd).sends network.memory results)
      (memory : next.memory = network.memory)
      (made : next.program.mappings.next = network.program.mappings.next) :
      Moves files fd network next (.write results)
  | processRead {query : Bytes → ℤ} {opens : Bool} (read : ReadResult × HttpConn) (code : HttpCode)
      (holds : (network.codes fd).length < network.program.server.held.count (fd, .processing))
      (ran : (network.program.users fd).processRead = some read)
      (answer : HttpConn.answerRead (network.program.tree ⟨files.stat, query, opens⟩) query
        network.program.registry read = some (code, next.program.users fd, next.program.registry))
      (server : next.program.server = network.program.server)
      (incoming : next.incoming fd = network.incoming fd) (received : next.received fd = network.received fd)
      (codes : next.codes fd = (fd, code) :: network.codes fd)
      (memory : next.memory = network.memoryAfter files fd next.program)
      (made : next.program.mappings = network.program.afterMmap code (next.program.users fd)) :
      Moves files fd network next (.processRead fd query opens)
  | respond {code : HttpCode} (due : (fd, code) ∈ network.codes fd)
      (stepped : network.program.server.step
        (((network.program.users fd).respond network.program.registry code).event fd) =
          some next.program.server)
      (users : next.program.users fd =
        ((network.program.users fd).respond network.program.registry code).conn)
      (incoming : next.incoming fd = network.incoming fd) (received : next.received fd = network.received fd)
      (memory : next.memory = network.memory)
      (made : next.program.mappings = network.program.mappings) :
      Moves files fd network next (.respond fd code)

/-- The step spares the busy connections. -/
def SparesBusy (files : Files) (network : Network) (event : NetworkEvent) : Prop :=
  network.program.SparesBusy (network.action files event)

instance (files : Files) (network : Network) (event : NetworkEvent) :
    Decidable (network.SparesBusy files event) :=
  inferInstanceAs (Decidable (network.program.SparesBusy _))

theorem step_eq_some {event : NetworkEvent} (taken : network.step files event = some next) :
    network.Admits event ∧ ∃ program, next = network.after files program event ∧
      network.program.Moves program (network.action files event) := by
  rw [step] at taken
  split_ifs at taken with admitted
  obtain ⟨program, stepped, rfl⟩ := Option.map_eq_some_iff.mp taken
  exact ⟨admitted, program, rfl, Program.moves_of_step stepped⟩

/-- The program goes its own way. -/
theorem after_program (files : Files) (network : Network) (program : Program) (event : NetworkEvent) :
    (network.after files program event).program = program := by
  cases event with
  | accept =>
    rw [after]
    split_ifs <;> rfl
  | read | write =>
    rw [after]
    split <;> rfl
  | server | processRead | respond => rfl

/-- A mapping that is made later does not change an earlier one. -/
theorem mapFile_of_made {address : FileAddress} (made : network.Made address) (bytes : Bytes) :
    mapFile network.memory network.program.mappings.next bytes address = network.memory address := by
  funext offset
  rw [mapFile]
  apply if_neg
  rintro ⟨same, -⟩
  exact Nat.lt_irrefl _ (made _ same)

theorem memoryAfter_of_made {address : FileAddress} (made : network.Made address) (slot : ℕ) (program : Program) :
    network.memoryAfter files slot program address = network.memory address := by
  rw [memoryAfter]
  split_ifs
  · rfl
  · cases (program.users slot).realFile.cstr 0 with
    | none => rfl
    | some path => exact mapFile_of_made made _

/-- The main loop takes up another connection. -/
theorem leaves_of_front {server : Server} {number : ℕ} (front : server.front = [number]) (differ : number ≠ fd) :
    (∀ received, server.Leaves fd (.read received)) ∧ ∀ kept, server.Leaves fd (.write kept) := by
  have other : server.front ≠ [fd] := fun same => differ (List.singleton_inj.mp (front.symm.trans same))
  refine ⟨fun received => ?_, fun kept => ?_⟩
  · cases received with
    | true => exact other
    | false => trivial
  · cases kept with
    | some _ => exact other
    | none => trivial

theorem moves_of_step {event : NetworkEvent} (steady : network.program.Steady)
    (spares : network.SparesBusy files event) (other : ∀ pieces, event ≠ .accept fd pieces)
    (taken : network.step files event = some next) : Moves files fd network next event := by
  obtain ⟨admitted, program, rfl, moves⟩ := step_eq_some taken
  have le := moves.next_le
  have grows : ∀ address, network.Made address → (network.after files program event).Made address := by
    intro address made number same
    rw [after_program]
    exact (made number same).trans_le le
  cases event with
  | server event =>
    cases moves with
    | server spared stepped same =>
      refine .aside ⟨by rw [same]; rfl, rfl, rfl, by rw [same]; rfl, fun _ _ => rfl, grows, ?_⟩
      apply Server.aside_of_step steady.consistent steady.exclusive spares _ stepped
      cases event <;> trivial
  | accept number pieces =>
    have differ : fd ≠ number := by
      rintro rfl
      exact other pieces rfl
    cases moves with
    | accept stepped others _ answered made =>
      refine .aside ⟨?_, ?_, ?_, ?_, ?_, grows, ?_⟩
      · rw [after_program]
        exact others fd differ
      · rw [after]
        split_ifs
        · rfl
        · exact Function.update_of_ne differ ..
      · rw [after]
        split_ifs
        · rfl
        · exact Function.update_of_ne differ ..
      · rw [codes, after_program, answered]
        rfl
      · intro _ _
        rw [after]
        split_ifs <;> rfl
      · rw [after_program]
        refine Server.aside_of_step steady.consistent steady.exclusive ⟨rfl, by simp⟩ ?_ stepped
        exact Ne.symm differ
  | read =>
    cases moves with
    | read number front stepped users answered made =>
      rw [front, List.flatMap_singleton] at stepped users
      simp only [after, front] at grows ⊢
      by_cases same : number = fd
      · subst same
        exact .read front stepped (by rw [users, Function.update_self]) (Function.update_self ..) rfl
          (by rw [codes, answered]; rfl) rfl
      · have differ := Ne.symm same
        refine .aside ⟨by rw [users, Function.update_of_ne differ], Function.update_of_ne differ .., rfl,
          by rw [codes, answered]; rfl, fun _ _ => rfl, grows, ?_⟩
        exact Server.aside_of_step steady.consistent steady.exclusive ⟨rfl, by simp⟩
          ((leaves_of_front front same).1 _) stepped
  | write results =>
    cases moves with
    | write number kept conn front stepped users answered made sent =>
      simp only [after, front] at grows ⊢
      by_cases same : number = fd
      · subst same
        refine .write kept front ?_ stepped ?_ rfl (Function.update_self ..) rfl made
        · exact admitted number (by rw [front]; exact List.mem_singleton_self number)
        · rw [users, Function.update_self]
          exact sent
      · have differ := Ne.symm same
        refine .aside ⟨by rw [users, Function.update_of_ne differ], rfl, Function.update_of_ne differ ..,
          by rw [codes, answered]; rfl, fun _ _ => rfl, grows, ?_⟩
        exact Server.aside_of_step steady.consistent steady.exclusive ⟨rfl, by simp⟩
          ((leaves_of_front front same).2 _) stepped
  | processRead slot query opens =>
    cases moves with
    | processRead read code conn holds ran answer server users answered made =>
      by_cases same : slot = fd
      · subst same
        have own : program.users slot = conn := by rw [users, Function.update_self]
        refine .processRead read code ?_ ran ?_ server rfl rfl ?_ rfl ?_
        · rw [codes, ← List.countP_eq_length_filter]
          exact holds
        · rw [after_program, own]
          exact answer
        · rw [codes, after_program, answered, List.filter_cons_of_pos (by simp)]
          rfl
        · rw [after_program, own]
          exact made
      · refine .aside ⟨?_, rfl, rfl, ?_, fun _ made => memoryAfter_of_made made _ _, grows, ?_⟩
        · rw [after_program, users, Function.update_of_ne (Ne.symm same)]
        · rw [codes, after_program, answered, List.filter_cons_of_neg (by simpa using same)]
          rfl
        · rw [after_program, server]
          exact ⟨id, id, id⟩
  | respond slot code =>
    cases moves with
    | respond due stepped users answered made =>
      by_cases same : slot = fd
      · subst same
        refine .respond ?_ stepped (by rw [after_program, users, Function.update_self]) rfl rfl rfl made
        exact List.mem_filter.mpr ⟨due, by simp⟩
      · obtain ⟨-, isFinish⟩ := Program.event_of_spares spares
        refine .aside ⟨?_, rfl, rfl, ?_, fun _ _ => rfl, grows, ?_⟩
        · rw [after_program, users, Function.update_of_ne (Ne.symm same)]
        · have absent : (slot, code) ∉ network.program.answered.filter (·.1 = fd) := by
            simp [same]
          rw [codes, after_program, answered, ← List.erase_filter, List.erase_of_not_mem absent]
          rfl
        · apply Server.aside_of_step steady.consistent steady.exclusive spares _ stepped
          rw [isFinish]
          exact same

end Network

/-! ## A session in other surroundings -/

/-- Only what `stat` tells of the files matters. -/
theorem KeepAlive.congr {tree other : FileTree} {bytes : Bytes} {request : Request} (same : other.stat = tree.stat)
    (asked : KeepAlive tree bytes request) : KeepAlive other bytes request :=
  ⟨asked.whole, asked.ends, asked.linger, asked.noUser, by rw [same]; exact asked.file⟩

/-- The files may be mapped elsewhere, and the users change. -/
theorem Session.InTurn.congr {tree other : FileTree} {requests : List Request} {session : Session}
    (same : other.stat = tree.stat) (inTurn : session.InTurn tree requests) (registry : Registry) :
    { session with registry }.InTurn other requests := by
  have cut : ∀ pieces request, Cut tree pieces request → Cut other pieces request :=
    fun pieces request cut => ⟨cut.nonempty, cut.fits, cut.asked.congr same⟩
  cases inTurn with
  | idle phase incoming logged => exact .idle phase incoming ⟨logged.served, logged.discarded⟩
  | receiving done next request seen pieces later all phase incoming left nonempty fits asked cuts received
      logged =>
    exact .receiving done next request seen pieces later all phase incoming left nonempty fits
      (asked.congr same) (cuts.imp cut) received ⟨logged.served, logged.discarded⟩
  | sending done next later all phase incoming cuts linger parsedAll logged =>
    exact .sending done next later all phase incoming (cuts.imp cut) linger parsedAll
      ⟨logged.served, logged.discarded⟩

/-- What `process` leaves of a session. -/
theorem Session.afterProcess_eq (session : Session) (done : Processed) :
    (session.afterProcess done).conn = done.conn ∧ (session.afterProcess done).incoming = session.incoming ∧
      (done.written = none ∧ (session.afterProcess done).phase = session.phase ∧
          (session.afterProcess done).served = session.served ∨
        ∃ kept, done.written = some kept ∧
          (session.afterProcess done).phase = (if kept then .writing else .closed) ∧
          (session.afterProcess done).served = session.served ++ [done]) := by
  rw [afterProcess]
  split
  · next none => exact ⟨rfl, rfl, Or.inl ⟨none, rfl, rfl⟩⟩
  · next kept some => exact ⟨rfl, rfl, Or.inr ⟨kept, some, rfl, rfl⟩⟩

/-- A response on its way is that of a file. -/
theorem Session.InTurn.code_of_pending {tree : FileTree} {requests : List Request} {session : Session}
    {earlier : List Processed} {done : Processed} (inTurn : session.InTurn tree requests)
    (phase : session.phase = .writing) (served : session.served = earlier ++ [done]) :
    done.code = .fileRequest := by
  obtain ⟨_, _, _, _, _, _, _, _, logged⟩ := inTurn.pending phase
  have answers := logged.served
  rw [served, List.map_append, List.map_singleton] at answers
  obtain ⟨_, _, _, _, same⟩ := List.map_eq_append_iff.mp answers.symm
  obtain ⟨_, _, _, isLast, _⟩ := List.map_eq_cons_iff.mp same
  exact (congrArg Prod.fst isLast).symm

namespace Exchange

variable {files : Files} {requests : List Request} {memory : FileAddress → ℤ → UInt8} {exchange next : Exchange}

/-- The session and the bytes received, at any time. -/
structure Follows (files : Files) (requests : List Request) (memory : FileAddress → ℤ → UInt8)
    (exchange : Exchange) : Prop where
  inTurn : exchange.session.InTurn files.tree requests
  delivered : exchange.Delivered files.file memory requests

/-- The memory may change where the response that is being sent does not lie. -/
theorem Follows.congr {other : FileAddress → ℤ → UInt8} (follows : exchange.Follows files requests memory)
    (same : exchange.session.phase = .writing →
      other exchange.session.conn.fileAddress = memory exchange.session.conn.fileAddress) :
    exchange.Follows files requests other := by
  refine ⟨follows.inTurn, ?_⟩
  cases follows.delivered with
  | between phase unsent received => exact .between phase unsent received
  | during phase done next request all answered fits sent rest more course described received =>
    refine .during phase done next request all answered fits sent rest more course ?_ received
    rw [← described]
    apply List.map_congr_left
    intro place member
    rcases List.mem_append.mp member with inHead | inFile
    · obtain ⟨index, _, rfl⟩ := List.mem_map.mp inHead
      rfl
    · obtain ⟨index, _, rfl⟩ := List.mem_map.mp inFile
      rw [Pointer.plus, Pointer.value, Pointer.value, same phase]

/-- The users may change. -/
theorem Delivered.congr {file : Bytes → Bytes} (delivered : exchange.Delivered file memory requests)
    (registry : Registry) :
    Delivered file memory requests ⟨{ exchange.session with registry }, exchange.received⟩ := by
  cases delivered with
  | between phase unsent received => exact .between phase unsent received
  | during phase done next request all answered fits sent rest more course described received =>
    exact .during phase done next request all answered fits sent rest more course described received

/-- A `writev` that does not fail. -/
theorem Follows.writev {result : WritevResult} (follows : exchange.Follows files requests memory)
    (phase : exchange.session.phase = .writing) (ok : result ≠ .error)
    (admitted : exchange.session.conn.Admits result) (once : exchange.session.conn.InterruptsOnce result) :
    Follows files requests memory ⟨exchange.session.afterWritev (exchange.session.conn.writePass result),
      exchange.received ++ exchange.session.conn.taken memory result⟩ := by
  obtain ⟨_, _, _, _, _, _, linger, _, _⟩ := follows.inTurn.pending phase
  exact ⟨follows.inTurn.writev phase ok, follows.delivered.writev phase linger ok admitted once rfl rfl⟩

/-- A call of `write`: the response is complete, or a part of it is left, or the call has failed. -/
theorem Follows.write {results : List WritevResult} {ended : WriteEnd} {conn : HttpConn}
    (follows : exchange.Follows files requests memory) (phase : exchange.session.phase = .writing)
    (admits : HttpConn.EachPass HttpConn.Admits exchange.session.conn results)
    (once : HttpConn.EachPass HttpConn.InterruptsOnce exchange.session.conn results)
    (ran : exchange.session.conn.writeLoop results = some (ended, conn)) :
    (ended = .failed ∧
        (Response.readAll (exchange.received ++ exchange.session.conn.sends memory results)).1 <+:
          requests.map (Request.due files.file)) ∨
      ∃ next : Exchange, next.Follows files requests memory ∧ next.session.conn = conn ∧
        next.session.incoming = exchange.session.incoming ∧
        next.received = exchange.received ++ exchange.session.conn.sends memory results ∧
        (ended = .again ∧ next.session.phase = .writing ∧
            conn.fileAddress = exchange.session.conn.fileAddress ∨
          ended = .kept ∧ next.session.phase = .reading) := by
  induction results generalizing exchange with
  | nil => cases ran
  | cons result rest ih =>
    obtain ⟨_, _, _, _, _, _, linger, _, _⟩ := follows.inTurn.pending phase
    by_cases failed : result = .error
    · subst failed
      have nothing : exchange.session.conn.sends memory [.error] = [] := rfl
      rw [HttpConn.writeLoop, HttpConn.writePass] at ran
      dsimp only at ran
      split_ifs at ran with single
      cases ran
      rw [single, nothing, List.append_nil]
      exact Or.inl ⟨rfl, follows.delivered.readAll.1⟩
    · have goesOn := follows.writev phase failed admits.1 once.1
      have admitted := admits.2 _ rfl
      have onceMore := once.2 _ rfl
      rw [HttpConn.writeLoop] at ran
      rw [HttpConn.sends]
      rcases HttpConn.writePass_kept linger failed with ⟨start, passed⟩ | ⟨after, passed | passed, _⟩
      · rw [passed] at goesOn ran ⊢
        dsimp only at ran
        split_ifs at ran with single
        cases ran
        subst single
        refine Or.inr ⟨_, goesOn, rfl, rfl, ?_, Or.inr ⟨rfl, rfl⟩⟩
        rw [HttpConn.sends, List.append_nil]
      · rw [passed] at goesOn ran admitted onceMore ⊢
        have unchanged : after.fileAddress = exchange.session.conn.fileAddress := by
          rcases HttpConn.writePass_file passed with ⟨address, _⟩ | ⟨_, _, ended, _⟩
          · exact address
          · cases ended
        rcases ih goesOn phase admitted onceMore ran with ⟨fails, told⟩ | ⟨next, rest⟩
        · refine Or.inl ⟨fails, ?_⟩
          rw [← List.append_assoc]
          exact told
        · refine Or.inr ⟨next, ?_⟩
          rw [← List.append_assoc, ← unchanged]
          exact rest
      · rw [passed] at goesOn ran ⊢
        dsimp only at ran
        split_ifs at ran with single
        cases ran
        subst single
        have unchanged : conn.fileAddress = exchange.session.conn.fileAddress := by
          rcases HttpConn.writePass_file passed with ⟨address, _⟩ | ⟨_, _, ended, other, _⟩
          · exact address
          · exact absurd (Option.some.inj ended).symm other
        refine Or.inr ⟨_, goesOn, rfl, rfl, ?_, Or.inl ⟨rfl, phase, unchanged⟩⟩
        rw [HttpConn.sends, List.append_nil]

end Exchange

/-! ## One connection of the server -/

namespace HttpConn

/-- The users are only passed on. -/
theorem respond_registry (conn : HttpConn) (first second : Registry) (code : HttpCode) :
    conn.respond first code = { conn.respond second code with registry := first } := by
  rw [respond, respond]
  split_ifs <;> rfl

/-- What `process` registers the connection for. -/
theorem respond_interest (conn : HttpConn) (registry : Registry) (code : HttpCode) :
    (conn.respond registry code).code = code ∧ (conn.respond registry code).interest =
      if (conn.respond registry code).written = none then .input else .output := by
  rw [respond]
  split_ifs <;> simp_all

/-- What is in the memory elsewhere does not matter to a response. -/
theorem Ready.congr {conn : HttpConn} {content other : FileAddress → ℤ → UInt8} {bytes : Bytes}
    (ready : conn.Ready content bytes) (same : other conn.fileAddress = content conn.fileAddress) :
    conn.Ready other bytes := by
  obtain ⟨made, written, unsent, length, shows⟩ := ready
  obtain ⟨_, _, address⟩ := processWrite_same written
  refine ⟨made, written, unsent, length, fun index bound => ?_⟩
  rw [← address, same, address]
  exact shows index bound

/-- The file of a response is the one that has been found. -/
theorem respond_file (conn : HttpConn) (registry : Registry) (code : HttpCode) :
    (conn.respond registry code).conn.fileAddress = conn.fileAddress ∧
      (conn.respond registry code).conn.realFile = conn.realFile := by
  obtain ⟨_, _, _, _, _, _, frame⟩ := conn.processWrite_frame code
  have address := congrArg HttpConn.fileAddress frame
  have realFile := congrArg HttpConn.realFile frame
  rw [respond]
  split_ifs
  · exact ⟨rfl, rfl⟩
  · dsimp only
    split_ifs <;> exact ⟨address, realFile⟩

end HttpConn

namespace Network

variable {files : Files} {requests : List Request} {fd : ℕ} {network next : Network}

/-- Where a connection stands, with the session it goes through: it waits for a piece, has received one, has
been through `process_read`, is being written to, or is closed. -/
inductive Serving (files : Files) (requests : List Request) (fd : ℕ) (network : Network) : Prop
  | reading (exchange : Exchange) (follows : exchange.Follows files requests network.memory)
      (received : network.received fd = exchange.received) (phase : exchange.session.phase = .reading)
      (conn : network.program.users fd = exchange.session.conn)
      (incoming : network.incoming fd = exchange.session.incoming)
      (expects : network.program.server.Expects fd (some .input)) (idle : fd ∉ network.program.server.busy)
  | read (exchange : Exchange) (follows : exchange.Follows files requests network.memory)
      (received : network.received fd = exchange.received) (phase : exchange.session.phase = .reading)
      (piece : Bytes) (rest : List Bytes) (queued : exchange.session.incoming = piece :: rest)
      (arrived : exchange.session.conn.readOnce piece = (true, network.program.users fd))
      (incoming : network.incoming fd = exchange.session.unread piece ++ rest)
      (expects : network.program.server.Expects fd none) (unanswered : network.codes fd = [])
  | processed (exchange : Exchange) (follows : exchange.Follows files requests network.memory)
      (received : network.received fd = exchange.received) (phase : exchange.session.phase = .reading)
      (piece : Bytes) (rest : List Bytes) (queued : exchange.session.incoming = piece :: rest)
      (arrived : (exchange.session.conn.readOnce piece).1 = true)
      (incoming : network.incoming fd = exchange.session.unread piece ++ rest)
      (expects : network.program.server.Expects fd none)
      (code : HttpCode) (only : network.codes fd = [(fd, code)])
      (tree : FileTree) (stat : tree.stat = files.stat) (query : Bytes → ℤ) (registry users : Registry)
      (ran : (exchange.session.conn.readOnce piece).2.process tree query registry =
        some ((network.program.users fd).respond users code))
      (made : code = .fileRequest → network.Made (network.program.users fd).fileAddress)
      (ready : code = .fileRequest → ∀ path,
        ((network.program.users fd).respond users code).conn.realFile.cstr 0 = some path →
        ((network.program.users fd).respond users code).conn.Built tree path →
        ((network.program.users fd).respond users code).conn.Ready network.memory (files.file path))
  | writing (exchange : Exchange) (follows : exchange.Follows files requests network.memory)
      (received : network.received fd = exchange.received) (phase : exchange.session.phase = .writing)
      (conn : network.program.users fd = exchange.session.conn)
      (incoming : network.incoming fd = exchange.session.incoming)
      (expects : network.program.server.Expects fd (some .output)) (idle : fd ∉ network.program.server.busy)
      (made : network.Made (network.program.users fd).fileAddress)
  | closed (told : (Response.readAll (network.received fd)).1 <+: requests.map (Request.due files.file))
      (notOpen : fd ∉ network.program.server.openFds)

/-- A step that leaves the connection alone. -/
theorem Serving.aside (serving : network.Serving files requests fd) (aside : Aside fd network next) :
    next.Serving files requests fd := by
  have idle : fd ∉ network.program.server.busy → fd ∉ next.program.server.busy :=
    fun idle isBusy => idle (aside.server.busy isBusy)
  cases serving with
  | reading exchange follows received phase conn incoming expects notBusy =>
    refine .reading exchange (follows.congr fun writing => ?_) (aside.received.trans received) phase
      (aside.users.trans conn) (aside.incoming.trans incoming) (aside.server.expects expects) (idle notBusy)
    rw [phase] at writing
    cases writing
  | read exchange follows received phase piece rest queued arrived incoming expects unanswered =>
    refine .read exchange (follows.congr fun writing => ?_) (aside.received.trans received) phase piece rest
      queued (aside.users ▸ arrived) (aside.incoming.trans incoming) (aside.server.expects expects)
      (aside.codes.trans unanswered)
    rw [phase] at writing
    cases writing
  | processed exchange follows received phase piece rest queued arrived incoming expects code only tree stat
      query registry users ran made ready =>
    refine .processed exchange (follows.congr fun writing => ?_) (aside.received.trans received) phase piece rest
      queued arrived (aside.incoming.trans incoming) (aside.server.expects expects) code
      (aside.codes.trans only) tree stat query registry users (aside.users ▸ ran) ?_ ?_
    · rw [phase] at writing
      cases writing
    · rw [aside.users]
      exact fun isFile => aside.made _ (made isFile)
    · rw [aside.users]
      intro isFile path found built
      apply (ready isFile path found built).congr
      rw [(HttpConn.respond_file ..).1]
      exact aside.memory _ (made isFile)
  | writing exchange follows received phase conn incoming expects notBusy made =>
    refine .writing exchange (follows.congr fun _ => ?_) (aside.received.trans received) phase
      (aside.users.trans conn) (aside.incoming.trans incoming) (aside.server.expects expects) (idle notBusy) ?_
    · rw [← conn]
      exact aside.memory _ made
    · rw [aside.users]
      exact aside.made _ made
  | closed told notOpen =>
    refine .closed ?_ fun isOpen => notOpen (aside.server.openFds isOpen)
    rw [aside.received]
    exact told

/-- No worker is in `process` with a connection that is not busy. -/
theorem codes_of_idle (steady : network.program.Steady) (idle : fd ∉ network.program.server.busy) :
    network.program.server.held.count (fd, .processing) = 0 ∧ network.codes fd = [] := by
  have none : network.program.server.held.count (fd, .processing) = 0 := by
    apply List.count_eq_zero.mpr
    intro member
    exact idle (List.mem_append_right _ (List.mem_map_of_mem member))
  have answered := steady.answered fd
  rw [none, List.countP_eq_length_filter] at answered
  exact ⟨none, List.length_eq_zero_iff.mp (Nat.le_zero.mp answered)⟩

/-- And at most one is with any other. -/
theorem held_count_le (steady : network.program.Steady) :
    network.program.server.held.count (fd, .processing) ≤ 1 := by
  have once := (List.nodup_append.mp steady.exclusive.once).2.1
  exact List.nodup_iff_count_le_one.mp (List.Nodup.of_map _ once) _

/-- A piece of the client is read. -/
theorem Serving.readOnce (serving : network.Serving files requests fd) (steady : network.program.Steady)
    (front : network.program.server.front = [fd])
    (stepped : network.program.server.step
      (.read ((network.program.users fd).readOnce (network.piece fd)).1) = some next.program.server)
    (users : next.program.users fd = ((network.program.users fd).readOnce (network.piece fd)).2)
    (incoming : next.incoming fd = network.unread fd) (received : next.received fd = network.received fd)
    (codes : next.codes fd = network.codes fd) (memory : next.memory = network.memory) :
    next.Serving files requests fd := by
  cases serving with
  | reading exchange follows same phase conn queue expects idle =>
    cases arrived : ((network.program.users fd).readOnce (network.piece fd)).1 with
    | false =>
      rw [arrived] at stepped
      refine .closed ?_ (Server.notMem_openFds_of_close front (Or.inl rfl) stepped)
      rw [received, same]
      exact follows.delivered.readAll.1
    | true =>
      rw [arrived] at stepped
      cases queued : exchange.session.incoming with
      | nil =>
        have nothing : network.piece fd = [] := by
          rw [piece, queue, queued]
          rfl
        simp [nothing, HttpConn.readOnce] at arrived
      | cons piece rest =>
        have isPiece : network.piece fd = piece := by
          rw [Network.piece, queue, queued]
          rfl
        rw [isPiece] at arrived users
        refine .read exchange (memory ▸ follows) (received.trans same) phase piece rest queued ?_ ?_
          (Server.expects_of_read steady.consistent steady.exclusive front stepped) ?_
        · rw [users, ← conn, ← arrived]
        · rw [incoming, unread, isPiece, queue, queued, conn, Session.unread]
          rfl
        · rw [codes]
          exact (codes_of_idle steady idle).2
  | read _ _ _ _ _ _ _ _ _ expects => cases expects.interest_of_read front stepped
  | processed _ _ _ _ _ _ _ _ _ expects => cases expects.interest_of_read front stepped
  | writing _ _ _ _ _ _ expects => cases expects.interest_of_read front stepped
  | closed _ notOpen => exact absurd (Server.isOpen_of_front steady.consistent front) notOpen

/-- A call of `write` for the client. -/
theorem Serving.write {results : List WritevResult} {kept : Option Interest}
    (serving : network.Serving files requests fd) (steady : network.program.Steady)
    (front : network.program.server.front = [fd])
    (admits : HttpConn.EachPass HttpConn.Admits (network.program.users fd) results)
    (once : HttpConn.EachPass HttpConn.InterruptsOnce (network.program.users fd) results)
    (stepped : network.program.server.step (.write kept) = some next.program.server)
    (sent : (network.program.users fd).bytesToSend ≠ 0 → ∃ ended,
      (network.program.users fd).writeLoop results = some (ended, next.program.users fd) ∧ kept = ended.registers)
    (incoming : next.incoming fd = network.incoming fd)
    (received : next.received fd = network.received fd ++ (network.program.users fd).sends network.memory results)
    (memory : next.memory = network.memory)
    (made : next.program.mappings.next = network.program.mappings.next) : next.Serving files requests fd := by
  cases serving with
  | writing exchange follows same phase conn queue expects idle mapped =>
    rw [conn] at admits once sent received
    rw [same] at received
    have pending : exchange.session.conn.bytesToSend ≠ 0 := by
      cases follows.delivered with
      | between other =>
        rw [phase] at other
        cases other
      | during _ _ _ _ _ _ _ _ rest more course =>
        rw [course.counted.bytesToSend]
        omega
    obtain ⟨ended, ran, rfl⟩ := sent pending
    rcases follows.write phase admits once ran with
      ⟨rfl, told⟩ | ⟨after, goesOn, isConn, left, told, ⟨rfl, still, address⟩ | ⟨rfl, done⟩⟩
    · refine .closed ?_ (Server.notMem_openFds_of_close front (Or.inr rfl) stepped)
      rw [received]
      exact told
    · obtain ⟨registered, notBusy⟩ :=
        Server.expects_of_write steady.consistent steady.exclusive front stepped
      refine .writing after (memory ▸ goesOn) (received.trans told.symm) still isConn.symm
        (incoming.trans (queue.trans left.symm)) registered notBusy ?_
      rw [address, ← conn]
      intro number isMapping
      rw [made]
      exact mapped number isMapping
    · obtain ⟨registered, notBusy⟩ :=
        Server.expects_of_write steady.consistent steady.exclusive front stepped
      exact .reading after (memory ▸ goesOn) (received.trans told.symm) done isConn.symm
        (incoming.trans (queue.trans left.symm)) registered notBusy
  | reading _ _ _ _ _ _ expects => cases expects.interest_of_write front stepped
  | read _ _ _ _ _ _ _ _ _ expects => cases expects.interest_of_write front stepped
  | processed _ _ _ _ _ _ _ _ _ expects => cases expects.interest_of_write front stepped
  | closed _ notOpen => exact absurd (Server.isOpen_of_front steady.consistent front) notOpen

/-- A file that is found is mapped. -/
theorem fileAddress_of_answer {conn after : HttpConn} {read : ReadResult × HttpConn} {tree : FileTree}
    {query : Bytes → ℤ} {registry users : Registry} (ran : conn.processRead = some read)
    (answer : HttpConn.answerRead tree query registry read = some (.fileRequest, after, users)) :
    ∃ path, after.fileAddress = tree.mmap path := by
  obtain ⟨result, called⟩ := read
  rcases HttpConn.processRead_result ran with rfl | rfl | rfl
  · cases answer
  · cases answer
  · obtain ⟨outcome, found, same⟩ := Option.map_eq_some_iff.mp answer
    simp only [Prod.mk.injEq] at same
    obtain ⟨isFile, rfl, rfl⟩ := same
    rcases HttpConn.doRequest_file found with ⟨noFile, _⟩ | ⟨_, path, address, _⟩
    · exact absurd isFile noFile
    · exact ⟨path, address⟩

/-- The number of a new mapping. -/
theorem next_of_mapped {program : Program} {disk : Disk} {path : Bytes} {number : ℕ} {conn : HttpConn}
    (address : conn.fileAddress = (program.tree disk).mmap path) (mapped : conn.fileAddress = .mapped number) :
    number = program.mappings.next ∧
      (program.afterMmap .fileRequest conn).next = program.mappings.next + 1 := by
  constructor
  · rw [mapped, Program.tree] at address
    dsimp only at address
    split_ifs at address
    cases address
    rfl
  · rw [Program.afterMmap, if_pos ⟨rfl, by rw [mapped]; simp⟩]
    rfl

/-- A call of `process_read` for the client. -/
theorem Serving.processRead {query : Bytes → ℤ} {read : ReadResult × HttpConn} {code : HttpCode}
    (serving : network.Serving files requests fd) (steady : network.program.Steady)
    (holds : (network.codes fd).length < network.program.server.held.count (fd, .processing))
    (ran : (network.program.users fd).processRead = some read)
    (answer : HttpConn.answerRead (network.program.tree ⟨files.stat, query, true⟩) query
      network.program.registry read = some (code, next.program.users fd, next.program.registry))
    (server : next.program.server = network.program.server)
    (incoming : next.incoming fd = network.incoming fd) (received : next.received fd = network.received fd)
    (codes : next.codes fd = (fd, code) :: network.codes fd)
    (memory : next.memory = network.memoryAfter files fd next.program)
    (made : next.program.mappings = network.program.afterMmap code (next.program.users fd)) :
    next.Serving files requests fd := by
  have isBusy : fd ∈ network.program.server.busy := by
    by_contra idle
    rw [(codes_of_idle steady idle).1] at holds
    exact Nat.not_lt_zero _ holds
  cases serving with
  | read exchange follows same phase piece rest queued arrived queue expects unanswered =>
    have called : (exchange.session.conn.readOnce piece).2.process
        (network.program.tree ⟨files.stat, query, true⟩) query network.program.registry =
          some ((next.program.users fd).respond next.program.registry code) := by
      rw [arrived, HttpConn.process, ran]
      simp [answer]
    refine .processed exchange (follows.congr fun writing => ?_) (received.trans same) phase piece rest queued
      (by rw [arrived]) (incoming.trans queue) (server ▸ expects) code (by rw [codes, unanswered]) _ rfl query _ _
      called ?_ ?_
    · rw [phase] at writing
      cases writing
    · rintro rfl number mapped
      obtain ⟨path, address⟩ := fileAddress_of_answer ran answer
      obtain ⟨rfl, next⟩ := next_of_mapped address mapped
      rw [made, next]
      exact Nat.lt_succ_self _
    · rintro rfl path found built
      apply built.ready (files.size path)
      intro nonempty
      obtain ⟨response, written, _, stat, address⟩ := built
      obtain ⟨sameStat, _, sameAddress⟩ := HttpConn.processWrite_same written
      have succeeds : (files.stat path).any (·.size ≠ 0) = true := by
        rw [show files.stat path = _ from stat, Option.any_some, ← sameStat]
        exact decide_eq_true nonempty
      have mapped : (network.program.tree ⟨files.stat, query, true⟩).mmap path =
          .mapped network.program.mappings.next := if_pos ⟨rfl, succeeds⟩
      obtain ⟨own, sameFile⟩ := (next.program.users fd).respond_file next.program.registry .fileRequest
      rw [own] at sameAddress
      obtain ⟨-, number⟩ :=
        next_of_mapped (sameAddress.trans address) (sameAddress.trans (address.trans mapped))
      rw [sameFile] at found
      have after : next.memory =
          mapFile network.memory network.program.mappings.next (files.file path) := by
        rw [memory, memoryAfter, made, number, if_neg (Nat.succ_ne_self _), found]
      intro index bound
      rw [own, sameAddress, address, mapped, after, mapFile, if_pos ⟨rfl, Int.natCast_nonneg _⟩, Int.toNat_natCast,
        List.getElem?_eq_getElem bound, Option.getD_some]
  | reading _ _ _ _ _ _ _ idle => exact absurd isBusy idle
  | processed _ _ _ _ _ _ _ _ _ _ _ only =>
    have most : network.program.server.held.count (fd, .processing) ≤ 1 := held_count_le steady
    rw [only, List.length_singleton] at holds
    omega
  | writing _ _ _ _ _ _ _ idle => exact absurd isBusy idle
  | closed _ notOpen => exact absurd (steady.exclusive.isOpen fd isBusy) notOpen

/-- The rest of `process` for the client. -/
theorem Serving.respond {code : HttpCode} (serving : network.Serving files requests fd)
    (small : ∀ request ∈ requests, (request.asked files.file).length < 2 ^ 31 - writeBufferSize)
    (steady : network.program.Steady)
    (spares : network.program.server.SparesBusy
      (((network.program.users fd).respond network.program.registry code).event fd))
    (due : (fd, code) ∈ network.codes fd)
    (stepped : network.program.server.step
      (((network.program.users fd).respond network.program.registry code).event fd) = some next.program.server)
    (users : next.program.users fd = ((network.program.users fd).respond network.program.registry code).conn)
    (incoming : next.incoming fd = network.incoming fd) (received : next.received fd = network.received fd)
    (memory : next.memory = network.memory) (made : next.program.mappings = network.program.mappings) :
    next.Serving files requests fd := by
  have isBusy : fd ∈ network.program.server.busy := by
    by_contra idle
    rw [(codes_of_idle steady idle).2] at due
    cases due
  cases serving with
  | processed exchange follows same phase piece rest queued arrived queue expects found only tree stat query
      registry others ran mapped ready =>
    obtain rfl : code = found := by
      rw [only, List.mem_singleton] at due
      exact congrArg Prod.snd due
    obtain ⟨succeeds, isFinish⟩ := Program.event_of_spares spares
    rw [isFinish] at stepped
    obtain ⟨registered, notBusy⟩ := Server.expects_of_finish steady.consistent steady.exclusive stepped
    rw [HttpConn.respond_registry _ _ others] at users succeeds registered
    set done := (network.program.users fd).respond others code with isDone
    obtain ⟨isCode, interest⟩ := (network.program.users fd).respond_interest others code
    rw [← isDone] at isCode interest
    -- the step of the session, with the users the worker has found
    set session : Session := { exchange.session with registry } with isSession
    have read : session.step tree query .read =
        some ({ session with incoming := session.unread piece ++ rest }.afterProcess done) := by
      rw [Session.step, show session.phase = .reading from phase, show session.incoming = piece :: rest from queued]
      dsimp only
      rw [if_pos (show (session.conn.readOnce piece).1 = true from arrived),
        show (session.conn.readOnce piece).2.process tree query session.registry = some done from ran]
      rfl
    have inTurn := (follows.inTurn.congr stat registry).step rfl read
    obtain ⟨conn, left, outcome⟩ :=
      Session.afterProcess_eq { session with incoming := session.unread piece ++ rest } done
    generalize Session.afterProcess _ done = after at read inTurn conn left outcome
    have delivered : Exchange.Delivered files.file network.memory requests ⟨after, exchange.received⟩ := by
      refine (follows.delivered.congr registry).read small read rfl inTurn ?_
      intro last path served isFile found built
      rcases outcome with ⟨_, _, none⟩ | ⟨_, _, _, one⟩
      · exact absurd (List.append_right_eq_self.mp (served.symm.trans none)) (List.cons_ne_nil _ _)
      · obtain rfl := List.singleton_inj.mp (List.append_cancel_left (served.symm.trans one))
        exact ready (isCode.symm.trans isFile) path found built
    have follows : Exchange.Follows files requests next.memory ⟨after, exchange.received⟩ :=
      memory ▸ ⟨inTurn.congr stat.symm after.registry, delivered⟩
    have isIncoming : next.incoming fd = after.incoming := incoming.trans (queue.trans left.symm)
    rcases outcome with ⟨written, still, _⟩ | ⟨kept, written, goesOn, served⟩
    · rw [written, if_pos rfl] at interest
      exact .reading _ follows (received.trans same) (still.trans phase) (users.trans conn.symm) isIncoming
        (interest ▸ registered) notBusy
    · have isTrue : kept = true := by
        rw [written] at succeeds
        simpa using succeeds
      rw [written, if_neg (Option.some_ne_none _)] at interest
      rw [isTrue, if_pos rfl] at goesOn
      refine .writing _ follows (received.trans same) goesOn (users.trans conn.symm) isIncoming
        (interest ▸ registered) notBusy ?_
      have isFile := isCode.symm.trans (inTurn.code_of_pending goesOn served)
      have address := ((network.program.users fd).respond_file others code).1
      intro number isMapping
      rw [users] at isMapping
      rw [made]
      exact mapped isFile number (address.symm.trans isMapping)
  | read _ _ _ _ _ _ _ _ _ _ unanswered =>
    rw [unanswered] at due
    cases due
  | reading _ _ _ _ _ _ _ idle => exact absurd isBusy idle
  | writing _ _ _ _ _ _ _ idle => exact absurd isBusy idle
  | closed _ notOpen => exact absurd (steady.exclusive.isOpen fd isBusy) notOpen

/-! ## Runs -/

/-- What the client and the system promise: the descriptor is not accepted anew, the head of a response is
interrupted once at most, and the files of the client can be opened and mapped. -/
def Ours (fd : ℕ) (network : Network) : NetworkEvent → Prop
  | .accept other _ => other ≠ fd
  | .write results => network.program.server.front = [fd] →
      HttpConn.EachPass HttpConn.InterruptsOnce (network.program.users fd) results
  | .processRead slot _ opens => slot = fd → opens = true
  | _ => True

instance (fd : ℕ) (network : Network) (event : NetworkEvent) : Decidable (Ours fd network event) :=
  match event with
  | .accept _ _ => inferInstanceAs (Decidable (_ ≠ _))
  | .write _ => inferInstanceAs (Decidable (_ → _))
  | .processRead _ _ _ => inferInstanceAs (Decidable (_ → _))
  | .server _ | .read | .respond _ _ => isTrue trivial

/-- What every step keeps. -/
theorem Serving.step {event : NetworkEvent} (serving : network.Serving files requests fd)
    (small : ∀ request ∈ requests, (request.asked files.file).length < 2 ^ 31 - writeBufferSize)
    (steady : network.program.Steady) (spares : network.SparesBusy files event) (ours : Ours fd network event)
    (taken : network.step files event = some next) : next.Serving files requests fd := by
  have other : ∀ pieces, event ≠ .accept fd pieces := by
    rintro pieces rfl
    exact ours rfl
  cases moves_of_step steady spares other taken with
  | aside aside => exact serving.aside aside
  | read front stepped users incoming received codes memory =>
    exact serving.readOnce steady front stepped users incoming received codes memory
  | write kept front admits stepped sent incoming received memory made =>
    exact serving.write steady front admits (ours front) stepped sent incoming received memory made
  | processRead read code holds ran answer server incoming received codes memory made =>
    obtain rfl := ours rfl
    exact serving.processRead steady holds ran answer server incoming received codes memory made
  | respond due stepped users incoming received memory made =>
    exact serving.respond small steady spares due stepped users incoming received memory made

theorem steady_of_step {event : NetworkEvent} (steady : network.program.Steady)
    (spares : network.SparesBusy files event) (taken : network.step files event = some next) :
    next.program.Steady := by
  obtain ⟨_, program, rfl, moves⟩ := step_eq_some taken
  rw [after_program]
  exact steady.step moves spares

/-- A client that is accepted waits for its first response. -/
theorem serving_of_accept {groups : List (List Bytes)} (steady : network.program.Steady)
    (cuts : List.Forall₂ (Cut files.tree) groups requests) (room : network.program.server.userCount < maxFd)
    (taken : network.step files (.accept fd groups.flatten) = some next) : next.Serving files requests fd := by
  obtain ⟨_, program, rfl, moves⟩ := step_eq_some taken
  cases moves with
  | accept stepped _ own _ _ =>
    obtain ⟨expects, idle⟩ := Server.expects_of_accept steady.consistent steady.exclusive room stepped
    set start : HttpConn := { network.program.users fd with sockfd := some fd }
    rw [after, if_neg (not_le.mpr room)]
    refine .reading (.initial start program.registry groups.flatten) ⟨?_, .between rfl ⟨rfl, rfl⟩ rfl⟩ ?_ rfl
      (own room) ?_ expects idle
    · exact Session.inTurn_between [] start rfl rfl rfl cuts rfl ⟨rfl, rfl⟩
    · exact Function.update_self ..
    · exact Function.update_self ..

/-- What the client can read at any time. -/
theorem Serving.readAll (serving : network.Serving files requests fd) :
    (Response.readAll (network.received fd)).1 <+: requests.map (Request.due files.file) ∧
      ∀ descriptor ∈ network.program.server.descriptors, descriptor.fd = fd → descriptor.armed = some .input →
        ∃ done, done <+: requests ∧
          Response.readAll (network.received fd) = (done.map (Request.due files.file), []) ∧
          (network.incoming fd = [] → done = requests) := by
  cases serving with
  | reading exchange follows received phase conn incoming expects idle =>
    obtain ⟨first, reading⟩ := follows.delivered.readAll
    rw [received, incoming]
    refine ⟨first, fun _ _ _ _ => ⟨_, List.take_prefix _ _, reading phase, fun nothing => ?_⟩⟩
    rw [Exchange.served_length follows.inTurn phase nothing, List.take_length]
  | read exchange follows received phase piece rest queued arrived incoming expects unanswered =>
    refine ⟨received ▸ follows.delivered.readAll.1, fun descriptor member isFd armed => ?_⟩
    rcases expects.armed descriptor member isFd with other | other <;> cases armed.symm.trans other
  | processed exchange follows received _ _ _ _ _ _ expects =>
    refine ⟨received ▸ follows.delivered.readAll.1, fun descriptor member isFd armed => ?_⟩
    rcases expects.armed descriptor member isFd with other | other <;> cases armed.symm.trans other
  | writing exchange follows received phase conn incoming expects idle made =>
    refine ⟨received ▸ follows.delivered.readAll.1, fun descriptor member isFd armed => ?_⟩
    rcases expects.armed descriptor member isFd with other | other <;> cases armed.symm.trans other
  | closed told notOpen =>
    exact ⟨told, fun descriptor member isFd _ => absurd (isFd ▸ List.mem_map_of_mem member) notOpen⟩

/-- Any number of clients are connected to the server, and do what they like; the main loop and the workers act
in any order. One of them sends requests for files over a kept connection, cut into pieces none of which reaches
over the end of a request. When it is accepted there are fewer than `MAX_FD` users (`room`). Its descriptor is not
accepted anew, the head of each response to it is interrupted once at most, and its files can be opened and mapped
(`Ours`); they are readable and not empty (`KeepAlive`), and each length with the size of the write buffer added is
an `int` (`small`). As long as no tick expires a connection that is queued or held by a worker and no worker calls
`close_conn`: at any time the complete responses that this client can read are the files of its first requests, in
order; when its descriptor waits for input nothing is left over, and these are all responses if all its pieces
have been read. -/
theorem client_receives (files : Files) (clock : ℕ) (registry : Registry) (memory : FileAddress → ℤ → UInt8)
    {groups : List (List Bytes)} {requests : List Request} (cuts : List.Forall₂ (Cut files.tree) groups requests)
    (small : ∀ request ∈ requests, (request.asked files.file).length < 2 ^ 31 - writeBufferSize)
    {earlier later : List NetworkEvent} {fd : ℕ} {before accepted final : Network}
    (spares : Guarded (step files) (SparesBusy files) (initial clock registry memory) earlier)
    (ran : run (step files) (initial clock registry memory) earlier = some before)
    (room : before.program.server.userCount < maxFd)
    (joins : before.step files (.accept fd groups.flatten) = some accepted)
    (sparesLater : Guarded (step files) (SparesBusy files) accepted later)
    (ours : Guarded (step files) (Ours fd) accepted later)
    (goesOn : run (step files) accepted later = some final) :
    (Response.readAll (final.received fd)).1 <+: requests.map (Request.due files.file) ∧
      ∀ descriptor ∈ final.program.server.descriptors, descriptor.fd = fd → descriptor.armed = some .input →
        ∃ done, done <+: requests ∧
          Response.readAll (final.received fd) = (done.map (Request.due files.file), []) ∧
          (final.incoming fd = [] → done = requests) := by
  have staysSteady : ∀ (network : Network) event next, network.program.Steady → network.SparesBusy files event →
      network.step files event = some next → next.program.Steady :=
    fun _ _ _ steady spares taken => steady_of_step steady spares taken
  have staysServed : ∀ (network : Network) event next,
      network.program.Steady ∧ network.Serving files requests fd →
        network.SparesBusy files event ∧ Ours fd network event → network.step files event = some next →
          next.program.Steady ∧ next.Serving files requests fd :=
    fun _ _ _ ⟨steady, serving⟩ ⟨spares, ours⟩ taken =>
      ⟨steady_of_step steady spares taken, serving.step small steady spares ours taken⟩
  have steady := invariant_of_guarded staysSteady (Program.steady_initial clock registry) spares ran
  have start := steady_of_step steady (show before.SparesBusy files (.accept fd groups.flatten) from trivial) joins
  have both := invariant_of_guarded staysServed ⟨start, serving_of_accept steady cuts room joins⟩
    (sparesLater.and ours) goesOn
  exact both.2.readAll

/-! ## Two clients at the same time -/

section Example

private def greetPath : Bytes := docRoot ++ ascii "/a"

/-- One file. -/
private def greetFiles : Files where
  stat path := if path = greetPath then some ⟨5, true, false⟩ else none
  file path := if path = greetPath then ascii "hello" else []
  size path fileStat found := by
    split_ifs at found with here
    cases found
    rw [if_pos here]
    rfl

private def askGreet : Bytes := ascii "GET /a HTTP/1.1\r\nConnection: keep-alive\r\n\r\n"

private def greetAsked : Request :=
  (Request.empty.setLine .get (ascii "/a")).addHeader (ascii "Connection: keep-alive")

private theorem keepAlive_askGreet : KeepAlive greetFiles.tree askGreet greetAsked := by
  have line : Plain (ascii "GET /a HTTP/1.1") := by decide +kernel
  have accepted : requestLine (visible (ascii "GET /a HTTP/1.1")) = some (some (.get, ascii "/a")) := by
    decide +kernel
  have lines : ∀ field ∈ [ascii "Connection: keep-alive"], Plain field ∧ visible field ≠ [] := by
    decide +kernel
  obtain ⟨whole, ends⟩ := parse_request line accepted lines (by decide +kernel)
  exact ⟨whole, ends, by decide +kernel, by decide +kernel, ⟨5, true, false⟩, by decide +kernel, rfl, rfl,
    by decide⟩

/-- A client that does not want the connection kept. -/
private def firstClient : List NetworkEvent :=
  [.server (.epollWait [.listen]), .accept 6 [ascii "GET /a HTTP/1.1\r\n\r\n"], .server .endBatch,
    .server (.epollWait [.listen, .client 6 .readable])]

/-- The second client's request comes in two pieces, and is processed and answered together with the first
one's. -/
private def bothClients : List NetworkEvent :=
  [.read, .server .endBatch, .server .take, .server (.epollWait [.client 5 .readable]), .read, .server .endBatch,
    .processRead 6 (fun _ => 0) true, .server .take, .processRead 5 (fun _ => 0) true, .respond 6 .fileRequest,
    .respond 5 .noRequest, .server (.epollWait [.client 5 .readable, .client 6 .writable]), .read,
    .write [.sent 40, .again], .server .endBatch, .server .take, .processRead 5 (fun _ => 0) true,
    .respond 5 .fileRequest, .server (.epollWait [.client 6 .writable, .client 5 .writable]),
    .write [.sent 20], .write [.sent 20, .sent 44]]

private abbrev lobby : Network := .initial 0 (.loaded []) fun _ _ => 0

private abbrev pieces : List (List Bytes) := [[askGreet.take 20, askGreet.drop 20]]

private theorem firstClient_runs : (run (step greetFiles) lobby firstClient).isSome := by decide +kernel

private abbrev waiting : Network := (run (step greetFiles) lobby firstClient).get firstClient_runs

private theorem waiting_accepts : (waiting.step greetFiles (.accept 5 pieces.flatten)).isSome := by decide +kernel

private abbrev joined : Network := (waiting.step greetFiles (.accept 5 pieces.flatten)).get waiting_accepts

private theorem bothClients_run : (run (step greetFiles) joined bothClients).isSome := by decide +kernel

/-- The second client reads its file. -/
theorem client_receives_two : ∃ final, run (step greetFiles) joined bothClients = some final ∧
    Response.readAll (final.received 5) = ([HttpConn.answer true 200 ok200Title (ascii "hello")], []) := by
  obtain ⟨final, goesOn⟩ := Option.isSome_iff_exists.mp bothClients_run
  have cut : Cut greetFiles.tree [askGreet.take 20, askGreet.drop 20] greetAsked :=
    ⟨by decide, by decide, keepAlive_askGreet⟩
  have waits : (run (step greetFiles) joined bothClients).all fun final => decide (final.incoming 5 = [] ∧
      ∃ descriptor ∈ final.program.server.descriptors, descriptor.fd = 5 ∧ descriptor.armed = some .input) := by
    decide +kernel
  rw [goesOn, Option.all_some, decide_eq_true_eq] at waits
  obtain ⟨nothing, descriptor, member, isFd, armed⟩ := waits
  have receives := client_receives greetFiles 0 (.loaded []) (fun _ _ => 0) (.cons cut .nil) (by decide +kernel)
    (by decide +kernel) (Option.some_get firstClient_runs).symm (by decide +kernel)
    (Option.some_get waiting_accepts).symm (by decide +kernel) (by decide +kernel) goesOn
  obtain ⟨done, _, read, all⟩ := receives.2 descriptor member isFd armed
  rw [all nothing] at read
  exact ⟨final, goesOn, read⟩

end Example

end Network

end WebServ.Http
