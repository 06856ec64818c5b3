import WebServ.Model.Program
import WebServ.Soundness.OpenDescriptors
import WebServ.Soundness.Process

/-! # File mappings and the connections they belong to

A mapping is made by `do_request` and given back by `write`, when the response is sent or has failed. The
ways a connection ends without `write` do not give it back: the timer callback closes the descriptor
alone, and the object keeps a pointer that the next response overwrites. While no connection ends so in the
middle of a response, and the other conditions of `Careful` are met, the mappings are those of the
connections with an unfinished response.
-/

namespace WebServ.Http

open WebServ.Text WebServ.Machine

/-! ## What the functions of an object do to its mapping -/

namespace HttpConn

/-- The mapping depends on the address and the file's record. -/
theorem mapping_congr {conn after : HttpConn} (address : after.fileAddress = conn.fileAddress)
    (stat : after.fileStat = conn.fileStat) : after.mapping = conn.mapping := by
  rw [mapping, mapping, address, stat]

theorem mapping_eq_none {conn : HttpConn} (other : ∀ id, conn.fileAddress ≠ .mapped id) :
    conn.mapping = none := by
  rw [mapping]
  split
  · next id same => exact absurd same (other id)
  · rfl

theorem mapping_isSome {conn : HttpConn} {id : ℕ} (mapped : conn.fileAddress = .mapped id) :
    conn.mapping = some (id, conn.fileStat.size) := by
  rw [mapping, mapped]

theorem fileAddress_of_mapping {conn : HttpConn} {entry : ℕ × ℕ} (held : conn.mapping = some entry) :
    conn.fileAddress = .mapped entry.1 ∧ conn.fileStat.size = entry.2 := by
  rw [mapping] at held
  split at held
  · next id same =>
    cases held
    exact ⟨same, rfl⟩
  · cases held

/-- `write` leaves the file alone until it calls `unmap`. -/
theorem writePass_file {conn after : HttpConn} {result : WritevResult} {ended : Option WriteEnd}
    (ran : conn.writePass result = (ended, after)) :
    (after.fileAddress = conn.fileAddress ∧ after.fileStat = conn.fileStat ∧
        (ended = none ∧ result ≠ .again ∨ ended = some .again ∧ result = .again)) ∨
      (after.fileAddress = .null ∧ ∃ last, ended = some last ∧ last ≠ .again ∧ result ≠ .again) := by
  have unmapped : ∀ other : HttpConn, other.unmap.fileAddress = .null := by
    intro other
    rw [unmap]
    split_ifs with null
    · exact null
    · rfl
  cases result with
  | again =>
    cases ran
    exact .inl ⟨rfl, rfl, .inr ⟨rfl, rfl⟩⟩
  | error =>
    cases ran
    exact .inr ⟨unmapped conn, .failed, rfl, by decide, by decide⟩
  | sent count =>
    have advanced : (conn.advanceIovecs count).fileAddress = conn.fileAddress ∧
        (conn.advanceIovecs count).fileStat = conn.fileStat := by
      rw [advanceIovecs]
      dsimp only
      split_ifs <;> exact ⟨rfl, rfl⟩
    rw [writePass] at ran
    split_ifs at ran
    · cases ran
      exact .inr ⟨unmapped _, .kept, rfl, by decide, fun other => by cases other⟩
    · cases ran
      exact .inr ⟨unmapped _, .closed, rfl, by decide, fun other => by cases other⟩
    · cases ran
      exact .inl ⟨advanced.1, advanced.2, .inl ⟨rfl, fun other => by cases other⟩⟩

theorem writeLoop_file {conn after : HttpConn} {results : List WritevResult} {ended : WriteEnd}
    (ran : conn.writeLoop results = some (ended, after)) :
    (ended = .again ∧ after.fileAddress = conn.fileAddress ∧ after.fileStat = conn.fileStat) ∨
      (ended ≠ .again ∧ after.fileAddress = .null ∧ results.getLast? ≠ some .again) := by
  induction results generalizing conn with
  | nil => cases ran
  | cons result rest ih =>
    rw [writeLoop] at ran
    split at ran
    · next last next pass =>
      split_ifs at ran with single
      cases ran
      rw [single, List.getLast?_singleton]
      rcases writePass_file pass with ⟨address, stat, ⟨running, _⟩ | ⟨again, _⟩⟩ | ⟨null, _, same, other, isOther⟩
      · cases running
      · exact .inl ⟨Option.some.inj again, address, stat⟩
      · cases same
        exact .inr ⟨other, null, fun isAgain => isOther (Option.some.inj isAgain)⟩
    · next next pass =>
      obtain ⟨address, stat⟩ : next.fileAddress = conn.fileAddress ∧ next.fileStat = conn.fileStat := by
        rcases writePass_file pass with ⟨address, stat, _⟩ | ⟨_, _, ended, _⟩
        · exact ⟨address, stat⟩
        · cases ended
      rcases ih ran with ⟨again, address', stat'⟩ | ⟨other, null, isOther⟩
      · exact .inl ⟨again, address'.trans address, stat'.trans stat⟩
      · refine .inr ⟨other, null, ?_⟩
        cases rest with
        | nil => cases ran
        | cons second others =>
          rw [List.getLast?_cons_cons]
          exact isOther

/-- `do_request` maps the file it finds, and touches no mapping otherwise. -/
theorem doRequest_file {conn : HttpConn} {tree : FileTree} {query : Bytes → ℤ} {registry : Registry}
    {outcome : Outcome} (ran : conn.doRequest tree query registry = some outcome) :
    (outcome.code ≠ .fileRequest ∧ outcome.conn.fileAddress = conn.fileAddress) ∨
      (outcome.code = .fileRequest ∧ ∃ path, outcome.conn.fileAddress = tree.mmap path ∧
        tree.stat path = some outcome.conn.fileStat) := by
  obtain ⟨_, _, _, _, after, _, routed, _, _, _, _, answered, _, routes, served⟩ := doRequest_eq_some ran
  have routedFile : routed.fileAddress = after.2.fileAddress := by rw [routeFile_frame routes]
  have afterFile : after.2.fileAddress = conn.fileAddress := by
    rw [cgiPart] at answered
    split_ifs at answered
    · obtain ⟨_, _, _, _, _, same, _⟩ := cgiRequest_eq_some answered
      rw [same]
    · cases answered
      rfl
  have kept : routed.fileAddress = conn.fileAddress := routedFile.trans afterFile
  obtain ⟨path, found, _⟩ := serveFile_eq_some served
  have answer := serveFile_answer found served
  split at answer
  · obtain ⟨code, same⟩ := answer
    rw [code, same]
    exact .inl ⟨by decide, kept⟩
  · next fileStat stat =>
    rcases answer with ⟨_, code, same⟩ | ⟨_, code, same⟩ | ⟨_, _, code, same⟩
    · rw [code, same]
      exact .inl ⟨by decide, kept⟩
    · rw [code, same]
      exact .inl ⟨by decide, kept⟩
    · rw [code, same]
      exact .inr ⟨rfl, path, rfl, stat⟩

/-- The response builder leaves the file alone. -/
theorem processWrite_sameMapping (conn : HttpConn) (ret : HttpCode) :
    (conn.processWrite ret).2.fileAddress = conn.fileAddress ∧
      (conn.processWrite ret).2.fileStat = conn.fileStat := by
  obtain ⟨_, _, _, _, _, _, same⟩ := conn.processWrite_frame ret
  rw [same]
  exact ⟨rfl, rfl⟩

theorem respond_mapping (conn : HttpConn) (registry : Registry) (ret : HttpCode) :
    (conn.respond registry ret).conn.mapping = conn.mapping := by
  obtain ⟨address, stat⟩ := conn.processWrite_sameMapping ret
  rw [respond]
  split_ifs
  · rfl
  · dsimp only
    split_ifs
    · exact mapping_congr address stat
    · exact mapping_congr address stat

end HttpConn

/-! ## The mappings of the whole server -/

namespace Program

variable {program next : Program}

@[simp] theorem munmap_server (program : Program) (conn : HttpConn) :
    (program.munmap conn).server = program.server := by
  rw [Program.munmap]
  split_ifs
  · rfl
  · split <;> rfl

/-- The main loop goes on as it does without the objects. -/
theorem server_of_step {event : ProgramEvent} (taken : program.step event = some next) :
    next.server = program.server ∨ ∃ action, program.server.step action = some next.server := by
  cases event with
  | server event =>
    rw [Program.step] at taken
    split_ifs at taken
    obtain ⟨server, stepped, rfl⟩ := Option.map_eq_some_iff.mp taken
    exact .inr ⟨event, stepped⟩
  | accept fd =>
    obtain ⟨server, stepped, rfl⟩ := Option.map_eq_some_iff.mp taken
    refine .inr ⟨.accept fd, ?_⟩
    split_ifs <;> exact stepped
  | read available =>
    rw [Program.step] at taken
    split at taken
    · obtain ⟨server, stepped, rfl⟩ := Option.map_eq_some_iff.mp taken
      exact .inr ⟨_, stepped⟩
    · cases taken
  | write results =>
    rw [Program.step] at taken
    split at taken
    · rw [writeUser] at taken
      dsimp only at taken
      split_ifs at taken
      · obtain ⟨server, stepped, rfl⟩ := Option.map_eq_some_iff.mp taken
        exact .inr ⟨_, stepped⟩
      · simp only [bind, Option.bind_eq_some_iff] at taken
        obtain ⟨⟨ended, after⟩, _, server, stepped, taken⟩ := taken
        refine .inr ⟨.write ended.registers, ?_⟩
        dsimp only at taken
        split_ifs at taken
        · cases taken
          exact stepped
        · cases taken
          simpa [setUnfinished, setUser] using stepped
    · cases taken
  | processRead slot disk =>
    rw [Program.step] at taken
    split_ifs at taken
    simp only [bind, Option.bind_eq_some_iff] at taken
    obtain ⟨_, _, _, _, taken⟩ := taken
    cases taken
    exact .inl rfl
  | respond slot code =>
    rw [Program.step] at taken
    split_ifs at taken
    obtain ⟨server, stepped, rfl⟩ := Option.map_eq_some_iff.mp taken
    exact .inr ⟨_, stepped⟩

/-- So what holds of the server in every run holds of it here. -/
theorem reachable_server {clock : ℕ} {registry : Registry} {events : List ProgramEvent}
    (ran : run Program.step (initial clock registry) events = some program) :
    Reachable Server.step (.initial clock) program.server := by
  have preserved : ∀ (before : Program) event after, Reachable Server.step (.initial clock) before.server →
      before.step event = some after → Reachable Server.step (.initial clock) after.server := by
    rintro before event after ⟨actions, reached⟩ taken
    rcases server_of_step taken with same | ⟨action, stepped⟩
    · rw [same]
      exact ⟨actions, reached⟩
    · refine ⟨actions ++ [action], ?_⟩
      rw [run_append, reached, Option.bind_some]
      exact (run_cons_eq_some Server.step).mpr ⟨_, stepped, rfl⟩
  exact invariant preserved ⟨[], rfl⟩ ran

/-- The descriptors an action closes, other than at the end of `write`. -/
def closes (program : Program) : ProgramEvent → List ℕ
  | .server event => program.server.closes event
  | .read available => program.server.front.flatMap fun fd =>
      program.server.closes (.read ((program.users fd).readOnce available).1)
  | .respond slot code =>
      program.server.closes (((program.users slot).respond program.registry code).event slot)
  | _ => []

/-- `process_read` comes to its call of `do_request`. -/
def callsDoRequest (program : Program) (slot : ℕ) : Bool :=
  (program.users slot).processRead.any (·.1 = .callDoRequest)

/-- No connection with a mapping is closed but at the end of `write`; `write` does not take a response with
a mapping for empty and does not end one with a failed mapping; `do_request` is called for a connection
without a mapping that is open, if `open` and `mmap` succeed. -/
def Careful (program : Program) (event : ProgramEvent) : Prop :=
  (∀ slot ∈ program.closes event, (program.users slot).mapping = none) ∧
    match event with
    | .write results => ∀ fd ∈ program.server.front,
        if (program.users fd).bytesToSend = 0 then (program.users fd).mapping = none
        else (program.users fd).fileAddress = .failed → results.getLast? = some .again
    | .processRead slot disk => program.callsDoRequest slot = true →
        (program.users slot).mapping = none ∧ (slot ∈ program.server.openFds ∨ disk.opens = false)
    | _ => True

instance (program : Program) (event : ProgramEvent) : Decidable (Careful program event) :=
  match event with
  | .server _ => inferInstanceAs (Decidable (_ ∧ True))
  | .accept _ => inferInstanceAs (Decidable (_ ∧ True))
  | .read _ => inferInstanceAs (Decidable (_ ∧ True))
  | .write _ => inferInstanceAs (Decidable (_ ∧ ∀ fd ∈ program.server.front, _))
  | .processRead _ _ => inferInstanceAs (Decidable (_ ∧ (_ → _)))
  | .respond _ _ => inferInstanceAs (Decidable (_ ∧ True))

/-- The mappings not unmapped yet are those that open connections with an unfinished response point to, each
with the size it was mapped with, and `munmap` has never been called for anything else. -/
def MappingsReferenced (program : Program) : Prop :=
  (∀ id size, (id, size) ∈ program.mappings.live ↔
    ∃ slot ∈ program.server.openFds, program.unfinished slot = true ∧
      (program.users slot).fileAddress = .mapped id ∧ (program.users slot).fileStat.size = size) ∧
    program.misused = []

/-- The mappings are in balance with the objects, and an object with a mapping belongs to an open connection
with an unfinished response. -/
structure Accounted (program : Program) : Prop where
  balanced : program.mappings.Balanced (HttpConn.mapping ∘ program.users)
  due : ∀ slot entry, (program.users slot).mapping = some entry →
    slot ∈ program.server.openFds ∧ program.unfinished slot = true
  misused : program.misused = []

theorem accounted_initial (clock : ℕ) (registry : Registry) : Accounted (initial clock registry) where
  balanced := Ledger.balanced_empty
  due _ _ held := by cases held
  misused := rfl

theorem Accounted.mappingsReferenced (accounted : Accounted program) : program.MappingsReferenced := by
  refine ⟨fun id size => ?_, accounted.misused⟩
  rw [accounted.balanced.live_iff]
  constructor
  · rintro ⟨slot, held⟩
    obtain ⟨isOpen, unfinished⟩ := accounted.due slot _ held
    exact ⟨slot, isOpen, unfinished, HttpConn.fileAddress_of_mapping held⟩
  · rintro ⟨slot, _, _, mapped, rfl⟩
    exact ⟨slot, HttpConn.mapping_isSome mapped⟩

namespace Accounted

/-- An action of the server that closes no connection with a mapping. -/
theorem server (accounted : Accounted program) {event : Event} {after : Server}
    (stepped : program.server.step event = some after)
    (spared : ∀ slot ∈ program.server.closes event, (program.users slot).mapping = none) :
    Accounted { program with server := after } where
  balanced := accounted.balanced
  due slot entry held := by
    obtain ⟨isOpen, unfinished⟩ := accounted.due slot entry held
    refine ⟨Server.openFds_of_step stepped isOpen fun closed => ?_, unfinished⟩
    cases held.symm.trans (spared slot closed)
  misused := accounted.misused

/-- The object changes, but not its mapping. -/
theorem setUser (accounted : Accounted program) {slot : ℕ} {conn : HttpConn}
    (same : conn.mapping = (program.users slot).mapping) : Accounted (program.setUser slot conn) where
  balanced := by
    rw [Program.setUser, Function.comp_update, same]
    have unchanged := Function.update_eq_self slot (HttpConn.mapping ∘ program.users)
    rw [Function.comp_apply] at unchanged
    rw [unchanged]
    exact accounted.balanced
  due other entry held := by
    apply accounted.due other entry
    by_cases here : other = slot
    · rw [here, setUser_self, same] at held
      rw [here]
      exact held
    · rw [program.setUser_of_ne here] at held
      exact held
  misused := accounted.misused

/-- A response is over on a connection without a mapping. -/
theorem setUnfinished (accounted : Accounted program) {slot : ℕ}
    (none : (program.users slot).mapping = none) (unfinished : Bool) :
    Accounted (program.setUnfinished slot unfinished) where
  balanced := accounted.balanced
  due other entry held := by
    obtain ⟨isOpen, due⟩ := accounted.due other entry held
    refine ⟨isOpen, ?_⟩
    rw [program.setUnfinished_of_ne]
    · exact due
    · rintro rfl
      cases held.symm.trans none
  misused := accounted.misused

/-- `unmap`, on a connection whose `mmap` has not failed. -/
theorem munmap (accounted : Accounted program) {slot : ℕ} {conn : HttpConn}
    (notFailed : (program.users slot).fileAddress ≠ .failed) (null : conn.fileAddress = .null) :
    Accounted ((program.munmap (program.users slot)).setUser slot conn) := by
  have empty : conn.mapping = none := by rw [HttpConn.mapping, null]
  cases address : (program.users slot).fileAddress with
  | null =>
    rw [Program.munmap, if_pos address]
    apply accounted.setUser
    rw [empty, HttpConn.mapping, address]
  | failed => exact absurd address notFailed
  | mapped id =>
    have held := HttpConn.mapping_isSome address
    obtain ⟨mappings, released, balanced⟩ := accounted.balanced.release
      (show (HttpConn.mapping ∘ program.users) slot = some _ from held)
    have unmapped : program.munmap (program.users slot) = { program with mappings } := by
      rw [Program.munmap, if_neg (by rw [address]; exact fun null => by cases null), held, Option.bind_some, released]
    rw [unmapped]
    constructor
    · rw [Program.setUser, Function.comp_update, empty]
      exact balanced
    · intro other entry held
      by_cases here : other = slot
      · rw [here, setUser_self, empty] at held
        cases held
      · rw [setUser_of_ne _ here] at held
        exact accounted.due other entry held
    · exact accounted.misused

/-- `unmap` and the main loop do not interfere. -/
theorem munmap_withServer (program : Program) (server : Server) (conn : HttpConn) :
    { program with server }.munmap conn = { program.munmap conn with server } := by
  rw [Program.munmap, Program.munmap]
  split_ifs
  · rfl
  · dsimp only
    split <;> rfl

/-- A call of `write`. -/
theorem writeUser (accounted : Accounted program) {fd : ℕ} {rest : List Ready} {results : List WritevResult}
    (batch : program.server.batch = .client fd .writable :: rest)
    (careful : Careful program (.write results)) (taken : program.writeUser fd results = some next) :
    Accounted next := by
  have front := Server.front_of_batch batch
  have careful := careful.2 fd (by rw [front]; exact List.mem_singleton_self fd)
  rw [Program.writeUser] at taken
  by_cases nothing : (program.users fd).bytesToSend = 0
  · simp only [if_pos nothing] at careful taken
    split_ifs at taken
    obtain ⟨server, stepped, rfl⟩ := Option.map_eq_some_iff.mp taken
    have kept := accounted.server stepped (fun slot closed => absurd closed List.not_mem_nil)
    apply (kept.setUser _).setUnfinished
    · rw [setUser_self]
      exact careful
    · rfl
  · simp only [if_neg nothing] at careful taken
    simp only [bind, Option.bind_eq_some_iff] at taken
    obtain ⟨⟨ended, after⟩, sent, server, stepped, taken⟩ := taken
    rcases HttpConn.writeLoop_file sent with ⟨rfl, address, stat⟩ | ⟨other, null, last⟩
    · rw [if_pos rfl] at taken
      cases taken
      have kept := accounted.server stepped (fun slot closed => absurd closed List.not_mem_nil)
      exact kept.setUser (HttpConn.mapping_congr address stat)
    · dsimp only at taken
      rw [if_neg other, munmap_withServer] at taken
      cases taken
      have empty : after.mapping = none := by rw [HttpConn.mapping, null]
      have unmapped := accounted.munmap (fun failed => last (careful failed)) null
      have only : ∀ slot ∈ program.server.closes (.write ended.registers), slot = fd := by
        intro slot closed
        apply List.mem_singleton.mp
        rw [← front]
        cases ended with
        | again => exact absurd rfl other
        | kept => exact absurd closed List.not_mem_nil
        | failed => exact closed
        | closed => exact closed
      rw [← program.munmap_server (program.users fd)] at stepped only
      have kept := unmapped.server stepped fun slot closed => by
        rw [only slot closed, setUser_self, empty]
      apply kept.setUnfinished
      rw [setUser_self]
      exact empty

/-- The object of a slot and the mappings change together. -/
theorem answer (accounted : Accounted program) {slot : ℕ} {conn : HttpConn} {registry : Registry}
    {answered : List (ℕ × HttpCode)} {mappings : Ledger ℕ} {more : Bool}
    (balanced : mappings.Balanced (Function.update (HttpConn.mapping ∘ program.users) slot conn.mapping))
    (due : ∀ entry, conn.mapping = some entry →
      slot ∈ program.server.openFds ∧ (program.unfinished slot || more) = true) :
    Accounted { program with
      users := Function.update program.users slot conn
      registry, answered, mappings
      unfinished := Function.update program.unfinished slot (program.unfinished slot || more) } where
  balanced := by
    rw [Function.comp_update]
    exact balanced
  due other entry held := by
    dsimp only at held ⊢
    by_cases here : other = slot
    · rw [here, Function.update_self] at held
      rw [here, Function.update_self]
      exact due entry held
    · rw [Function.update_of_ne here] at held
      rw [Function.update_of_ne here]
      exact accounted.due other entry held
  misused := accounted.misused

/-- The mapping of the object stays the same. -/
theorem answer_same (accounted : Accounted program) {slot : ℕ} {conn : HttpConn} {registry : Registry}
    {answered : List (ℕ × HttpCode)} {more : Bool} (same : conn.mapping = (program.users slot).mapping) :
    Accounted { program with
      users := Function.update program.users slot conn
      registry, answered
      unfinished := Function.update program.unfinished slot (program.unfinished slot || more) } := by
  apply accounted.answer
  · rw [same, ← Function.comp_apply (f := HttpConn.mapping) (g := program.users), Function.update_eq_self]
    exact accounted.balanced
  · intro entry held
    obtain ⟨isOpen, unfinished⟩ := accounted.due slot entry (same ▸ held)
    exact ⟨isOpen, by rw [unfinished, Bool.true_or]⟩

/-- The first part of `process`. -/
theorem processRead (accounted : Accounted program) {slot : ℕ} {disk : Disk}
    (careful : Careful program (.processRead slot disk))
    (taken : program.step (.processRead slot disk) = some next) : Accounted next := by
  have careful := careful.2
  rw [Program.step] at taken
  split_ifs at taken
  simp only [bind, Option.bind_eq_some_iff] at taken
  obtain ⟨⟨result, called⟩, read, ⟨code, conn, registry⟩, answered, taken⟩ := taken
  cases taken
  have careful : ReadResult.callDoRequest = result → (program.users slot).mapping = none ∧
      (slot ∈ program.server.openFds ∨ disk.opens = false) := by
    rintro rfl
    apply careful
    rw [callsDoRequest, read]
    rfl
  obtain ⟨address, stat⟩ : called.fileAddress = (program.users slot).fileAddress ∧
      called.fileStat = (program.users slot).fileStat := by
    have kept := HttpConn.outside_of_processRead read
    split_ifs at kept
    · exact ⟨congrArg Outside.fileAddress kept, congrArg Outside.fileStat kept⟩
    · exact ⟨congrArg Outside.fileAddress kept, congrArg Outside.fileStat kept⟩
  have unmapped : ∀ other, code ≠ .fileRequest ∨ other.fileAddress = .failed →
      program.afterMmap code other = program.mappings := by
    rintro other (noFile | failed)
    · exact if_neg fun both => noFile both.1
    · exact if_neg fun both => both.2 failed
  rcases HttpConn.processRead_result read with rfl | rfl | rfl
  · cases answered
    rw [unmapped _ (.inl (by decide))]
    exact accounted.answer_same (HttpConn.mapping_congr address stat)
  · cases answered
    rw [unmapped _ (.inl (by decide))]
    exact accounted.answer_same (HttpConn.mapping_congr address stat)
  · obtain ⟨outcome, ran, same⟩ := Option.map_eq_some_iff.mp answered
    cases same
    obtain ⟨free, isOpen⟩ := careful rfl
    rcases HttpConn.doRequest_file ran with ⟨noFile, kept⟩ | ⟨isFile, path, mapped, found⟩
    · rw [unmapped _ (.inl noFile)]
      apply accounted.answer_same
      rw [free]
      apply HttpConn.mapping_eq_none
      intro id isMapped
      rw [kept, address] at isMapped
      cases free.symm.trans (HttpConn.mapping_isSome isMapped)
    · rw [tree] at mapped found
      dsimp only at mapped found
      split_ifs at mapped with succeeds
      · have held := HttpConn.mapping_isSome mapped
        have made : program.afterMmap outcome.code outcome.conn =
            program.mappings.acquire outcome.conn.fileStat.size :=
          if_pos ⟨isFile, by rw [mapped]; exact fun failed => by cases failed⟩
        rw [made]
        apply accounted.answer
        · rw [held]
          exact accounted.balanced.acquire free _
        · intro _ _
          refine ⟨isOpen.resolve_right (by rw [succeeds.1]; decide), ?_⟩
          rw [isFile]
          exact Bool.or_true _
      · rw [unmapped _ (.inr mapped)]
        apply accounted.answer_same
        rw [free]
        apply HttpConn.mapping_eq_none
        intro id isMapped
        rw [mapped] at isMapped
        cases isMapped

/-- What every careful action keeps. -/
theorem step {event : ProgramEvent} (accounted : Accounted program) (careful : Careful program event)
    (taken : program.step event = some next) : Accounted next := by
  cases event with
  | server event =>
    rw [Program.step] at taken
    split_ifs at taken
    obtain ⟨server, stepped, rfl⟩ := Option.map_eq_some_iff.mp taken
    exact accounted.server stepped careful.1
  | accept fd =>
    obtain ⟨server, stepped, rfl⟩ := Option.map_eq_some_iff.mp taken
    have kept := accounted.server stepped (fun slot closed => absurd closed List.not_mem_nil)
    split_ifs
    · exact kept
    · have free : (program.users fd).mapping = none := by
        by_contra held
        obtain ⟨entry, held⟩ := Option.ne_none_iff_exists'.mp held
        cases Server.taken_of_step stepped with
        | accept _ isNew => exact isNew (accounted.due fd entry held).1
        | close _ event_eq => simp at event_eq
      apply (kept.setUser _).setUnfinished
      · rw [setUser_self]
        exact free
      · rfl
  | read available =>
    rw [Program.step] at taken
    split at taken
    · next fd rest batch =>
      obtain ⟨server, stepped, rfl⟩ := Option.map_eq_some_iff.mp taken
      have spared := careful.1
      rw [Program.closes, Server.front_of_batch batch, List.flatMap_singleton] at spared
      have outside := HttpConn.outside_readOnce (program.users fd) available
      exact (accounted.server stepped spared).setUser (HttpConn.mapping_congr
        (congrArg Outside.fileAddress outside) (congrArg Outside.fileStat outside))
    · cases taken
  | write results =>
    rw [Program.step] at taken
    split at taken
    · next batch => exact accounted.writeUser batch careful taken
    · cases taken
  | processRead slot disk => exact accounted.processRead careful taken
  | respond slot code =>
    rw [Program.step] at taken
    split_ifs at taken
    obtain ⟨server, stepped, rfl⟩ := Option.map_eq_some_iff.mp taken
    have kept := (accounted.server stepped careful.1).setUser
      ((program.users slot).respond_mapping program.registry code)
    exact ⟨kept.balanced, kept.due, kept.misused⟩

end Accounted

/-- In every run whose steps are careful, the file mappings that `do_request` has made and that are not
unmapped yet are those of the open connections with an unfinished response, with the sizes they were mapped
with, and `munmap` has been called for nothing else. -/
theorem mappings_referenced (clock : ℕ) (registry : Registry) (events : List ProgramEvent) (program : Program)
    (careful : Guarded Program.step Careful (initial clock registry) events)
    (ran : run Program.step (initial clock registry) events = some program) : program.MappingsReferenced :=
  (invariant_of_guarded (fun _ _ _ accounted careful taken => accounted.step careful taken)
    (accounted_initial clock registry) careful ran).mappingsReferenced

/-! ## A file for one client -/

/-- A site with one file. -/
private def onlyFile (opens : Bool) : Disk where
  stat path := if path = docRoot ++ ascii "/a" then some ⟨5, true, false⟩ else none
  query _ := 0
  opens := opens

/-- A client connects and its request is processed. -/
private def fileRequested (opens : Bool) : List ProgramEvent :=
  [.server (.epollWait [.listen]), .accept 5, .server .endBatch, .server (.epollWait [.client 5 .readable]),
    .read (ascii "GET /a HTTP/1.1\r\n\r\n"), .server .endBatch, .server .take,
    .processRead 5 (onlyFile opens), .respond 5 .fileRequest]

/-- A response that is sent in part. -/
theorem mappings_referenced_part : ∃ program : Program,
    run Program.step (initial 0 (.loaded [])) (fileRequested true ++
      [.server (.epollWait [.client 5 .writable]), .write [.sent 40, .again]]) = some program ∧
    program.MappingsReferenced := by
  obtain ⟨program, ran⟩ := Option.isSome_iff_exists.mp (show (run Program.step (initial 0 (.loaded []))
    (fileRequested true ++ [.server (.epollWait [.client 5 .writable]), .write [.sent 40, .again]])).isSome by
      decide +kernel)
  exact ⟨program, ran, mappings_referenced 0 (.loaded []) _ program (by decide +kernel) ran⟩

/-- The client hangs up before the response is sent, and the mapping stays behind; or the file cannot be
opened, and the end of the response unmaps `MAP_FAILED`. -/
theorem mapping_leaked : ∃ leaked failed : Program,
    run Program.step (initial 0 (.loaded [])) (fileRequested true ++
      [.server (.epollWait [.client 5 .hangup]), .server .hangup]) = some leaked ∧
    leaked.mappings.live = [(0, 5)] ∧ leaked.server.openFds = [] ∧ ¬leaked.MappingsReferenced ∧
    run Program.step (initial 0 (.loaded [])) (fileRequested false ++
      [.server (.epollWait [.client 5 .writable]), .write [.error]]) = some failed ∧
    failed.misused = [(.failed, 5)] ∧ ¬failed.MappingsReferenced := by
  have lost : ∀ program : Program, program.mappings.live = [(0, 5)] → program.server.openFds = [] →
      ¬program.MappingsReferenced := by
    rintro program live closed ⟨exact, _⟩
    obtain ⟨slot, isOpen, _⟩ := (exact 0 5).mp (live ▸ List.mem_singleton_self _)
    rw [closed] at isOpen
    cases isOpen
  have live : ((run Program.step (initial 0 (.loaded [])) (fileRequested true ++
      [.server (.epollWait [.client 5 .hangup]), .server .hangup])).get (by decide +kernel)).mappings.live =
        [(0, 5)] := by decide +kernel
  have closed : ((run Program.step (initial 0 (.loaded [])) (fileRequested true ++
      [.server (.epollWait [.client 5 .hangup]), .server .hangup])).get (by decide +kernel)).server.openFds =
        [] := by decide +kernel
  have misused : ((run Program.step (initial 0 (.loaded [])) (fileRequested false ++
      [.server (.epollWait [.client 5 .writable]), .write [.error]])).get (by decide +kernel)).misused =
        [(.failed, 5)] := by decide +kernel
  refine ⟨_, _, (Option.some_get _).symm, live, closed, lost _ live closed, (Option.some_get _).symm, misused,
    fun referenced => ?_⟩
  cases misused.symm.trans referenced.2

end Program

end WebServ.Http
