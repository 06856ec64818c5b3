import WebServ.Soundness.ResponseReader
import WebServ.Soundness.ResponseWriter
import WebServ.Soundness.Session

/-! # What a client receives for its requests

The session of a kept connection together with the bytes that its client has received. Three results meet here:
the requests are processed in their turn, a prepared response is the announced head and the file, and a response
whose head is interrupted once at most is sent as it was prepared. So the client, which cuts its requests as it
likes, reads back the files it has asked for, in the order of its requests.
-/

namespace WebServ.Http

open WebServ.Text WebServ.Machine

/-- The memory at an address shows the bytes. -/
def Shows (content : FileAddress → ℤ → UInt8) (address : FileAddress) (bytes : Bytes) : Prop :=
  ∀ index (bound : index < bytes.length), content address index = bytes[index]

/-- The files, and what the system calls make of them: `stat` tells the length of a file, and a mapping shows
its contents. -/
structure Site where
  tree : FileTree
  file : Bytes → Bytes
  content : FileAddress → ℤ → UInt8
  size : ∀ path fileStat, tree.stat path = some fileStat → (file path).length = fileStat.size
  maps : ∀ path fileStat, tree.stat path = some fileStat → fileStat.size ≠ 0 →
    Shows content (tree.mmap path) (file path)

/-- The file a request names. -/
def Request.asked (file : Bytes → Bytes) (request : Request) : Bytes := file (docRoot ++ request.page)

/-- The response the file of a request is due. -/
def Request.due (file : Bytes → Bytes) (request : Request) : Response :=
  HttpConn.answer true 200 ok200Title (request.asked file)

namespace HttpConn

/-- The results of `writev` that the operating system may give. -/
def Admits (conn : HttpConn) : WritevResult → Prop
  | .sent count => 0 < count ∧ count ≤ conn.offered.length
  | _ => True

instance (conn : HttpConn) (result : WritevResult) : Decidable (conn.Admits result) :=
  match result with
  | .sent _ => inferInstanceAs (Decidable (_ ∧ _))
  | .again => isTrue trivial
  | .error => isTrue trivial

/-- The bytes that a call of `writev` takes from the iovecs. -/
def taken (conn : HttpConn) (content : FileAddress → ℤ → UInt8) : WritevResult → Bytes
  | .sent count => (conn.offered.take count).map (Pointer.value conn content)
  | _ => []

/-- A `writev` takes the rest of the head, or it is the first of its response. -/
def InterruptsOnce (conn : HttpConn) : WritevResult → Prop
  | .sent count => conn.bytesHaveSend = 0 ∨ (conn.writeIdx : ℤ) ≤ conn.bytesHaveSend + count
  | _ => True

instance (conn : HttpConn) (result : WritevResult) : Decidable (conn.InterruptsOnce result) :=
  match result with
  | .sent _ => inferInstanceAs (Decidable (_ ∨ _))
  | .again => isTrue trivial
  | .error => isTrue trivial

end HttpConn

/-- A session, and the bytes that have reached the client. -/
structure Exchange where
  session : Session
  received : Bytes

namespace Exchange

/-- Nothing has reached the client yet. -/
def initial (start : HttpConn) (registry : Registry) (incoming : List Bytes) : Exchange where
  session := .initial start registry incoming
  received := []

/-- The operating system may give the result. -/
def Admits (exchange : Exchange) : SessionEvent → Prop
  | .writev result => exchange.session.conn.Admits result
  | _ => True

instance (exchange : Exchange) (event : SessionEvent) : Decidable (exchange.Admits event) :=
  match event with
  | .writev result => inferInstanceAs (Decidable (exchange.session.conn.Admits result))
  | .read => isTrue trivial
  | .writeNothing => isTrue trivial

/-- The bytes that an action sends. -/
def taken (site : Site) (exchange : Exchange) : SessionEvent → Bytes
  | .writev result => exchange.session.conn.taken site.content result
  | _ => []

/-- One action of the server. -/
def step (site : Site) (query : Bytes → ℤ) (exchange : Exchange) (event : SessionEvent) : Option Exchange :=
  if exchange.Admits event then
    (exchange.session.step site.tree query event).map fun session =>
      ⟨session, exchange.received ++ exchange.taken site event⟩
  else none

/-- The head of a response is interrupted once at most. -/
def InterruptsOnce (exchange : Exchange) : SessionEvent → Prop
  | .writev result => exchange.session.conn.InterruptsOnce result
  | _ => True

instance (exchange : Exchange) (event : SessionEvent) : Decidable (exchange.InterruptsOnce event) :=
  match event with
  | .writev result => inferInstanceAs (Decidable (exchange.session.conn.InterruptsOnce result))
  | .read => isTrue trivial
  | .writeNothing => isTrue trivial

end Exchange

/-! ## A response that is prepared -/

/-- The bytes of a mapped file. -/
theorem Shows.cells {content : FileAddress → ℤ → UInt8} {address : FileAddress} {bytes : Bytes}
    (shows : Shows content address bytes) (conn : HttpConn) :
    (cells (.file address 0) bytes.length).map (Pointer.value conn content) = bytes := by
  apply List.ext_getElem
  · rw [List.length_map, cells_length]
  · intro index _ bound
    rw [← shows index bound]
    simp only [Http.cells, List.getElem_map, List.getElem_range, Pointer.plus, Pointer.value, zero_add]

namespace HttpConn

/-- Nothing of a response is written or sent. -/
def Unsent (conn : HttpConn) : Prop := conn.writeIdx = 0 ∧ conn.bytesHaveSend = 0

theorem unsent_of_outside {conn after : HttpConn} (unsent : conn.Unsent)
    (writeIdx : after.outside.writeIdx = conn.outside.writeIdx)
    (bytesHaveSend : after.outside.bytesHaveSend = conn.outside.bytesHaveSend) : after.Unsent :=
  ⟨writeIdx.trans unsent.1, bytesHaveSend.trans unsent.2⟩

theorem Unsent.readOnce {conn : HttpConn} (unsent : conn.Unsent) (available : Bytes) :
    (conn.readOnce available).2.Unsent := by
  have same := outside_readOnce conn available
  exact unsent_of_outside unsent (congrArg Outside.writeIdx same) (congrArg Outside.bytesHaveSend same)

theorem Unsent.processRead {conn after : HttpConn} {result : ReadResult} (unsent : conn.Unsent)
    (read : conn.processRead = some (result, after)) : after.Unsent := by
  have same := outside_of_processRead read
  have writeIdx := congrArg Outside.writeIdx same
  have bytesHaveSend := congrArg Outside.bytesHaveSend same
  split_ifs at writeIdx bytesHaveSend
  · exact unsent_of_outside unsent writeIdx bytesHaveSend
  · exact unsent_of_outside unsent writeIdx bytesHaveSend

/-- `do_request` touches nothing that is sent, and a file it finds is the one at the path it leaves. -/
theorem Unsent.doRequest {conn : HttpConn} {tree : FileTree} {query : Bytes → ℤ} {registry : Registry}
    {outcome : Outcome} (unsent : conn.Unsent) (ran : conn.doRequest tree query registry = some outcome) :
    outcome.conn.Unsent ∧ ∃ path, outcome.conn.realFile.cstr 0 = some path ∧
      (outcome.code = .fileRequest → tree.stat path = some outcome.conn.fileStat ∧
        outcome.conn.fileAddress = tree.mmap path) := by
  obtain ⟨realFile, _, _, _, after, _, routed, _, _, _, _, answered, _, routes, served⟩ := doRequest_eq_some ran
  have afterUnsent : after.2.Unsent := by
    rw [cgiPart] at answered
    split_ifs at answered
    · obtain ⟨_, _, _, _, _, same, _⟩ := cgiRequest_eq_some answered
      rw [same]
      exact unsent
    · cases answered
      exact unsent
  have routedUnsent : routed.Unsent := by
    rw [routeFile_frame routes]
    exact afterUnsent
  obtain ⟨path, found, _⟩ := serveFile_eq_some served
  have answer := serveFile_answer found served
  split at answer
  · obtain ⟨code, same⟩ := answer
    rw [same, code]
    exact ⟨routedUnsent, path, found, by simp⟩
  · next fileStat stat =>
    rcases answer with ⟨_, code, same⟩ | ⟨_, code, same⟩ | ⟨_, _, code, same⟩
    · rw [same, code]
      exact ⟨routedUnsent, path, found, by simp⟩
    · rw [same, code]
      exact ⟨routedUnsent, path, found, by simp⟩
    · rw [same]
      exact ⟨routedUnsent, path, found, fun _ => ⟨stat, rfl⟩⟩

/-- The response to a request for the file at a path has been built. -/
def Built (conn : HttpConn) (tree : FileTree) (path : Bytes) : Prop :=
  ∃ made : HttpConn, made.processWrite .fileRequest = (true, conn) ∧ made.Unsent ∧
    tree.stat path = some made.fileStat ∧ made.fileAddress = tree.mmap path

/-- The response with the bytes of a file is there to be sent. -/
def Ready (conn : HttpConn) (content : FileAddress → ℤ → UInt8) (bytes : Bytes) : Prop :=
  ∃ made : HttpConn, made.processWrite .fileRequest = (true, conn) ∧ made.Unsent ∧
    bytes.length = made.fileStat.size ∧ Shows content made.fileAddress bytes

/-- What `process_read` and `do_request` leave behind. -/
theorem Unsent.answerRead {conn after : HttpConn} {tree : FileTree} {query : Bytes → ℤ}
    {registry users : Registry} {result : ReadResult} {ret : HttpCode} (unsent : conn.Unsent)
    (outcome : result = .code .noRequest ∨ result = .code .badRequest ∨ result = .callDoRequest)
    (answered : HttpConn.answerRead tree query registry (result, conn) = some (ret, after, users)) :
    after.Unsent ∧ (ret = .fileRequest → ∃ path, after.realFile.cstr 0 = some path ∧
      tree.stat path = some after.fileStat ∧ after.fileAddress = tree.mmap path) := by
  rcases outcome with rfl | rfl | rfl
  · cases answered
    exact ⟨unsent, by simp⟩
  · cases answered
    exact ⟨unsent, by simp⟩
  · obtain ⟨outcome, ran, same⟩ := Option.map_eq_some_iff.mp answered
    cases same
    obtain ⟨kept, path, found, file⟩ := unsent.doRequest ran
    exact ⟨kept, fun isFile => ⟨path, found, file isFile⟩⟩

/-- A call of `process` leaves nothing to send, or the response to a request for a file. -/
theorem Unsent.process {conn : HttpConn} {tree : FileTree} {query : Bytes → ℤ} {registry : Registry}
    {done : Processed} (unsent : conn.Unsent) (ran : conn.process tree query registry = some done) :
    (done.written = none → done.conn.Unsent) ∧
      ∀ path, done.written = some true → done.code = .fileRequest → done.conn.realFile.cstr 0 = some path →
        done.conn.Built tree path := by
  obtain ⟨⟨result, called⟩, read, _⟩ := Option.bind_eq_some_iff.mp ran
  obtain ⟨ret, after, users, answered, rfl⟩ := process_eq_some read ran
  obtain ⟨kept, file⟩ := (unsent.processRead read).answerRead (processRead_result read) answered
  rw [respond]
  split_ifs with pending
  · exact ⟨fun _ => kept, by simp⟩
  · refine ⟨by simp, fun path written isFile found => ?_⟩
    dsimp only at written isFile found ⊢
    subst isFile
    obtain ⟨there, isThere, stat, address⟩ := file rfl
    obtain ⟨_, _, _, _, _, _, frame⟩ := after.processWrite_frame .fileRequest
    rcases made : after.processWrite .fileRequest with ⟨taken, conn⟩
    rw [made] at written found frame
    cases written
    dsimp only at found frame
    have same : conn.realFile = after.realFile := by rw [frame]
    rw [if_pos rfl, same, isThere] at found
    cases found
    exact ⟨after, made, kept, stat, address⟩

/-- What the object of a response that is built has in common with what it is built from. -/
theorem processWrite_same {made conn : HttpConn} (written : made.processWrite .fileRequest = (true, conn)) :
    conn.fileStat = made.fileStat ∧ conn.linger = made.linger ∧ conn.fileAddress = made.fileAddress := by
  obtain ⟨_, _, _, _, _, _, frame⟩ := made.processWrite_frame .fileRequest
  rw [written] at frame
  dsimp only at frame
  rw [frame]
  exact ⟨rfl, rfl, rfl⟩

/-- A mapping that shows the file makes a response ready. -/
theorem Built.ready {conn : HttpConn} {tree : FileTree} {path bytes : Bytes} (built : conn.Built tree path)
    {content : FileAddress → ℤ → UInt8}
    (length : ∀ fileStat, tree.stat path = some fileStat → bytes.length = fileStat.size)
    (shows : conn.fileStat.size ≠ 0 → Shows content conn.fileAddress bytes) : conn.Ready content bytes := by
  obtain ⟨made, written, unsent, stat, -⟩ := built
  obtain ⟨_, _, address⟩ := processWrite_same written
  have nonempty := (processWrite_file written (processWrite_ivCount written)).2.2.2.2
  exact ⟨made, written, unsent, length _ stat, address ▸ shows nonempty⟩

/-- The bytes of a response that is ready. -/
theorem Ready.response {conn : HttpConn} {content : FileAddress → ℤ → UInt8} {bytes : Bytes}
    (ready : conn.Ready content bytes) (small : bytes.length < 2 ^ 31 - writeBufferSize) :
    0 < conn.writeIdx + bytes.length ∧ conn.writeIdx + bytes.length < 2 ^ 31 ∧
      OnCourse conn conn.writeIdx bytes.length conn.fileAddress 0 (conn.writeIdx + bytes.length) ∧
      (response conn.writeIdx bytes.length conn.fileAddress).map (Pointer.value conn content) =
        (answer conn.linger 200 ok200Title bytes).bytes := by
  obtain ⟨built, made, ⟨empty, unsent⟩, length, shows⟩ := ready
  have withFile : conn.ivCount = 2 := processWrite_ivCount made
  obtain ⟨same, sameLinger, sameAddress⟩ := processWrite_same made
  rw [← same] at length
  have nonempty := (processWrite_file made withFile).2.2.2.2
  have room := responseTexts_room built .fileRequest
  have written := (responseTexts_written empty .fileRequest).2
  rw [made] at written
  have size : writeBufferSize = 1024 := rfl
  have inside : conn.writeIdx < writeBufferSize := by
    rw [written.writeIdx]
    omega
  refine ⟨by omega, by omega, ?_, ?_⟩
  · rw [length]
    exact processWrite_onCourse made withFile unsent (by omega)
  · have texts : built.responseTexts .fileRequest = headTexts 200 ok200Title bytes.length conn.linger := by
      rw [responseTexts, ← same, if_pos nonempty, length, sameLinger]
    rw [answer_bytes _ _ _ _ (by omega), ← texts, ← written.described content, Http.response,
      List.map_append, sameAddress, shows.cells conn]

end HttpConn

/-! ## The whole exchange -/

namespace Exchange

/-- What the client has received: the responses to the first requests, or those and a part of one more. -/
inductive Delivered (file : Bytes → Bytes) (content : FileAddress → ℤ → UInt8) (requests : List Request)
    (exchange : Exchange) : Prop
  | between (phase : exchange.session.phase = .reading) (unsent : exchange.session.conn.Unsent)
      (received : exchange.received =
        (requests.take exchange.session.served.length).flatMap fun request => (request.due file).bytes)
  | during (phase : exchange.session.phase = .writing) (done next : List Request) (request : Request)
      (all : requests = done ++ request :: next) (answered : exchange.session.served.length = done.length + 1)
      (fits : exchange.session.conn.writeIdx + (request.asked file).length < 2 ^ 31)
      (sent rest : ℕ) (more : 0 < rest)
      (course : OnCourse exchange.session.conn exchange.session.conn.writeIdx (request.asked file).length
        exchange.session.conn.fileAddress sent rest)
      (described : (response exchange.session.conn.writeIdx (request.asked file).length
        exchange.session.conn.fileAddress).map (Pointer.value exchange.session.conn content) =
          (request.due file).bytes)
      (received : exchange.received = (done.flatMap fun request => (request.due file).bytes) ++
        (request.due file).bytes.take sent)

variable {site : Site} {tree : FileTree} {query : Bytes → ℤ} {file : Bytes → Bytes}
  {content : FileAddress → ℤ → UInt8} {requests : List Request} {exchange next : Exchange}

theorem step_eq_some {event : SessionEvent} (taken : exchange.step site query event = some next) :
    exchange.Admits event ∧ exchange.session.step site.tree query event = some next.session ∧
      next.received = exchange.received ++ exchange.taken site event := by
  rw [Exchange.step] at taken
  split_ifs at taken with admitted
  obtain ⟨session, stepped, rfl⟩ := Option.map_eq_some_iff.mp taken
  exact ⟨admitted, stepped, rfl⟩

/-- A read that completes a request: its response is ready. -/
theorem Delivered.answered {done : Processed}
    (small : ∀ request ∈ requests, (request.asked file).length < 2 ^ 31 - writeBufferSize)
    (before : exchange.received =
      (requests.take exchange.session.served.length).flatMap fun request => (request.due file).bytes)
    (ready : ∀ path, done.code = .fileRequest → done.conn.realFile.cstr 0 = some path →
      done.conn.Ready content (file path))
    (conn : next.session.conn = done.conn) (phase : next.session.phase = .writing)
    (served : next.session.served = exchange.session.served ++ [done])
    (received : next.received = exchange.received)
    (inTurn : next.session.InTurn tree requests) : next.Delivered file content requests := by
  obtain ⟨answered, later, _, all, _, _, linger, _, logged⟩ := inTurn.pending phase
  have answers := logged.served
  rw [served, List.map_append, List.map_singleton] at answers
  obtain ⟨earlier, last, rfl, first, same⟩ := List.map_eq_append_iff.mp answers.symm
  obtain ⟨request, rfl, isLast⟩ : ∃ request, last = [request] ∧ request.answer = done.answer := by
    obtain ⟨request, rest, rfl, isLast, nothing⟩ := List.map_eq_cons_iff.mp same
    exact ⟨request, by rw [List.map_eq_nil_iff.mp nothing], isLast⟩
  rw [Request.answer, Processed.answer, Prod.mk.injEq, Prod.mk.injEq] at isLast
  obtain ⟨code, _, path⟩ := isLast
  have length : earlier.length = exchange.session.served.length := by
    have lengths := congrArg List.length first
    rwa [List.length_map, List.length_map] at lengths
  have split : requests = earlier ++ request :: later := by
    rw [all, List.append_assoc, List.singleton_append]
  have short := small request (by rw [split]; exact List.mem_append_right _ List.mem_cons_self)
  obtain ⟨more, fits, course, described⟩ := (ready _ code.symm path.symm).response short
  rw [← conn] at more fits course described
  rw [linger] at described
  refine .during phase earlier later request split ?_ fits 0 _ more course described ?_
  · rw [served, List.length_append, List.length_singleton, length]
  · rw [received, before, split, ← length, List.take_left, List.take_zero, List.append_nil]

/-- A read: nothing is sent; a request is answered now, or not yet. -/
theorem Delivered.read (delivered : exchange.Delivered file content requests)
    (small : ∀ request ∈ requests, (request.asked file).length < 2 ^ 31 - writeBufferSize)
    (stepped : exchange.session.step tree query .read = some next.session)
    (received : next.received = exchange.received) (inTurn : next.session.InTurn tree requests)
    (ready : ∀ done path, next.session.served = exchange.session.served ++ [done] → done.code = .fileRequest →
      done.conn.realFile.cstr 0 = some path → done.conn.Built tree path → done.conn.Ready content (file path)) :
    next.Delivered file content requests := by
  rw [Session.step] at stepped
  split at stepped
  · next piece rest phase incoming =>
    have unsent : exchange.session.conn.Unsent ∧ exchange.received =
        (requests.take exchange.session.served.length).flatMap fun request => (request.due file).bytes := by
      cases delivered with
      | between _ unsent received => exact ⟨unsent, received⟩
      | during other =>
        rw [phase] at other
        cases other
    dsimp only at stepped
    split_ifs at stepped with arrived
    · obtain ⟨done, ran, same⟩ := Option.map_eq_some_iff.mp stepped
      obtain ⟨idle, built⟩ := (unsent.1.readOnce piece).process ran
      rw [Session.afterProcess] at same
      split at same
      · next isNone =>
        have conn : next.session.conn = done.conn := by rw [← same]
        have served : next.session.served = exchange.session.served := by rw [← same]
        refine .between (same ▸ phase) (conn ▸ idle isNone) ?_
        rw [received, served]
        exact unsent.2
      · next written isSome =>
        cases written with
        | true =>
          have served : next.session.served = exchange.session.served ++ [done] := by rw [← same]
          apply Delivered.answered small unsent.2 ?_ (by rw [← same]) (by rw [← same]; rfl) served received inTurn
          exact fun path isFile found => ready done path served isFile found (built path isSome isFile found)
        | false => exact absurd (by rw [← same]; rfl) inTurn.phase_ne_closed
    · have same := Option.some.inj stepped
      exact absurd (by rw [← same]) inTurn.phase_ne_closed
  · cases stepped

/-- The place of a byte is enough to know it while the write buffer stays as it is. -/
theorem value_congr {conn after : HttpConn} (same : after.writeBuf = conn.writeBuf)
    (content : FileAddress → ℤ → UInt8) : Pointer.value after content = Pointer.value conn content := by
  funext place
  cases place with
  | writeBuf offset => rw [Pointer.value, Pointer.value, same]
  | file address offset => rfl

theorem advanceIovecs_writeBuf (conn : HttpConn) (temp : ℕ) :
    (conn.advanceIovecs temp).writeBuf = conn.writeBuf := by
  rw [HttpConn.advanceIovecs]
  dsimp only
  split_ifs <;> rfl

/-- The bytes that a `writev` of a response on course takes. -/
theorem taken_sent {conn : HttpConn} {header length sent rest count : ℕ} {address : FileAddress} {whole : Bytes}
    (course : OnCourse conn header length address sent rest)
    (described : (response header length address).map (Pointer.value conn content) = whole) :
    whole.take sent ++ conn.taken content (.sent count) = whole.take (sent + count) := by
  rw [HttpConn.taken, course.offered, List.map_take, List.map_drop, described, List.take_add]

/-- A `writev` that does not fail: a part of the response is sent, or the rest of it. -/
theorem Delivered.writev {result : WritevResult} (delivered : exchange.Delivered file content requests)
    (due : exchange.session.phase = .writing) (linger : exchange.session.conn.linger = true)
    (ok : result ≠ .error) (admitted : exchange.session.conn.Admits result)
    (once : exchange.session.conn.InterruptsOnce result)
    (same : next.session = exchange.session.afterWritev (exchange.session.conn.writePass result))
    (received : next.received = exchange.received ++ exchange.session.conn.taken content result) :
    next.Delivered file content requests := by
  cases delivered with
  | between phase =>
    rw [due] at phase
    cases phase
  | during phase done later request all answered fits sent rest more course described before =>
    cases result with
    | error => exact absurd rfl ok
    | again =>
      have unchanged : next.session = exchange.session := same
      refine .during (unchanged ▸ phase) done later request all (unchanged ▸ answered) (unchanged ▸ fits) sent
        rest more (unchanged ▸ course) (unchanged ▸ described) ?_
      exact received.trans ((List.append_nil _).trans before)
    | sent count =>
      obtain ⟨-, enough⟩ := admitted
      have counted := course.counted
      have total := counted.total
      have bound : count ≤ rest := by
        rw [course.offered, List.length_drop, Http.response, List.length_append, cells_length,
          cells_length] at enough
        omega
      have whole : next.received = (done.flatMap fun request => (request.due file).bytes) ++
          (request.due file).bytes.take (sent + count) := by
        rw [received, before, List.append_assoc, taken_sent course described]
      have passed := counted.writePass fits bound
      by_cases goesOn : count < rest
      · rw [if_pos goesOn] at passed
        rw [passed] at same
        have conn : next.session.conn = exchange.session.conn.advanceIovecs count := by
          rw [same]
          rfl
        have advanced := counted.counted_advance fits bound
        have inHead : sent = 0 ∨ exchange.session.conn.writeIdx ≤ sent + count := by
          rw [HttpConn.InterruptsOnce, counted.bytesHaveSend] at once
          omega
        have writeIdx : next.session.conn.writeIdx = exchange.session.conn.writeIdx := by
          rw [conn]
          exact advanced.writeIdx
        have address : next.session.conn.fileAddress = exchange.session.conn.fileAddress := by
          rw [conn]
          exact advanced.fileAddress
        refine .during ?_ done later request all ?_ ?_ (sent + count) (rest - count) (by omega) ?_ ?_ whole
        · rw [same]
          exact phase
        · rw [same]
          exact answered
        · rw [writeIdx]
          exact fits
        · rw [writeIdx, address, conn]
          exact course.advance fits bound inHead
        · rw [writeIdx, address, value_congr (conn ▸ advanceIovecs_writeBuf _ _), described]
      · rw [if_neg goesOn] at passed
        rcases HttpConn.writePass_kept linger ok with ⟨start, ended⟩ | ⟨after, pending, _⟩
        · rw [ended] at same
          refine .between ?_ ?_ ?_
          · rw [same]
            rfl
          · rw [same]
            exact ⟨rfl, rfl⟩
          · have served : next.session.served = exchange.session.served := by
              rw [same]
              rfl
            have length := congrArg List.length described
            rw [List.length_map, Http.response, List.length_append, cells_length, cells_length] at length
            have first : requests.take next.session.served.length = done ++ [request] := by
              rw [served, answered, all, List.take_length_add_append]
              rfl
            rw [whole, first, List.flatMap_append, List.flatMap_singleton, List.take_of_length_le (by omega)]
        · rcases pending with pending | pending
          · rw [pending] at passed
            rcases passed with none | none <;> cases none
          · rw [pending] at passed
            rcases passed with again | again <;> cases again

/-- The session and the received bytes, in every state. -/
structure InOrder (site : Site) (requests : List Request) (exchange : Exchange) : Prop where
  inTurn : exchange.session.InTurn site.tree requests
  delivered : exchange.Delivered site.file site.content requests

theorem InOrder.step {event : SessionEvent} (inOrder : exchange.InOrder site requests)
    (small : ∀ request ∈ requests, (request.asked site.file).length < 2 ^ 31 - writeBufferSize)
    (ok : event.succeeds = true) (once : exchange.InterruptsOnce event)
    (taken : exchange.step site query event = some next) : next.InOrder site requests := by
  obtain ⟨admitted, stepped, received⟩ := step_eq_some taken
  have inTurn := inOrder.inTurn.step ok stepped
  refine ⟨inTurn, ?_⟩
  cases event with
  | read =>
    apply inOrder.delivered.read small stepped (received.trans (List.append_nil _)) inTurn
    intro done path _ _ _ built
    apply built.ready (site.size path)
    intro nonempty
    obtain ⟨made, written, _, stat, address⟩ := built
    obtain ⟨same, _, sameAddress⟩ := HttpConn.processWrite_same written
    rw [sameAddress, address]
    exact site.maps path _ stat (same ▸ nonempty)
  | writev result =>
    rw [Session.step] at stepped
    split_ifs at stepped with due
    obtain ⟨_, _, _, _, _, _, linger, _, _⟩ := inOrder.inTurn.pending due.1
    apply inOrder.delivered.writev due.1 linger ?_ admitted once (Option.some.inj stepped).symm received
    rintro rfl
    cases ok
  | writeNothing =>
    rw [Session.step] at stepped
    split_ifs at stepped with due
    cases inOrder.delivered with
    | between phase =>
      rw [due.1] at phase
      cases phase
    | during _ _ _ _ _ _ _ sent rest more course =>
      have left := course.counted.bytesToSend
      rw [due.2] at left
      omega

theorem readable_due (file : Bytes → Bytes) (request : Request) : (request.due file).Readable :=
  readable_answer true 200 _ (by decide +kernel)

/-- What the client reads at any time. -/
theorem Delivered.readAll (delivered : exchange.Delivered file content requests) :
    (Response.readAll exchange.received).1 <+: requests.map (Request.due file) ∧
      (exchange.session.phase = .reading → Response.readAll exchange.received =
        ((requests.take exchange.session.served.length).map (Request.due file), [])) := by
  have readable : ∀ some_requests : List Request,
      ∀ response ∈ some_requests.map (Request.due file), response.Readable := by
    intro some_requests response member
    obtain ⟨request, _, rfl⟩ := List.mem_map.mp member
    exact readable_due file request
  cases delivered with
  | between phase unsent received =>
    have read := Response.readAll_responses (readable (requests.take exchange.session.served.length))
      Response.read_nil
    rw [List.append_nil, List.flatMap_map] at read
    rw [received, read]
    exact ⟨(List.take_prefix _ _).map _, fun _ => rfl⟩
  | during phase done later request all answered fits sent rest more course described received =>
    have total := course.counted.total
    have length := congrArg List.length described
    rw [List.length_map, Http.response, List.length_append, cells_length, cells_length] at length
    have behind : (request.due file).bytes.drop sent ≠ [] := by
      apply List.ne_nil_of_length_pos
      rw [List.length_drop]
      omega
    have part := (readable_due file request).read_part (List.take_append_drop sent _).symm behind
    have read := Response.readAll_responses (readable done) part
    rw [List.flatMap_map] at read
    refine ⟨?_, fun other => ?_⟩
    · rw [received, read, all, List.map_append]
      exact List.prefix_append ..
    · rw [phase] at other
      cases other

/-- All requests are answered when their bytes are read and no response is on its way. -/
theorem served_length {session : Session} (inTurn : session.InTurn tree requests)
    (phase : session.phase = .reading) (nothing : session.incoming = []) :
    session.served.length = requests.length := by
  have lengths := congrArg List.length (inTurn.logged_all phase nothing).served
  rwa [List.length_map, List.length_map] at lengths

/-! ## No dead end -/

theorem toCome_read (taken : exchange.step site query .read = some next)
    (inTurn : next.session.InTurn site.tree requests) :
    next.session.toCome < exchange.session.toCome :=
  Session.toCome_read (step_eq_some taken).2.1 inTurn

/-- The rest of a response is sent at once. -/
theorem exists_writev (query : Bytes → ℤ) (inOrder : exchange.InOrder site requests)
    (phase : exchange.session.phase = .writing) :
    ∃ count next, exchange.step site query (.writev (.sent count)) = some next ∧
      exchange.InterruptsOnce (.writev (.sent count)) ∧ next.session.toCome < exchange.session.toCome := by
  cases inOrder.delivered with
  | between other =>
    rw [phase] at other
    cases other
  | during _ done later request all answered fits sent rest more course described before =>
    have counted := course.counted
    have total := counted.total
    have admitted : exchange.Admits (.writev (.sent rest)) := by
      refine ⟨more, ?_⟩
      rw [course.offered, List.length_drop, Http.response, List.length_append, cells_length, cells_length]
      omega
    have due : exchange.session.phase = .writing ∧ exchange.session.conn.bytesToSend ≠ 0 := by
      refine ⟨phase, ?_⟩
      rw [counted.bytesToSend]
      omega
    obtain ⟨_, _, _, _, _, _, linger, _, _⟩ := inOrder.inTurn.pending phase
    have passed := counted.writePass fits (Nat.le_refl rest)
    rw [if_neg (Nat.lt_irrefl rest)] at passed
    have stepped : exchange.session.step site.tree query (.writev (.sent rest)) =
        some (exchange.session.afterWritev (exchange.session.conn.writePass (.sent rest))) := if_pos due
    refine ⟨rest, ⟨exchange.session.afterWritev (exchange.session.conn.writePass (.sent rest)),
      exchange.received ++ exchange.taken site (.writev (.sent rest))⟩, ?_, ?_, ?_⟩
    · rw [Exchange.step, if_pos admitted, stepped]
      rfl
    · rw [InterruptsOnce, HttpConn.InterruptsOnce, counted.bytesHaveSend]
      omega
    · have ok : WritevResult.sent rest ≠ .error := by simp
      rcases HttpConn.writePass_kept linger ok with ⟨start, ended⟩ | ⟨after, pending, _⟩
      · rw [ended, Session.toCome, Session.toCome, if_pos phase, Session.afterWritev]
        exact Nat.lt_succ_self _
      · rcases pending with pending | pending
        · rw [pending] at passed
          rcases passed with none | none <;> cases none
        · rw [pending] at passed
          rcases passed with again | again <;> cases again

/-- An exchange can be completed from any state. -/
theorem InOrder.completes (inOrder : exchange.InOrder site requests)
    (small : ∀ request ∈ requests, (request.asked site.file).length < 2 ^ 31 - writeBufferSize) :
    ∃ events last, run (Exchange.step site query) exchange events = some last ∧
      (∀ event ∈ events, event.succeeds = true) ∧ Guarded (Exchange.step site query) InterruptsOnce exchange events ∧
      last.session.phase = .reading ∧ last.session.incoming = [] := by
  induction bound : exchange.session.toCome using Nat.strongRecOn generalizing exchange with
  | ind bound ih =>
    -- one action that does not fail, and the rest by induction
    have goesOn : ∀ event next, exchange.step site query event = some next → event.succeeds = true →
        exchange.InterruptsOnce event → next.session.toCome < exchange.session.toCome →
          ∃ events last, run (Exchange.step site query) exchange events = some last ∧
            (∀ event ∈ events, event.succeeds = true) ∧
            Guarded (Exchange.step site query) InterruptsOnce exchange events ∧
            last.session.phase = .reading ∧ last.session.incoming = [] := by
      intro event next taken ok once less
      obtain ⟨events, last, ran, succeed, guarded, ends⟩ :=
        ih next.session.toCome (bound ▸ less) (inOrder.step small ok once taken) rfl
      refine ⟨event :: events, last, (run_cons_eq_some _).mpr ⟨next, taken, ran⟩,
        List.forall_mem_cons.mpr ⟨ok, succeed⟩, ⟨once, fun other same => ?_⟩, ends⟩
      obtain rfl := Option.some.inj (taken.symm.trans same)
      exact guarded
    rcases phase : exchange.session.phase with _ | _ | _
    · by_cases nothing : exchange.session.incoming = []
      · exact ⟨[], exchange, rfl, by simp, trivial, phase, nothing⟩
      · obtain ⟨session, stepped, inTurn⟩ := inOrder.inTurn.read query phase nothing
        have taken : exchange.step site query .read = some ⟨session, exchange.received ++ []⟩ := by
          rw [Exchange.step, if_pos (show exchange.Admits .read from trivial), stepped]
          rfl
        exact goesOn .read _ taken rfl trivial (toCome_read taken inTurn)
    · obtain ⟨count, next, taken, once, less⟩ := exists_writev query inOrder phase
      exact goesOn _ next taken rfl once less
    · exact absurd phase inOrder.inTurn.phase_ne_closed

/-- A client sends any number of requests for files over a kept connection, cut into pieces none of which reaches
over the end of a request, and `writev` takes what it likes of the responses, but interrupts the head of each
once at most. The files are readable and not empty (`KeepAlive`), each mapping shows its file (`Site.maps`), and
each length with the size of the write buffer added is an `int` (`small`). At any time the complete responses that
the client can read are the files of its first requests, in order; between two responses they are those of the
requests answered so far and nothing is left over; once the bytes of the requests are read and answered they are
those of all requests; and it can always come to that. -/
theorem responses_received (site : Site) (query : Bytes → ℤ) (start : HttpConn) (registry : Registry)
    {groups : List (List Bytes)} {requests : List Request} (cuts : List.Forall₂ (Cut site.tree) groups requests)
    (small : ∀ request ∈ requests, (request.asked site.file).length < 2 ^ 31 - writeBufferSize)
    {events : List SessionEvent} (ok : ∀ event ∈ events, event.succeeds = true)
    (once : Guarded (step site query) InterruptsOnce (initial start registry groups.flatten) events)
    {final : Exchange} (ran : run (step site query) (initial start registry groups.flatten) events = some final) :
    (Response.readAll final.received).1 <+: requests.map (Request.due site.file) ∧
      (final.session.phase = .reading → Response.readAll final.received =
        ((requests.take final.session.served.length).map (Request.due site.file), [])) ∧
      (final.session.phase = .reading → final.session.incoming = [] →
        Response.readAll final.received = (requests.map (Request.due site.file), [])) ∧
      ∃ events last, run (step site query) final events = some last ∧
        (∀ event ∈ events, event.succeeds = true) ∧ Guarded (step site query) InterruptsOnce final events ∧
        last.session.phase = .reading ∧ last.session.incoming = [] := by
  have initial : (initial start registry groups.flatten).InOrder site requests :=
    ⟨Session.inTurn_between [] start rfl rfl rfl cuts rfl ⟨rfl, rfl⟩, .between rfl ⟨rfl, rfl⟩ rfl⟩
  have both := (Guarded.of_forall ok : Guarded (step site query) _ _ _).and once
  have inOrder := invariant_of_guarded (fun _ _ _ kept met taken => InOrder.step kept small met.1 met.2 taken)
    initial both ran
  obtain ⟨first, reading⟩ := inOrder.delivered.readAll
  refine ⟨first, reading, fun phase nothing => ?_, inOrder.completes small⟩
  rw [reading phase, served_length inOrder.inTurn phase nothing, List.take_length]

/-! ## Two requests for a file -/

private def helloPath : Bytes := docRoot ++ ascii "/a"

/-- A site with one file. -/
private def helloSite : Site where
  tree := ⟨fun path => if path = helloPath then some ⟨5, true, false⟩ else none, fun _ => .mapped 0⟩
  file path := if path = helloPath then ascii "hello" else []
  content _ offset := (ascii "hello")[offset.toNat]?.getD 0
  size path fileStat found := by
    dsimp only at found
    split_ifs at found with here
    cases found
    rw [if_pos here]
    rfl
  maps path fileStat found _ index bound := by
    dsimp only at found
    split_ifs at found with here
    simp only [if_pos here] at bound ⊢
    rw [Int.toNat_natCast, List.getElem?_eq_getElem bound, Option.getD_some]

private def askHello : Bytes := ascii "GET /a HTTP/1.1\r\nConnection: keep-alive\r\n\r\n"

private def helloAsked : Request :=
  (Request.empty.setLine .get (ascii "/a")).addHeader (ascii "Connection: keep-alive")

private theorem keepAlive_askHello : KeepAlive helloSite.tree askHello helloAsked := by
  have line : Plain (ascii "GET /a HTTP/1.1") := by decide +kernel
  have accepted : requestLine (visible (ascii "GET /a HTTP/1.1")) = some (some (.get, ascii "/a")) := by
    decide +kernel
  have lines : ∀ field ∈ [ascii "Connection: keep-alive"], Plain field ∧ visible field ≠ [] := by
    decide +kernel
  obtain ⟨whole, ends⟩ := parse_request line accepted lines (by decide +kernel)
  exact ⟨whole, ends, by decide +kernel, by decide +kernel, ⟨5, true, false⟩, by decide +kernel, rfl, rfl,
    by decide⟩

/-- The first request comes in two pieces, and the head of its response is interrupted. -/
private def twoHellos : List SessionEvent :=
  [.read, .read, .writev .again, .writev (.sent 20), .writev .again, .writev (.sent 44), .read,
    .writev (.sent 62), .writev (.sent 2)]

private def twoHellosRun : Option Exchange :=
  run (step helloSite fun _ => 0)
    (initial .blank (.loaded []) [askHello.take 20, askHello.drop 20, askHello]) twoHellos

/-- The client of this run reads the file twice. -/
theorem responses_received_two : ∃ final, twoHellosRun = some final ∧
    Response.readAll final.received =
      ([HttpConn.answer true 200 ok200Title (ascii "hello"), HttpConn.answer true 200 ok200Title (ascii "hello")],
        []) := by
  obtain ⟨final, ran⟩ := Option.isSome_iff_exists.mp (show twoHellosRun.isSome by decide +kernel)
  have ended : twoHellosRun.all fun final =>
      decide (final.session.phase = .reading ∧ final.session.incoming = []) := by decide +kernel
  rw [ran, Option.all_some, decide_eq_true_eq] at ended
  have first : Cut helloSite.tree [askHello.take 20, askHello.drop 20] helloAsked :=
    ⟨by decide, by decide, keepAlive_askHello⟩
  have second : Cut helloSite.tree [askHello] helloAsked := ⟨by decide, by decide, keepAlive_askHello⟩
  have received := responses_received helloSite (fun _ => 0) .blank (.loaded []) (.cons first (.cons second .nil))
    (by decide +kernel) (by decide) (by decide +kernel) ran
  exact ⟨final, ran, received.2.2.1 ended.1 ended.2⟩

end Exchange

end WebServ.Http
