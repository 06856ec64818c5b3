import WebServ.Model.Session
import WebServ.Soundness.Isolation
import WebServ.Soundness.Process

/-! # A kept connection, request after request

`init` empties the read buffer when a response is complete, so the server handles one request at a time. A
client that cuts its requests so that no read reaches over the end of one of them has them all processed,
each once and in order, and loses no byte. Bytes of a later request that arrive in the same read as the end
of an earlier one are thrown away.
-/

namespace WebServ.Http

open WebServ.Text WebServ.Machine

/-! ## Requests that end where their bytes end -/

/-- No part of the bytes but the whole is a finished request. -/
def Ends (phase : CheckState) (request : Request) (bytes : Bytes) : Prop :=
  ∀ front back known, bytes = front ++ back → parse phase request front = .finished known → back = []

/-- A proper part of a request waits for the rest. -/
theorem Ends.waiting {phase : CheckState} {request known : Request} {front back : Bytes}
    (ends : Ends phase request (front ++ back))
    (whole : parse phase request (front ++ back) = .finished known) (more : back ≠ []) :
    ∃ after recorded rest, parse phase request front = .waiting after recorded rest := by
  rw [parse_append] at whole
  cases progress : parse phase request front with
  | waiting after recorded rest => exact ⟨after, recorded, rest, rfl⟩
  | finished other => exact absurd (ends front back other rfl progress) more
  | rejected =>
    rw [progress] at whole
    cases whole
  | undefined =>
    rw [progress] at whole
    cases whole
  | body recorded rest =>
    rw [progress] at whole
    cases whole

/-- The bytes behind the first line end where the whole does. -/
theorem Ends.tail {phase next : CheckState} {request recorded : Request} {line rest : Bytes}
    (ends : Ends phase request (line ++ cr :: lf :: rest))
    (goesOn : ∀ more, parse phase request (line ++ cr :: lf :: more) = parse next recorded more) :
    Ends next recorded rest := by
  intro front back known same finished
  apply ends (line ++ cr :: lf :: front) back known
  · rw [same]
    simp only [List.append_assoc, List.cons_append]
  · rw [goesOn, finished]

/-- A complete first line is one in front of any bytes. -/
theorem splitLine_line {line : Bytes} (plain : Plain line) (rest : Bytes) :
    splitLine (line ++ cr :: lf :: rest) = .complete line rest := by
  have crlf : splitLine (cr :: lf :: rest) = .complete [] rest := by simp [splitLine, afterCr]
  rw [splitLine_plain_append plain, crlf, foldr_cons_complete, List.append_nil]

open HttpConn in
/-- A connection whose request ends with the received bytes has parsed them all when it calls
`do_request`. -/
theorem Refines.finished_checkedIdx {conn final : HttpConn} {phase : CheckState} {request known : Request}
    {rest : Bytes} (refines : Refines conn phase request rest) (reading : phase ≠ .content)
    (whole : parse phase request rest = .finished known) (ends : Ends phase request rest) {fuel : ℕ}
    {lineStatus : LineStatus}
    (ran : processReadLoop fuel lineStatus conn = some (.callDoRequest, final)) :
    final.checkedIdx = final.readIdx := by
  have lines : conn.checkState ≠ .content := refines.state ▸ reading
  fun_induction parse phase request rest generalizing conn fuel lineStatus with
  | case4 request bytes line after split method url result ih =>
    obtain ⟨rfl, plain⟩ := splitLine_complete split
    have handled := refines.requestLine_step split
    rw [result] at handled
    obtain ⟨next, handled, _, refined⟩ := handled
    have behind : Ends .header (request.setLine method url) after := by
      apply ends.tail
      intro more
      rw [parse_requestLine (splitLine_line plain more), result]
    cases fuel with
    | zero => cases ran
    | succ fuel =>
      rw [processReadLoop_line lines, refines.parseLine_complete split, if_pos rfl, handled] at ran
      exact ih refined (by decide) whole behind ran (refined.state ▸ by decide)
  | case7 request bytes line after split blank zero =>
    obtain ⟨rfl, plain⟩ := splitLine_complete split
    have handled := refines.header_step split
    rw [if_pos blank, if_neg zero] at handled
    obtain ⟨last, handled, _⟩ := handled
    have nothing : after = [] := by
      apply ends (line ++ [cr, lf]) after request
      · rw [List.append_assoc]
        rfl
      · rw [parse_header (splitLine_line plain []), if_pos blank, if_neg zero]
    cases fuel with
    | zero => cases ran
    | succ fuel =>
      rw [processReadLoop_line lines, refines.parseLine_complete split, if_pos rfl, handled] at ran
      cases ran
      obtain ⟨readIdx, checkedIdx⟩ := processLine_header_sameUnchecked
        (show (conn.endLine (conn.startLine + line.length)).checkState = .header from refines.state) handled
      have length := refines.length
      rw [nothing, List.length_append, List.length_cons, List.length_cons, List.length_nil] at length
      rw [readIdx, checkedIdx, endLine]
      exact length
  | case8 request bytes line after split field ih =>
    obtain ⟨rfl, plain⟩ := splitLine_complete split
    have handled := refines.header_step split
    rw [if_neg field] at handled
    obtain ⟨next, handled, _, refined⟩ := handled
    have behind : Ends .header (request.addHeader (visible line)) after := by
      apply ends.tail
      intro more
      rw [parse_header (splitLine_line plain more), if_neg field]
    cases fuel with
    | zero => cases ran
    | succ fuel =>
      rw [processReadLoop_line lines, refines.parseLine_complete split, if_pos rfl, handled] at ran
      exact ih refined (by decide) whole behind ran (refined.state ▸ by decide)
  | case1 => cases whole
  | case2 => cases whole
  | case3 => cases whole
  | case5 => cases whole
  | case6 => cases whole
  | case9 => cases whole

/-- A parser that waits goes on as one that gets all the bytes at once. -/
theorem parse_resume {seen rest : Bytes} {phase : CheckState} {known : Request}
    (waits : parse .requestLine .empty seen = .waiting phase known rest) (piece : Bytes) :
    parse phase known (rest ++ piece) = parse .requestLine .empty (seen ++ piece) := by
  rw [parse_append .requestLine, waits]
  rfl

/-- Bytes that end with a request still do for a parser that has got through a part of them. -/
theorem Ends.resume {seen piece rest : Bytes} {phase : CheckState} {known : Request}
    (ends : Ends .requestLine .empty (seen ++ piece))
    (waits : parse .requestLine .empty seen = .waiting phase known rest) :
    Ends phase known (rest ++ piece) := by
  intro front back request same finished
  rcases List.append_eq_append_iff.mp same with ⟨more, rfl, rfl⟩ | ⟨left, rfl, rfl⟩
  · apply ends (seen ++ more) back request (List.append_assoc ..).symm
    rw [← parse_resume waits]
    exact finished
  · have waiting := parse_waiting waits
    rw [parse_append, finished] at waiting
    cases waiting

/-! ## Receiving a request -/

/-- The connection has received the bytes of a request that is not complete. -/
structure Receiving (conn : HttpConn) (seen : Bytes) : Prop where
  read : conn.readIdx = seen.length
  path : conn.realFile = .zero
  parsed : ∃ phase known rest, phase ≠ .content ∧
    parse .requestLine .empty seen = .waiting phase known rest ∧ Refines conn phase known rest

theorem receiving_init (start : HttpConn) : Receiving start.init [] where
  read := rfl
  path := rfl
  parsed := ⟨.requestLine, .empty, [], by decide, parse_incomplete (by decide) (by simp [splitLine]) _,
    refines_init start⟩

/-- A call of `process_read` leaves the path alone. -/
theorem realFile_of_deliver {conn called : HttpConn} {piece : Bytes} {result : ReadResult}
    (read : conn.deliver piece = some (result, called)) : called.realFile = conn.realFile := by
  have kept := congrArg Outside.realFile (HttpConn.outside_of_processRead read)
  rw [HttpConn.outside_readOnce] at kept
  split_ifs at kept
  · exact kept
  · exact kept

/-- A piece that does not complete the request. -/
theorem Receiving.deliver_part {conn : HttpConn} {seen piece back : Bytes} {request : Request}
    (receiving : Receiving conn seen) (nonempty : piece ≠ [])
    (fits : (seen ++ piece).length ≤ readBufferSize)
    (whole : parse .requestLine .empty (seen ++ piece ++ back) = .finished request)
    (ends : Ends .requestLine .empty (seen ++ piece ++ back)) (more : back ≠ []) :
    (conn.readOnce piece).1 = true ∧ ∃ next, conn.deliver piece = some (.code .noRequest, next) ∧
      Receiving next (seen ++ piece) := by
  obtain ⟨phase, known, rest, reading, waits, refines⟩ := receiving.parsed
  have room : conn.readIdx + piece.length ≤ readBufferSize := by
    rw [receiving.read, ← List.length_append]
    exact fits
  obtain ⟨after, recorded, left, waiting⟩ := ends.waiting whole more
  have resumed := (parse_resume waits piece).trans waiting
  obtain ⟨readIdx, passes, extra, delivered, _, _, result⟩ := refines.deliver reading nonempty room
  rw [resumed] at result
  obtain ⟨nextReading, next, ran, kept, refined⟩ := result
  have read := delivered.trans (ran extra)
  refine ⟨(refines.readOnce nonempty room).1, next, read, ?_, ?_, ?_⟩
  · rw [kept, readIdx, receiving.read, List.length_append]
  · rw [realFile_of_deliver read, receiving.path]
  · exact ⟨after, recorded, left, nextReading, waiting, refined⟩

/-- The piece that completes the request. -/
theorem Receiving.deliver_last {conn : HttpConn} {seen piece : Bytes} {request : Request}
    (receiving : Receiving conn seen) (nonempty : piece ≠ [])
    (fits : (seen ++ piece).length ≤ readBufferSize)
    (whole : parse .requestLine .empty (seen ++ piece) = .finished request)
    (ends : Ends .requestLine .empty (seen ++ piece)) :
    (conn.readOnce piece).1 = true ∧ ∃ called, conn.deliver piece = some (.callDoRequest, called) ∧
      Records called readBufferSize .header request ∧ called.checkedIdx = called.readIdx ∧
      called.realFile = .zero := by
  obtain ⟨phase, known, rest, reading, waits, refines⟩ := receiving.parsed
  have room : conn.readIdx + piece.length ≤ readBufferSize := by
    rw [receiving.read, ← List.length_append]
    exact fits
  have resumed := (parse_resume waits piece).trans whole
  obtain ⟨_, passes, extra, delivered, _, _, result⟩ := refines.deliver reading nonempty room
  obtain ⟨received, _, appended⟩ := refines.readOnce nonempty room
  rw [resumed] at result
  obtain ⟨called, ran, records⟩ := result
  have read := delivered.trans (ran extra)
  refine ⟨received, called, read, records, ?_, ?_⟩
  · exact appended.finished_checkedIdx reading resumed (ends.resume waits) (ran extra)
  · rw [realFile_of_deliver read, receiving.path]

/-! ## Well-formed requests -/

/-- A first line in front of bytes that end with a request. -/
theorem Ends.line {phase next : CheckState} {request recorded : Request} {line rest : Bytes}
    (behind : Ends next recorded rest) (reading : phase ≠ .content) (plain : Plain line)
    (goesOn : ∀ more, parse phase request (line ++ cr :: lf :: more) = parse next recorded more) :
    Ends phase request (line ++ cr :: lf :: rest) := by
  intro front back known same finished
  cases split : splitLine front with
  | complete first more =>
    have both := splitLine_append_of_complete split back
    rw [← same, splitLine_line plain] at both
    obtain ⟨rfl, rfl⟩ := Line.complete.inj both
    obtain ⟨rfl, _⟩ := splitLine_complete split
    rw [goesOn] at finished
    exact behind more back known rfl finished
  | malformed =>
    rw [parse_incomplete reading (by simp [split])] at finished
    cases finished
  | unfinished =>
    rw [parse_incomplete reading (by simp [split])] at finished
    cases finished

/-- Header lines and the empty line behind them. -/
def headerBlock (fields : List Bytes) : Bytes :=
  fields.foldr (fun field rest => field ++ cr :: lf :: rest) [cr, lf]

theorem parse_headerBlock {fields : List Bytes} {request : Request}
    (lines : ∀ field ∈ fields, Plain field ∧ visible field ≠ [])
    (noBody : (fields.foldl (fun known field => known.addHeader (visible field)) request).contentLength = 0) :
    parse .header request (headerBlock fields) =
        .finished (fields.foldl (fun known field => known.addHeader (visible field)) request) ∧
      Ends .header request (headerBlock fields) := by
  induction fields generalizing request with
  | nil =>
    have split : splitLine [cr, lf] = .complete [] [] := by decide
    have zero : ¬request.contentLength ≠ 0 := not_not.mpr noBody
    have blank : visible [] = [] := rfl
    constructor
    · rw [headerBlock, List.foldr_nil, parse_header split, if_pos blank, if_neg zero, List.foldl_nil]
    · intro front back known same finished
      cases first : splitLine front with
      | complete line more =>
        obtain ⟨rfl, _⟩ := splitLine_complete first
        have length := congrArg List.length same
        simp only [headerBlock, List.foldr_nil, List.length_append, List.length_cons, List.length_nil] at length
        exact List.length_eq_zero_iff.mp (by omega)
      | malformed =>
        rw [parse_incomplete (by decide) (by simp [first])] at finished
        cases finished
      | unfinished =>
        rw [parse_incomplete (by decide) (by simp [first])] at finished
        cases finished
  | cons field fields ih =>
    obtain ⟨⟨plain, shows⟩, others⟩ := List.forall_mem_cons.mp lines
    obtain ⟨whole, ends⟩ := ih others noBody
    have goesOn : ∀ more, parse .header request (field ++ cr :: lf :: more) =
        parse .header (request.addHeader (visible field)) more := by
      intro more
      rw [parse_header (splitLine_line plain more), if_neg shows]
    exact ⟨(goesOn _).trans whole, ends.line (by decide) plain goesOn⟩

/-- A request line and a header block without a content length are a request that ends where they do. -/
theorem parse_request {line : Bytes} {fields : List Bytes} {method : Method} {url : Bytes}
    (plain : Plain line) (accepted : requestLine (visible line) = some (some (method, url)))
    (lines : ∀ field ∈ fields, Plain field ∧ visible field ≠ [])
    (noBody : (fields.foldl (fun known field => known.addHeader (visible field))
      (Request.empty.setLine method url)).contentLength = 0) :
    parse .requestLine .empty (line ++ cr :: lf :: headerBlock fields) =
        .finished (fields.foldl (fun known field => known.addHeader (visible field))
          (Request.empty.setLine method url)) ∧
      Ends .requestLine .empty (line ++ cr :: lf :: headerBlock fields) := by
  obtain ⟨whole, ends⟩ := parse_headerBlock lines noBody
  have goesOn : ∀ more, parse .requestLine .empty (line ++ cr :: lf :: more) =
      parse .header (Request.empty.setLine method url) more := by
    intro more
    rw [parse_requestLine (splitLine_line plain more), accepted]
  exact ⟨(goesOn _).trans whole, ends.line (by decide) plain goesOn⟩

/-- The page a request names that is no login or registration. -/
def Request.page (request : Request) : Bytes :=
  ((urlAction request.url).bind routePage).getD (request.url.take urlRoom)

/-- What `do_request` finds of a request. -/
def Request.parsed (request : Request) : Parsed :=
  ⟨request.method, request.cgi, request.linger, some request.url, request.host⟩

/-- The bytes are one whole request without body, for a kept connection, that names a readable file with
contents. -/
structure KeepAlive (tree : FileTree) (bytes : Bytes) (request : Request) : Prop where
  whole : parse .requestLine .empty bytes = .finished request
  ends : Ends .requestLine .empty bytes
  linger : request.linger = true
  noUser : ¬request.AsksCredentials
  file : ∃ fileStat, tree.stat (docRoot ++ request.page) = some fileStat ∧ fileStat.otherRead = true ∧
    fileStat.directory = false ∧ fileStat.size ≠ 0

/-- An accepted URL starts with a slash. -/
theorem requestUrl_absolute {text url : Bytes} (accepted : requestUrl text = some (some url)) :
    url.head? = some slash := by
  simp only [requestUrl, bind, Option.bind_eq_some_iff] at accepted
  obtain ⟨_, _, after, _, accepted⟩ := accepted
  split at accepted
  · cases accepted
  · next path =>
    split_ifs at accepted with relative isRoot
    · cases accepted
    · cases accepted
      rw [List.head?_append_of_ne_nil _ (by rintro rfl; cases isRoot)]
      exact not_not.mp relative
    · cases accepted
      exact not_not.mp relative

theorem requestLine_absolute {text url : Bytes} {method : Method}
    (accepted : requestLine text = some (some (method, url))) : url.head? = some slash := by
  rw [requestLine] at accepted
  split at accepted
  · cases accepted
  · split at accepted
    · cases accepted
    · obtain ⟨target, found, same⟩ := Option.map_eq_some_iff.mp accepted
      obtain ⟨path, rfl, same⟩ := Option.map_eq_some_iff.mp same
      cases same
      rw [requestTarget] at found
      split at found
      · cases found
      · split_ifs at found
        · exact requestUrl_absolute found
        · cases found

theorem addHeader_url (request : Request) (text : Bytes) : (request.addHeader text).url = request.url := by
  rw [Request.addHeader]
  split
  · split_ifs <;> rfl
  · split
    · rfl
    · split <;> rfl

theorem parse_absolute {phase : CheckState} {request known : Request} {bytes : Bytes}
    (whole : parse phase request bytes = .finished known)
    (before : phase ≠ .requestLine → request.url.head? = some slash) : known.url.head? = some slash := by
  fun_induction parse phase request bytes with
  | case4 request bytes line rest split method url result ih =>
    exact ih whole fun _ => requestLine_absolute result
  | case7 =>
    cases whole
    exact before (by decide)
  | case8 request bytes line rest split field ih =>
    apply ih whole
    intro reading
    rw [addHeader_url]
    exact before reading
  | case1 => cases whole
  | case2 => cases whole
  | case3 => cases whole
  | case5 => cases whole
  | case6 => cases whole
  | case9 => cases whole

/-! ## Answering a request -/

namespace HttpConn

/-- The members of the request and the path are the same. -/
def SameRequest (conn after : HttpConn) : Prop :=
  conn.withOutside { after.outside with realFile := conn.realFile } = after

/-- A `writev` that does not fail, on a connection that is kept: the response is complete and the connection
reset, or the request stays. -/
theorem writePass_kept {conn : HttpConn} {result : WritevResult} (linger : conn.linger = true)
    (ok : result ≠ .error) :
    (∃ start : HttpConn, conn.writePass result = (some .kept, start.init)) ∨
      ∃ after, (conn.writePass result = (none, after) ∨ conn.writePass result = (some .again, after)) ∧
        SameRequest conn after := by
  cases result with
  | again => exact .inr ⟨conn, .inr rfl, rfl⟩
  | error => exact absurd rfl ok
  | sent temp =>
    have same : SameRequest conn (conn.advanceIovecs temp) := by
      rw [advanceIovecs]
      dsimp only
      split_ifs <;> rfl
    have kept : (conn.advanceIovecs temp).linger = true := by
      rw [← same]
      exact linger
    rw [writePass]
    split_ifs
    · exact .inl ⟨_, rfl⟩
    · exact .inr ⟨_, .inl rfl, same⟩

/-- A `writev` that takes all that is left completes the response. -/
theorem writePass_all {conn : HttpConn} {temp : ℕ} (linger : conn.linger = true)
    (all : conn.bytesToSend ≤ temp) : ∃ start : HttpConn, conn.writePass (.sent temp) = (some .kept, start.init) := by
  have sent : (conn.advanceIovecs temp).linger = true ∧ (conn.advanceIovecs temp).bytesToSend ≤ 0 := by
    rw [advanceIovecs]
    dsimp only
    split_ifs
    · exact ⟨linger, by dsimp only; omega⟩
    · exact ⟨linger, by dsimp only; omega⟩
  refine ⟨(conn.advanceIovecs temp).unmap, ?_⟩
  rw [writePass, if_pos sent.2, if_pos sent.1]

/-- The response of a file with contents is written. -/
theorem processWrite_file_written {conn : HttpConn} (nonempty : conn.fileStat.size ≠ 0) :
    (conn.processWrite .fileRequest).1 = true ∧ SameRequest conn (conn.processWrite .fileRequest).2 := by
  obtain ⟨_, _, _, _, _, _, same⟩ := conn.processWrite_frame .fileRequest
  refine ⟨congrArg Prod.fst (processWrite_made nonempty), ?_⟩
  rw [same]
  rfl

end HttpConn

/-- The result of a request for a file: the response is pending, and everything the next steps depend on. -/
structure Answered (request : Request) (registry : Registry) (done : Processed) : Prop where
  code : done.code = .fileRequest
  written : done.written = some true
  registry : done.registry = registry
  parsed : done.conn.parsed = request.parsed
  path : done.conn.realFile.cstr 0 = some (docRoot ++ request.page)
  linger : done.conn.linger = true
  parsedAll : done.conn.checkedIdx = done.conn.readIdx

open HttpConn in
theorem KeepAlive.answered {tree : FileTree} {bytes : Bytes} {request : Request} {conn called : HttpConn}
    (asked : KeepAlive tree bytes request) (read : conn.processRead = some (.callDoRequest, called))
    (records : Records called readBufferSize .header request) (all : called.checkedIdx = called.readIdx)
    (zero : called.realFile = .zero) (query : Bytes → ℤ) (registry : Registry) :
    ∃ done, conn.process tree query registry = some done ∧ Answered request registry done := by
  obtain ⟨pointer, points, text, _⟩ := records.url (by decide)
  have url : called.urlText = some request.url := by rw [urlText, points, Option.bind_some, text]
  obtain ⟨action, first⟩ := urlAction_of_absolute (parse_absolute asked.whole (fun other => absurd rfl other))
  have here : called.action = some action := (action_eq url).trans first
  have noUser : ¬(called.cgi = 1 ∧ (action = '2'.toUInt8 ∨ action = '3'.toUInt8)) := by
    rintro ⟨cgi, either⟩
    apply asked.noUser
    rw [Request.AsksCredentials, first, Option.some.injEq, Option.some.injEq]
    exact ⟨records.cgi.symm.trans cgi, either⟩
  obtain ⟨realFile, outcome, path, ran, served⟩ := doRequest_defined zero url here noUser tree query registry
  have page : (routePage action).getD (request.url.take urlRoom) = request.page := by
    rw [Request.page, first, Option.bind_some]
  rw [page] at path
  obtain ⟨fileStat, found, readable, regular, nonempty⟩ := asked.file
  have answer := serveFile_answer path served
  simp only [found] at answer
  rcases answer with ⟨forbidden, _⟩ | ⟨directory, _⟩ | ⟨_, _, code, moved⟩
  · rw [readable] at forbidden
    cases forbidden
  · rw [regular] at directory
    cases directory
  · obtain ⟨_, _, unchanged, _⟩ := serveFile_eq_some served
    have size : outcome.conn.fileStat.size ≠ 0 := by rw [moved]; exact nonempty
    obtain ⟨written, same⟩ := processWrite_file_written size
    refine ⟨outcome.conn.respond outcome.registry outcome.code, ?_, ?_⟩
    · simp only [process, read, answerRead, ran, bind, Option.bind_some, Option.map_some]
    · rw [code, respond, if_neg (by decide)]
      generalize outcome.conn.processWrite .fileRequest = page at written same
      obtain ⟨_, built⟩ := page
      cases written
      rw [moved] at same
      dsimp only at same
      have request : built.parsed = called.parsed ∧ built.linger = called.linger ∧
          built.checkedIdx = called.checkedIdx ∧ built.readIdx = called.readIdx ∧
          built.realFile = realFile := by
        rw [← same]
        exact ⟨rfl, rfl, rfl, rfl, rfl⟩
      obtain ⟨parsed, linger, checkedIdx, readIdx, file⟩ := request
      constructor
      · rfl
      · rfl
      · exact unchanged
      · exact parsed.trans records.parsed
      · rw [← path, ← file]
        rfl
      · exact linger.trans (records.linger.trans asked.linger)
      · exact checkedIdx.trans (all.trans readIdx.symm)

/-! ## The whole session -/

/-- What is seen of a processed request. -/
def Processed.answer (done : Processed) : HttpCode × Parsed × Option Bytes :=
  (done.code, done.conn.parsed, done.conn.realFile.cstr 0)

/-- What is to be seen of it: the request as it was sent and the file it names. -/
def Request.answer (request : Request) : HttpCode × Parsed × Option Bytes :=
  (.fileRequest, request.parsed, some (docRoot ++ request.page))

/-- A cut of one request into the pieces that are read. -/
structure Cut (tree : FileTree) (pieces : List Bytes) (request : Request) : Prop where
  nonempty : ∀ piece ∈ pieces, piece ≠ []
  fits : pieces.flatten.length ≤ readBufferSize
  asked : KeepAlive tree pieces.flatten request

theorem KeepAlive.ne_nil {tree : FileTree} {bytes : Bytes} {request : Request}
    (asked : KeepAlive tree bytes request) : bytes ≠ [] := by
  rintro rfl
  have whole := asked.whole
  rw [parse_incomplete (by decide) (by simp [splitLine])] at whole
  cases whole

theorem Cut.ne_nil {tree : FileTree} {pieces : List Bytes} {request : Request}
    (cut : Cut tree pieces request) : pieces ≠ [] := by
  rintro rfl
  exact cut.asked.ne_nil rfl

namespace Session

/-- The requests processed so far are the given ones, in order, and nothing has been thrown away. -/
structure Logged (session : Session) (done : List Request) : Prop where
  served : session.served.map Processed.answer = done.map Request.answer
  discarded : session.discarded = 0

/-- A session in which each request is processed in its turn: all are, one is being received, or the response
to one is being sent. -/
inductive InTurn (tree : FileTree) (requests : List Request) (session : Session) : Prop
  | idle (phase : session.phase = .reading) (incoming : session.incoming = [])
      (logged : session.Logged requests)
  | receiving (done next : List Request) (request : Request) (seen : Bytes) (pieces : List Bytes)
      (later : List (List Bytes)) (all : requests = done ++ request :: next)
      (phase : session.phase = .reading) (incoming : session.incoming = pieces ++ later.flatten)
      (left : pieces ≠ []) (nonempty : ∀ piece ∈ pieces, piece ≠ [])
      (fits : (seen ++ pieces.flatten).length ≤ readBufferSize)
      (asked : KeepAlive tree (seen ++ pieces.flatten) request) (cuts : List.Forall₂ (Cut tree) later next)
      (received : Receiving session.conn seen) (logged : session.Logged done)
  | sending (done next : List Request) (later : List (List Bytes)) (all : requests = done ++ next)
      (phase : session.phase = .writing) (incoming : session.incoming = later.flatten)
      (cuts : List.Forall₂ (Cut tree) later next) (linger : session.conn.linger = true)
      (parsedAll : session.conn.checkedIdx = session.conn.readIdx) (logged : session.Logged done)

variable {tree : FileTree} {query : Bytes → ℤ} {requests : List Request} {session after : Session}

/-- Between two requests. -/
theorem inTurn_between (done : List Request) {next : List Request} {later : List (List Bytes)}
    (start : HttpConn) (all : requests = done ++ next) (phase : session.phase = .reading)
    (incoming : session.incoming = later.flatten) (cuts : List.Forall₂ (Cut tree) later next)
    (conn : session.conn = start.init) (logged : session.Logged done) : session.InTurn tree requests := by
  cases cuts with
  | nil =>
    rw [List.append_nil] at all
    exact .idle phase incoming (all ▸ logged)
  | @cons pieces request later next cut cuts =>
    exact .receiving done next request [] pieces later all phase incoming cut.ne_nil cut.nonempty cut.fits
      cut.asked cuts (conn ▸ receiving_init start) logged

/-- A read of a piece that fits is processed. -/
theorem step_read {piece : Bytes} {rest : List Bytes} (phase : session.phase = .reading)
    (incoming : session.incoming = piece :: rest) (received : (session.conn.readOnce piece).1 = true)
    (fits : session.conn.readIdx + piece.length ≤ readBufferSize) :
    session.step tree query .read =
      ((session.conn.readOnce piece).2.process tree query session.registry).map
        { session with incoming := rest }.afterProcess := by
  have all : session.unread piece = [] := by
    rw [unread]
    exact if_neg (by omega)
  rw [step, phase, incoming]
  dsimp only
  rw [if_pos received, all, List.nil_append]

/-- An answered request is added to the log, and its response is pending. -/
theorem Logged.afterProcess {done : List Request} {request : Request} {result : Processed}
    (logged : session.Logged done) (answered : Answered request session.registry result) :
    (session.afterProcess result).Logged (done ++ [request]) ∧
      (session.afterProcess result).phase = .writing ∧
      (session.afterProcess result).conn = result.conn ∧
      (session.afterProcess result).incoming = session.incoming := by
  have same : session.afterProcess result = { session with
      conn := result.conn
      registry := result.registry
      phase := .writing
      served := session.served ++ [result] } := by
    rw [Session.afterProcess, answered.written]
    rfl
  rw [same]
  refine ⟨⟨?_, logged.discarded⟩, rfl, rfl, rfl⟩
  rw [List.map_append, List.map_append, logged.served, List.map_singleton, List.map_singleton,
    Processed.answer, answered.code, answered.parsed, answered.path, Request.answer]

/-- A piece that completes a request, or does not. -/
theorem InTurn.read (query : Bytes → ℤ) (inTurn : session.InTurn tree requests) (due : session.phase = .reading)
    (more : session.incoming ≠ []) :
    ∃ after, session.step tree query .read = some after ∧ after.InTurn tree requests := by
  cases inTurn with
  | idle _ incoming => exact absurd incoming more
  | sending _ _ _ _ phase =>
    rw [due] at phase
    cases phase
  | receiving done next request seen pieces later all phase incoming left nonempty fits asked cuts received
      logged =>
    cases pieces with
    | nil => exact absurd rfl left
    | cons piece pieces =>
      obtain ⟨some_bytes, nonempty⟩ := List.forall_mem_cons.mp nonempty
      rw [List.flatten_cons, ← List.append_assoc] at fits asked
      have room : (seen ++ piece).length ≤ readBufferSize := by
        rw [List.length_append] at fits
        omega
      have here : session.conn.readIdx + piece.length ≤ readBufferSize := by
        rw [received.read, ← List.length_append]
        exact room
      by_cases last : pieces = []
      · subst last
        rw [List.flatten_nil, List.append_nil] at asked
        obtain ⟨arrived, called, read, records, parsedAll, path⟩ :=
          received.deliver_last some_bytes room asked.whole asked.ends
        obtain ⟨result, ran, answered⟩ := asked.answered read records parsedAll path query session.registry
        obtain ⟨logged', phase', conn', incoming'⟩ :=
          Logged.afterProcess (show Logged { session with incoming := later.flatten } done from
            ⟨logged.served, logged.discarded⟩) answered
        refine ⟨{ session with incoming := later.flatten }.afterProcess result, ?_, ?_⟩
        · rw [step_read phase incoming arrived here, ran]
          rfl
        · apply InTurn.sending (done ++ [request]) next later _ phase' incoming' cuts _ _ logged'
          · rw [all, List.append_assoc, List.singleton_append]
          · rw [conn']
            exact answered.linger
          · rw [conn']
            exact answered.parsedAll
      · have behind : pieces.flatten ≠ [] := by
          intro empty
          obtain ⟨first, others, rfl⟩ := List.exists_cons_of_ne_nil last
          rw [List.flatten_cons] at empty
          exact nonempty first List.mem_cons_self (List.append_eq_nil_iff.mp empty).1
        obtain ⟨arrived, partly, read, received⟩ :=
          received.deliver_part some_bytes room asked.whole asked.ends behind
        have ran : (session.conn.readOnce piece).2.process tree query session.registry =
            some (partly.respond session.registry .noRequest) := by
          rw [HttpConn.process, show (session.conn.readOnce piece).2.processRead = _ from read]
          rfl
        refine ⟨{ session with incoming := pieces ++ later.flatten, conn := partly }, ?_, ?_⟩
        · rw [step_read phase incoming arrived here, ran]
          rfl
        · exact .receiving done next request (seen ++ piece) pieces later all phase rfl last nonempty fits
            asked cuts received ⟨logged.served, logged.discarded⟩

/-- While a response is sent, the requests answered so far come first. -/
theorem InTurn.pending (inTurn : session.InTurn tree requests) (due : session.phase = .writing) :
    ∃ done next later, requests = done ++ next ∧ session.incoming = later.flatten ∧
      List.Forall₂ (Cut tree) later next ∧ session.conn.linger = true ∧
      session.conn.checkedIdx = session.conn.readIdx ∧ session.Logged done := by
  cases inTurn with
  | idle phase =>
    rw [due] at phase
    cases phase
  | receiving _ _ _ _ _ _ _ phase =>
    rw [due] at phase
    cases phase
  | sending done next later all _ incoming cuts linger parsedAll logged =>
    exact ⟨done, next, later, all, incoming, cuts, linger, parsedAll, logged⟩

/-- The connection is reset when all that was received is parsed. -/
theorem InTurn.reset (inTurn : session.InTurn tree requests) (due : session.phase = .writing)
    (start : HttpConn) :
    { session with
      conn := start.init
      phase := .reading
      discarded := session.discarded + session.unparsed }.InTurn tree requests := by
  obtain ⟨done, next, later, all, incoming, cuts, _, parsedAll, logged⟩ := inTurn.pending due
  have parsed : session.unparsed = 0 := by rw [unparsed, parsedAll, Nat.sub_self]
  rw [parsed]
  apply inTurn_between done start all
  · rfl
  · exact incoming
  · exact cuts
  · rfl
  · exact ⟨logged.served, logged.discarded⟩

/-- A `writev` that does not fail: the response is complete, or stays pending. -/
theorem InTurn.writev {result : WritevResult} (inTurn : session.InTurn tree requests)
    (due : session.phase = .writing) (ok : result ≠ .error) :
    (session.afterWritev (session.conn.writePass result)).InTurn tree requests := by
  obtain ⟨done, next, later, all, incoming, cuts, linger, parsedAll, logged⟩ := inTurn.pending due
  rcases HttpConn.writePass_kept linger ok with ⟨start, ended⟩ | ⟨conn, pending, same⟩
  · rw [ended]
    exact inTurn.reset due start
  · have unchanged : conn.linger = session.conn.linger ∧ conn.checkedIdx = session.conn.checkedIdx ∧
        conn.readIdx = session.conn.readIdx := by
      rw [← same]
      exact ⟨rfl, rfl, rfl⟩
    obtain ⟨linger', checkedIdx, readIdx⟩ := unchanged
    have here : session.afterWritev (session.conn.writePass result) = { session with conn } := by
      rcases pending with pending | pending <;> rw [pending, afterWritev]
    rw [here]
    apply InTurn.sending done next later all
    · exact due
    · exact incoming
    · exact cuts
    · exact linger'.trans linger
    · rw [checkedIdx, readIdx]
      exact parsedAll
    · exact ⟨logged.served, logged.discarded⟩

/-- What every action without an error keeps. -/
theorem InTurn.step {event : SessionEvent} (inTurn : session.InTurn tree requests)
    (ok : event.succeeds = true) (taken : session.step tree query event = some after) :
    after.InTurn tree requests := by
  cases event with
  | read =>
    have due : session.phase = .reading ∧ session.incoming ≠ [] := by
      rw [Session.step] at taken
      split at taken
      · next phase incoming => exact ⟨phase, incoming ▸ List.cons_ne_nil _ _⟩
      · cases taken
    obtain ⟨next, ran, kept⟩ := inTurn.read query due.1 due.2
    obtain rfl := Option.some.inj (ran.symm.trans taken)
    exact kept
  | writev result =>
    rw [Session.step] at taken
    split_ifs at taken with due
    cases taken
    apply inTurn.writev due.1
    rintro rfl
    cases ok
  | writeNothing =>
    rw [Session.step] at taken
    split_ifs at taken with due
    cases taken
    exact inTurn.reset due.1 session.conn

/-! ## No dead end -/

/-- The bytes to come, and whether a response is on its way. -/
def toCome (session : Session) : ℕ :=
  2 * session.incoming.flatten.length + if session.phase = .writing then 1 else 0

/-- The server closes no connection while it processes the requests in their turn. -/
theorem InTurn.phase_ne_closed (inTurn : session.InTurn tree requests) : session.phase ≠ .closed := by
  cases inTurn with
  | idle phase | receiving _ _ _ _ _ _ _ phase | sending _ _ _ _ phase =>
    rw [phase]
    decide

/-- When all is read and answered, all requests are processed. -/
theorem InTurn.logged_all (inTurn : session.InTurn tree requests) (due : session.phase = .reading)
    (nothing : session.incoming = []) : session.Logged requests := by
  cases inTurn with
  | idle _ _ logged => exact logged
  | receiving _ _ _ _ _ _ _ _ incoming left =>
    rw [nothing] at incoming
    exact absurd (List.append_eq_nil_iff.mp incoming.symm).1 left
  | sending _ _ _ _ phase =>
    rw [due] at phase
    cases phase

/-- A read takes a byte at least. -/
theorem unread_length {piece : Bytes} (arrived : (session.conn.readOnce piece).1 = true) :
    (session.unread piece).flatten.length < piece.length := by
  have some_bytes : 0 < readBufferSize - session.conn.readIdx ∧ 0 < piece.length := by
    by_contra none
    have nothing : (piece.take (readBufferSize - session.conn.readIdx)).length = 0 := by
      rw [List.length_take]
      omega
    rw [HttpConn.readOnce] at arrived
    simp only [nothing, ↓reduceIte, ite_self, Bool.false_eq_true] at arrived
  rw [unread]
  split_ifs with more
  · rw [List.flatten_singleton, List.length_drop]
    omega
  · rw [List.flatten_nil, List.length_nil]
    omega

/-- After a read there is less to come, whether or not it completes a request. -/
theorem toCome_read (taken : session.step tree query .read = some after) (inTurn : after.InTurn tree requests) :
    after.toCome < session.toCome := by
  rw [Session.step] at taken
  split at taken
  · next piece rest phase incoming =>
    dsimp only at taken
    split_ifs at taken with arrived
    · obtain ⟨done, ran, same⟩ := Option.map_eq_some_iff.mp taken
      have left : after.incoming = session.unread piece ++ rest := by
        rw [← same, Session.afterProcess]
        split <;> rfl
      have shorter := unread_length arrived
      have reading : ¬session.phase = .writing := by
        rw [phase]
        decide
      rw [toCome, toCome, left, incoming, if_neg reading, List.flatten_append, List.flatten_cons,
        List.length_append, List.length_append]
      split_ifs <;> omega
    · have same := Option.some.inj taken
      exact absurd (by rw [← same]) inTurn.phase_ne_closed
  · cases taken

/-- A response on its way can be completed. -/
theorem exists_writev (query : Bytes → ℤ) (inTurn : session.InTurn tree requests)
    (due : session.phase = .writing) :
    ∃ event next, event.succeeds = true ∧ session.step tree query event = some next ∧
      next.toCome < session.toCome := by
  obtain ⟨_, _, _, _, _, _, linger, _, _⟩ := inTurn.pending due
  by_cases nothing : session.conn.bytesToSend = 0
  · refine ⟨.writeNothing, _, rfl, if_pos ⟨due, nothing⟩, ?_⟩
    rw [toCome, toCome, if_pos due]
    exact Nat.lt_succ_self _
  · obtain ⟨start, ended⟩ := HttpConn.writePass_all linger (Int.self_le_toNat session.conn.bytesToSend)
    refine ⟨.writev (.sent session.conn.bytesToSend.toNat), _, rfl, if_pos ⟨due, nothing⟩, ?_⟩
    rw [ended, toCome, toCome, if_pos due, afterWritev]
    exact Nat.lt_succ_self _

/-- From every state it comes to that all is read and answered. -/
theorem InTurn.completes (query : Bytes → ℤ) (inTurn : session.InTurn tree requests) :
    ∃ events last, (∀ event ∈ events, event.succeeds = true) ∧
      run (Session.step tree query) session events = some last ∧ last.phase = .reading ∧
      last.incoming = [] ∧ last.Logged requests := by
  induction bound : session.toCome using Nat.strongRecOn generalizing session with
  | ind bound ih =>
    -- one action that does not fail, and the rest by induction
    have goesOn : ∀ event next, event.succeeds = true → session.step tree query event = some next →
        next.toCome < session.toCome → ∃ events last, (∀ event ∈ events, event.succeeds = true) ∧
          run (Session.step tree query) session events = some last ∧ last.phase = .reading ∧
          last.incoming = [] ∧ last.Logged requests := by
      intro event next ok taken less
      obtain ⟨events, last, succeed, ran, ends⟩ := ih next.toCome (bound ▸ less) (inTurn.step ok taken) rfl
      exact ⟨event :: events, last, List.forall_mem_cons.mpr ⟨ok, succeed⟩,
        (run_cons_eq_some _).mpr ⟨next, taken, ran⟩, ends⟩
    cases phase : session.phase with
    | reading =>
      by_cases nothing : session.incoming = []
      · exact ⟨[], session, by simp, rfl, phase, nothing, inTurn.logged_all phase nothing⟩
      · obtain ⟨next, taken, kept⟩ := inTurn.read query phase nothing
        exact goesOn .read next rfl taken (toCome_read taken kept)
    | writing =>
      obtain ⟨event, next, ok, taken, less⟩ := exists_writev query inTurn phase
      exact goesOn event next ok taken less
    | closed => exact absurd phase inTurn.phase_ne_closed

end Session

end WebServ.Http
