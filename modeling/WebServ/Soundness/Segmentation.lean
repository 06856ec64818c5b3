import WebServ.Soundness.RequestParser

/-! # Requests without a body are read alike however they are delivered

An observer of the parser sees the result of `process_read` and, when `do_request` is reached, what
the request asks for. On a stream whose header block leaves no content length, this observation is
a function of the stream alone: `Progress.observation` computes it from the stream parser, whose
`parse_append` absorbs the cuts, and the refinement relation carries it to the read buffer.
-/

namespace WebServ.Http

open WebServ.Text HttpConn

/-- What `do_request` finds in a connection whose request has been read. -/
structure Parsed where
  method : Method
  cgi : ℕ
  linger : Bool
  url : Option Bytes
  host : Option Bytes
deriving DecidableEq, Repr

/-- The request in the fields and strings of a connection. -/
def HttpConn.parsed (conn : HttpConn) : Parsed where
  method := conn.method
  cgi := conn.cgi
  linger := conn.linger
  url := conn.url.bind conn.readBuf.cstr
  host := conn.host.bind conn.readBuf.cstr

/-- The result of the parser, with the request when `do_request` is reached. -/
def observe (outcome : Option (ReadResult × HttpConn)) : Option (ReadResult × Option Parsed) :=
  outcome.map fun (result, conn) =>
    (result, if result = .callDoRequest then some conn.parsed else none)

/-- The observation that belongs to the progress of the stream parser outside a body. -/
def Progress.observation : Progress → Option (ReadResult × Option Parsed)
  | .waiting _ _ _ => some (.code .noRequest, none)
  | .rejected => some (.code .badRequest, none)
  | .undefined => none
  | .finished request => some (.callDoRequest,
      some ⟨request.method, request.cgi, request.linger, some request.url, request.host⟩)
  | .body _ _ => none

/-- The recorded strings are read back. -/
theorem Records.parsed {conn : HttpConn} {limit : ℕ} {request : Request}
    (records : Records conn limit .header request) :
    conn.parsed =
      ⟨request.method, request.cgi, request.linger, some request.url, request.host⟩ := by
  obtain ⟨url, atUrl, readUrl, _⟩ := records.url (by decide)
  have recorded := records.host
  simp only [HttpConn.parsed, records.method, records.cgi, records.linger, atUrl, Option.bind_some,
    readUrl, Parsed.mk.injEq, true_and]
  cases host : request.host with
  | none =>
    rw [host] at recorded
    rw [recorded, Option.bind_none]
  | some text =>
    rw [host] at recorded
    obtain ⟨position, atHost, readHost, _⟩ := recorded
    rw [atHost, Option.bind_some, readHost]

/-- The parser has nothing more to do on bytes it waits with. -/
theorem parse_waiting {phase after : CheckState} {request known : Request} {bytes rest : Bytes}
    (waits : parse phase request bytes = .waiting after known rest) :
    parse after known rest = .waiting after known rest := by
  have resumed := parse_append phase request bytes []
  rw [List.append_nil, waits, Progress.resume, List.append_nil] at resumed
  exact resumed.symm

/-- One delivery: the stream parser goes on with the appended bytes. -/
theorem Refines.deliver {conn : HttpConn} {phase : CheckState} {request : Request}
    {rest piece : Bytes} (refines : Refines conn phase request rest) (reading : phase ≠ .content)
    (nonempty : piece ≠ []) (fits : conn.readIdx + piece.length ≤ readBufferSize) :
    (conn.readOnce piece).2.readIdx = conn.readIdx + piece.length ∧
      ∃ passes extra, conn.deliver piece = processReadLoop (passes + extra) .ok (conn.readOnce piece).2 ∧
        (conn.readOnce piece).2.readIdx - (conn.readOnce piece).2.checkedIdx + 2 = passes + extra ∧
        EntersOnlyBody (conn.readOnce piece).2 (parse phase request (rest ++ piece)) ∧
        LoopResult (conn.readOnce piece).2 .ok passes (parse phase request (rest ++ piece)) := by
  obtain ⟨_, readIdx, received⟩ := refines.readOnce nonempty fits
  obtain ⟨passes, bound, lines, result⟩ := processReadLoop_parse received reading .ok
  obtain ⟨extra, fuel⟩ := Nat.exists_eq_add_of_le (show passes ≤
    (conn.readOnce piece).2.readIdx - (conn.readOnce piece).2.checkedIdx + 2 by omega)
  refine ⟨readIdx, passes, extra, ?_, fuel, lines, result⟩
  rw [HttpConn.deliver, processRead, fuel]

/-- Any deliveries are observed as the stream parser's progress on all their bytes. -/
theorem Refines.deliverAll {conn : HttpConn} {phase : CheckState} {request : Request} {rest : Bytes}
    (refines : Refines conn phase request rest) (reading : phase ≠ .content)
    (waits : parse phase request rest = .waiting phase request rest) (pieces : List Bytes)
    (nonempty : ∀ piece ∈ pieces, piece ≠ [])
    (fits : conn.readIdx + pieces.flatten.length ≤ readBufferSize)
    (noBody : ∀ known after, parse phase request (rest ++ pieces.flatten) ≠ .body known after) :
    observe (conn.deliverAll pieces) = (parse phase request (rest ++ pieces.flatten)).observation := by
  induction pieces generalizing conn phase request rest with
  | nil =>
    rw [List.flatten_nil, List.append_nil, waits]
    rfl
  | cons piece pieces ih =>
    rw [List.flatten_cons, ← List.append_assoc] at noBody ⊢
    rw [List.flatten_cons, List.length_append] at fits
    rw [parse_append] at noBody ⊢
    obtain ⟨nonempty, others⟩ := List.forall_mem_cons.mp nonempty
    obtain ⟨readIdx, passes, extra, delivered, _, _, result⟩ :=
      refines.deliver reading nonempty (by omega)
    rw [HttpConn.deliverAll, delivered]
    cases progress : parse phase request (rest ++ piece) with
    | waiting next known left =>
      rw [progress] at result noBody
      obtain ⟨nextReading, after, ran, kept, refined⟩ := result
      rw [ran extra]
      exact ih refined nextReading (parse_waiting progress) others (by omega) noBody
    | rejected =>
      rw [progress] at result
      obtain ⟨final, ran⟩ := result
      rw [ran extra]
      rfl
    | undefined =>
      rw [progress] at result
      rw [result extra]
      rfl
    | finished known =>
      rw [progress] at result
      obtain ⟨final, ran, records⟩ := result
      rw [ran extra]
      simp only [bind, Option.bind_some, reduceCtorEq, ↓reduceIte, observe, Option.map_some,
        records.parsed, Progress.resume, Progress.observation]
    | body known left =>
      rw [progress] at noBody
      exact absurd rfl (noBody known (left ++ pieces.flatten))

/-- On a stream without a body the stream parser does not reach one. -/
theorem parse_ne_body {conn : HttpConn} {stream : Bytes} (nonempty : stream ≠ [])
    (fits : stream.length ≤ readBufferSize)
    (noContent : ∀ content ∈ (conn.init.readOnce stream).2.enterContent, content.contentLength = 0)
    (known : Request) (after : Bytes) : parse .requestLine .empty stream ≠ .body known after := by
  intro reached
  obtain ⟨_, passes, _, _, fuel, _, result⟩ :=
    (refines_init conn).deliver (by decide) nonempty (by simpa [HttpConn.init] using fits)
  rw [List.nil_append, reached] at result
  obtain ⟨room, pending, before, _, entered, _, refines, _⟩ := result
  obtain ⟨left, enough⟩ := Nat.exists_eq_add_of_le (show passes + 1 ≤
    (conn.init.readOnce stream).2.readIdx - (conn.init.readOnce stream).2.checkedIdx + 2 by omega)
  apply pending
  rw [← refines.records.contentLength]
  apply noContent
  rw [Option.mem_def, enterContent, enough, Nat.add_right_comm]
  exact entered left

/-- A stream of at most `READ_BUFFER_SIZE` bytes whose header block leaves `m_content_length` at 0 is
observed alike in one read and in any number of nonempty deliveries. -/
theorem observe_deliverAll_eq_deliver (conn : HttpConn) (stream : Bytes) (pieces : List Bytes)
    (cut : pieces.flatten = stream) (nonempty : ∀ piece ∈ pieces, piece ≠ [])
    (fits : stream.length ≤ readBufferSize)
    (noContent : ∀ content ∈ (conn.init.readOnce stream).2.enterContent, content.contentLength = 0) :
    observe (conn.init.deliverAll pieces) = observe (conn.init.deliver stream) := by
  cases pieces with
  | nil =>
    subst cut
    rfl
  | cons piece pieces =>
    have present : stream ≠ [] := by
      rw [← cut, List.flatten_cons]
      exact fun empty => nonempty piece (List.mem_cons_self ..) (List.append_eq_nil_iff.mp empty).1
    have waits : parse .requestLine .empty [] = .waiting .requestLine .empty [] :=
      parse_incomplete (by decide) (by simp [splitLine]) _
    have noBody := parse_ne_body present fits noContent
    have inOne : conn.init.deliverAll [stream] = conn.init.deliver stream := by
      rw [HttpConn.deliverAll]
      cases conn.init.deliver stream with
      | none => rfl
      | some outcome =>
        simp only [bind, Option.bind_some, HttpConn.deliverAll]
        split_ifs with waiting
        · rw [← waiting]
        · rfl
    have whole := (refines_init conn).deliverAll (by decide) waits [stream] (by simpa using present)
      (by simpa [HttpConn.init] using fits) (by simpa using noBody)
    rw [← inOne, whole, (refines_init conn).deliverAll (by decide) waits (piece :: pieces) nonempty
      (by rw [cut]; simpa [HttpConn.init] using fits) (by rw [cut]; exact noBody), cut]
    simp only [List.flatten_cons, List.flatten_nil, List.append_nil]

/-- A request for the default page, cut inside a CRLF and inside a header field. -/
theorem observe_deliverAll_eq_deliver_get :
    observe (HttpConn.blank.init.deliverAll
        [ascii "GET / HTTP/1.1\r", ascii "\nHost: lo", ascii "cal\r\n\r\n"]) =
      observe (HttpConn.blank.init.deliver (ascii "GET / HTTP/1.1\r\nHost: local\r\n\r\n")) :=
  observe_deliverAll_eq_deliver HttpConn.blank (ascii "GET / HTTP/1.1\r\nHost: local\r\n\r\n")
    [ascii "GET / HTTP/1.1\r", ascii "\nHost: lo", ascii "cal\r\n\r\n"] (by decide) (by decide)
    (by decide) (by decide +kernel)

end WebServ.Http
