import WebServ.Proofs.Response

/-! # The bytes of a response are well framed

What a prepared response describes, read through its iovecs from the write buffer and the mapped file, is a
status line, header lines and an empty line, each ended by CRLF, and a body of the announced length. The body
is the last text in the buffer or the second iovec; for a file the length that is announced passes through
an `int`, which is why its size is bounded.
-/

namespace WebServ.Http

open WebServ.Text

/-- A response as a client reads it. -/
structure Response where
  statusLine : Bytes
  headers : List Bytes
  body : Bytes

namespace Response

/-- The bytes of a response: each line and the empty line are ended by CRLF. -/
def bytes (response : Response) : Bytes :=
  response.statusLine ++ ascii "\r\n" ++ response.headers.flatMap (· ++ ascii "\r\n") ++ ascii "\r\n" ++
    response.body

/-- No line hides a line break, no header is empty, and the one content length is that of the body. -/
structure WellFormed (response : Response) : Prop where
  statusLine : Plain response.statusLine ∧ ascii "HTTP/1.1 " <+: response.statusLine
  headers : ∀ header ∈ response.headers, Plain header ∧ header ≠ []
  contentLength : response.headers.filter (fun header => ascii "Content-Length:" <+: header) =
    [ascii "Content-Length:" ++ decimal response.body.length]

end Response

/-- The byte at a place, with the given contents of the mappings. -/
def Pointer.value (conn : HttpConn) (content : FileAddress → ℤ → UInt8) : Pointer → UInt8
  | .writeBuf offset => conn.writeBuf.byte offset.toNat
  | .file address offset => content address offset

namespace HttpConn

/-- The bytes the iovecs describe. -/
def described (conn : HttpConn) (content : FileAddress → ℤ → UInt8) : Bytes :=
  conn.offered.map (Pointer.value conn content)

theorem Written.described {conn : HttpConn} {bytes : Bytes} (written : conn.Written bytes)
    (content : FileAddress → ℤ → UInt8) :
    (cells (.writeBuf 0) conn.writeIdx).map (Pointer.value conn content) = bytes := by
  rw [← written.written_eq, cells, List.map_map, HttpConn.written]
  apply List.map_congr_left
  intro index _
  simp only [Function.comp_apply, Pointer.plus, Pointer.value, zero_add, Int.toNat_natCast]

/-! ## The lines -/

theorem plain_append {first second : Bytes} (left : Plain first) (right : Plain second) :
    Plain (first ++ second) := List.forall_mem_append.mpr ⟨left, right⟩

theorem plain_decimal (value : ℤ) : Plain (decimal value) := by
  intro byte member
  rcases mem_decimal member with rfl | digit
  · decide
  · refine ⟨?_, ?_⟩
    · rintro rfl
      exact absurd digit (by decide)
    · rintro rfl
      exact absurd digit (by decide)

/-- The response of a status, a title and a body. -/
def answer (linger : Bool) (status : ℤ) (title body : Bytes) : Response where
  statusLine := ascii "HTTP/1.1 " ++ decimal status ++ ascii " " ++ title
  headers := [ascii "Content-Length:" ++ decimal body.length,
    ascii "Connection:" ++ (if linger then ascii "keep-live" else ascii "close")]
  body

theorem answer_bytes (linger : Bool) (status : ℤ) (title body : Bytes) (small : body.length < 2 ^ 31) :
    (answer linger status title body).bytes =
      (headTexts status title body.length linger).flatten ++ body := by
  simp only [answer, Response.bytes, headTexts, statusText, contentLengthText, lingerText,
    toInt_natCast small, List.flatMap_cons, List.flatMap_nil, List.flatten_cons, List.flatten_nil,
    List.append_nil, List.append_assoc]

theorem answer_wellFormed (linger : Bool) (status : ℤ) {title : Bytes} (body : Bytes)
    (plain : Plain title) : (answer linger status title body).WellFormed where
  statusLine := by
    refine ⟨?_, ?_⟩
    · have scheme : Plain (ascii "HTTP/1.1 ") := by decide +kernel
      have blank : Plain (ascii " ") := by decide +kernel
      exact plain_append (plain_append (plain_append scheme (plain_decimal status)) blank) plain
    · simp only [answer, List.append_assoc, List.prefix_append]
  headers := by
    have field : Plain (ascii "Content-Length:") := by decide +kernel
    refine List.forall_mem_cons.mpr ⟨⟨plain_append field (plain_decimal _), ?_⟩, ?_⟩
    · exact List.append_ne_nil_of_left_ne_nil (by decide) _
    · rw [List.forall_mem_singleton]
      cases linger <;> decide +kernel
  contentLength := by
    have length : ascii "Content-Length:" <+: ascii "Content-Length:" ++ decimal body.length :=
      List.prefix_append _ _
    have other : ¬ascii "Content-Length:" <+:
        ascii "Connection:" ++ (if linger then ascii "keep-live" else ascii "close") := by
      cases linger <;> decide
    simp only [answer, List.filter_cons, List.filter_nil, length, other, decide_true, decide_false,
      Bool.false_eq_true, ↓reduceIte]

/-! ## Prepared responses -/

/-- The sum of the lengths of the iovecs. -/
def iovTotal (conn : HttpConn) : ℕ := (([conn.iv0, conn.iv1].take conn.ivCount).map (·.len)).sum

/-- The iovecs describe a well-formed response that lies in the write buffer up to its file, and as many
bytes as there are to send. -/
structure Framed (conn : HttpConn) (content : FileAddress → ℤ → UInt8) : Prop where
  bytes : ∃ response : Response, response.WellFormed ∧ conn.described content = response.bytes
  inside : conn.writeIdx < writeBufferSize
  total : conn.bytesToSend = conn.iovTotal

/-- A page of the program's own, in one iovec. -/
theorem framed_of_errorPage {conn prepared : HttpConn} {status : ℤ} {title form : Bytes}
    (made : conn.errorPage status title form = (true, prepared))
    (written : (conn.errorPage status title form).2.Written
      (pageTexts status title form conn.linger).flatten)
    (room : (pageTexts status title form conn.linger).flatten.length + 1 < writeBufferSize)
    (plain : Plain title) (content : FileAddress → ℤ → UInt8) : prepared.Framed content := by
  have iovecs : prepared.iv0 = ⟨.writeBuf 0, prepared.writeIdx⟩ ∧ prepared.ivCount = 1 ∧
      prepared.bytesToSend = prepared.writeIdx := by
    rw [errorPage] at made
    generalize ((conn.addStatusLine status title).addHeaders form.length).addContent form = built at made
    obtain ⟨added, built⟩ := built
    cases added with
    | true =>
      cases made
      exact ⟨rfl, rfl, rfl⟩
    | false => cases made
  rw [made] at written
  obtain ⟨iv0, ivCount, toSend⟩ := iovecs
  have index : prepared.writeIdx = (pageTexts status title form conn.linger).flatten.length :=
    written.writeIdx
  have pages : (pageTexts status title form conn.linger).flatten =
      (headTexts status title form.length conn.linger).flatten ++ form := by
    rw [pageTexts, List.flatten_append, List.flatten_singleton]
  have short : form.length < 2 ^ 31 := by
    rw [pages, List.length_append] at room
    have size : writeBufferSize = 1024 := rfl
    omega
  refine ⟨⟨answer conn.linger status title form, answer_wellFormed _ _ _ plain, ?_⟩, by omega, ?_⟩
  · rw [answer_bytes _ _ _ _ short, ← pages, ← written.described content, described, offered, ivCount, iv0]
    simp only [List.take_succ_cons, List.take_zero, List.flatMap_cons, List.flatMap_nil, List.append_nil]
  · rw [iovTotal, toSend, ivCount, iv0]
    simp

/-- A file with contents, in two iovecs. -/
theorem framed_of_fileRequest {conn prepared : HttpConn}
    (made : conn.processWrite .fileRequest = (true, prepared))
    (written : (conn.processWrite .fileRequest).2.Written (conn.responseTexts .fileRequest).flatten)
    (room : (conn.responseTexts .fileRequest).flatten.length + 1 < writeBufferSize)
    (small : prepared.writeIdx + conn.fileStat.size < 2 ^ 31) (content : FileAddress → ℤ → UInt8) :
    prepared.Framed content := by
  have withFile : prepared.ivCount = 2 := processWrite_ivCount made
  have stat : prepared.fileStat = conn.fileStat := by
    have kept := (processWrite_sameFile conn .fileRequest).1
    rwa [made] at kept
  obtain ⟨iv0, iv1, toSend, _, nonempty⟩ := processWrite_file made withFile
  rw [made] at written
  rw [stat] at iv1 toSend nonempty
  have texts : conn.responseTexts .fileRequest = headTexts 200 ok200Title conn.fileStat.size conn.linger := by
    rw [responseTexts, if_pos nonempty]
  rw [texts] at written room
  have index : prepared.writeIdx = (headTexts 200 ok200Title conn.fileStat.size conn.linger).flatten.length :=
    written.writeIdx
  generalize page : (cells (.file prepared.fileAddress 0) conn.fileStat.size).map
    (Pointer.value prepared content) = file
  have length : file.length = conn.fileStat.size := by rw [← page, List.length_map, cells_length]
  refine ⟨⟨answer conn.linger 200 ok200Title file, answer_wellFormed _ _ _ (by decide +kernel), ?_⟩, by omega,
    ?_⟩
  · rw [answer_bytes _ _ _ _ (by omega), length, ← written.described content, described, offered, withFile,
      iv0, iv1, ← page]
    simp only [List.take_succ_cons, List.take_zero, List.flatMap_cons, List.flatMap_nil, List.append_nil,
      List.map_append]
  · rw [iovTotal, toSend, withFile, iv0, iv1, ← Nat.cast_add, toInt_natCast small]
    simp

/-- For every result, every `m_linger` and every file that fits an `int` with its header: when
`process_write` returns true on an empty write buffer, its iovecs describe a well-framed response whose body
has the announced length, `bytes_to_send` is the sum of their lengths, and no call of `add_response` was
refused or cut. -/
theorem framed_of_processWrite {conn prepared : HttpConn} {ret : HttpCode} (empty : conn.writeIdx = 0)
    (made : conn.processWrite ret = (true, prepared))
    (small : ret = .fileRequest → prepared.writeIdx + conn.fileStat.size < 2 ^ 31)
    (content : FileAddress → ℤ → UInt8) :
    prepared.Framed content ∧ ∀ added ∈ (conn.addResponses (conn.responseTexts ret)).1, added = true := by
  obtain ⟨taken, written⟩ := responseTexts_written empty ret
  have room := responseTexts_room conn ret
  refine ⟨?_, taken⟩
  cases ret with
  | internalError => exact framed_of_errorPage made written room (by decide +kernel) content
  | badRequest => exact framed_of_errorPage made written room (by decide +kernel) content
  | forbiddenRequest => exact framed_of_errorPage made written room (by decide +kernel) content
  | fileRequest => exact framed_of_fileRequest made written room (small rfl) content
  | noRequest => cases made
  | getRequest => cases made
  | noResource => cases made
  | closedConnection => cases made

/-- A file of five bytes on a connection that is kept. -/
theorem framed_of_processWrite_five :
    let conn := { blank with fileStat := ⟨5, true, false⟩, fileAddress := .mapped 0, linger := true }
    let prepared := (conn.processWrite .fileRequest).2
    prepared.described (fun _ _ => 97) =
        ascii "HTTP/1.1 200 OK\r\nContent-Length:5\r\nConnection:keep-live\r\n\r\naaaaa" ∧
      prepared.bytesToSend = 64 ∧ prepared.Framed (fun _ _ => 97) := by
  intro conn prepared
  exact ⟨by decide +kernel, by decide +kernel,
    (@framed_of_processWrite conn prepared .fileRequest rfl rfl (fun _ => by decide +kernel) _).1⟩

end HttpConn

end WebServ.Http
