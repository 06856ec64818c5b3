import WebServ.Model.ResponseWriter
import WebServ.Model.RequestStream
import WebServ.Text.Decimal

/-! # What `process_write` writes

A response is a list of texts handed to `add_response` one after the other. As long as two bytes stay free
none of them is refused or cut, and the write buffer holds all of them in front of `m_write_idx`; the longest
response of the program needs far less than the buffer has.
-/

namespace WebServ.Http

open WebServ.Text

namespace HttpConn

/-- The write buffer holds these bytes in front of `m_write_idx`. -/
structure Written (conn : HttpConn) (bytes : Bytes) : Prop where
  writeIdx : conn.writeIdx = bytes.length
  byte : ∀ index, (bound : index < bytes.length) → conn.writeBuf.byte index = bytes[index]

/-- The bytes in front of `m_write_idx`. -/
def written (conn : HttpConn) : Bytes := (List.range conn.writeIdx).map conn.writeBuf.byte

theorem Written.written_eq {conn : HttpConn} {bytes : Bytes} (written : conn.Written bytes) :
    conn.written = bytes := by
  apply List.ext_getElem
  · rw [HttpConn.written, List.length_map, List.length_range, written.writeIdx]
  · intro index _ bound
    rw [← written.byte index bound]
    simp only [HttpConn.written, List.getElem_map, List.getElem_range]

theorem Written.nil {conn : HttpConn} (empty : conn.writeIdx = 0) : conn.Written [] :=
  ⟨empty, fun _ bound => absurd bound (Nat.not_lt_zero _)⟩

/-- A text that leaves two bytes free is stored whole with its NUL. -/
theorem addResponse_fits {conn : HttpConn} {text : Bytes}
    (room : conn.writeIdx + text.length + 1 < writeBufferSize) :
    conn.addResponse text = (true, { conn with
      writeBuf := conn.writeBuf.write conn.writeIdx (text ++ [0])
      writeIdx := conn.writeIdx + text.length }) := by
  have whole : text.take (writeBufferSize - 1 - conn.writeIdx - 1) = text :=
    List.take_of_length_le (by omega)
  have some_room : ¬writeBufferSize - 1 - conn.writeIdx = 0 := by omega
  rw [addResponse, if_neg (by omega)]
  dsimp only
  rw [whole, if_neg some_room, if_neg (by omega)]

theorem Written.addResponse {conn : HttpConn} {bytes text : Bytes} (written : conn.Written bytes)
    (room : bytes.length + text.length + 1 < writeBufferSize) :
    (conn.addResponse text).1 = true ∧ (conn.addResponse text).2.Written (bytes ++ text) := by
  have index := written.writeIdx
  rw [addResponse_fits (by omega)]
  refine ⟨rfl, by rw [List.length_append, ← index], fun query bound => ?_⟩
  rw [List.length_append] at bound
  dsimp only
  by_cases before : query < bytes.length
  · rw [Buffer.write_byte_outside _ _ (Or.inl (by omega)), List.getElem_append_left before]
    exact written.byte query before
  · obtain ⟨offset, rfl⟩ := Nat.exists_eq_add_of_le (Nat.le_of_not_lt before)
    have inside : offset < (text ++ [0]).length := by
      rw [List.length_append]
      omega
    have short : offset < text.length := by omega
    rw [index, Buffer.write_byte_inside _ _ _ inside, List.getElem_append_left short,
      List.getElem_append_right (Nat.le_add_right ..)]
    simp only [Nat.add_sub_cancel_left]

/-- Calls of `add_response`, one for each text, and their results. -/
def addResponses (conn : HttpConn) : List Bytes → List Bool × HttpConn
  | [] => ([], conn)
  | text :: rest =>
      let (added, conn) := conn.addResponse text
      let (others, conn) := conn.addResponses rest
      (added :: others, conn)

/-- Texts that together leave two bytes free are all taken whole. -/
theorem Written.addResponses {conn : HttpConn} {bytes : Bytes} {texts : List Bytes}
    (written : conn.Written bytes) (room : bytes.length + texts.flatten.length + 1 < writeBufferSize) :
    (∀ added ∈ (conn.addResponses texts).1, added = true) ∧
      (conn.addResponses texts).2.Written (bytes ++ texts.flatten) := by
  induction texts generalizing conn bytes with
  | nil =>
    rw [List.flatten_nil, List.append_nil]
    exact ⟨nofun, written⟩
  | cons text rest ih =>
    rw [List.flatten_cons, List.length_append] at room
    have first : bytes.length + text.length + 1 < writeBufferSize := by omega
    obtain ⟨added, more⟩ := written.addResponse first
    obtain ⟨others, all⟩ := ih more (by rw [List.length_append]; omega)
    rw [HttpConn.addResponses, List.flatten_cons, ← List.append_assoc]
    exact ⟨List.forall_mem_cons.mpr ⟨added, others⟩, all⟩

/-- A text goes into the write buffer and moves its index; nothing else is touched. -/
theorem addResponse_frame (conn : HttpConn) (text : Bytes) :
    ∃ writeBuf writeIdx, (conn.addResponse text).2 = { conn with writeBuf, writeIdx } := by
  rw [addResponse]
  dsimp only
  split_ifs <;> exact ⟨_, _, rfl⟩

theorem addResponses_frame (conn : HttpConn) (texts : List Bytes) :
    ∃ writeBuf writeIdx, (conn.addResponses texts).2 = { conn with writeBuf, writeIdx } := by
  induction texts generalizing conn with
  | nil => exact ⟨conn.writeBuf, conn.writeIdx, rfl⟩
  | cons text rest ih =>
    obtain ⟨_, _, first⟩ := conn.addResponse_frame text
    obtain ⟨writeBuf, writeIdx, others⟩ := ih (conn.addResponse text).2
    rw [first] at others
    exact ⟨writeBuf, writeIdx, (congrArg (fun conn => (addResponses conn rest).2) first).trans others⟩

theorem addResponses_append (conn : HttpConn) (first second : List Bytes) :
    (conn.addResponses (first ++ second)).2 = ((conn.addResponses first).2.addResponses second).2 := by
  induction first generalizing conn with
  | nil => rfl
  | cons text rest ih => exact ih _

/-! ## The texts of a response -/

/-- The text of `add_status_line`. -/
def statusText (status : ℤ) (title : Bytes) : Bytes :=
  ascii "HTTP/1.1 " ++ decimal status ++ ascii " " ++ title ++ ascii "\r\n"

/-- The text of `add_content_length`. -/
def contentLengthText (contentLen : ℤ) : Bytes :=
  ascii "Content-Length:" ++ decimal contentLen ++ ascii "\r\n"

/-- The text of `add_linger`. -/
def lingerText (linger : Bool) : Bytes :=
  ascii "Connection:" ++ (if linger then ascii "keep-live" else ascii "close") ++ ascii "\r\n"

/-- The texts up to the empty line. -/
def headTexts (status : ℤ) (title : Bytes) (contentLen : ℤ) (linger : Bool) : List Bytes :=
  [statusText status title, contentLengthText (toInt contentLen), lingerText linger, ascii "\r\n"]

/-- The texts of a page of the program's own. -/
def pageTexts (status : ℤ) (title page : Bytes) (linger : Bool) : List Bytes :=
  headTexts status title page.length linger ++ [page]

/-- The texts that `process_write(ret)` hands to `add_response`. -/
def responseTexts (conn : HttpConn) : HttpCode → List Bytes
  | .internalError => pageTexts 500 error500Title error500Form conn.linger
  | .badRequest => pageTexts 404 error404Title error404Form conn.linger
  | .forbiddenRequest => pageTexts 403 error403Title error403Form conn.linger
  | .fileRequest =>
      if conn.fileStat.size ≠ 0 then headTexts 200 ok200Title conn.fileStat.size conn.linger
      else pageTexts 200 ok200Title okString conn.linger
  | _ => []

theorem addResponse_linger (conn : HttpConn) (text : Bytes) :
    (conn.addResponse text).2.linger = conn.linger := by
  obtain ⟨_, _, same⟩ := conn.addResponse_frame text
  rw [same]

theorem addHeaders_eq (conn : HttpConn) (status : ℤ) (title : Bytes) (contentLen : ℤ) :
    (conn.addStatusLine status title).addHeaders contentLen =
      (conn.addResponses (headTexts status title contentLen conn.linger)).2 := by
  have linger : ((conn.addStatusLine status title).addContentLength (toInt contentLen)).linger =
      conn.linger := by
    rw [addContentLength, addResponse_linger, addStatusLine, addResponse_linger]
  rw [addHeaders, addLinger, linger]
  rfl

theorem addPage_eq (conn : HttpConn) (status : ℤ) (title page : Bytes) :
    (((conn.addStatusLine status title).addHeaders page.length).addContent page).2 =
      (conn.addResponses (pageTexts status title page conn.linger)).2 := by
  rw [addHeaders_eq, pageTexts, addResponses_append]
  rfl

/-- What is written is the same as by these calls; the rest are the iovecs. -/
theorem processWrite_builds (conn : HttpConn) (ret : HttpCode) :
    ∃ iv0 iv1 ivCount bytesToSend, (conn.processWrite ret).2 =
      { (conn.addResponses (conn.responseTexts ret)).2 with iv0, iv1, ivCount, bytesToSend } := by
  have page : ∀ status title form, ∃ iv0 iv1 ivCount bytesToSend,
      (conn.errorPage status title form).2 =
        { (conn.addResponses (pageTexts status title form conn.linger)).2 with
          iv0, iv1, ivCount, bytesToSend } := by
    intro status title form
    rw [errorPage, ← addPage_eq]
    generalize ((conn.addStatusLine status title).addHeaders form.length).addContent form = built
    obtain ⟨added, built⟩ := built
    cases added with
    | true => exact ⟨_, _, _, _, rfl⟩
    | false => exact ⟨built.iv0, built.iv1, built.ivCount, built.bytesToSend, rfl⟩
  cases ret with
  | internalError =>
    rw [processWrite, responseTexts]
    exact page 500 error500Title error500Form
  | badRequest =>
    rw [processWrite, responseTexts]
    exact page 404 error404Title error404Form
  | forbiddenRequest =>
    rw [processWrite, responseTexts]
    exact page 403 error403Title error403Form
  | fileRequest =>
    have stat : (conn.addStatusLine 200 ok200Title).fileStat = conn.fileStat := (addResponse_sameFile _ _).1
    rw [processWrite, responseTexts]
    dsimp only
    rw [stat]
    split_ifs
    · rw [addHeaders_eq]
      generalize (conn.addResponses (headTexts 200 ok200Title conn.fileStat.size conn.linger)).2 = built
      exact ⟨_, _, _, _, rfl⟩
    · rw [addPage_eq]
      generalize (conn.addResponses (pageTexts 200 ok200Title okString conn.linger)).2 = built
      exact ⟨built.iv0, built.iv1, built.ivCount, built.bytesToSend, rfl⟩
  | noRequest => exact ⟨conn.iv0, conn.iv1, conn.ivCount, conn.bytesToSend, rfl⟩
  | getRequest => exact ⟨conn.iv0, conn.iv1, conn.ivCount, conn.bytesToSend, rfl⟩
  | noResource => exact ⟨conn.iv0, conn.iv1, conn.ivCount, conn.bytesToSend, rfl⟩
  | closedConnection => exact ⟨conn.iv0, conn.iv1, conn.ivCount, conn.bytesToSend, rfl⟩

/-- `process_write` touches the write buffer, its index and what `writev` is to send. -/
theorem processWrite_frame (conn : HttpConn) (ret : HttpCode) :
    ∃ writeBuf writeIdx iv0 iv1 ivCount bytesToSend, (conn.processWrite ret).2 =
      { conn with writeBuf, writeIdx, iv0, iv1, ivCount, bytesToSend } := by
  obtain ⟨_, _, _, _, built⟩ := conn.processWrite_builds ret
  obtain ⟨_, _, added⟩ := conn.addResponses_frame (conn.responseTexts ret)
  rw [built, added]
  exact ⟨_, _, _, _, _, _, rfl⟩

/-- The response of a file with contents is prepared. -/
theorem processWrite_made {conn : HttpConn} (nonempty : conn.fileStat.size ≠ 0) :
    conn.processWrite .fileRequest = (true, (conn.processWrite .fileRequest).2) := by
  have stat : (conn.addStatusLine 200 ok200Title).fileStat = conn.fileStat := (addResponse_sameFile _ _).1
  rw [processWrite]
  dsimp only
  rw [stat, if_pos nonempty]

theorem processWrite_ivCount {conn prepared : HttpConn}
    (made : conn.processWrite .fileRequest = (true, prepared)) : prepared.ivCount = 2 := by
  rw [processWrite] at made
  dsimp only at made
  split_ifs at made
  · cases made
    rfl
  · cases made

theorem processWrite_sameFile (conn : HttpConn) (ret : HttpCode) :
    (conn.processWrite ret).2.fileStat = conn.fileStat ∧
      (conn.processWrite ret).2.bytesHaveSend = conn.bytesHaveSend := by
  obtain ⟨_, _, _, _, _, _, same⟩ := conn.processWrite_frame ret
  rw [same]
  exact ⟨rfl, rfl⟩

/-! ## Their lengths -/

theorem statusText_length (status : ℤ) (title : Bytes) :
    (statusText status title).length = 12 + (decimal status).length + title.length := by
  have scheme : (ascii "HTTP/1.1 ").length = 9 := by decide
  have blank : (ascii " ").length = 1 := by decide
  have crlf : (ascii "\r\n").length = 2 := by decide
  simp only [statusText, List.length_append, scheme, blank, crlf]
  omega

theorem contentLengthText_length (contentLen : ℤ) :
    (contentLengthText contentLen).length = 17 + (decimal contentLen).length := by
  have field : (ascii "Content-Length:").length = 15 := by decide
  have crlf : (ascii "\r\n").length = 2 := by decide
  simp only [contentLengthText, List.length_append, field, crlf]
  omega

theorem lingerText_length (linger : Bool) :
    (lingerText linger).length = if linger then 22 else 18 := by
  cases linger <;> decide

theorem headTexts_length (status : ℤ) (title : Bytes) (contentLen : ℤ) (linger : Bool) :
    (headTexts status title contentLen linger).flatten.length =
      (decimal status).length + title.length + (decimal (toInt contentLen)).length +
        if linger then 53 else 49 := by
  have crlf : (ascii "\r\n").length = 2 := by decide
  simp only [headTexts, List.flatten_cons, List.flatten_nil, List.append_nil, List.length_append,
    statusText_length, contentLengthText_length, lingerText_length, crlf]
  split_ifs <;> omega

/-- Every response leaves two bytes of the buffer free. -/
theorem responseTexts_room (conn : HttpConn) (ret : HttpCode) :
    (conn.responseTexts ret).flatten.length + 1 < writeBufferSize := by
  have size : writeBufferSize = 1024 := rfl
  have nothing : 0 + 1 < writeBufferSize := by decide
  have page : ∀ (status : ℤ) (title form : Bytes), (decimal status).length ≤ 3 → title.length ≤ 14 →
      form.length ≤ 60 → (pageTexts status title form conn.linger).flatten.length + 1 < writeBufferSize := by
    intro status title form short shortTitle shortForm
    have number := decimal_toInt_length_le form.length
    rw [pageTexts, List.flatten_append, List.length_append, headTexts_length, List.flatten_singleton]
    split_ifs <;> omega
  cases ret with
  | internalError => exact page _ _ _ (by decide) (by decide) (by decide)
  | badRequest => exact page _ _ _ (by decide) (by decide) (by decide)
  | forbiddenRequest => exact page _ _ _ (by decide) (by decide) (by decide)
  | fileRequest =>
    have number := decimal_toInt_length_le conn.fileStat.size
    have status : (decimal 200).length = 3 := by decide
    have title : ok200Title.length = 2 := by decide
    rw [responseTexts]
    split_ifs
    · rw [headTexts_length]
      split_ifs <;> omega
    · exact page _ _ _ (by decide) (by decide) (by decide)
  | noRequest => exact nothing
  | getRequest => exact nothing
  | noResource => exact nothing
  | closedConnection => exact nothing

/-- From an empty write buffer no call of `add_response` is refused, and all that is written is there. -/
theorem responseTexts_written {conn : HttpConn} (empty : conn.writeIdx = 0) (ret : HttpCode) :
    (∀ added ∈ (conn.addResponses (conn.responseTexts ret)).1, added = true) ∧
      (conn.processWrite ret).2.Written (conn.responseTexts ret).flatten := by
  have room := responseTexts_room conn ret
  rw [← Nat.zero_add (conn.responseTexts ret).flatten.length] at room
  obtain ⟨taken, written⟩ := (Written.nil empty).addResponses room
  obtain ⟨_, _, _, _, same⟩ := processWrite_builds conn ret
  rw [same]
  exact ⟨taken, written.writeIdx, written.byte⟩

end HttpConn

end WebServ.Http
