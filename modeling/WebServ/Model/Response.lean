import WebServ.Model.HttpConn

/-! # The response builder

`add_response` appends formatted text to the write buffer and `process_write` lays out the response
for the result of the parser. The formatted texts are built first and handed over whole. The results
of the single `add_` calls of a header block are ignored, as in the source; `add_headers` lacks its
return statement there and its result is never used. Log output is left out.
-/

namespace WebServ.Http

open WebServ.Text

/-- `ok_200_title`. -/
def ok200Title : Bytes := ascii "OK"

/-- `error_403_title`. -/
def error403Title : Bytes := ascii "Forbidden"

/-- `error_403_form`. -/
def error403Form : Bytes := ascii "You do not have permission to get file from this server.\n"

/-- `error_404_title`. -/
def error404Title : Bytes := ascii "Not Found"

/-- `error_404_form`. -/
def error404Form : Bytes := ascii "The requested file was not found on this server.\n"

/-- `error_500_title`. -/
def error500Title : Bytes := ascii "Internal Error"

/-- `error_500_form`. -/
def error500Form : Bytes := ascii "There was an unusual problem serving the request file.\n"

/-- The page of a file of size zero. -/
def okString : Bytes := ascii "<html><body></body></html>"

namespace HttpConn

/-- `add_response`, with the formatted text: `vsnprintf` stores what fits and a NUL, and the index
moves only if everything fits. -/
def addResponse (conn : HttpConn) (text : Bytes) : Bool × HttpConn :=
  if writeBufferSize ≤ conn.writeIdx then (false, conn)
  else
    let room := writeBufferSize - 1 - conn.writeIdx
    let conn := if room = 0 then conn
      else { conn with writeBuf := conn.writeBuf.write conn.writeIdx (text.take (room - 1) ++ [0]) }
    if room ≤ text.length then (false, conn)
    else (true, { conn with writeIdx := conn.writeIdx + text.length })

/-- `add_status_line`. -/
def addStatusLine (conn : HttpConn) (status : ℤ) (title : Bytes) : HttpConn :=
  (conn.addResponse (ascii "HTTP/1.1 " ++ decimal status ++ ascii " " ++ title ++ ascii "\r\n")).2

/-- `add_content_length`. -/
def addContentLength (conn : HttpConn) (contentLen : ℤ) : HttpConn :=
  (conn.addResponse (ascii "Content-Length:" ++ decimal contentLen ++ ascii "\r\n")).2

/-- `add_linger`. -/
def addLinger (conn : HttpConn) : HttpConn :=
  (conn.addResponse (ascii "Connection:" ++
    (if conn.linger then ascii "keep-live" else ascii "close") ++ ascii "\r\n")).2

/-- `add_blank_line`. -/
def addBlankLine (conn : HttpConn) : HttpConn := (conn.addResponse (ascii "\r\n")).2

/-- `add_headers`; the parameter is an `int`. -/
def addHeaders (conn : HttpConn) (contentLen : ℤ) : HttpConn :=
  ((conn.addContentLength (toInt contentLen)).addLinger).addBlankLine

/-- `add_content`. -/
def addContent (conn : HttpConn) (content : Bytes) : Bool × HttpConn := conn.addResponse content

/-- The single iovec of a response without a file. -/
def oneIovec (conn : HttpConn) : HttpConn :=
  { conn with
    iv0 := ⟨.writeBuf 0, conn.writeIdx⟩
    ivCount := 1
    bytesToSend := conn.writeIdx }

/-- The common body of the error cases of `process_write`. -/
def errorPage (conn : HttpConn) (status : ℤ) (title form : Bytes) : Bool × HttpConn :=
  let (added, conn) := ((conn.addStatusLine status title).addHeaders form.length).addContent form
  if added then (true, conn.oneIovec) else (false, conn)

/-- `process_write(ret)`. The empty file falls through to the default case. -/
def processWrite (conn : HttpConn) : HttpCode → Bool × HttpConn
  | .internalError => conn.errorPage 500 error500Title error500Form
  | .badRequest => conn.errorPage 404 error404Title error404Form
  | .forbiddenRequest => conn.errorPage 403 error403Title error403Form
  | .fileRequest =>
      let conn := conn.addStatusLine 200 ok200Title
      if conn.fileStat.size ≠ 0 then
        let conn := conn.addHeaders conn.fileStat.size
        (true, { conn with
          iv0 := ⟨.writeBuf 0, conn.writeIdx⟩
          iv1 := ⟨.file conn.fileAddress 0, conn.fileStat.size⟩
          ivCount := 2
          bytesToSend := toInt (conn.writeIdx + conn.fileStat.size) })
      else (false, ((conn.addHeaders okString.length).addContent okString).2)
  | _ => (false, conn)

/-! ## What the builder leaves alone -/

/-- The members a response is sent from, the buffer and the counters apart. -/
def SameFile (conn after : HttpConn) : Prop :=
  after.fileStat = conn.fileStat ∧ after.fileAddress = conn.fileAddress ∧
    after.bytesHaveSend = conn.bytesHaveSend ∧ after.ivCount = conn.ivCount

theorem addResponse_sameFile (conn : HttpConn) (text : Bytes) :
    SameFile conn (conn.addResponse text).2 := by
  rw [addResponse]
  dsimp only
  split_ifs <;> exact ⟨rfl, rfl, rfl, rfl⟩

theorem SameFile.trans {first second third : HttpConn} (left : SameFile first second)
    (right : SameFile second third) : SameFile first third :=
  ⟨right.1.trans left.1, right.2.1.trans left.2.1, right.2.2.1.trans left.2.2.1,
    right.2.2.2.trans left.2.2.2⟩

theorem addHeaders_sameFile (conn : HttpConn) (contentLen : ℤ) :
    SameFile conn (conn.addHeaders contentLen) :=
  ((addResponse_sameFile _ _).trans (addResponse_sameFile _ _)).trans (addResponse_sameFile _ _)

/-- A response with two iovecs is the header in the write buffer and the mapped file. -/
theorem processWrite_file {conn prepared : HttpConn} {ret : HttpCode}
    (made : conn.processWrite ret = (true, prepared)) (withFile : prepared.ivCount = 2) :
    prepared.iv0 = ⟨.writeBuf 0, prepared.writeIdx⟩ ∧
      prepared.iv1 = ⟨.file prepared.fileAddress 0, prepared.fileStat.size⟩ ∧
      prepared.bytesToSend = toInt (prepared.writeIdx + prepared.fileStat.size) ∧
      prepared.bytesHaveSend = conn.bytesHaveSend ∧ prepared.fileStat.size ≠ 0 := by
  have oneOnly : ∀ status title form, conn.errorPage status title form ≠ (true, prepared) := by
    intro status title form other
    rw [errorPage] at other
    dsimp only at other
    split_ifs at other
    · cases other
      exact absurd withFile (show (1 : ℕ) ≠ 2 by decide)
    · cases other
  cases ret with
  | internalError => exact absurd made (oneOnly _ _ _)
  | badRequest => exact absurd made (oneOnly _ _ _)
  | forbiddenRequest => exact absurd made (oneOnly _ _ _)
  | fileRequest =>
    rw [processWrite] at made
    dsimp only at made
    split_ifs at made with nonempty
    · have kept := (addResponse_sameFile conn _).trans (addHeaders_sameFile
        (conn.addStatusLine 200 ok200Title) (conn.addStatusLine 200 ok200Title).fileStat.size)
      obtain ⟨stat, _⟩ := addHeaders_sameFile (conn.addStatusLine 200 ok200Title)
        (conn.addStatusLine 200 ok200Title).fileStat.size
      cases made
      exact ⟨rfl, by rw [← stat], by rw [← stat], kept.2.2.1, by rwa [← stat] at nonempty⟩
    · cases made
  | noRequest => cases made
  | getRequest => cases made
  | noResource => cases made
  | closedConnection => cases made

end HttpConn

end WebServ.Http
