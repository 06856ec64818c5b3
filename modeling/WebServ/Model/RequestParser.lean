import WebServ.Model.HttpConn

/-! # The request parser

`parse_line` cuts the received bytes into lines and overwrites each CRLF by two NULs;
`process_read` hands every line to the function of the current check state. All of it works in
place on the read buffer. The result `none` is undefined behaviour of the source: a string function
on a null pointer, an access outside the buffer, or a signed overflow. The loop of `process_read`
runs on fuel; `ReadResult.unfinished` is a loop that has not ended yet. Log output is left out: a text
of 1963 bytes or more, which overruns the buffer of the log (`Soundness/LogBounds`), is not undefined here.
-/

namespace WebServ.Http

open WebServ.Text

/-- Carriage return. -/
abbrev cr : UInt8 := 13

/-- Line feed. -/
abbrev lf : UInt8 := 10

/-- The slash character. -/
abbrev slash : UInt8 := 47

/-- Space and tab, the separators of a request line. -/
abbrev blanks : Bytes := [32, 9]

/-- How a call of `process_read` ends; it returns the result of `do_request` in the second case. -/
inductive ReadResult where
  | code (code : HttpCode)
  | callDoRequest
  | unfinished
deriving DecidableEq, Repr

/-- How one pass through the loop body of `process_read` ends. -/
inductive LoopStep where
  | finish (result : ReadResult)
  | next (lineStatus : LineStatus)
deriving DecidableEq, Repr

namespace HttpConn

/-- The loop of `parse_line`, with one unit of fuel for each unchecked byte. -/
def parseLineLoop : ℕ → HttpConn → LineStatus × HttpConn
  | 0, conn => (.open, conn)
  | fuel + 1, conn =>
      let temp := conn.readBuf.byte conn.checkedIdx
      if temp = cr then
        if conn.checkedIdx + 1 = conn.readIdx then (.open, conn)
        else if conn.readBuf.byte (conn.checkedIdx + 1) = lf then
          (.ok, { conn with
            readBuf := (conn.readBuf.set conn.checkedIdx 0).set (conn.checkedIdx + 1) 0
            checkedIdx := conn.checkedIdx + 2 })
        else (.bad, conn)
      else if temp = lf then
        if 1 < conn.checkedIdx ∧ conn.readBuf.byte (conn.checkedIdx - 1) = cr then
          (.ok, { conn with
            readBuf := (conn.readBuf.set (conn.checkedIdx - 1) 0).set conn.checkedIdx 0
            checkedIdx := conn.checkedIdx + 1 })
        else (.bad, conn)
      else parseLineLoop fuel { conn with checkedIdx := conn.checkedIdx + 1 }

/-- `parse_line()`. -/
def parseLine (conn : HttpConn) : LineStatus × HttpConn :=
  parseLineLoop (conn.readIdx - conn.checkedIdx) conn

/-- One scheme prefix of the URL: skip it and what follows up to the next slash. The string
comparison is undefined on a null pointer. -/
def stripScheme (buffer : Buffer readBufferSize) (scheme : Bytes) : Option ℕ → Option (Option ℕ)
  | none => none
  | some url => do
      let same ← buffer.strncasecmp url scheme scheme.length
      if same then buffer.strchr (url + scheme.length) slash else some (some url)

/-- The last part of `parse_request_line`: scheme prefixes, the leading slash, the default page. -/
def parseUrl (conn : HttpConn) (url : ℕ) : Option (HttpCode × HttpConn) := do
  let afterHttp ← stripScheme conn.readBuf (ascii "http://") (some url)
  let afterHttps ← stripScheme conn.readBuf (ascii "https://") afterHttp
  match afterHttps with
  | none => some (.badRequest, { conn with url := none })
  | some url => do
      let first ← conn.readBuf.load? url
      if first ≠ slash then some (.badRequest, { conn with url := some url })
      else do
        let length ← conn.readBuf.strlen url
        let readBuf ← if length = 1 then conn.readBuf.strcat url (ascii "judge.html")
          else some conn.readBuf
        some (.noRequest, { conn with readBuf, url := some url, checkState := .header })

/-- The middle part of `parse_request_line`: the URL is cut off and the version is compared. -/
def parseVersion (conn : HttpConn) (url : ℕ) : Option (HttpCode × HttpConn) := do
  let spaces ← conn.readBuf.strspn url blanks
  let url := url + spaces
  let found ← conn.readBuf.strpbrk url blanks
  match found with
  | none => some (.badRequest, { conn with url := some url, version := none })
  | some separator => do
      let readBuf ← conn.readBuf.store? separator 0
      let spaces ← readBuf.strspn (separator + 1) blanks
      let version := separator + 1 + spaces
      let conn := { conn with readBuf, url := some url, version := some version }
      let supported ← conn.readBuf.strcasecmp version (ascii "HTTP/1.1")
      if supported then conn.parseUrl url else some (.badRequest, conn)

/-- `parse_request_line(text)`. -/
def parseRequestLine (conn : HttpConn) (text : ℕ) : Option (HttpCode × HttpConn) := do
  let found ← conn.readBuf.strpbrk text blanks
  match found with
  | none => some (.badRequest, { conn with url := none })
  | some separator => do
      let readBuf ← conn.readBuf.store? separator 0
      let conn := { conn with readBuf, url := some (separator + 1) }
      let isGet ← conn.readBuf.strcasecmp text (ascii "GET")
      let isPost ← conn.readBuf.strcasecmp text (ascii "POST")
      if isGet then parseVersion { conn with method := .get } (separator + 1)
      else if isPost then parseVersion { conn with method := .post, cgi := 1 } (separator + 1)
      else some (.badRequest, conn)

/-- The value of a header field: the text after the field name and its white space. -/
def headerValue (buffer : Buffer readBufferSize) (text : ℕ) (field : Bytes) : Option ℕ :=
  (buffer.strspn (text + field.length) blanks).map (text + field.length + ·)

/-- `parse_headers(text)`. -/
def parseHeaders (conn : HttpConn) (text : ℕ) : Option (HttpCode × HttpConn) := do
  let first ← conn.readBuf.load? text
  if first = 0 then
    if conn.contentLength ≠ 0 then some (.noRequest, { conn with checkState := .content })
    else some (.getRequest, conn)
  else do
    let isConnection ← conn.readBuf.strncasecmp text (ascii "Connection:") 11
    let isLength ← conn.readBuf.strncasecmp text (ascii "Content-length:") 15
    let isHost ← conn.readBuf.strncasecmp text (ascii "Host:") 5
    if isConnection then do
      let value ← headerValue conn.readBuf text (ascii "Connection:")
      let keepAlive ← conn.readBuf.strcasecmp value (ascii "keep-alive")
      some (.noRequest, if keepAlive then { conn with linger := true } else conn)
    else if isLength then do
      let value ← headerValue conn.readBuf text (ascii "Content-length:")
      let digits ← conn.readBuf.cstr value
      some (.noRequest, { conn with contentLength := toInt (atol digits) })
    else if isHost then do
      let value ← headerValue conn.readBuf text (ascii "Host:")
      some (.noRequest, { conn with host := some value })
    else some (.noRequest, conn)

/-- `parse_content(text)`; the sum of the two `int`s must not overflow. -/
def parseContent (conn : HttpConn) (text : ℕ) : Option (HttpCode × HttpConn) :=
  let needed := conn.contentLength + conn.checkedIdx
  if 2 ^ 31 ≤ needed then none
  else if needed ≤ conn.readIdx then
    (conn.readBuf.store? (text + conn.contentLength) 0).map fun readBuf =>
      (.getRequest, { conn with readBuf, string := some text })
  else some (.noRequest, conn)

/-- The loop body of `process_read`: hand the current line to the function of the check state. -/
def processLine (conn : HttpConn) : Option (LoopStep × HttpConn) :=
  let text := conn.startLine
  let conn := { conn with startLine := conn.checkedIdx }
  match conn.checkState with
  | .requestLine => (conn.parseRequestLine text).map fun (ret, conn) =>
      (if ret = .badRequest then .finish (.code .badRequest) else .next .ok, conn)
  | .header => (conn.parseHeaders text).map fun (ret, conn) =>
      (if ret = .badRequest then .finish (.code .badRequest)
        else if ret = .getRequest then .finish .callDoRequest else .next .ok, conn)
  | .content => (conn.parseContent text).map fun (ret, conn) =>
      (if ret = .getRequest then .finish .callDoRequest else .next .open, conn)

/-- The loop condition of `process_read`: it calls `parse_line` unless the content is being read and
the line status is still `LINE_OK`. -/
def loopCondition (conn : HttpConn) (lineStatus : LineStatus) : LineStatus × HttpConn :=
  if conn.checkState = .content ∧ lineStatus = .ok then (.ok, conn) else conn.parseLine

/-- The loop of `process_read`. -/
def processReadLoop : ℕ → LineStatus → HttpConn → Option (ReadResult × HttpConn)
  | 0, _, conn => some (.unfinished, conn)
  | fuel + 1, lineStatus, conn =>
      let condition := conn.loopCondition lineStatus
      if condition.1 = .ok then do
        let (step, conn) ← condition.2.processLine
        match step with
        | .finish result => some (result, conn)
        | .next lineStatus => processReadLoop fuel lineStatus conn
      else some (.code .noRequest, condition.2)

/-- `process_read()`. Every pass but one consumes a byte. -/
def processRead (conn : HttpConn) : Option (ReadResult × HttpConn) :=
  processReadLoop (conn.readIdx - conn.checkedIdx + 2) .ok conn

/-- One delivery: `read_once()` of bytes that fit, followed by `process_read()`. -/
def deliver (conn : HttpConn) (available : Bytes) : Option (ReadResult × HttpConn) :=
  (conn.readOnce available).2.processRead

/-- Successive deliveries, up to the first result other than `NO_REQUEST`. -/
def deliverAll : HttpConn → List Bytes → Option (ReadResult × HttpConn)
  | conn, [] => some (.code .noRequest, conn)
  | conn, piece :: rest => do
      let (result, conn) ← conn.deliver piece
      if result = .code .noRequest then deliverAll conn rest else some (result, conn)

/-! ## The loop body, by check state -/

theorem processLine_requestLine (conn : HttpConn) (state : conn.checkState = .requestLine) :
    conn.processLine =
      (parseRequestLine { conn with startLine := conn.checkedIdx } conn.startLine).map fun (ret, conn) =>
        (if ret = .badRequest then .finish (.code .badRequest) else .next .ok, conn) := by
  rw [processLine]
  split
  · rfl
  · next other => exact absurd (other.symm.trans state) (by decide)
  · next other => exact absurd (other.symm.trans state) (by decide)

theorem processLine_header (conn : HttpConn) (state : conn.checkState = .header) :
    conn.processLine =
      (parseHeaders { conn with startLine := conn.checkedIdx } conn.startLine).map fun (ret, conn) =>
        (if ret = .badRequest then .finish (.code .badRequest)
          else if ret = .getRequest then .finish .callDoRequest else .next .ok, conn) := by
  rw [processLine]
  split
  · next other => exact absurd (other.symm.trans state) (by decide)
  · rfl
  · next other => exact absurd (other.symm.trans state) (by decide)

theorem processLine_ofContent (conn : HttpConn) (state : conn.checkState = .content) :
    conn.processLine =
      (parseContent { conn with startLine := conn.checkedIdx } conn.startLine).map fun (ret, conn) =>
        (if ret = .getRequest then .finish .callDoRequest else .next .open, conn) := by
  rw [processLine]
  split
  · next other => exact absurd (other.symm.trans state) (by decide)
  · next other => exact absurd (other.symm.trans state) (by decide)
  · rfl

end HttpConn

end WebServ.Http
