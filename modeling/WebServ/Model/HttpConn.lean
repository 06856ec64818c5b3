import WebServ.Text.Integer

/-! # The state of one HTTP connection

`HttpConn` holds the data members of class `http_conn` that its member functions read or write;
the `m_` prefix is dropped and names are in camel case. Pointers into the read buffer are offsets,
with `none` for a pointer that is null or was never assigned. `int` members that only ever hold
small non-negative values are natural numbers; `m_content_length`, `bytes_to_send` and
`bytes_have_send` carry arbitrary `int` values. The socket address and the database handle are left
out: no modelled function computes with them.
-/

namespace WebServ.Http

open WebServ.Text

/-- `FILENAME_LEN`. -/
abbrev filenameLen : ℕ := 200

/-- `READ_BUFFER_SIZE`. -/
abbrev readBufferSize : ℕ := 2048

/-- `WRITE_BUFFER_SIZE`. -/
abbrev writeBufferSize : ℕ := 1024

/-- The two members of `METHOD` the program uses. -/
inductive Method where
  | get
  | post
deriving DecidableEq, Repr

/-- `CHECK_STATE`, the state of the outer parser. -/
inductive CheckState where
  | requestLine
  | header
  | content
deriving DecidableEq, Repr

/-- `HTTP_CODE`, the results of the outer parser. -/
inductive HttpCode where
  | noRequest
  | getRequest
  | badRequest
  | noResource
  | forbiddenRequest
  | fileRequest
  | internalError
  | closedConnection
deriving DecidableEq, Repr

/-- `LINE_STATUS`, the results of the line scanner. -/
inductive LineStatus where
  | ok
  | bad
  | «open»
deriving DecidableEq, Repr

/-- The fields of `struct stat` the program reads. -/
structure FileStat where
  size : ℕ
  otherRead : Bool
  directory : Bool
deriving DecidableEq, Repr

/-- `m_file_address`: null, `MAP_FAILED`, or the start of the mapping with the given identity. -/
inductive FileAddress where
  | null
  | failed
  | mapped (mapping : ℕ)
deriving DecidableEq, Repr

/-- The two places an iovec of a response can point into. -/
inductive Pointer where
  | writeBuf (offset : ℤ)
  | file (address : FileAddress) (offset : ℤ)
deriving DecidableEq, Repr

/-- `struct iovec`. -/
structure Iovec where
  base : Pointer
  len : ℕ
deriving DecidableEq, Repr

/-- The data members of `http_conn`. -/
structure HttpConn where
  sockfd : Option ℕ
  readBuf : Buffer readBufferSize
  readIdx : ℕ
  checkedIdx : ℕ
  startLine : ℕ
  writeBuf : Buffer writeBufferSize
  writeIdx : ℕ
  checkState : CheckState
  method : Method
  realFile : Buffer filenameLen
  url : Option ℕ
  version : Option ℕ
  host : Option ℕ
  contentLength : ℤ
  linger : Bool
  fileAddress : FileAddress
  fileStat : FileStat
  iv0 : Iovec
  iv1 : Iovec
  ivCount : ℕ
  cgi : ℕ
  string : Option ℕ
  bytesToSend : ℤ
  bytesHaveSend : ℤ

namespace HttpConn

/-- An object whose members are all zero. -/
def blank : HttpConn where
  sockfd := none
  readBuf := .zero
  readIdx := 0
  checkedIdx := 0
  startLine := 0
  writeBuf := .zero
  writeIdx := 0
  checkState := .requestLine
  method := .get
  realFile := .zero
  url := none
  version := none
  host := none
  contentLength := 0
  linger := false
  fileAddress := .null
  fileStat := ⟨0, false, false⟩
  iv0 := ⟨.writeBuf 0, 0⟩
  iv1 := ⟨.writeBuf 0, 0⟩
  ivCount := 0
  cgi := 0
  string := none
  bytesToSend := 0
  bytesHaveSend := 0

/-- `init()`: everything is reset but the socket, the file mapping, the iovecs and `m_string`. -/
def init (conn : HttpConn) : HttpConn :=
  { conn with
    bytesToSend := 0
    bytesHaveSend := 0
    checkState := .requestLine
    linger := false
    method := .get
    url := none
    version := none
    contentLength := 0
    host := none
    startLine := 0
    checkedIdx := 0
    readIdx := 0
    writeIdx := 0
    cgi := 0
    readBuf := .zero
    writeBuf := .zero
    realFile := .zero }

/-- `init(sockfd, addr)`, less the registration of the descriptor and the connection count. -/
def accept (conn : HttpConn) (sockfd : ℕ) : HttpConn := init { conn with sockfd := some sockfd }

/-- `read_once()`: one `recv` of the bytes the socket has `available`, none of them when the peer
has closed or the call fails. -/
def readOnce (conn : HttpConn) (available : Bytes) : Bool × HttpConn :=
  if readBufferSize ≤ conn.readIdx then (false, conn)
  else
    let received := available.take (readBufferSize - conn.readIdx)
    if received.length = 0 then (false, conn)
    else (true, { conn with
      readBuf := conn.readBuf.write conn.readIdx received
      readIdx := conn.readIdx + received.length })

end HttpConn

end WebServ.Http
