import WebServ.Model.DoRequest
import WebServ.Model.ResponseWriter
import WebServ.Model.Server

/-! # `process`

What a worker does with a connection whose bytes have been read: the parser, `do_request` where the
parser calls it, the response builder, and the registration of the next event. A response that cannot be
built closes the connection; the event is registered all the same.
-/

namespace WebServ.Http

open WebServ.Text

/-- What `process` leaves behind: the result of `process_read`, that of `process_write` when it is called,
the object, the users, and the event of the `modfd` at the end. -/
structure Processed where
  code : HttpCode
  written : Option Bool
  conn : HttpConn
  registry : Registry
  interest : Interest

namespace HttpConn

/-- `close_conn()`, as far as the members go. -/
def closeConn (conn : HttpConn) : HttpConn := { conn with sockfd := none }

/-- `process_read()` with the call of `do_request`, where the parser stops at `read`. -/
def answerRead (tree : FileTree) (query : Bytes → ℤ) (registry : Registry) :
    ReadResult × HttpConn → Option (HttpCode × HttpConn × Registry)
  | (.code code, conn) => some (code, conn, registry)
  | (.callDoRequest, conn) =>
      (conn.doRequest tree query registry).map fun outcome => (outcome.code, outcome.conn, outcome.registry)
  | (.unfinished, _) => none

/-- The part of `process` behind `process_read`. -/
def respond (conn : HttpConn) (registry : Registry) (ret : HttpCode) : Processed :=
  if ret = .noRequest then ⟨ret, none, conn, registry, .input⟩
  else
    let (written, conn) := conn.processWrite ret
    ⟨ret, some written, if written then conn else conn.closeConn, registry, .output⟩

/-- `process()`. -/
def process (tree : FileTree) (query : Bytes → ℤ) (registry : Registry) (conn : HttpConn) :
    Option Processed := do
  let read ← conn.processRead
  let (ret, conn, registry) ← answerRead tree query registry read
  some (conn.respond registry ret)

end HttpConn

end WebServ.Http
