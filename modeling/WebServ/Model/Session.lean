import WebServ.Model.Process
import WebServ.Machine.Path

/-! # One connection over many requests

The client's bytes come out of the socket in pieces, one for each `recv`. A connection reads and processes
until a response is pending, is then only called to write, and goes back to reading when the whole response
is sent on a connection that is kept. The events are the calls the main loop and the workers make; how the
bytes are cut, and the results of `writev`, are choices of the environment. The results of `process` other
than `NO_REQUEST`, and the received bytes that a reset finds behind the request it ends, are kept for the
statements only.
-/

namespace WebServ.Http

open WebServ.Text

/-- What the connection is registered for. -/
inductive SessionPhase where
  | reading
  | writing
  | closed
deriving DecidableEq, Repr

/-- A connection and its client. -/
structure Session where
  conn : HttpConn
  registry : Registry
  phase : SessionPhase
  incoming : List Bytes
  served : List Processed
  discarded : ℕ

/-- A call of `read_once` and `process`, one `writev` of a call of `write`, or a call of `write` with nothing
to send. -/
inductive SessionEvent where
  | read
  | writev (result : WritevResult)
  | writeNothing
deriving DecidableEq, Repr

/-- The `writev` results a socket without errors may give. -/
def SessionEvent.succeeds : SessionEvent → Bool
  | .writev .error => false
  | _ => true

namespace Session

/-- A connection after `init`, and the pieces its client will send. -/
def initial (start : HttpConn) (registry : Registry) (incoming : List Bytes) : Session where
  conn := start.init
  registry := registry
  phase := .reading
  incoming := incoming
  served := []
  discarded := 0

/-- What a `recv` into the room that is left does not take of a piece. -/
def unread (session : Session) (piece : Bytes) : List Bytes :=
  let room := readBufferSize - session.conn.readIdx
  if room < piece.length then [piece.drop room] else []

/-- The received bytes the parser has not come to. -/
def unparsed (session : Session) : ℕ := session.conn.readIdx - session.conn.checkedIdx

/-- The connection goes on as `conn` says after a call of `process`. -/
def afterProcess (session : Session) (done : Processed) : Session :=
  match done.written with
  | none => { session with conn := done.conn, registry := done.registry }
  | some written => { session with
      conn := done.conn
      registry := done.registry
      phase := if written then .writing else .closed
      served := session.served ++ [done] }

/-- The connection goes on as the loop of `write` says. -/
def afterWritev (session : Session) : Option WriteEnd × HttpConn → Session
  | (none, conn) => { session with conn }
  | (some .again, conn) => { session with conn }
  | (some .kept, conn) =>
      { session with conn, phase := .reading, discarded := session.discarded + session.unparsed }
  | (some .failed, conn) => { session with conn, phase := .closed }
  | (some .closed, conn) => { session with conn, phase := .closed }

/-- One action; `none` for an action that is not due, and for undefined behaviour. -/
def step (tree : FileTree) (query : Bytes → ℤ) (session : Session) : SessionEvent → Option Session
  | .read =>
      match session.phase, session.incoming with
      | .reading, piece :: rest =>
          let (received, conn) := session.conn.readOnce piece
          if received then
            (conn.process tree query session.registry).map
              { session with incoming := session.unread piece ++ rest }.afterProcess
          else some { session with incoming := rest, conn, phase := .closed }
      | _, _ => none
  | .writev result =>
      if session.phase = .writing ∧ session.conn.bytesToSend ≠ 0 then
        some (session.afterWritev (session.conn.writePass result))
      else none
  | .writeNothing =>
      if session.phase = .writing ∧ session.conn.bytesToSend = 0 then
        some { session with
          conn := session.conn.init
          phase := .reading
          discarded := session.discarded + session.unparsed }
      else none

end Session

end WebServ.Http
