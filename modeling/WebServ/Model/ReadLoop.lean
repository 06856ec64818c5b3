import WebServ.Model.RequestParser

/-! # `process_read` step by step

The same loop as `processRead`, without fuel: every iteration of the loop of `parse_line`, every evaluation of
the loop condition and every run of the loop body is a step of its own. Between two calls `read_once` may
deliver bytes. A loop body with undefined behaviour has no step. `do_request` is called when the loop is left;
it touches none of the members that are read here.
-/

namespace WebServ.Http

open WebServ.Text

/-- Where the thread stands: outside `process_read`, with the result of the last call, at the condition of its
loop, at the condition of the loop of `parse_line`, or at the loop body. -/
inductive ReadPoint where
  | returned (result : ReadResult)
  | condition (lineStatus : LineStatus)
  | scanning
  | body
deriving DecidableEq, Repr

/-- A connection and the place of the thread that reads from it. -/
structure Reader where
  conn : HttpConn
  point : ReadPoint

/-- The label of a step. -/
inductive ReadEvent where
  | readOnce (available : Bytes)
  | processRead
  | proceed
deriving DecidableEq, Repr

namespace HttpConn

/-- One iteration of the loop of `parse_line`. Only `LINE_OK` leads to the loop body. -/
def scanByte (conn : HttpConn) : Reader :=
  let lineOpen : Reader := ⟨conn, .returned (.code .noRequest)⟩
  let lineBad : Reader := ⟨conn, .returned (.code .noRequest)⟩
  if conn.checkedIdx < conn.readIdx then
    let temp := conn.readBuf.byte conn.checkedIdx
    if temp = cr then
      if conn.checkedIdx + 1 = conn.readIdx then lineOpen
      else if conn.readBuf.byte (conn.checkedIdx + 1) = lf then
        ⟨{ conn with
          readBuf := (conn.readBuf.set conn.checkedIdx 0).set (conn.checkedIdx + 1) 0
          checkedIdx := conn.checkedIdx + 2 }, .body⟩
      else lineBad
    else if temp = lf then
      if 1 < conn.checkedIdx ∧ conn.readBuf.byte (conn.checkedIdx - 1) = cr then
        ⟨{ conn with
          readBuf := (conn.readBuf.set (conn.checkedIdx - 1) 0).set conn.checkedIdx 0
          checkedIdx := conn.checkedIdx + 1 }, .body⟩
      else lineBad
    else ⟨{ conn with checkedIdx := conn.checkedIdx + 1 }, .scanning⟩
  else lineOpen

end HttpConn

namespace Reader

/-- A connection after `init()`. -/
def initial (conn : HttpConn) : Reader := ⟨conn.init, .returned (.code .noRequest)⟩

/-- Where the loop body leads. -/
def afterBody : LoopStep × HttpConn → Reader
  | (.finish result, conn) => ⟨conn, .returned result⟩
  | (.next lineStatus, conn) => ⟨conn, .condition lineStatus⟩

/-- One step inside `process_read`. -/
def proceed (reader : Reader) : Option Reader :=
  match reader.point with
  | .returned _ => none
  | .condition lineStatus =>
      if reader.conn.checkState = .content ∧ lineStatus = .ok then some ⟨reader.conn, .body⟩
      else some ⟨reader.conn, .scanning⟩
  | .scanning => some reader.conn.scanByte
  | .body => reader.conn.processLine.map afterBody

/-- One step; deliveries and calls come between two calls. -/
def step (reader : Reader) : ReadEvent → Option Reader
  | .readOnce available =>
      match reader.point with
      | .returned _ => some { reader with conn := (reader.conn.readOnce available).2 }
      | _ => none
  | .processRead =>
      match reader.point with
      | .returned _ => some ⟨reader.conn, .condition .ok⟩
      | _ => none
  | .proceed => reader.proceed

end Reader

end WebServ.Http
