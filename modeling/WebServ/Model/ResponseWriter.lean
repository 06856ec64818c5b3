import WebServ.Model.Response
import WebServ.Machine.Path

/-! # Sending a response

`write` hands the two iovecs to `writev` until everything is sent, and returns early on `EAGAIN` to
be called again at the next writable event. A byte handed to the socket is represented by the place
it was taken from, so that a skipped, repeated or foreign byte is visible. `Transfer` follows one
response through any number of calls of `write`; its events are the results of `writev`.
-/

namespace WebServ.Http

open WebServ.Text

/-- The place `count` bytes further on. -/
def Pointer.plus : Pointer → ℤ → Pointer
  | .writeBuf offset, count => .writeBuf (offset + count)
  | .file address offset, count => .file address (offset + count)

/-- The places of consecutive bytes. -/
def cells (base : Pointer) (len : ℕ) : List Pointer :=
  (List.range len).map fun (index : ℕ) => base.plus index

/-- The result of one `writev`: the number of bytes sent, `EAGAIN`, or another failure. -/
inductive WritevResult where
  | sent (count : ℕ)
  | again
  | error
deriving DecidableEq, Repr

/-- How a call of `write` returns: with the write event registered, after a failure, or with the whole
response sent on a connection that is kept or closed. -/
inductive WriteEnd where
  | again
  | failed
  | kept
  | closed
deriving DecidableEq, Repr

namespace HttpConn

/-- `unmap()`, as far as the members go. -/
def unmap (conn : HttpConn) : HttpConn :=
  if conn.fileAddress = .null then conn else { conn with fileAddress := .null }

/-- The bytes the current iovecs offer to `writev`. -/
def offered (conn : HttpConn) : List Pointer :=
  ([conn.iv0, conn.iv1].take conn.ivCount).flatMap fun iov => cells iov.base iov.len

/-- The updates of `write` after a `writev` that sent `temp` bytes. -/
def advanceIovecs (conn : HttpConn) (temp : ℕ) : HttpConn :=
  let bytesHaveSend := conn.bytesHaveSend + temp
  let bytesToSend := conn.bytesToSend - temp
  if conn.iv0.len ≤ toSize bytesHaveSend then
    { conn with
      bytesHaveSend, bytesToSend
      iv0 := { conn.iv0 with len := 0 }
      iv1 := ⟨.file conn.fileAddress (bytesHaveSend - conn.writeIdx), toSize bytesToSend⟩ }
  else
    { conn with
      bytesHaveSend, bytesToSend
      iv0 := ⟨.writeBuf bytesHaveSend, toSize (conn.iv0.len - bytesHaveSend)⟩ }

/-- The loop body of `write` after `writev` has returned; `none` goes on with the loop. -/
def writePass (conn : HttpConn) : WritevResult → Option WriteEnd × HttpConn
  | .again => (some .again, conn)
  | .error => (some .failed, conn.unmap)
  | .sent temp =>
      let conn := conn.advanceIovecs temp
      if conn.bytesToSend ≤ 0 then
        if conn.linger then (some .kept, conn.unmap.init) else (some .closed, conn.unmap)
      else (none, conn)

end HttpConn

/-- A response on its way: the connection, the bytes sent so far, and how the last call of `write`
returned, if the loop is not running. -/
structure Transfer where
  conn : HttpConn
  sent : List Pointer
  ended : Option WriteEnd

namespace Transfer

/-- The response is no longer sent: it is complete, or has failed. -/
def Over (transfer : Transfer) : Prop := transfer.ended ≠ none ∧ transfer.ended ≠ some .again

instance (transfer : Transfer) : Decidable transfer.Over := inferInstanceAs (Decidable (_ ∧ _))

/-- `write` has returned with the response complete. -/
def Finished (transfer : Transfer) : Prop :=
  transfer.ended = some .kept ∨ transfer.ended = some .closed

instance (transfer : Transfer) : Decidable transfer.Finished := inferInstanceAs (Decidable (_ ∨ _))

/-- A prepared response; `process` has registered the write event. -/
def start (conn : HttpConn) : Transfer := ⟨conn, [], some .again⟩

/-- The `writev` results the operating system may give: a positive count is at most what is
offered. -/
def Admits (transfer : Transfer) : WritevResult → Prop
  | .sent count => 0 < count ∧ count ≤ transfer.conn.offered.length
  | _ => True

instance (transfer : Transfer) (result : WritevResult) : Decidable (transfer.Admits result) :=
  match result with
  | .sent _ => inferInstanceAs (Decidable (_ ∧ _))
  | .again => inferInstanceAs (Decidable True)
  | .error => inferInstanceAs (Decidable True)

/-- The bytes one `writev` has taken. -/
def taken (transfer : Transfer) : WritevResult → List Pointer
  | .sent count => transfer.conn.offered.take count
  | _ => []

/-- One `writev`, in the running loop or as the first of a new call; a new call with nothing to send
makes none. -/
def step (transfer : Transfer) (result : WritevResult) : Option Transfer :=
  if transfer.Over ∨ ¬transfer.Admits result ∨
      (transfer.ended = some .again ∧ transfer.conn.bytesToSend = 0) then none
  else
    let (ended, conn) := transfer.conn.writePass result
    some ⟨conn, transfer.sent ++ transfer.taken result, ended⟩

end Transfer

/-! ## Consecutive places -/

theorem Pointer.plus_plus (base : Pointer) (first second : ℤ) :
    (base.plus first).plus second = base.plus (first + second) := by
  cases base <;> simp only [Pointer.plus, Int.add_assoc]

@[simp] theorem cells_length (base : Pointer) (len : ℕ) : (cells base len).length = len := by
  simp only [cells, List.length_map, List.length_range]

@[simp] theorem cells_zero (base : Pointer) : cells base 0 = [] := rfl

theorem cells_add (base : Pointer) (first second : ℕ) :
    cells base (first + second) = cells base first ++ cells (base.plus first) second := by
  simp only [cells, List.range_add, List.map_append, List.map_map]
  congr 1
  apply List.map_congr_left
  intro index _
  simp only [Function.comp_apply, Nat.cast_add, Pointer.plus_plus]

theorem cells_getElem? {base : Pointer} {len index : ℕ} (bound : index < len) :
    (cells base len)[index]? = some (base.plus index) := by
  rw [cells, List.getElem?_map, List.getElem?_range bound, Option.map_some]

theorem mem_cells {base place : Pointer} {len : ℕ} :
    place ∈ cells base len ↔ ∃ index < len, base.plus index = place := by
  simp only [cells, List.mem_map, List.mem_range]

end WebServ.Http
