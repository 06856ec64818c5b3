import WebServ.Proofs.Response
import WebServ.Model.Log

/-! # The write buffer under any sequence of `add_response`

The two capacity checks come down to one bound: a text is taken if it leaves a byte free behind its NUL.
`vsnprintf` stores the beginning of a refused text too, but only behind `m_write_idx`, so the bytes in front of
it are those of the taken texts whatever was refused between them.
-/

namespace WebServ.Http

open WebServ.Text
open WebServ.Logging (snprintf)

namespace HttpConn

/-- `m_write_idx` is below the last byte that `vsnprintf` may be given. -/
def HasRoom (conn : HttpConn) : Prop := conn.writeIdx < writeBufferSize - 1

/-- The call of `vsnprintf` stays inside `m_write_buf`, and these are all its stores. -/
def StoresInside (conn : HttpConn) (text : Bytes) : Prop :=
  snprintf conn.writeBuf conn.writeIdx (writeBufferSize - 1 - conn.writeIdx) text =
    some (conn.addResponse text).2.writeBuf

/-- The texts whose call returned true, in order. -/
def takenTexts (texts : List Bytes) (results : List Bool) : List Bytes :=
  ((texts.zip results).filter Prod.snd).map Prod.fst

variable {conn : HttpConn} {bytes text : Bytes}

theorem written_self (conn : HttpConn) : conn.Written conn.written where
  writeIdx := by rw [written, List.length_map, List.length_range]
  byte _ _ := by simp only [written, List.getElem_map, List.getElem_range]

/-! ## One call -/

/-- A text that does not leave two bytes free is cut, and the index stays. -/
theorem addResponse_refuses (room : conn.HasRoom)
    (long : writeBufferSize ≤ conn.writeIdx + text.length + 1) :
    conn.addResponse text = (false, { conn with
      writeBuf := conn.writeBuf.write conn.writeIdx
        (text.take (writeBufferSize - 1 - conn.writeIdx - 1) ++ [0]) }) := by
  have below : conn.writeIdx < writeBufferSize - 1 := room
  have someRoom : ¬writeBufferSize - 1 - conn.writeIdx = 0 := by omega
  rw [addResponse, if_neg (by omega)]
  dsimp only
  rw [if_neg someRoom, if_pos (by omega)]

theorem addResponse_taken_iff (room : conn.HasRoom) :
    (conn.addResponse text).1 = true ↔ conn.writeIdx + text.length + 1 < writeBufferSize := by
  constructor
  · intro taken
    by_contra long
    rw [addResponse_refuses room (Nat.le_of_not_lt long)] at taken
    cases taken
  · intro fits
    rw [addResponse_fits fits]

theorem addResponse_storesInside (room : conn.HasRoom) (text : Bytes) : conn.StoresInside text := by
  have below : conn.writeIdx < writeBufferSize - 1 := room
  have inside : conn.writeIdx +
      (text.take (writeBufferSize - 1 - conn.writeIdx - 1) ++ [0]).length ≤ writeBufferSize := by
    rw [List.length_append, List.length_take, List.length_singleton]
    omega
  rw [StoresInside, snprintf, if_neg (by omega), Buffer.write?_eq_some inside]
  rcases Nat.lt_or_ge (conn.writeIdx + text.length + 1) writeBufferSize with fits | long
  · rw [addResponse_fits fits, List.take_of_length_le (by omega)]
  · rw [addResponse_refuses room long]

/-- A refused call leaves the index and the bytes in front of it. -/
theorem Written.refused (written : conn.Written bytes) (room : conn.HasRoom)
    (refused : (conn.addResponse text).1 = false) : (conn.addResponse text).2.Written bytes := by
  have long : writeBufferSize ≤ conn.writeIdx + text.length + 1 := by
    by_contra short
    rw [(addResponse_taken_iff room).mpr (Nat.lt_of_not_le short)] at refused
    cases refused
  have index := written.writeIdx
  rw [addResponse_refuses room long]
  refine ⟨index, fun query bound => ?_⟩
  dsimp only
  rw [Buffer.write_byte_outside _ _ (Or.inl (by omega))]
  exact written.byte query bound

/-- One call keeps the room, and appends the text if and only if it returns true. -/
theorem Written.append (written : conn.Written bytes) (room : conn.HasRoom) (text : Bytes) :
    (conn.addResponse text).2.HasRoom ∧
      (conn.addResponse text).2.Written (bytes ++ if (conn.addResponse text).1 then text else []) := by
  have below : conn.writeIdx < writeBufferSize - 1 := room
  have index := written.writeIdx
  cases result : (conn.addResponse text).1 with
  | true =>
    have fits := (addResponse_taken_iff room).mp result
    have more : (conn.addResponse text).2.Written (bytes ++ text) := (written.addResponse (by omega)).2
    refine ⟨?_, more⟩
    rw [HasRoom, more.writeIdx, List.length_append]
    omega
  | false =>
    have same := written.refused room result
    rw [if_neg Bool.false_ne_true, List.append_nil]
    refine ⟨?_, same⟩
    rw [HasRoom, same.writeIdx]
    omega

/-! ## A sequence of calls -/

theorem takenTexts_cons (text : Bytes) (texts : List Bytes) (result : Bool) (results : List Bool) :
    (takenTexts (text :: texts) (result :: results)).flatten =
      (if result then text else []) ++ (takenTexts texts results).flatten := by
  cases result <;> rfl

theorem Written.appendAll (written : conn.Written bytes) (room : conn.HasRoom) (texts : List Bytes) :
    (conn.addResponses texts).2.HasRoom ∧
      (conn.addResponses texts).2.Written
        (bytes ++ (takenTexts texts (conn.addResponses texts).1).flatten) := by
  induction texts generalizing conn bytes with
  | nil =>
    have nothing : (takenTexts [] (conn.addResponses []).1).flatten = [] := rfl
    rw [nothing, List.append_nil]
    exact ⟨room, written⟩
  | cons text texts ih =>
    obtain ⟨still, more⟩ := written.append room text
    obtain ⟨last, all⟩ := ih more still
    rw [List.append_assoc, ← takenTexts_cons] at all
    exact ⟨last, all⟩

/-- After any calls of `add_response`, some of them refused, the index is below `WRITE_BUFFER_SIZE - 1`, and the
bytes in front of it are the taken texts; the next call stores inside the buffer, and if it returns false it
leaves the index and these bytes. -/
theorem addResponses_written (conn : HttpConn) (texts : List Bytes) :
    (conn.init.addResponses texts).2.writeIdx < writeBufferSize - 1 ∧
      (conn.init.addResponses texts).2.written =
        (takenTexts texts (conn.init.addResponses texts).1).flatten ∧
      ∀ text, (conn.init.addResponses texts).2.StoresInside text ∧
        (((conn.init.addResponses texts).2.addResponse text).1 = false →
          ((conn.init.addResponses texts).2.addResponse text).2.writeIdx =
            (conn.init.addResponses texts).2.writeIdx ∧
          ((conn.init.addResponses texts).2.addResponse text).2.written =
            (conn.init.addResponses texts).2.written) := by
  have empty : conn.init.Written [] := .nil rfl
  have start : conn.init.HasRoom := (by decide : 0 < writeBufferSize - 1)
  obtain ⟨room, written⟩ := empty.appendAll start texts
  rw [List.nil_append] at written
  refine ⟨room, written.written_eq, fun text => ⟨addResponse_storesInside room text, fun refused => ?_⟩⟩
  have same := written.refused room refused
  exact ⟨same.writeIdx.trans written.writeIdx.symm, same.written_eq.trans written.written_eq.symm⟩

/-- A text that leaves one byte behind its NUL fills the buffer, and the next byte is refused. -/
theorem addResponses_written_full :
    ((blank.init.addResponses [List.replicate 1022 65]).2.addResponse [66]).1 = false ∧
      ((blank.init.addResponses [List.replicate 1022 65]).2.addResponse [66]).2.written =
        (blank.init.addResponses [List.replicate 1022 65]).2.written := by
  have refused : ((blank.init.addResponses [List.replicate 1022 65]).2.addResponse [66]).1 = false := by
    decide +kernel
  obtain ⟨_, _, next⟩ := addResponses_written blank [List.replicate 1022 65]
  exact ⟨refused, ((next [66]).2 refused).2⟩

/-- `process_write` is such a sequence and keeps the room too, however often it is called. -/
theorem processWrite_hasRoom (room : conn.HasRoom) (ret : HttpCode) :
    (conn.processWrite ret).2.HasRoom := by
  obtain ⟨_, _, _, _, built⟩ := conn.processWrite_builds ret
  rw [built]
  exact (conn.written_self.appendAll room _).1

end HttpConn

end WebServ.Http
