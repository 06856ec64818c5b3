import WebServ.Model.RequestStream

/-! # What `parse_headers` does with one line

The empty line ends the header block; every other line changes at most one of `m_linger`,
`m_content_length` and `m_host`, and the read buffer not at all. `m_host` becomes a pointer to the
value inside the line.
-/

namespace WebServ.Http

open WebServ.Text

namespace HttpConn

/-- The state after the header line `text` at `start`. -/
def applyHeader (conn : HttpConn) (start : ℕ) (text : Bytes) : HttpConn :=
  match fieldValue (ascii "Connection:") text with
  | some value =>
      if Buffer.sameCaseless value (ascii "keep-alive") then { conn with linger := true } else conn
  | none =>
      match fieldValue (ascii "Content-length:") text with
      | some value => { conn with contentLength := toInt (atol value) }
      | none =>
          match fieldValue (ascii "Host:") text with
          | some value => { conn with host := some (start + (text.length - value.length)) }
          | none => conn

/-- The value of a field is a suffix of its line. -/
theorem fieldValue_suffix {field text value : Bytes} (found : fieldValue field text = some value) :
    value.length ≤ text.length ∧ value = text.drop (text.length - value.length) ∧
      field.length ≤ text.length := by
  rw [fieldValue] at found
  split_ifs at found with same
  cases found
  have long : field.length ≤ text.length := by
    have equal := Buffer.sameCaseless_length same
    rw [List.length_take] at equal
    omega
  have suffix : (text.drop field.length).dropWhile blanks.contains <:+ text :=
    (List.dropWhile_suffix _).trans (List.drop_suffix _ _)
  exact ⟨suffix.length_le, List.suffix_iff_eq_drop.mp suffix, long⟩

private theorem strncasecmp_field {buffer : Buffer readBufferSize} {start : ℕ} {text : Bytes}
    (field : Bytes) (count : ℕ) (found : buffer.cstr start = some text) (length : field.length = count) :
    buffer.strncasecmp start field count = some (fieldValue field text).isSome := by
  subst length
  simp only [Buffer.strncasecmp, found, Option.map_some, List.take_length, fieldValue]
  split <;> simp_all

private theorem headerValue_eq {buffer : Buffer readBufferSize} {start : ℕ} {text field value : Bytes}
    (found : buffer.cstr start = some text) (present : fieldValue field text = some value) :
    headerValue buffer start field = some (start + (text.length - value.length)) ∧
      buffer.cstr (start + (text.length - value.length)) = some value := by
  obtain ⟨short, suffix, long⟩ := fieldValue_suffix present
  have behind := Buffer.cstr_drop found long
  obtain ⟨skipped, _⟩ := Buffer.strspn_skip blanks behind
  have within : text.length - value.length ≤ text.length := Nat.sub_le ..
  have at_value := Buffer.cstr_drop found within
  rw [← suffix] at at_value
  refine ⟨?_, at_value⟩
  have parts := congrArg List.length
    (List.takeWhile_append_dropWhile (p := blanks.contains) (l := text.drop field.length))
  rw [fieldValue] at present
  split_ifs at present
  cases present
  simp only [List.length_append, List.length_drop] at parts
  rw [headerValue, skipped, Option.map_some]
  congr 1
  omega

/-- The empty line: the body follows if a content length is pending, otherwise all is read. -/
theorem parseHeaders_blank {conn : HttpConn} {start : ℕ}
    (found : conn.readBuf.cstr start = some []) :
    conn.parseHeaders start =
      if conn.contentLength ≠ 0 then some (.noRequest, { conn with checkState := .content })
      else some (.getRequest, conn) := by
  have bound := Buffer.cstr_bound found
  have load : conn.readBuf.load? start = some 0 := by
    rw [Buffer.load?, if_pos (by omega), Buffer.cstr_byte found, List.headD_nil]
  rw [parseHeaders, load]
  rfl

/-- Every other line is a header field. -/
theorem parseHeaders_field {conn : HttpConn} {start : ℕ} {text : Bytes}
    (found : conn.readBuf.cstr start = some text) (field : text ≠ []) :
    conn.parseHeaders start = some (.noRequest, conn.applyHeader start text) := by
  have bound := Buffer.cstr_bound found
  have nonzero : text.headD 0 ≠ 0 := by
    obtain ⟨first, rest, rfl⟩ := List.exists_cons_of_ne_nil field
    exact Buffer.cstr_nonzero found first (List.mem_cons_self ..)
  have load : conn.readBuf.load? start = some (text.headD 0) := by
    rw [Buffer.load?, if_pos (by omega), Buffer.cstr_byte found]
  rw [parseHeaders, applyHeader, load]
  simp only [bind, Option.bind_some, if_neg nonzero,
    strncasecmp_field (ascii "Connection:") 11 found (by decide),
    strncasecmp_field (ascii "Content-length:") 15 found (by decide),
    strncasecmp_field (ascii "Host:") 5 found (by decide)]
  cases isConnection : fieldValue (ascii "Connection:") text with
  | some value =>
    obtain ⟨position, read⟩ := headerValue_eq found isConnection
    simp only [Option.isSome_some, ↓reduceIte, position, Option.bind_some, Buffer.strcasecmp, read,
      Option.map_some]
  | none =>
    cases isLength : fieldValue (ascii "Content-length:") text with
    | some value =>
      obtain ⟨position, read⟩ := headerValue_eq found isLength
      simp only [Option.isSome_none, Bool.false_eq_true, ↓reduceIte, Option.isSome_some, position,
        Option.bind_some, read]
    | none =>
      cases isHost : fieldValue (ascii "Host:") text with
      | some value =>
        obtain ⟨position, read⟩ := headerValue_eq found isHost
        simp only [Option.isSome_none, Bool.false_eq_true, ↓reduceIte, Option.isSome_some, position,
          Option.bind_some]
      | none => simp only [Option.isSome_none, Bool.false_eq_true, ↓reduceIte]

/-- The value `m_host` points to is the one the abstract parser keeps. -/
theorem applyHeader_host {conn : HttpConn} {start : ℕ} {text value : Bytes}
    (found : conn.readBuf.cstr start = some text)
    (present : fieldValue (ascii "Host:") text = some value) :
    conn.readBuf.cstr (start + (text.length - value.length)) = some value ∧
      start + (text.length - value.length) + value.length = start + text.length := by
  refine ⟨(headerValue_eq found present).2, ?_⟩
  have short := (fieldValue_suffix present).1
  omega

end HttpConn

end WebServ.Http
