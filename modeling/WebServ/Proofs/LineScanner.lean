import WebServ.Model.RequestStream

/-! # What `parse_line` does to the unread bytes

The scanner finds exactly the first line of the bytes between `m_checked_idx` and `m_read_idx`. On
a complete line it overwrites the CRLF; otherwise it only moves `m_checked_idx` over plain bytes, so
that a later call with more bytes resumes inside the same line. Its branch for a LF that follows an
already checked CR is never taken: a checked CR is either overwritten or left unchecked.
-/

namespace WebServ.Http

open WebServ.Text

namespace HttpConn

/-- The bytes between `m_checked_idx` and `m_read_idx`. -/
structure Unread (conn : HttpConn) (bytes : Bytes) : Prop where
  length : conn.checkedIdx + bytes.length = conn.readIdx
  byte : ∀ index, (bound : index < bytes.length) →
    conn.readBuf.byte (conn.checkedIdx + index) = bytes[index]

/-- The byte before `m_checked_idx` is no CR. -/
def NoCrBefore (conn : HttpConn) : Prop :=
  0 < conn.checkedIdx → conn.readBuf.byte (conn.checkedIdx - 1) ≠ cr

/-- Overwrite the CRLF at `position` and step behind it. -/
def endLine (conn : HttpConn) (position : ℕ) : HttpConn :=
  { conn with
    readBuf := (conn.readBuf.set position 0).set (position + 1) 0
    checkedIdx := position + 2 }

/-- Move `m_checked_idx` forward. -/
def advance (conn : HttpConn) (count : ℕ) : HttpConn :=
  { conn with checkedIdx := conn.checkedIdx + count }

theorem Unread.tail {conn : HttpConn} {first : UInt8} {rest : Bytes}
    (unread : conn.Unread (first :: rest)) : (conn.advance 1).Unread rest where
  length := by
    have length := unread.length
    simp only [List.length_cons] at length
    simp only [advance]
    omega
  byte index bound := by
    have byte := unread.byte (index + 1) (by simpa using bound)
    rw [List.getElem_cons_succ] at byte
    simpa only [advance, Nat.add_assoc, Nat.add_comm 1] using byte

theorem Unread.head {conn : HttpConn} {first : UInt8} {rest : Bytes}
    (unread : conn.Unread (first :: rest)) : conn.readBuf.byte conn.checkedIdx = first :=
  unread.byte 0 (by simp)

private theorem noCrBefore_advance {conn : HttpConn}
    (notCr : conn.readBuf.byte conn.checkedIdx ≠ cr) : (conn.advance 1).NoCrBefore := by
  intro _
  simpa only [advance, Nat.add_sub_cancel] using notCr

/-- One plain byte is checked and the scan goes on behind it. -/
private theorem parseLineLoop_plain {conn : HttpConn} {first : UInt8}
    (head : conn.readBuf.byte conn.checkedIdx = first) (notCr : first ≠ cr) (notLf : first ≠ lf)
    (fuel : ℕ) : parseLineLoop (fuel + 1) conn = parseLineLoop fuel (conn.advance 1) := by
  rw [parseLineLoop, head, if_neg notCr, if_neg notLf, advance]

private theorem parseLineLoop_lf {conn : HttpConn} (head : conn.readBuf.byte conn.checkedIdx = lf)
    (before : conn.NoCrBefore) (fuel : ℕ) : parseLineLoop (fuel + 1) conn = (.bad, conn) := by
  have unchecked : ¬(1 < conn.checkedIdx ∧ conn.readBuf.byte (conn.checkedIdx - 1) = cr) :=
    fun found => before (by omega) found.2
  rw [parseLineLoop, head, if_neg (by decide), if_pos rfl, if_neg unchecked]

/-- On a complete line the scanner overwrites its CRLF. -/
theorem parseLineLoop_complete {conn : HttpConn} {bytes line rest : Bytes}
    (unread : conn.Unread bytes) (split : splitLine bytes = .complete line rest) :
    parseLineLoop bytes.length conn = (.ok, conn.endLine (conn.checkedIdx + line.length)) := by
  obtain ⟨rfl, plain⟩ := splitLine_complete split
  clear split
  induction line generalizing conn with
  | nil =>
    have second : conn.readBuf.byte (conn.checkedIdx + 1) = lf := unread.byte 1 (by simp)
    have more : conn.checkedIdx + 1 ≠ conn.readIdx := by
      have length := unread.length
      simp only [List.nil_append, List.length_cons] at length
      omega
    rw [List.nil_append, List.length_cons, parseLineLoop, unread.head, if_pos rfl, if_neg more,
      second, if_pos rfl]
    rfl
  | cons first tail ih =>
    obtain ⟨⟨notCr, notLf⟩, plain⟩ := List.forall_mem_cons.mp plain
    rw [List.cons_append, List.length_cons, parseLineLoop_plain unread.head notCr notLf,
      ih plain unread.tail]
    simp only [advance, endLine, List.length_cons, Nat.add_assoc, Nat.add_comm 1]

/-- Without a complete line the scanner stops inside it, with nothing but `m_checked_idx` changed. -/
theorem parseLineLoop_incomplete {conn : HttpConn} {bytes : Bytes} (unread : conn.Unread bytes)
    (before : conn.NoCrBefore) (incomplete : ∀ line rest, splitLine bytes ≠ .complete line rest) :
    ∃ seen rest, bytes = seen ++ rest ∧ Plain seen ∧
      parseLineLoop bytes.length conn =
        (if splitLine bytes = .malformed then .bad else .open, conn.advance seen.length) := by
  induction bytes generalizing conn with
  | nil => exact ⟨[], [], rfl, by simp [Plain], by simp [parseLineLoop, splitLine, advance]⟩
  | cons first tail ih =>
    by_cases isCr : first = cr
    · subst isCr
      refine ⟨[], cr :: tail, rfl, by simp [Plain], ?_⟩
      rw [List.length_cons, parseLineLoop, unread.head, if_pos rfl]
      cases tail with
      | nil =>
        have last : conn.checkedIdx + 1 = conn.readIdx := unread.length
        rw [if_pos last]
        rfl
      | cons second more =>
        have next : conn.readBuf.byte (conn.checkedIdx + 1) = second := unread.byte 1 (by simp)
        have inside : conn.checkedIdx + 1 ≠ conn.readIdx := by
          have length := unread.length
          simp only [List.length_cons] at length
          omega
        have notLf : second ≠ lf := by
          rintro rfl
          exact incomplete [] more (by simp [splitLine, afterCr])
        rw [if_neg inside, next, if_neg notLf, splitLine, if_pos rfl, afterCr, if_neg notLf,
          if_pos rfl]
        rfl
    · by_cases isLf : first = lf
      · subst isLf
        refine ⟨[], lf :: tail, rfl, by simp [Plain], ?_⟩
        rw [List.length_cons, parseLineLoop_lf unread.head before, splitLine, if_neg isCr, if_pos rfl,
          if_pos rfl]
        rfl
      · have split : splitLine (first :: tail) = (splitLine tail).cons first := by
          rw [splitLine, if_neg isCr, if_neg isLf]
        have inner : ∀ line rest, splitLine tail ≠ .complete line rest := by
          intro line rest found
          exact incomplete (first :: line) rest (by rw [split, found, Line.cons])
        have same : (splitLine tail).cons first = splitLine tail := by
          cases found : splitLine tail with
          | complete line rest => exact absurd found (inner line rest)
          | malformed => rfl
          | unfinished => rfl
        obtain ⟨seen, rest, rfl, plain, scanned⟩ :=
          ih unread.tail (noCrBefore_advance (unread.head ▸ isCr)) inner
        refine ⟨first :: seen, rest, rfl, List.forall_mem_cons.mpr ⟨⟨isCr, isLf⟩, plain⟩, ?_⟩
        rw [List.length_cons, parseLineLoop_plain unread.head isCr isLf, scanned, split, same]
        simp only [advance, List.length_cons, Nat.add_assoc, Nat.add_comm 1]

/-- The fuel of `parse_line` is the number of unread bytes. -/
theorem Unread.parseLine {conn : HttpConn} {bytes : Bytes} (unread : conn.Unread bytes) :
    conn.parseLine = parseLineLoop bytes.length conn := by
  rw [HttpConn.parseLine, ← unread.length, Nat.add_sub_cancel_left]

/-- Unread bytes that hold the scanner where it is: none, or a bare LF or CR in front. A CR at the
very end counts, since the scanner waits for the byte after it. -/
def scannerStays : Bytes → Bool
  | [] => true
  | first :: rest => first == lf || (first == cr && rest.head? != some lf)

/-- The scanner never moves back and changes only the read buffer besides. -/
theorem parseLine_frame (conn : HttpConn) :
    conn.parseLine.2.checkState = conn.checkState ∧
      conn.parseLine.2.contentLength = conn.contentLength ∧
      conn.parseLine.2.readIdx = conn.readIdx ∧ conn.checkedIdx ≤ conn.parseLine.2.checkedIdx := by
  rw [parseLine]
  generalize conn.readIdx - conn.checkedIdx = fuel
  fun_induction parseLineLoop fuel conn with
  | case7 fuel conn temp notCr notLf ih =>
    obtain ⟨state, length, readIdx, forward⟩ := ih
    exact ⟨state, length, readIdx, Nat.le_of_succ_le forward⟩
  | _ => exact ⟨rfl, rfl, rfl, by dsimp only; omega⟩

/-- The scanner stays inside the received bytes and in its line. -/
theorem parseLine_inside {conn : HttpConn} (checked : conn.checkedIdx ≤ conn.readIdx) :
    conn.parseLine.2.startLine = conn.startLine ∧ conn.parseLine.2.checkedIdx ≤ conn.readIdx := by
  have each : ∀ fuel (conn : HttpConn), conn.checkedIdx + fuel ≤ conn.readIdx →
      (parseLineLoop fuel conn).2.startLine = conn.startLine ∧
        (parseLineLoop fuel conn).2.checkedIdx ≤ conn.readIdx := by
    intro fuel conn bound
    fun_induction parseLineLoop fuel conn with
    | case7 fuel conn temp notCr notLf ih => exact ih (by dsimp only; omega)
    | _ => exact ⟨rfl, by dsimp only at *; omega⟩
  exact each _ conn (by omega)

/-- Held by the unread bytes, the scanner reports no line and leaves the connection as it is. -/
theorem Unread.parseLine_stays {conn : HttpConn} {bytes : Bytes} (unread : conn.Unread bytes)
    (before : conn.NoCrBefore) (stays : scannerStays bytes = true) :
    conn.parseLine.1 ≠ .ok ∧ conn.parseLine.2 = conn := by
  rw [unread.parseLine]
  cases bytes with
  | nil => exact ⟨by simp [parseLineLoop], rfl⟩
  | cons first rest =>
    have head := unread.head
    have length := unread.length
    rw [scannerStays, Bool.or_eq_true, Bool.and_eq_true, beq_iff_eq, beq_iff_eq, bne_iff_ne] at stays
    rcases stays with rfl | ⟨rfl, notLf⟩
    · rw [List.length_cons, parseLineLoop_lf head before]
      exact ⟨nofun, rfl⟩
    · rw [List.length_cons, parseLineLoop, head, if_pos rfl]
      cases rest with
      | nil =>
        have last : conn.checkedIdx + 1 = conn.readIdx := length
        rw [if_pos last]
        exact ⟨nofun, rfl⟩
      | cons second more =>
        have next : conn.readBuf.byte (conn.checkedIdx + 1) = second := unread.byte 1 (by simp)
        have inside : conn.checkedIdx + 1 ≠ conn.readIdx := by
          simp only [List.length_cons] at length
          omega
        rw [if_neg inside, next, if_neg (by simpa using notLf)]
        exact ⟨nofun, rfl⟩

/-- Otherwise it moves at least one byte. -/
theorem Unread.parseLine_moves {conn : HttpConn} {bytes : Bytes} (unread : conn.Unread bytes)
    (moves : scannerStays bytes = false) : conn.checkedIdx < conn.parseLine.2.checkedIdx := by
  cases bytes with
  | nil => simp [scannerStays] at moves
  | cons first rest =>
    have head := unread.head
    have length := unread.length
    rw [List.length_cons] at length
    rw [scannerStays, Bool.or_eq_false_iff, beq_eq_false_iff_ne] at moves
    obtain ⟨notLf, moves⟩ := moves
    rw [unread.parseLine]
    by_cases isCr : first = cr
    · subst isCr
      rw [beq_self_eq_true, Bool.true_and, bne_eq_false_iff_eq] at moves
      cases rest with
      | nil => simp at moves
      | cons second more =>
        obtain rfl : second = lf := by simpa using moves
        have next : conn.readBuf.byte (conn.checkedIdx + 1) = lf := unread.byte 1 (by simp)
        have inside : conn.checkedIdx + 1 ≠ conn.readIdx := by
          simp only [List.length_cons] at length
          omega
        rw [List.length_cons, parseLineLoop, head, if_pos rfl, if_neg inside, next, if_pos rfl]
        dsimp only
        omega
    · have forward := (parseLine_frame (conn.advance 1)).2.2.2
      rw [unread.tail.parseLine] at forward
      rw [List.length_cons, parseLineLoop_plain head isCr notLf]
      exact forward

/-! ## A delivery -/

/-- A delivery puts bytes into the buffer and counts them, and touches nothing else. -/
theorem readOnce_frame (conn : HttpConn) (available : Bytes) : ∃ readBuf readIdx,
    (conn.readOnce available).2 = { conn with readBuf, readIdx } ∧ conn.readIdx ≤ readIdx ∧
      readIdx ≤ conn.readIdx + available.length ∧
      (conn.readIdx ≤ readBufferSize → readIdx ≤ readBufferSize) := by
  rw [readOnce]
  dsimp only
  split_ifs
  · exact ⟨conn.readBuf, conn.readIdx, rfl, le_rfl, Nat.le_add_right .., id⟩
  · exact ⟨conn.readBuf, conn.readIdx, rfl, le_rfl, Nat.le_add_right .., id⟩
  · have room := List.length_take_le (readBufferSize - conn.readIdx) available
    have short := List.length_take_le' (readBufferSize - conn.readIdx) available
    exact ⟨_, _, rfl, Nat.le_add_right .., Nat.add_le_add_left short _, fun inside => by omega⟩

end HttpConn

end WebServ.Http
