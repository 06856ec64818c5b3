import WebServ.Proofs.LogNames
import WebServ.Soundness.RequestParser

/-! # Where a log line is stored

`write_log` formats the prefix of a line into `m_buf` and the message behind it, and then ends the line
itself. The second `vsnprintf` is told that all of `m_buf` but one byte is left, and the places of the
newline and the NUL are computed from the untruncated length of the message, so nothing keeps a long
message inside the array.
-/

namespace WebServ.Logging

open WebServ.Text

/-- The places `snprintf` stores to. -/
def snprintfPlaces (offset count : ℕ) (text : Bytes) : List ℕ :=
  if count = 0 then [] else List.range' offset (text.take (count - 1) ++ [0]).length

/-- The places of `m_buf` the second locked section of `write_log` stores to, in order. -/
def formatPlaces (size : ℕ) (tm : LocalTime) (level : ℤ) (message : Bytes) : List ℕ :=
  let n := (prefixText tm level).length
  let m := message.length
  snprintfPlaces 0 48 (prefixText tm level) ++ snprintfPlaces n (size - 1) message ++ [n + m, n + m + 1]

/-- The prefix, the message, the newline and the NUL fit. -/
def LineFits (size : ℕ) (tm : LocalTime) (level : ℤ) (message : Bytes) : Prop :=
  (prefixText tm level).length + message.length + 2 ≤ size

instance (size : ℕ) (tm : LocalTime) (level : ℤ) (message : Bytes) :
    Decidable (LineFits size tm level message) := inferInstanceAs (Decidable (_ ≤ _))

variable {size : ℕ}

/-! ## The places and the model -/

/-- `snprintf` is defined if its places are in the array. -/
theorem snprintf_isSome_iff (buffer : Buffer size) (offset count : ℕ) (text : Bytes) :
    (snprintf buffer offset count text).isSome ↔ ∀ place ∈ snprintfPlaces offset count text, place < size := by
  rw [snprintf, snprintfPlaces]
  split_ifs with empty
  · simp
  · have nonempty : 0 < (text.take (count - 1) ++ [0]).length := by simp
    rw [Buffer.write?, Option.isSome_ite]
    generalize (text.take (count - 1) ++ [0]).length = length at nonempty
    constructor
    · intro bound place member
      have range := List.mem_range'_1.mp member
      omega
    · intro inside
      have last := inside (offset + (length - 1)) (List.mem_range'_1.mpr (by omega))
      omega

theorem store?_isSome_iff (buffer : Buffer size) (offset : ℕ) (value : UInt8) :
    (buffer.store? offset value).isSome ↔ offset < size := by
  rw [Buffer.store?, Option.isSome_ite]
  omega

/-- A call of `write_log` is defined if every place it stores to is in `m_buf`. -/
theorem format_isSome_iff (log : Log size) (tm : LocalTime) (level : ℤ) (message : Bytes) :
    (log.format tm level message).isSome ↔ ∀ place ∈ formatPlaces size tm level message, place < size := by
  simp only [formatPlaces, List.forall_mem_append, List.forall_mem_cons, List.not_mem_nil,
    false_implies, implies_true, and_true]
  constructor
  · intro defined
    obtain ⟨result, made⟩ := Option.isSome_iff_exists.mp defined
    simp only [Log.format, bind, Option.bind_eq_some_iff] at made
    obtain ⟨first, storedPrefix, second, storedMessage, third, newline, fourth, terminator, _⟩ := made
    refine ⟨⟨?_, ?_⟩, ?_, ?_⟩
    · exact (snprintf_isSome_iff log.buf _ _ _).mp (by rw [storedPrefix]; rfl)
    · exact (snprintf_isSome_iff first _ _ _).mp (by rw [storedMessage]; rfl)
    · exact (store?_isSome_iff second _ _).mp (by rw [newline]; rfl)
    · exact (store?_isSome_iff third _ _).mp (by rw [terminator]; rfl)
  · rintro ⟨⟨prefixInside, messageInside⟩, newlineInside, terminatorInside⟩
    obtain ⟨first, storedPrefix⟩ := Option.isSome_iff_exists.mp
      ((snprintf_isSome_iff log.buf _ _ _).mpr prefixInside)
    obtain ⟨second, storedMessage⟩ := Option.isSome_iff_exists.mp
      ((snprintf_isSome_iff first _ _ _).mpr messageInside)
    obtain ⟨third, newline⟩ := Option.isSome_iff_exists.mp
      ((store?_isSome_iff second _ 10).mpr newlineInside)
    have terminator : third.store? ((prefixText tm level).length + message.length + 1 : ℕ) 0 =
        some (third.set _ 0) := Buffer.store?_eq_some terminatorInside
    obtain ⟨text, found, _⟩ := Buffer.cstr_of_nul (Nat.zero_le _) terminatorInside
      (third.set_byte_self _ 0)
    simp only [Log.format, bind, storedPrefix, storedMessage, newline, terminator, found,
      Option.bind_some, Option.isSome_some]

/-! ## The lines that fit -/

theorem le_of_mem_snprintfPlaces {offset count place : ℕ} {text : Bytes}
    (member : place ∈ snprintfPlaces offset count text) :
    place ≤ offset + min (count - 1) text.length := by
  rw [snprintfPlaces] at member
  split_ifs at member
  · cases member
  · have range := List.mem_range'_1.mp member
    simp only [List.length_append, List.length_take, List.length_singleton] at range
    omega

/-- Every byte that `write_log` stores lies in `m_buf` exactly if the whole line fits. -/
theorem stores_inside_iff_lineFits (large : 64 ≤ size) (log : Log size) (tm : LocalTime) (level : ℤ)
    (message : Bytes) :
    ((∀ place ∈ formatPlaces size tm level message, place < size) ↔ LineFits size tm level message) ∧
      ((log.format tm level message).isSome ↔ LineFits size tm level message) := by
  rw [format_isSome_iff, and_self_iff, LineFits]
  simp only [formatPlaces, List.forall_mem_append, List.forall_mem_cons, List.not_mem_nil,
    false_implies, implies_true, and_true]
  constructor
  · rintro ⟨_, _, terminatorInside⟩
    exact terminatorInside
  · intro fits
    refine ⟨⟨?_, ?_⟩, by omega, fits⟩
    · intro place member
      have short := le_of_mem_snprintfPlaces member
      exact lt_of_lt_of_le (by omega : place < 64) large
    · intro place member
      have bound := le_of_mem_snprintfPlaces member
      omega

/-- A short message at noon. -/
theorem stores_inside_iff_lineFits_noon :
    (∀ place ∈ formatPlaces 64 ⟨125, 0, 1, 12, 0, 0, 0⟩ 1 (ascii "close fd"), place < 64) ↔
      LineFits 64 ⟨125, 0, 1, 12, 0, 0, 0⟩ 1 (ascii "close fd") :=
  (stores_inside_iff_lineFits (by decide) ⟨.zero, .zero, 800000, 0, 1, none, .zero, none⟩ _ _ _).1

/-! ## The prefix -/

/-- A broken-down time of the Gregorian years with four digits. -/
structure LocalTime.Ordinary (tm : LocalTime) : Prop where
  tmYear : 0 ≤ tm.tmYear + 1900 ∧ tm.tmYear + 1900 < 10000
  tmMon : 0 ≤ tm.tmMon + 1 ∧ tm.tmMon + 1 < 100
  tmMday : 0 ≤ tm.tmMday ∧ tm.tmMday < 100
  tmHour : 0 ≤ tm.tmHour ∧ tm.tmHour < 100
  tmMin : 0 ≤ tm.tmMin ∧ tm.tmMin < 100
  tmSec : 0 ≤ tm.tmSec ∧ tm.tmSec < 100
  usec : 0 ≤ tm.usec ∧ tm.usec < 1000000

theorem levelText_length_le (level : ℤ) : (levelText level).length ≤ 8 := by
  rw [levelText]
  split_ifs <;> decide

/-- The prefix of an ordinary line. -/
theorem prefixText_length_le {tm : LocalTime} (ordinary : tm.Ordinary) (level : ℤ) :
    (prefixText tm level).length ≤ 36 := by
  have year := decimal_length_le (by decide : 0 < 4) ordinary.tmYear.1 ordinary.tmYear.2
  have month := padded_length (by decide : 0 < 2) ordinary.tmMon.1 ordinary.tmMon.2
  have day := padded_length (by decide : 0 < 2) ordinary.tmMday.1 ordinary.tmMday.2
  have hour := padded_length (by decide : 0 < 2) ordinary.tmHour.1 ordinary.tmHour.2
  have minute := padded_length (by decide : 0 < 2) ordinary.tmMin.1 ordinary.tmMin.2
  have second := padded_length (by decide : 0 < 2) ordinary.tmSec.1 ordinary.tmSec.2
  have micro := padded_length (by decide : 0 < 6) ordinary.usec.1 ordinary.usec.2
  have levelName := levelText_length_le level
  simp only [prefixText, List.length_append, month, day, hour, minute, second, micro]
  have dash : (ascii "-").length = 1 := by decide
  have blank : (ascii " ").length = 1 := by decide
  have colon : (ascii ":").length = 1 := by decide
  have point : (ascii ".").length = 1 := by decide
  omega

/-- The buffer of `main` takes every ordinary line of up to 1962 bytes. -/
theorem lineFits_of_short {tm : LocalTime} (ordinary : tm.Ordinary) (level : ℤ) {message : Bytes}
    (short : message.length ≤ 1962) : LineFits 2000 tm level message := by
  have head := prefixText_length_le ordinary level
  rw [LineFits]
  omega

/-! ## A long request line -/

/-- A line that fits the read buffer with its CRLF is cut off and logged. -/
private theorem parseLine_delivered {line : Bytes} (plain : Http.Plain line)
    (fits : line.length + 2 ≤ Http.readBufferSize) : ∃ conn : Http.HttpConn,
      (Http.HttpConn.blank.init.readOnce (line ++ [Http.cr, Http.lf])).2.parseLine = (.ok, conn) ∧
        conn.readBuf.cstr 0 = some (Http.visible line) := by
  have split : Http.splitLine ([] ++ (line ++ [Http.cr, Http.lf])) = .complete line [] := by
    have crlf : Http.splitLine [Http.cr, Http.lf] = .complete [] [] := by decide
    rw [List.nil_append, Http.splitLine_plain_append plain, crlf, Http.foldr_cons_complete, List.append_nil]
  obtain ⟨_, readIdx, refines⟩ := (Http.refines_init .blank).readOnce
    (by simp : line ++ [Http.cr, Http.lf] ≠ []) (by simpa [Http.HttpConn.init] using fits)
  have start : (Http.HttpConn.blank.init.readOnce (line ++ [Http.cr, Http.lf])).2.startLine = 0 := by
    have empty : Http.HttpConn.blank.init.readIdx = 0 := rfl
    have length := refines.length
    rw [List.nil_append] at length
    omega
  have found := (refines.takeLine_facts split).1
  rw [start] at found
  refine ⟨_, refines.parseLine_complete split, ?_⟩
  rw [start]
  exact found

/-- A request line that fits the read buffer with its CRLF. -/
private def longLine : Bytes := ascii "GET /" ++ (List.replicate 1980 97 ++ ascii " HTTP/1.1")

private theorem plain_longLine : Http.Plain longLine := by
  rw [longLine, Http.Plain, List.forall_mem_append, List.forall_mem_append]
  refine ⟨by decide +kernel, fun value member => ?_, by decide +kernel⟩
  rw [List.eq_of_mem_replicate member]
  decide

/-- `process_read` cuts off the line it is about to log, and with the buffer of `main` the newline lands
behind `m_buf`. -/
theorem longLine_overruns : ∃ conn : Http.HttpConn,
    (Http.HttpConn.blank.init.readOnce (longLine ++ [Http.cr, Http.lf])).2.parseLine = (.ok, conn) ∧
      conn.readBuf.cstr 0 = some longLine ∧
      (∃ place ∈ formatPlaces 2000 ⟨125, 0, 1, 12, 0, 0, 0⟩ 1 longLine, ¬ place < 2000) ∧
      ∀ log : Log 2000, log.format ⟨125, 0, 1, 12, 0, 0, 0⟩ 1 longLine = none := by
  have whole : Http.visible longLine = longLine := by decide +kernel
  obtain ⟨conn, cut, found⟩ := parseLine_delivered plain_longLine (by decide +kernel)
  rw [whole] at found
  have outside : (prefixText ⟨125, 0, 1, 12, 0, 0, 0⟩ 1).length + longLine.length ∈
      formatPlaces 2000 ⟨125, 0, 1, 12, 0, 0, 0⟩ 1 longLine := by simp [formatPlaces]
  have beyond : ¬ (prefixText ⟨125, 0, 1, 12, 0, 0, 0⟩ 1).length + longLine.length < 2000 := by
    decide +kernel
  refine ⟨conn, cut, found, ⟨_, outside, beyond⟩, fun log => ?_⟩
  have places := format_isSome_iff log ⟨125, 0, 1, 12, 0, 0, 0⟩ 1 longLine
  exact Option.not_isSome_iff_eq_none.mp fun defined => beyond (places.mp defined _ outside)

end WebServ.Logging
