import WebServ.Machine.Path
import WebServ.Proofs.Log
import WebServ.Text.Decimal

/-! # The names of the log files

A file name is a directory, a date and a base name; only the names that `init` and the rotation build are
ever opened. The date is written so that it can be read back, which makes the names of different days and
of different segments of one day different.
-/

namespace WebServ.Logging

open WebServ.Text

/-! ## Dates -/

/-- A date as `localtime` gives it; its text fits the array the rotation writes it into. -/
structure LocalTime.IsDate (tm : LocalTime) : Prop where
  tmYear : 0 ≤ tm.tmYear + 1900 ∧ tm.tmYear + 1900 < 10 ^ 8
  tmMon : 0 ≤ tm.tmMon ∧ tm.tmMon < 12
  tmMday : 1 ≤ tm.tmMday ∧ tm.tmMday < 32

instance (tm : LocalTime) : Decidable tm.IsDate :=
  decidable_of_iff ((0 ≤ tm.tmYear + 1900 ∧ tm.tmYear + 1900 < 10 ^ 8) ∧ (0 ≤ tm.tmMon ∧ tm.tmMon < 12) ∧
      (1 ≤ tm.tmMday ∧ tm.tmMday < 32))
    ⟨fun ⟨year, month, day⟩ => ⟨year, month, day⟩, fun ⟨year, month, day⟩ => ⟨year, month, day⟩⟩

/-- Two times of one day. -/
def LocalTime.SameDate (first second : LocalTime) : Prop :=
  first.tmYear = second.tmYear ∧ first.tmMon = second.tmMon ∧ first.tmMday = second.tmMday

instance (first second : LocalTime) : Decidable (first.SameDate second) :=
  inferInstanceAs (Decidable (_ ∧ _))

/-- The first time is of an earlier day. -/
def LocalTime.Before (first second : LocalTime) : Prop :=
  first.tmYear < second.tmYear ∨ first.tmYear = second.tmYear ∧
    (first.tmMon < second.tmMon ∨ first.tmMon = second.tmMon ∧ first.tmMday < second.tmMday)

/-- The second time is of the same day or of a later one. -/
def LocalTime.UpTo (first second : LocalTime) : Prop := first.SameDate second ∨ first.Before second

instance (first second : LocalTime) : Decidable (first.Before second) :=
  inferInstanceAs (Decidable (_ ∨ _))

instance (first second : LocalTime) : Decidable (first.UpTo second) :=
  inferInstanceAs (Decidable (_ ∨ _))

/-- A separator that is in neither word splits a text in one way only. -/
theorem append_cons_inj {α : Type} {separator : α} {first second left right : List α}
    (notFirst : separator ∉ first) (notSecond : separator ∉ second)
    (same : first ++ separator :: left = second ++ separator :: right) : first = second ∧ left = right := by
  induction first generalizing second with
  | nil =>
    cases second with
    | nil => exact ⟨rfl, (List.cons.inj same).2⟩
    | cons head tail =>
      obtain rfl := (List.cons.inj same).1
      exact absurd List.mem_cons_self notSecond
  | cons head tail ih =>
    cases second with
    | nil =>
      obtain rfl := (List.cons.inj same).1
      exact absurd List.mem_cons_self notFirst
    | cons other others =>
      obtain ⟨rfl, rest⟩ := List.cons.inj same
      obtain ⟨rfl, behind⟩ := ih (fun member => notFirst (List.mem_cons_of_mem _ member))
        (fun member => notSecond (List.mem_cons_of_mem _ member)) rest
      exact ⟨rfl, behind⟩

theorem padded_length {value : ℤ} {width : ℕ} (positive : 0 < width) (low : 0 ≤ value)
    (high : value < 10 ^ width) : (padded width value).length = width := by
  have digits := decimal_length_le positive (Int.natCast_nonneg value.natAbs)
    (by rwa [Int.natAbs_of_nonneg low])
  rw [padded, if_neg (by omega), List.length_append, List.length_replicate]
  omega

/-- Two digits can be read back. -/
theorem digitsValue_padded (value : Fin 100) : digitsValue 0 (padded 2 (value : ℕ)) = value := by
  revert value
  decide +kernel

theorem padded_injective {first second : ℤ} (left : 0 ≤ first ∧ first < 100)
    (right : 0 ≤ second ∧ second < 100) (same : padded 2 first = padded 2 second) : first = second := by
  obtain ⟨first, rfl⟩ := Int.eq_ofNat_of_zero_le left.1
  obtain ⟨second, rfl⟩ := Int.eq_ofNat_of_zero_le right.1
  have firstValue := digitsValue_padded ⟨first, by omega⟩
  have secondValue := digitsValue_padded ⟨second, by omega⟩
  dsimp only at firstValue secondValue
  rw [← firstValue, ← secondValue, same]

/-- The year in digits. -/
theorem decimal_year {tm : LocalTime} (isDate : tm.IsDate) :
    ∃ year : ℕ, tm.tmYear + 1900 = year ∧ (decimal (year : ℤ)).length ≤ 8 := by
  obtain ⟨year, same⟩ := Int.eq_ofNat_of_zero_le isDate.tmYear.1
  refine ⟨year, same, (decimal_length_le_iff (by decide)).mpr ?_⟩
  have high := isDate.tmYear.2
  omega

theorem padded_month {tm : LocalTime} (isDate : tm.IsDate) : (padded 2 (tm.tmMon + 1)).length = 2 := by
  obtain ⟨low, high⟩ := isDate.tmMon
  exact padded_length (by decide) (by omega) (by omega)

theorem padded_day {tm : LocalTime} (isDate : tm.IsDate) : (padded 2 tm.tmMday).length = 2 := by
  obtain ⟨low, high⟩ := isDate.tmMday
  exact padded_length (by decide) (by omega) (by omega)

theorem dateText_eq (tm : LocalTime) : dateText tm =
    decimal (tm.tmYear + 1900) ++ 95 :: (padded 2 (tm.tmMon + 1) ++ 95 :: (padded 2 tm.tmMday ++ [95])) := by
  have underscore : ascii "_" = [95] := by decide
  simp only [dateText, underscore, List.append_assoc, List.cons_append, List.nil_append]

theorem dateText_length {tm : LocalTime} (isDate : tm.IsDate) : (dateText tm).length ≤ 15 := by
  obtain ⟨year, same, short⟩ := decimal_year isDate
  rw [dateText_eq, same]
  simp only [List.length_append, List.length_cons, List.length_nil, padded_month isDate, padded_day isDate]
  omega

/-- The rotation does not cut the text of a date. -/
theorem truncated_dateText {tm : LocalTime} (isDate : tm.IsDate) :
    truncated 16 (dateText tm) = dateText tm := List.take_of_length_le (dateText_length isDate)

/-- The date is read back from the text in front of anything. -/
theorem dateText_injective {first second : LocalTime} (left : first.IsDate) (right : second.IsDate)
    {behind after : Bytes} (same : dateText first ++ behind = dateText second ++ after) :
    first.SameDate second ∧ behind = after := by
  have noUnderscore : ∀ year : ℕ, (95 : UInt8) ∉ decimal (year : ℤ) := by
    intro year member
    exact absurd (isDigit_of_mem_decimal member) (by decide)
  obtain ⟨firstYear, firstSame, _⟩ := decimal_year left
  obtain ⟨secondYear, secondSame, _⟩ := decimal_year right
  rw [dateText_eq, dateText_eq, firstSame, secondSame] at same
  simp only [List.append_assoc, List.cons_append] at same
  obtain ⟨years, rest⟩ := append_cons_inj (noUnderscore firstYear) (noUnderscore secondYear) same
  obtain ⟨months, rest⟩ := List.append_inj rest ((padded_month left).trans (padded_month right).symm)
  obtain ⟨days, rest⟩ := List.append_inj (List.cons.inj rest).2
    ((padded_day left).trans (padded_day right).symm)
  have year := decimal_injective years
  obtain ⟨firstLow, firstHigh⟩ := left.tmMon
  obtain ⟨secondLow, secondHigh⟩ := right.tmMon
  obtain ⟨firstDay, firstLast⟩ := left.tmMday
  obtain ⟨secondDay, secondLast⟩ := right.tmMday
  have month := padded_injective (by omega) (by omega) months
  have day := padded_injective (by omega) (by omega) days
  exact ⟨⟨by omega, by omega, day⟩, (List.cons.inj rest).2⟩

/-! ## Directory and base name -/

/-- The directory part of a file name, with its slash. -/
def dirPart (fileName : Bytes) : Bytes :=
  match Buffer.lastIdx? 47 fileName with
  | none => []
  | some p => fileName.take (p + 1)

/-- The base name. -/
def basePart (fileName : Bytes) : Bytes :=
  match Buffer.lastIdx? 47 fileName with
  | none => fileName
  | some p => fileName.drop (p + 1)

/-- A file name, without a NUL, of a directory part and a base name of at most 100 bytes each. -/
structure ShortName (fileName : Bytes) : Prop where
  nonzero : ∀ value ∈ fileName, value ≠ 0
  dir : (dirPart fileName).length ≤ 100
  base : (basePart fileName).length ≤ 100

instance (fileName : Bytes) : Decidable (ShortName fileName) :=
  have : Decidable (∀ value ∈ fileName, value ≠ 0) := List.decidableBAll _ _
  decidable_of_iff ((∀ value ∈ fileName, value ≠ 0) ∧ (dirPart fileName).length ≤ 100 ∧
      (basePart fileName).length ≤ 100)
    ⟨fun ⟨nonzero, dir, base⟩ => ⟨nonzero, dir, base⟩, fun ⟨nonzero, dir, base⟩ => ⟨nonzero, dir, base⟩⟩

variable {size : ℕ}

theorem dirPart_append_basePart (fileName : Bytes) : dirPart fileName ++ basePart fileName = fileName := by
  rw [dirPart, basePart]
  cases Buffer.lastIdx? 47 fileName with
  | none => rfl
  | some p => exact List.take_append_drop ..

theorem parts_of_noSlash {fileName : Bytes} (noSlash : 47 ∉ fileName) :
    dirPart fileName = [] ∧ basePart fileName = fileName := by
  rw [dirPart, basePart]
  cases found : Buffer.lastIdx? 47 fileName with
  | none => exact ⟨rfl, rfl⟩
  | some p => exact absurd (Buffer.mem_of_lastIdx? found) noSlash

theorem ShortName.dir_nonzero {fileName : Bytes} (short : ShortName fileName) :
    ∀ value ∈ dirPart fileName, value ≠ 0 := by
  intro value member
  apply short.nonzero value
  rw [← dirPart_append_basePart fileName]
  exact List.mem_append_left _ member

theorem ShortName.base_nonzero {fileName : Bytes} (short : ShortName fileName) :
    ∀ value ∈ basePart fileName, value ≠ 0 := by
  intro value member
  apply short.nonzero value
  rw [← dirPart_append_basePart fileName]
  exact List.mem_append_right _ member

theorem cstr_zero : (Buffer.zero : Buffer 128).cstr 0 = some [] :=
  Buffer.cstr_eq_some_iff.mpr ⟨by decide, rfl, fun _ bound => absurd bound (Nat.not_lt_zero _)⟩

namespace Log

/-- The strings the rotation builds names from. -/
structure Names (log : Log size) (dir base : Bytes) : Prop where
  dirName : log.dirName.cstr 0 = some dir
  logName : log.logName.cstr 0 = some base

/-- The parts of a short name fit their arrays; without a slash both stay empty. -/
theorem initNames_eq {fileName : Bytes} (short : ShortName fileName) (tm : LocalTime) :
    ∃ dirName logName, initNames fileName tm =
        some (dirName, logName, truncated 255 (dirPart fileName ++ dateText tm ++ basePart fileName)) ∧
      dirName.cstr 0 = some (dirPart fileName) ∧
      logName.cstr 0 = some (if 47 ∈ fileName then basePart fileName else []) := by
  have dirNonzero := short.dir_nonzero
  have baseNonzero := short.base_nonzero
  have dirShort := short.dir
  have baseShort := short.base
  rw [initNames]
  cases found : Buffer.lastIdx? 47 fileName with
  | none =>
    have noSlash : 47 ∉ fileName := by
      intro member
      obtain ⟨_, other⟩ := Buffer.lastIdx?_of_mem member
      rw [found] at other
      cases other
    obtain ⟨dir, base⟩ := parts_of_noSlash noSlash
    rw [if_neg noSlash, dir, base]
    exact ⟨_, _, rfl, cstr_zero, cstr_zero⟩
  | some p =>
    have bound := Buffer.lastIdx?_lt found
    have dir : dirPart fileName = fileName.take (p + 1) := by rw [dirPart, found]
    have base : basePart fileName = fileName.drop (p + 1) := by rw [basePart, found]
    have length : (dirPart fileName).length = p + 1 := by
      rw [dir, List.length_take]
      omega
    have copied : Buffer.zero.strcpy 0 (basePart fileName) =
        some ((Buffer.zero : Buffer 128).write 0 (basePart fileName ++ [0])) :=
      Buffer.write?_eq_some (by rw [List.length_append, List.length_singleton]; omega)
    have logName : ((Buffer.zero : Buffer 128).write 0 (basePart fileName ++ [0])).cstr 0 =
        some (basePart fileName) := Buffer.cstr_write _ _ _ (by omega) baseNonzero
    have cut : Buffer.zero.strncpy 0 fileName (p + 1) =
        some ((Buffer.zero : Buffer 128).write 0 (dirPart fileName)) := by
      have noPad : p + 1 - fileName.length = 0 := by omega
      rw [Buffer.strncpy, noPad, List.replicate_zero, List.append_nil, ← dir]
      exact Buffer.write?_eq_some (by omega)
    -- the copy is not terminated, but the rest of the array is still zero
    have dirName : ((Buffer.zero : Buffer 128).write 0 (dirPart fileName)).cstr 0 =
        some (dirPart fileName) := by
      refine Buffer.cstr_eq_some_iff.mpr ⟨by omega, ?_, fun index inside => ⟨?_, ?_⟩⟩
      · exact Buffer.write_byte_outside _ _ (Or.inr le_rfl)
      · exact Buffer.write_byte_inside _ _ _ inside
      · exact dirNonzero _ (List.getElem_mem inside)
    rw [if_pos (Buffer.mem_of_lastIdx? found)]
    dsimp only
    rw [← base]
    simp only [bind, copied, cut, dirName, logName, Option.bind_some]
    exact ⟨_, _, rfl, dirName, logName⟩

/-- What `init` leaves for the rotation. -/
structure Started (log : Log size) (dir base : Bytes) (splitLines : ℤ) (tm : LocalTime) (opens : Bool) :
    Prop where
  splitLines : log.splitLines = splitLines
  count : log.count = 0
  today : log.today = tm.tmMday
  fp : log.fp = if opens then some (dir ++ dateText tm ++ base) else none

theorem started_of_init {fileName : Bytes} {splitLines : ℤ} {maxQueueSize : Option Capacity}
    {tm : LocalTime} {opens : Bool} {log : Log size} (short : ShortName fileName) (isDate : tm.IsDate)
    (start : init fileName splitLines maxQueueSize tm opens = some log) :
    log.Started (dirPart fileName) (basePart fileName) splitLines tm opens ∧
      log.Names (dirPart fileName) (if 47 ∈ fileName then basePart fileName else []) ∧
      log.logQueue = maxQueueSize.map .initial := by
  obtain ⟨dirName, logName, named, dir, base⟩ := initNames_eq short tm
  have dirShort := short.dir
  have baseShort := short.base
  have date := dateText_length isDate
  have whole : truncated 255 (dirPart fileName ++ dateText tm ++ basePart fileName) =
      dirPart fileName ++ dateText tm ++ basePart fileName := by
    apply List.take_of_length_le
    simp only [List.length_append]
    omega
  rw [init, named, Option.map_some, whole] at start
  cases start
  exact ⟨⟨rfl, rfl, rfl, rfl⟩, ⟨dir, base⟩, rfl⟩

/-! ## The files that are opened -/

/-- The file is to be changed: the day of the month is another, or a file of lines is complete. -/
def Due (log : Log size) (tm : LocalTime) : Prop :=
  log.today ≠ tm.tmMday ∨ (log.count + 1).tmod log.splitLines = 0

instance (log : Log size) (tm : LocalTime) : Decidable (log.Due tm) := inferInstanceAs (Decidable (_ ∨ _))

/-- The name of the file that the first locked section of `write_log` opens, if it opens one. -/
def opened? (log : Log size) (tm : LocalTime) (opens : Bool) : Option Bytes :=
  if log.Due tm then (log.rotate tm opens).bind (·.fp) else none

variable {log next : Log size} {tm : LocalTime} {dir base : Bytes} {opens : Bool}

theorem dayName_eq (isDate : tm.IsDate) (dirShort : dir.length ≤ 100) (baseShort : base.length ≤ 100) :
    dayName dir base tm = dir ++ dateText tm ++ base := by
  have date := dateText_length isDate
  rw [dayName, truncated_dateText isDate]
  apply List.take_of_length_le
  simp only [List.length_append]
  omega

theorem segmentName_eq {segment : ℤ} (isDate : tm.IsDate) (dirShort : dir.length ≤ 100)
    (baseShort : base.length ≤ 100) (small : segment.natAbs < 2 ^ 63) :
    segmentName dir base tm segment = dir ++ dateText tm ++ base ++ ascii "." ++ decimal segment := by
  have date := dateText_length isDate
  have digits : (decimal segment).length ≤ 20 + 1 := decimal_length_natAbs (by decide) (by omega)
  have point : (ascii ".").length = 1 := by decide
  rw [segmentName, truncated_dateText isDate]
  apply List.take_of_length_le
  simp only [List.length_append, point]
  omega

/-- The rotation keeps what names are built from. -/
theorem Rotates.names (rotates : Rotates log tm opens next) (names : log.Names dir base) :
    next.Names dir base := by
  cases rotates <;> exact ⟨names.dirName, names.logName⟩

theorem Rotates.splitLines (rotates : Rotates log tm opens next) : next.splitLines = log.splitLines := by
  cases rotates <;> rfl

/-- A line is counted, or begins the count of a day. -/
theorem Rotates.count (rotates : Rotates log tm opens next) :
    next.count = 0 ∨ next.count = log.count + 1 := by
  cases rotates with
  | day => exact Or.inl rfl
  | lines => exact Or.inr rfl
  | stays => exact Or.inr rfl

theorem Names.opened?_day (names : log.Names dir base) (isOpen : log.fp ≠ none)
    (other : log.today ≠ tm.tmMday) : log.opened? tm true = some (dayName dir base tm) := by
  obtain ⟨file, isOpen⟩ := Option.ne_none_iff_exists'.mp isOpen
  have due : log.Due tm := Or.inl other
  rw [Log.opened?, if_pos due, Log.rotate, if_pos other, isOpen, names.dirName, names.logName]
  rfl

theorem Names.opened?_segment (names : log.Names dir base) (isOpen : log.fp ≠ none)
    (same : log.today = tm.tmMday) (nonzero : log.splitLines ≠ 0)
    (complete : (log.count + 1).tmod log.splitLines = 0) :
    log.opened? tm true = some (segmentName dir base tm ((log.count + 1).tdiv log.splitLines)) := by
  obtain ⟨file, isOpen⟩ := Option.ne_none_iff_exists'.mp isOpen
  have due : log.Due tm := Or.inr complete
  rw [Log.opened?, if_pos due, Log.rotate, if_neg (not_not.mpr same), if_neg nonzero, if_pos complete, isOpen,
    names.dirName, names.logName]
  rfl

/-- The parts of the name a rotation opens are the ones in the arrays. -/
theorem opened?_eq_some {file : Bytes} (names : log.Names dir base) (dirShort : dir.length ≤ 100)
    (baseShort : base.length ≤ 100) (isDate : tm.IsDate)
    (counted : 0 ≤ log.count ∧ log.count + 1 < 2 ^ 63) (opened : log.opened? tm true = some file) :
    if log.today ≠ tm.tmMday then file = dir ++ dateText tm ++ base
    else file = dir ++ dateText tm ++ base ++ ascii "." ++ decimal ((log.count + 1).tdiv log.splitLines) := by
  have rotated := opened
  rw [opened?, Option.ite_none_right_eq_some] at rotated
  obtain ⟨due, rotated⟩ := rotated
  obtain ⟨next, rotated, _⟩ := Option.bind_eq_some_iff.mp rotated
  cases rotates_of_rotate rotated with
  | day other isOpen =>
    have named := opened.symm.trans (names.opened?_day isOpen other)
    rw [if_pos other, Option.some.inj named, dayName_eq isDate dirShort baseShort]
  | lines same isOpen nonzero complete =>
    have named := opened.symm.trans (names.opened?_segment isOpen same nonzero complete)
    have small : ((log.count + 1).tdiv log.splitLines).natAbs < 2 ^ 63 := by
      have shrinks := Int.natAbs_tdiv_le_natAbs (log.count + 1) log.splitLines
      omega
    rw [if_neg (not_not.mpr same), Option.some.inj named, segmentName_eq isDate dirShort baseShort small]
  | stays same nonzero incomplete => exact absurd due (not_or.mpr ⟨not_not.mpr same, incomplete⟩)

end Log

/-- The time of a call of `write_log` that has not yet formatted its line. -/
def Writer.time? : Writer → Option LocalTime
  | .called tm _ _ | .rotated tm _ _ => some tm
  | _ => none

/-- The label of the section that counts a line. -/
def LogEvent.isRotate : LogEvent → Bool
  | .rotate .. => true
  | _ => false

/-- The thread of an action of `write_log`. -/
def LogEvent.thread? : LogEvent → Option ℕ
  | .call thread _ _ _ | .rotate thread _ | .format thread | .testFull thread | .push thread
  | .fputs thread => some thread
  | .flushPop | .flushWake | .flushWaitFails | .flushFputs => none

/-- A call is made at a date. -/
def LogEvent.AtDate : LogEvent → Prop
  | .call _ tm _ _ => tm.IsDate
  | _ => True

instance (event : LogEvent) : Decidable event.AtDate :=
  match event with
  | .call _ _ _ _ => inferInstanceAs (Decidable (LocalTime.IsDate _))
  | .rotate .. | .format _ | .testFull _ | .push _ | .fputs _ | .flushPop | .flushWake | .flushWaitFails
  | .flushFputs => isTrue trivial

namespace System

open Machine

variable {system next : System size} {dir base : Bytes}

/-- A step changes the log by a rotation, or neither its names nor its counter. -/
theorem names_of_step {event : LogEvent} (names : system.log.Names dir base)
    (stepped : system.step event = some next) : next.log.Names dir base := by
  cases moves_of_step stepped with
  | rotated stage rotates => exact rotates.names names
  | _ => exact ⟨names.dirName, names.logName⟩

theorem count_of_step {event : LogEvent} (nonneg : 0 ≤ system.log.count)
    (stepped : system.step event = some next) :
    0 ≤ next.log.count ∧ next.log.count ≤ system.log.count + if event.isRotate then 1 else 0 := by
  cases moves_of_step stepped with
  | rotated stage rotates =>
    rw [LogEvent.isRotate, if_pos rfl]
    rcases rotates.count with zero | more
    · dsimp only
      omega
    · dsimp only
      omega
  | _ => exact ⟨nonneg, Int.le_add_of_nonneg_right (by split_ifs <;> decide)⟩

/-- The counter is at most the number of times a line was counted. -/
theorem count_of_run {events : List LogEvent} (nonneg : 0 ≤ system.log.count)
    (ran : run step system events = some next) :
    0 ≤ next.log.count ∧ next.log.count ≤ system.log.count + events.countP LogEvent.isRotate := by
  induction events generalizing system with
  | nil =>
    cases ran
    exact ⟨nonneg, by simp⟩
  | cons event events ih =>
    obtain ⟨middle, stepped, later⟩ := (run_cons_eq_some step).mp ran
    obtain ⟨low, high⟩ := count_of_step nonneg stepped
    obtain ⟨nonneg, bound⟩ := ih low later
    rw [List.countP_cons]
    split_ifs at high ⊢ <;> exact ⟨nonneg, by omega⟩

/-- The times the threads write with are dates. -/
def WriteDates (system : System size) : Prop :=
  ∀ thread tm, (system.writers thread).time? = some tm → tm.IsDate

theorem writeDates_of_step {event : LogEvent} (dates : system.WriteDates) (atDate : event.AtDate)
    (stepped : system.step event = some next) : next.WriteDates := by
  have each : ∀ (thread : ℕ) (writer : Writer), (∀ tm, writer.time? = some tm → tm.IsDate) →
      ∀ other tm, (Function.update system.writers thread writer other).time? = some tm → tm.IsDate := by
    intro thread writer isDate other tm found
    rw [Function.update_apply] at found
    split_ifs at found
    · exact isDate tm found
    · exact dates other tm found
  cases moves_of_step stepped with
  | undefined => exact dates
  | called stage => exact each _ _ fun tm found => Option.some.inj found ▸ atDate
  | rotated stage rotates =>
    exact each _ _ fun tm found => dates _ tm ((congrArg Writer.time? stage).trans found)
  | formatted stage => exact each _ _ nofun
  | tested stage =>
    refine each _ _ fun tm found => ?_
    split_ifs at found <;> cases found
  | pushed stage found stored => exact each _ _ nofun
  | put stage isOpen => exact each _ _ nofun
  | flusherWaits => exact dates
  | flusherTakes => exact dates
  | flusherEnds => exact dates
  | flusherPuts => exact dates

/-! ## One thread in the synchronous mode -/

/-- There is no queue, and all threads but one have called nothing. -/
structure Alone (system : System size) (thread : ℕ) : Prop where
  others : ∀ other ≠ thread, system.writers other = .idle
  logQueue : system.log.logQueue = none
  flusher : system.flusher = .calling

theorem Alone.move {thread : ℕ} {writer : Writer} (alone : Alone system thread)
    (writers : next.writers = Function.update system.writers thread writer)
    (logQueue : next.log.logQueue = system.log.logQueue) (flusher : next.flusher = system.flusher) :
    Alone next thread where
  others other isOther := by
    rw [writers, Function.update_of_ne isOther]
    exact alone.others other isOther
  logQueue := logQueue.trans alone.logQueue
  flusher := flusher.trans alone.flusher

theorem Alone.step {thread : ℕ} {event : LogEvent} (alone : Alone system thread)
    (own : event.thread? = some thread) (stepped : system.step event = some next) : Alone next thread := by
  cases moves_of_step stepped with
  | undefined => exact ⟨alone.others, alone.logQueue, alone.flusher⟩
  | called stage =>
    obtain rfl := Option.some.inj own
    exact alone.move rfl rfl rfl
  | rotated stage rotates =>
    obtain rfl := Option.some.inj own
    exact alone.move rfl rotates.logQueue rfl
  | formatted stage =>
    obtain rfl := Option.some.inj own
    exact alone.move rfl rfl rfl
  | tested stage =>
    obtain rfl := Option.some.inj own
    exact alone.move rfl rfl rfl
  | pushed stage found => cases alone.logQueue.symm.trans found
  | put stage isOpen =>
    obtain rfl := Option.some.inj own
    exact alone.move rfl rfl rfl
  | flusherWaits nothing found => cases alone.logQueue.symm.trans found
  | flusherTakes nothing found => cases alone.logQueue.symm.trans found
  | flusherEnds stage => cases alone.flusher.symm.trans stage
  | flusherPuts stage => cases alone.flusher.symm.trans stage

/-- The actions of one call in the synchronous mode. -/
def oneCall (thread : ℕ) (tm : LocalTime) (message : Bytes) : List LogEvent :=
  [.call thread tm 1 message, .rotate thread true, .format thread, .testFull thread, .fputs thread]

end System

/-- A log without a queue that is opened on the first of January, with files of two lines. -/
def newYearLog : Log 64 :=
  (Log.init (ascii "./server.log") 2 none ⟨125, 0, 1, 12, 0, 0, 0⟩ true).get (by decide +kernel)

theorem init_newYearLog :
    Log.init (ascii "./server.log") 2 none ⟨125, 0, 1, 12, 0, 0, 0⟩ true = some newYearLog :=
  (Option.some_get _).symm

end WebServ.Logging
