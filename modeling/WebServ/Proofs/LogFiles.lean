import WebServ.Proofs.LogNames

/-! # The files of the log in their order

Calls that are made one after the other move the log from file to file and never back: a change of the day
begins a file of a later date, and complete lines begin the next segment, which the counter tells.
-/

namespace WebServ.Logging

open WebServ.Text

variable {size : ℕ}

/-- What tells a file of the log from the others. -/
structure FileKey where
  date : LocalTime
  segment : ℕ

namespace FileKey

/-- The name of the file; the first one of a date has no segment. -/
def name (dir base : Bytes) (key : FileKey) : Bytes :=
  dir ++ dateText key.date ++ base ++ if key.segment = 0 then [] else ascii "." ++ decimal key.segment

/-- A file of an earlier date, or an earlier one of the same date. -/
def Before (first second : FileKey) : Prop :=
  first.date.Before second.date ∨ first.date.SameDate second.date ∧ first.segment < second.segment

theorem Before.trans {first second third : FileKey} (left : first.Before second)
    (right : second.Before third) : first.Before third := by
  simp only [Before, LocalTime.Before, LocalTime.SameDate] at *
  omega

/-- The name tells the file. -/
theorem name_injective {first second : FileKey} {dir base : Bytes} (left : first.date.IsDate)
    (right : second.date.IsDate) (same : first.name dir base = second.name dir base) :
    first.date.SameDate second.date ∧ first.segment = second.segment := by
  simp only [name, List.append_assoc, List.append_cancel_left_eq] at same
  obtain ⟨sameDate, rest⟩ := dateText_injective left right same
  have suffix := List.append_cancel_left rest
  refine ⟨sameDate, ?_⟩
  have point : ascii "." ≠ [] := by decide
  split_ifs at suffix with firstZero secondZero secondZero
  · rw [firstZero, secondZero]
  · exact absurd suffix.symm (List.append_ne_nil_of_left_ne_nil point _)
  · exact absurd suffix (List.append_ne_nil_of_left_ne_nil point _)
  · exact decimal_injective (List.append_cancel_left suffix)

theorem name_day {tm : LocalTime} {dir base : Bytes} (isDate : tm.IsDate) (dirShort : dir.length ≤ 100)
    (baseShort : base.length ≤ 100) : (FileKey.mk tm 0).name dir base = Log.dayName dir base tm := by
  rw [name, if_pos rfl, List.append_nil, Log.dayName_eq isDate dirShort baseShort]

theorem name_segment {key : FileKey} {segment : ℤ} {dir base : Bytes} (isDate : key.date.IsDate)
    (dirShort : dir.length ≤ 100) (baseShort : base.length ≤ 100) (same : (key.segment : ℤ) = segment)
    (positive : 0 < segment) (small : segment < 2 ^ 63) :
    key.name dir base = Log.segmentName dir base key.date segment := by
  rw [name, if_neg (by omega), Log.segmentName_eq isDate dirShort baseShort (by omega), same]
  simp only [List.append_assoc]

theorem name_ne {first second : FileKey} {dir base : Bytes} (left : first.date.IsDate)
    (right : second.date.IsDate) (before : first.Before second) :
    first.name dir base ≠ second.name dir base := by
  intro same
  obtain ⟨sameDate, sameSegment⟩ := name_injective left right same
  simp only [Before, LocalTime.Before, LocalTime.SameDate] at before sameDate
  omega

end FileKey

theorem LocalTime.UpTo.trans {first second third : LocalTime} (left : first.UpTo second)
    (right : second.UpTo third) : first.UpTo third := by
  simp only [UpTo, SameDate, Before] at *
  omega

theorem LocalTime.UpTo.trans_before {first second third : LocalTime} (left : first.UpTo second)
    (right : second.Before third) : first.Before third := by
  simp only [UpTo, SameDate, Before] at *
  omega

theorem LocalTime.UpTo.refl (tm : LocalTime) : tm.UpTo tm := Or.inl ⟨rfl, rfl, rfl⟩

/-- Another day of the month is a later day. -/
theorem LocalTime.UpTo.before {first second : LocalTime} (upTo : first.UpTo second)
    (other : first.tmMday ≠ second.tmMday) : first.Before second := by
  simp only [UpTo, SameDate, Before] at *
  omega

/-- Counting one more: the next segment begins where the lines are complete. -/
theorem succ_ediv_emod (count : ℤ) {splitLines : ℤ} (positive : 0 < splitLines) :
    if (count + 1) % splitLines = 0 then (count + 1) / splitLines = count / splitLines + 1
    else (count + 1) / splitLines = count / splitLines ∧
      (count + 1) % splitLines = count % splitLines + 1 := by
  have whole := Int.emod_add_mul_ediv count splitLines
  have low := Int.emod_nonneg count positive.ne'
  have high := Int.emod_lt_of_pos count positive
  by_cases last : count % splitLines + 1 = splitLines
  · have next : (count + 1) / splitLines = count / splitLines + 1 ∧ (count + 1) % splitLines = 0 := by
      rw [Int.ediv_emod_unique positive]
      refine ⟨?_, le_rfl, positive⟩
      rw [mul_add]
      omega
    rw [if_pos next.2]
    exact next.1
  · have next : (count + 1) / splitLines = count / splitLines ∧
        (count + 1) % splitLines = count % splitLines + 1 := by
      rw [Int.ediv_emod_unique positive]
      exact ⟨by omega, by omega, by omega⟩
    rw [if_neg (by omega)]
    exact next

namespace Log

/-- The log moves on: the open file is the last of those opened so far, its segment is told by the counter, and
no file was opened twice. `now` is the time of the last line that was counted. -/
structure Forward (dir base : Bytes) (lines : ℤ) (opened : List Bytes) (now : LocalTime) (key : FileKey)
    (log : Log size) : Prop where
  names : log.Names dir base
  splitLines : log.splitLines = lines
  nonneg : 0 ≤ log.count
  segment : (key.segment : ℤ) = log.count / lines
  isDate : key.date.IsDate
  upTo : key.date.UpTo now
  today : log.today = now.tmMday
  distinct : opened.Nodup
  earlier : ∀ file ∈ opened, ∃ other : FileKey, other.date.IsDate ∧ other.name dir base = file ∧
    (other = key ∨ other.Before key)
  fp : ∀ file, log.fp = some file → file = key.name dir base ∧ file ∈ opened

variable {log next : Log size} {dir base : Bytes} {lines : ℤ} {opened : List Bytes} {now tm : LocalTime}
  {key : FileKey} {opens : Bool}

/-- A later file is not one of those opened so far. -/
theorem Forward.fresh (forward : log.Forward dir base lines opened now key) {later : FileKey}
    (before : key.Before later) (isDate : later.date.IsDate) : later.name dir base ∉ opened := by
  intro member
  obtain ⟨other, otherDate, same, rfl | earlier⟩ := forward.earlier _ member
  · exact FileKey.name_ne otherDate isDate before same
  · exact FileKey.name_ne otherDate isDate (earlier.trans before) same

/-- The log goes on with a later file. -/
theorem Forward.change (forward : log.Forward dir base lines opened now key) {later : FileKey}
    (before : key.Before later) (isDate : later.date.IsDate) (names : next.Names dir base)
    (splitLines : next.splitLines = log.splitLines) (nonneg : 0 ≤ next.count)
    (segment : (later.segment : ℤ) = next.count / lines) (today : next.today = later.date.tmMday)
    (fp : next.fp = if opens then some (later.name dir base) else none) :
    next.Forward dir base lines (opened ++ [later.name dir base]) later.date later where
  names := names
  splitLines := splitLines.trans forward.splitLines
  nonneg := nonneg
  segment := segment
  isDate := isDate
  upTo := .refl _
  today := today
  distinct := by
    have fresh := forward.fresh before isDate
    have apart : ∀ file ∈ opened, ∀ other ∈ [later.name dir base], file ≠ other := by
      intro file old other new same
      rw [List.mem_singleton.mp new] at same
      exact fresh (same ▸ old)
    exact List.nodup_append.mpr ⟨forward.distinct, List.pairwise_singleton _ _, apart⟩
  earlier file member := by
    rcases List.mem_append.mp member with old | new
    · obtain ⟨other, otherDate, same, rfl | earlier⟩ := forward.earlier file old
      · exact ⟨other, otherDate, same, Or.inr before⟩
      · exact ⟨other, otherDate, same, Or.inr (earlier.trans before)⟩
    · exact ⟨later, isDate, (List.mem_singleton.mp new).symm, Or.inl rfl⟩
  fp file isOpen := by
    rw [fp] at isOpen
    obtain rfl := Option.some.inj (Option.ite_none_right_eq_some.mp isOpen).2
    exact ⟨rfl, List.mem_append_right _ (List.mem_singleton_self _)⟩

/-- Whether `fopen` succeeds is of no account for what comes before it. -/
theorem rotate_eq_none {opens other : Bool} (stuck : log.rotate tm opens = none) :
    log.rotate tm other = none := by
  cases made : log.rotate tm other with
  | none => rfl
  | some next =>
    rw [rotate] at stuck
    cases rotates_of_rotate made with
    | day otherDay isOpen dirName logName =>
      obtain ⟨file, isOpen⟩ := Option.ne_none_iff_exists'.mp isOpen
      rw [if_pos otherDay, isOpen, dirName, logName] at stuck
      cases stuck
    | lines same isOpen nonzero complete dirName logName =>
      obtain ⟨file, isOpen⟩ := Option.ne_none_iff_exists'.mp isOpen
      rw [if_neg (not_not.mpr same), if_neg nonzero, if_pos complete, isOpen, dirName, logName] at stuck
      cases stuck
    | stays same nonzero incomplete =>
      rw [if_neg (not_not.mpr same), if_neg nonzero, if_neg incomplete] at stuck
      cases stuck

/-- What the first locked section of `write_log` leads to: a later file that begins to count its lines, or one
line more in the same file. -/
inductive Onward (dir base : Bytes) (lines : ℤ) (opened : List Bytes) (tm : LocalTime) (key : FileKey)
    (log next : Log size) : Prop where
  | later (other : FileKey) (before : key.Before other) (isDate : other.date.IsDate)
      (first : next.count % lines = 0) (isOpened : log.opened? tm true = some (other.name dir base))
      (forward : next.Forward dir base lines (opened ++ [other.name dir base]) tm other)
  | same (further : next.count % lines = log.count % lines + 1) (notOpened : log.opened? tm true = none)
      (forward : next.Forward dir base lines opened tm key)

theorem Forward.rotate (forward : log.Forward dir base lines opened now key) (positive : 1 ≤ lines)
    (dirShort : dir.length ≤ 100) (baseShort : base.length ≤ 100) (isDate : tm.IsDate) (upTo : now.UpTo tm)
    (few : log.count + 1 < 2 ^ 63) (rotates : Rotates log tm opens next) :
    Onward dir base lines opened tm key log next := by
  have nonneg := forward.nonneg
  have counts : 0 ≤ log.count + 1 := Int.add_nonneg nonneg Int.one_nonneg
  have names := forward.names
  have counted := succ_ediv_emod log.count (by omega : 0 < lines)
  have remainder : (log.count + 1).tmod log.splitLines = (log.count + 1) % lines := by
    rw [forward.splitLines, Int.tmod_eq_emod_of_nonneg (by omega)]
  have quotient : (log.count + 1).tdiv log.splitLines = (log.count + 1) / lines := by
    rw [forward.splitLines, Int.tdiv_eq_ediv_of_nonneg (by omega)]
  have upToNow := forward.upTo.trans upTo
  cases rotates with
  | day otherDay isOpen dirName logName =>
    obtain rfl := Option.some.inj (dirName.symm.trans names.dirName)
    obtain rfl := Option.some.inj (logName.symm.trans names.logName)
    have opened := names.opened?_day isOpen otherDay
    have named := FileKey.name_day isDate dirShort baseShort
    rw [forward.today] at otherDay
    have before : key.Before ⟨tm, 0⟩ := Or.inl (forward.upTo.trans_before (upTo.before otherDay))
    refine .later ⟨tm, 0⟩ before isDate (Int.zero_emod _) ?_ ?_
    · rw [named]
      exact opened
    · exact forward.change before isDate ⟨names.dirName, names.logName⟩ rfl le_rfl (Int.zero_ediv _).symm
        rfl (by rw [named])
  | lines same isOpen nonzero complete dirName logName =>
    obtain rfl := Option.some.inj (dirName.symm.trans names.dirName)
    obtain rfl := Option.some.inj (logName.symm.trans names.logName)
    have opened := names.opened?_segment isOpen same nonzero complete
    rw [quotient] at opened
    rw [remainder] at complete
    rw [if_pos complete] at counted
    have segment : ((key.segment + 1 : ℕ) : ℤ) = (log.count + 1) / lines := by
      rw [counted, ← forward.segment, Nat.cast_add, Nat.cast_one]
    have small : (log.count + 1) / lines < 2 ^ 63 :=
      (Int.ediv_le_self _ (by omega)).trans_lt few
    have named : (FileKey.mk tm (key.segment + 1)).name _ _ = _ :=
      FileKey.name_segment isDate dirShort baseShort segment (by omega) small
    have before : key.Before ⟨tm, key.segment + 1⟩ := by
      rcases upToNow with sameDate | earlier
      · exact Or.inr ⟨sameDate, Nat.lt_succ_self _⟩
      · exact Or.inl earlier
    refine .later ⟨tm, key.segment + 1⟩ before isDate complete ?_ ?_
    · rw [named]
      exact opened
    · exact forward.change before isDate ⟨names.dirName, names.logName⟩ rfl counts segment same
        (by rw [named, quotient])
  | stays same nonzero incomplete =>
    rw [remainder] at incomplete
    rw [if_neg incomplete] at counted
    have notDue : ¬log.Due tm := not_or.mpr ⟨not_not.mpr same, remainder ▸ incomplete⟩
    refine .same counted.2 (if_neg notDue) ?_
    exact { forward with
      names := ⟨names.dirName, names.logName⟩
      nonneg := counts
      segment := forward.segment.trans counted.1.symm
      upTo := upToNow
      today := same }

end Log

end WebServ.Logging
