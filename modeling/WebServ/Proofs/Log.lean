import WebServ.Model.Log

/-! # What a step of the log does

One inversion lemma for the change of the file in `write_log`, and one for the steps of the threads: an
action that is possible moves one thread on, or meets undefined behaviour and only marks that.
-/

namespace WebServ.Logging

open WebServ.Text

variable {size : ℕ}

namespace Log

variable {log next : Log size} {tm : LocalTime}

/-- The name of the file a new day begins with. -/
def dayName (dir base : Bytes) (tm : LocalTime) : Bytes :=
  truncated 255 (dir ++ truncated 16 (dateText tm) ++ base)

/-- The name of a further file of the same day. -/
def segmentName (dir base : Bytes) (tm : LocalTime) (segment : ℤ) : Bytes :=
  truncated 255 (dir ++ truncated 16 (dateText tm) ++ base ++ ascii "." ++ decimal segment)

/-- How the first locked section of `write_log` ends: on another day, with a file of lines complete, or in
the same file. -/
inductive Rotates (log : Log size) (tm : LocalTime) (opens : Bool) : Log size → Prop where
  | day {dir base : Bytes} (other : log.today ≠ tm.tmMday) (isOpen : log.fp ≠ none)
      (dirName : log.dirName.cstr 0 = some dir) (logName : log.logName.cstr 0 = some base) :
      Rotates log tm opens { log with
        count := 0
        today := tm.tmMday
        fp := if opens then some (dayName dir base tm) else none }
  | lines {dir base : Bytes} (same : log.today = tm.tmMday) (isOpen : log.fp ≠ none)
      (nonzero : log.splitLines ≠ 0) (complete : (log.count + 1).tmod log.splitLines = 0)
      (dirName : log.dirName.cstr 0 = some dir) (logName : log.logName.cstr 0 = some base) :
      Rotates log tm opens { log with
        count := log.count + 1
        fp := if opens then some (segmentName dir base tm ((log.count + 1).tdiv log.splitLines)) else none }
  | stays (same : log.today = tm.tmMday) (nonzero : log.splitLines ≠ 0)
      (incomplete : (log.count + 1).tmod log.splitLines ≠ 0) :
      Rotates log tm opens { log with count := log.count + 1 }

theorem rotates_of_rotate {opens : Bool} (rotated : log.rotate tm opens = some next) :
    Rotates log tm opens next := by
  simp only [rotate, Option.bind_eq_bind] at rotated
  split at rotated
  · next other =>
    simp only [Option.bind_eq_some_iff, Option.some.injEq] at rotated
    obtain ⟨_, isOpen, dir, dirName, base, logName, rfl⟩ := rotated
    exact .day other (Option.ne_none_iff_exists'.mpr ⟨_, isOpen⟩) dirName logName
  · next same =>
    split at rotated
    · cases rotated
    · next nonzero =>
      split at rotated
      · next complete =>
        simp only [Option.bind_eq_some_iff, Option.some.injEq] at rotated
        obtain ⟨_, isOpen, dir, dirName, base, logName, rfl⟩ := rotated
        exact .lines (not_not.mp same) (Option.ne_none_iff_exists'.mpr ⟨_, isOpen⟩) nonzero complete dirName
          logName
      · next incomplete =>
        cases rotated
        exact .stays (not_not.mp same) nonzero incomplete

/-- `init` creates the queue. -/
theorem init_logQueue {fileName : Bytes} {splitLines : ℤ} {capacity : Capacity} {opens : Bool}
    (start : init fileName splitLines (some capacity) tm opens = some log) :
    log.logQueue = some (.initial capacity) := by
  obtain ⟨_, _, rfl⟩ := Option.map_eq_some_iff.mp start
  rfl

/-- A change of the file touches neither the names nor the queue. -/
theorem Rotates.logQueue {opens : Bool} (rotates : Rotates log tm opens next) :
    next.logQueue = log.logQueue := by
  cases rotates <;> rfl

/-- Formatting a line changes `m_buf` only. -/
theorem format_frame {level : ℤ} {message text : Bytes}
    (made : log.format tm level message = some (text, next)) : ∃ buf, next = { log with buf } := by
  simp only [format, Option.bind_eq_bind, Option.bind_eq_some_iff, Option.some.injEq,
    Prod.mk.injEq] at made
  obtain ⟨_, _, _, _, _, _, buf, _, _, _, _, rfl⟩ := made
  exact ⟨buf, rfl⟩

end Log

namespace System

variable {system next : System size} {thread : ℕ}

/-- What an action does, with where its thread has stood before. -/
inductive Moves (system : System size) : LogEvent → System size → Prop where
  | undefined {event : LogEvent} : Moves system event { system with undefined := true }
  | called {thread : ℕ} {tm : LocalTime} {level : ℤ} {message : Bytes}
      (stage : system.writers thread = .idle) :
      Moves system (.call thread tm level message) (system.setWriter thread (.called tm level message))
  | rotated {thread : ℕ} {opens : Bool} {tm : LocalTime} {level : ℤ} {message : Bytes} {log : Log size}
      (stage : system.writers thread = .called tm level message) (rotates : system.log.Rotates tm opens log) :
      Moves system (.rotate thread opens) { system.setWriter thread (.rotated tm level message) with log }
  | formatted {thread : ℕ} {tm : LocalTime} {level : ℤ} {message text : Bytes} {buf : Buffer size}
      (stage : system.writers thread = .rotated tm level message)
      (made : system.log.format tm level message = some (text, { system.log with buf })) :
      Moves system (.format thread) (system.addLine thread text { system.log with buf })
  | tested {thread : ℕ} {line : Line} (stage : system.writers thread = .testing line) :
      Moves system (.testFull thread)
        (system.setWriter thread (if system.log.enqueues then .pushing line else .putting line))
  | pushed {thread : ℕ} {line : Line} {queue after : BlockQueue Line} {result : Bool}
      (stage : system.writers thread = .pushing line) (found : system.log.logQueue = some queue)
      (stored : queue.push line = some (result, after)) :
      Moves system (.push thread)
        { system.setWriter thread .idle with log := { system.log with logQueue := some after } }
  | put {thread : ℕ} {line : Line} {file : Bytes} (stage : system.writers thread = .putting line)
      (isOpen : system.log.fp = some file) :
      Moves system (.fputs thread)
        { system.setWriter thread .idle with written := system.written ++ [(file, line)] }
  | flusherWaits {event : LogEvent} {queue : BlockQueue Line} (nothing : system.flusher.line? = none)
      (found : system.log.logQueue = some queue) (empty : queue.mSize ≤ 0) :
      Moves system event { system with flusher := .waiting }
  | flusherTakes {event : LogEvent} {line : Line} {queue after : BlockQueue Line}
      (nothing : system.flusher.line? = none) (found : system.log.logQueue = some queue)
      (nonempty : ¬ queue.mSize ≤ 0) (taken : queue.take = some (line, after)) :
      Moves system event { system with
        log := { system.log with logQueue := some after }
        flusher := .holding line }
  | flusherEnds (stage : system.flusher = .waiting) :
      Moves system .flushWaitFails { system with flusher := .ended }
  | flusherPuts {line : Line} {file : Bytes} (stage : system.flusher = .holding line)
      (isOpen : system.log.fp = some file) :
      Moves system .flushFputs { system with
        written := system.written ++ [(file, line)]
        flusher := .calling }

/-- The flush thread before a `pop` or in its wait. -/
private theorem moves_popLine {event : LogEvent} {queue : BlockQueue Line}
    (nothing : system.flusher.line? = none) (found : system.log.logQueue = some queue)
    (popped : some (system.orUndefined (system.popLine queue)) = some next) : Moves system event next := by
  obtain rfl := Option.some.inj popped
  rw [popLine]
  split_ifs with empty
  · exact .flusherWaits nothing found empty
  · cases taken : queue.take with
    | none => exact .undefined
    | some pair => exact .flusherTakes nothing found empty taken

theorem moves_of_step {event : LogEvent} (stepped : system.step event = some next) :
    Moves system event next := by
  cases event with
  | call thread tm level message =>
    simp only [System.step] at stepped
    split at stepped
    · next stage =>
      obtain rfl := Option.some.inj stepped
      exact .called stage
    · cases stepped
  | rotate thread opens =>
    simp only [System.step] at stepped
    split at stepped
    · next tm level message stage =>
      obtain rfl := Option.some.inj stepped
      cases changed : system.log.rotate tm opens with
      | none => exact .undefined
      | some log => exact .rotated stage (Log.rotates_of_rotate changed)
    · cases stepped
  | format thread =>
    simp only [System.step] at stepped
    split at stepped
    · next tm level message stage =>
      obtain rfl := Option.some.inj stepped
      cases made : system.log.format tm level message with
      | none => exact .undefined
      | some pair =>
        obtain ⟨text, log⟩ := pair
        obtain ⟨buf, rfl⟩ := Log.format_frame made
        exact .formatted stage made
    · cases stepped
  | testFull thread =>
    simp only [System.step] at stepped
    split at stepped
    · next stage =>
      obtain rfl := Option.some.inj stepped
      exact .tested stage
    · cases stepped
  | push thread =>
    simp only [System.step] at stepped
    split at stepped
    · next line queue stage found =>
      obtain rfl := Option.some.inj stepped
      rw [pushLine]
      cases stored : queue.push line with
      | none => exact .undefined
      | some pair => exact .pushed stage found stored
    · cases stepped
  | fputs thread =>
    simp only [System.step] at stepped
    split at stepped
    · next line stage =>
      obtain rfl := Option.some.inj stepped
      rw [System.put]
      cases isOpen : system.log.fp with
      | none => exact .undefined
      | some file => exact .put stage isOpen
    · cases stepped
  | flushPop =>
    simp only [System.step] at stepped
    split at stepped
    · next stage found => exact moves_popLine (by rw [stage]; rfl) found stepped
    · cases stepped
  | flushWake =>
    simp only [System.step] at stepped
    split at stepped
    · next stage found => exact moves_popLine (by rw [stage]; rfl) found stepped
    · cases stepped
  | flushWaitFails =>
    simp only [System.step] at stepped
    split at stepped
    · next stage =>
      obtain rfl := Option.some.inj stepped
      exact .flusherEnds stage
    · cases stepped
  | flushFputs =>
    simp only [System.step] at stepped
    split at stepped
    · next line stage =>
      obtain rfl := Option.some.inj stepped
      rw [System.put]
      cases isOpen : system.log.fp with
      | none => exact .undefined
      | some file => exact .flusherPuts stage isOpen
    · cases stepped

end System

end WebServ.Logging
