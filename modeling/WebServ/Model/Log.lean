import WebServ.Model.BlockQueue
import WebServ.Text.Integer

/-! # The log

Class `Log` and the threads that use it: any number of callers of `write_log`, one step for each section
under `m_mutex` or the queue's lock, and the thread that empties the queue. The formatted message is the
text `vsnprintf` makes of its arguments. A file is known by the name it was opened with, and writing to
it succeeds. The object is static, so its memory is zero before `init`. `call` numbers the calls of
`write_log`, and `formatted` and `written` record the lines, for the statements only. `Log::flush` only
empties the buffers of the C library and is left out.
-/

namespace WebServ.Logging

open WebServ.Text

/-- The members of `struct tm` that are used, and the microseconds. -/
structure LocalTime where
  tmYear : ℤ
  tmMon : ℤ
  tmMday : ℤ
  tmHour : ℤ
  tmMin : ℤ
  tmSec : ℤ
  usec : ℤ
deriving DecidableEq, Repr

/-- The text of the `%0<width>d` conversion. -/
def padded (width : ℕ) (value : ℤ) : Bytes :=
  let digits := decimal value.natAbs
  if value < 0 then 45 :: (List.replicate (width - 1 - digits.length) 48 ++ digits)
  else List.replicate (width - digits.length) 48 ++ digits

/-- `snprintf` of a text into `count` bytes: what fits is stored with a NUL. -/
def snprintf {size : ℕ} (buffer : Buffer size) (offset count : ℕ) (text : Bytes) :
    Option (Buffer size) :=
  if count = 0 then some buffer else buffer.write? offset (text.take (count - 1) ++ [0])

/-- The string that `snprintf` leaves in a zeroed array of at least `count` bytes. -/
def truncated (count : ℕ) (text : Bytes) : Bytes := text.take (count - 1)

/-- `"%d_%02d_%02d_"`: the part of a file name that dates it. -/
def dateText (tm : LocalTime) : Bytes :=
  decimal (tm.tmYear + 1900) ++ ascii "_" ++ padded 2 (tm.tmMon + 1) ++ ascii "_" ++
    padded 2 tm.tmMday ++ ascii "_"

/-- The name of a level. -/
def levelText (level : ℤ) : Bytes :=
  if level = 0 then ascii "[debug]:"
  else if level = 1 then ascii "[info]:"
  else if level = 2 then ascii "[warn]:"
  else if level = 3 then ascii "[erro]:"
  else ascii "[info]:"

/-- `"%d-%02d-%02d %02d:%02d:%02d.%06ld %s "`: the start of a line. -/
def prefixText (tm : LocalTime) (level : ℤ) : Bytes :=
  decimal (tm.tmYear + 1900) ++ ascii "-" ++ padded 2 (tm.tmMon + 1) ++ ascii "-" ++
    padded 2 tm.tmMday ++ ascii " " ++ padded 2 tm.tmHour ++ ascii ":" ++ padded 2 tm.tmMin ++
    ascii ":" ++ padded 2 tm.tmSec ++ ascii "." ++ padded 6 tm.usec ++ ascii " " ++ levelText level ++
    ascii " "

/-- A line with the call of `write_log` that has formatted it. -/
structure Line where
  thread : ℕ
  call : ℕ
  text : Bytes
deriving DecidableEq, Repr, Inhabited

/-- The members of class `Log`; `m_buf` has `size` bytes, a null queue is that of the synchronous
mode, and the open file is known by its name. -/
structure Log (size : ℕ) where
  dirName : Buffer 128
  logName : Buffer 128
  splitLines : ℤ
  count : ℤ
  today : ℤ
  fp : Option Bytes
  buf : Buffer size
  logQueue : Option (BlockQueue Line)

namespace Log

variable {size : ℕ}

/-- `dir_name`, `log_name` and `log_full_name` as `init` sets them. Undefined if a part of the name does
not fit its array. -/
def initNames (fileName : Bytes) (tm : LocalTime) : Option (Buffer 128 × Buffer 128 × Bytes) :=
  match Buffer.lastIdx? 47 fileName with
  | none => some (.zero, .zero, truncated 255 (dateText tm ++ fileName))
  | some p => do
      let logName ← Buffer.zero.strcpy 0 (fileName.drop (p + 1))
      let dirName ← Buffer.zero.strncpy 0 fileName (p + 1)
      let logFullName := (← dirName.cstr 0) ++ dateText tm ++ (← logName.cstr 0)
      some (dirName, logName, truncated 255 logFullName)

/-- `init` at a time, with whether its `fopen` succeeds; no capacity stands for a `max_queue_size` below
1. -/
def init (fileName : Bytes) (splitLines : ℤ) (maxQueueSize : Option Capacity) (tm : LocalTime)
    (opens : Bool) : Option (Log size) :=
  (initNames fileName tm).map fun (dirName, logName, logFullName) =>
    { dirName, logName, splitLines
      count := 0
      today := tm.tmMday
      fp := if opens then some logFullName else none
      buf := .zero
      logQueue := maxQueueSize.map BlockQueue.initial }

/-- The first locked section of `write_log`: the line is counted and the file changed when it is due,
with whether `fopen` succeeds. Undefined if `m_split_lines` is zero, if no file is open to be closed, or
if a name is not terminated. -/
def rotate (log : Log size) (tm : LocalTime) (opens : Bool) : Option (Log size) := do
  let count := log.count + 1
  if log.today ≠ tm.tmMday then
    let _ ← log.fp
    let tail := truncated 16 (dateText tm)
    let newLog := truncated 255 ((← log.dirName.cstr 0) ++ tail ++ (← log.logName.cstr 0))
    some { log with count := 0, today := tm.tmMday, fp := if opens then some newLog else none }
  else if log.splitLines = 0 then none
  else if count.tmod log.splitLines = 0 then
    let _ ← log.fp
    let tail := truncated 16 (dateText tm)
    let newLog := truncated 255 ((← log.dirName.cstr 0) ++ tail ++ (← log.logName.cstr 0) ++
      ascii "." ++ decimal (count.tdiv log.splitLines))
    some { log with count, fp := if opens then some newLog else none }
  else some { log with count }

/-- The second locked section of `write_log`: the line in `m_buf` and its copy. Undefined if a byte is
stored outside `m_buf`. -/
def format (log : Log size) (tm : LocalTime) (level : ℤ) (message : Bytes) :
    Option (Bytes × Log size) := do
  let n := (prefixText tm level).length
  let buf ← snprintf log.buf 0 48 (prefixText tm level)
  let m := message.length
  let buf ← snprintf buf n (size - 1) message
  let buf ← buf.store? (n + m : ℕ) 10
  let buf ← buf.store? (n + m + 1 : ℕ) 0
  let logStr ← buf.cstr 0
  some (logStr, { log with buf })

/-- `m_is_async && !m_log_queue->full()`. -/
def enqueues (log : Log size) : Bool :=
  match log.logQueue with
  | some queue => !queue.full
  | none => false

end Log

/-- Where a thread stands in `write_log`: between calls, before the first and the second locked
section, before the test of the queue, and before the push or the direct output that follows it. -/
inductive Writer where
  | idle
  | called (tm : LocalTime) (level : ℤ) (message : Bytes)
  | rotated (tm : LocalTime) (level : ℤ) (message : Bytes)
  | testing (line : Line)
  | pushing (line : Line)
  | putting (line : Line)
deriving DecidableEq, Repr

/-- The line a thread has formatted and not yet handed on. -/
def Writer.line? : Writer → Option Line
  | .testing line | .pushing line | .putting line => some line
  | _ => none

/-- Where the flush thread stands in its loop: before a `pop`, in the wait of the `pop`, with the line
it has taken, or behind a `pop` that has failed. -/
inductive Flusher where
  | calling
  | waiting
  | holding (line : Line)
  | ended
deriving DecidableEq, Repr

/-- The line the flush thread has taken and not yet written. -/
def Flusher.line? : Flusher → Option Line
  | .holding line => some line
  | _ => none

/-- The log with its threads. -/
structure System (size : ℕ) where
  log : Log size
  writers : ℕ → Writer
  calls : ℕ
  flusher : Flusher
  undefined : Bool
  formatted : List Line
  written : List (Bytes × Line)

/-- The label of a step. -/
inductive LogEvent where
  | call (thread : ℕ) (tm : LocalTime) (level : ℤ) (message : Bytes)
  | rotate (thread : ℕ) (opens : Bool)
  | format (thread : ℕ)
  | testFull (thread : ℕ)
  | push (thread : ℕ)
  | fputs (thread : ℕ)
  | flushPop
  | flushWake
  | flushWaitFails
  | flushFputs
deriving DecidableEq, Repr

/-- The label of a push. -/
def LogEvent.isPush : LogEvent → Bool
  | .push _ => true
  | _ => false

namespace System

variable {size : ℕ}

/-- The log after `init`, with no call yet. -/
def initial (log : Log size) : System size where
  log := log
  writers _ := .idle
  calls := 0
  flusher := .calling
  undefined := false
  formatted := []
  written := []

/-- The thread goes on to another place. -/
def setWriter (system : System size) (thread : ℕ) (writer : Writer) : System size :=
  { system with writers := Function.update system.writers thread writer }

/-- Undefined behaviour where there is no next state. -/
def orUndefined (system : System size) (next : Option (System size)) : System size :=
  next.getD { system with undefined := true }

/-- The line goes to the open file; undefined without one. -/
def put (system : System size) (line : Line) : Option (System size) :=
  system.log.fp.map fun file => { system with written := system.written ++ [(file, line)] }

/-- The flush thread takes a line, or waits for one. -/
def popLine (system : System size) (queue : BlockQueue Line) : Option (System size) :=
  if queue.mSize ≤ 0 then some { system with flusher := .waiting }
  else queue.take.map fun (line, rest) =>
    { system with log := { system.log with logQueue := some rest }, flusher := .holding line }

/-- A thread pushes its line and ignores the result. -/
def pushLine (system : System size) (thread : ℕ) (line : Line) (queue : BlockQueue Line) :
    Option (System size) :=
  (queue.push line).map fun (_, next) =>
    { system.setWriter thread .idle with log := { system.log with logQueue := some next } }

/-- A thread has formatted its line. -/
def addLine (system : System size) (thread : ℕ) (text : Bytes) (log : Log size) : System size :=
  let line := ⟨thread, system.calls, text⟩
  { system.setWriter thread (.testing line) with
    log
    calls := system.calls + 1
    formatted := system.formatted ++ [line] }

/-- One action. -/
def step (system : System size) : LogEvent → Option (System size)
  | .call thread tm level message =>
      match system.writers thread with
      | .idle => some (system.setWriter thread (.called tm level message))
      | _ => none
  | .rotate thread opens =>
      match system.writers thread with
      | .called tm level message =>
          some (system.orUndefined ((system.log.rotate tm opens).map fun log =>
            { system.setWriter thread (.rotated tm level message) with log }))
      | _ => none
  | .format thread =>
      match system.writers thread with
      | .rotated tm level message =>
          some (system.orUndefined ((system.log.format tm level message).map fun (text, log) =>
            system.addLine thread text log))
      | _ => none
  | .testFull thread =>
      match system.writers thread with
      | .testing line =>
          some (system.setWriter thread (if system.log.enqueues then .pushing line else .putting line))
      | _ => none
  | .push thread =>
      match system.writers thread, system.log.logQueue with
      | .pushing line, some queue => some (system.orUndefined (system.pushLine thread line queue))
      | _, _ => none
  | .fputs thread =>
      match system.writers thread with
      | .putting line =>
          some (system.orUndefined ((system.put line).map (·.setWriter thread .idle)))
      | _ => none
  | .flushPop =>
      match system.flusher, system.log.logQueue with
      | .calling, some queue => some (system.orUndefined (system.popLine queue))
      | _, _ => none
  | .flushWake =>
      match system.flusher, system.log.logQueue with
      | .waiting, some queue => some (system.orUndefined (system.popLine queue))
      | _, _ => none
  | .flushWaitFails =>
      match system.flusher with
      | .waiting => some { system with flusher := .ended }
      | _ => none
  | .flushFputs =>
      match system.flusher with
      | .holding line =>
          some (system.orUndefined ((system.put line).map fun next => { next with flusher := .calling }))
      | _ => none

end System

end WebServ.Logging
