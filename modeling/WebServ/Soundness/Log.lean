import WebServ.Proofs.Log
import WebServ.Proofs.BlockQueue
import WebServ.Machine.Path

/-! # Every logged line is accounted for

A formatted line is with the thread that has formatted it, and then in exactly one of the places behind
it: the queue, the hands of the flush thread, or a file. The exception is a push that is refused: the
test for a full queue and the push are two critical sections, several threads may pass the test for the
last free cell, and the result of `push` is ignored.
-/

namespace WebServ.Logging

open WebServ.Machine WebServ.Text

variable {size : ℕ}

namespace System

open BlockQueue (Represents)

/-- The lines in the queue. -/
def queued (system : System size) : List Line :=
  match system.log.logQueue with
  | some queue => queue.contents
  | none => []

/-- A push finds room in the queue. -/
def PushFindsRoom (system : System size) (event : LogEvent) : Prop :=
  event.isPush = true → system.log.logQueue.all (fun queue => !queue.full) = true

instance (system : System size) (event : LogEvent) : Decidable (system.PushFindsRoom event) :=
  inferInstanceAs (Decidable (_ → _))

variable {system next : System size} {settled : List Line} {thread : ℕ} {line : Line}

/-- The formatted lines are those that have been passed on, each once, and those still with the thread
that has formatted them. -/
structure Accounted (system : System size) (settled : List Line) : Prop where
  distinct : settled.Nodup
  known : ∀ line ∈ settled, line ∈ system.formatted
  fresh : ∀ line ∈ system.formatted, line.call < system.calls
  owned : ∀ thread line, (system.writers thread).line? = some line →
    line.thread = thread ∧ line ∈ system.formatted ∧ line ∉ settled
  complete : ∀ line ∈ system.formatted,
    line ∈ settled ∨ (system.writers line.thread).line? = some line

/-- A thread that goes on with the same line. -/
theorem setWriter_line? {writer : Writer} (same : writer.line? = (system.writers thread).line?)
    (other : ℕ) :
    ((system.setWriter thread writer).writers other).line? = (system.writers other).line? := by
  simp only [setWriter, Function.update_apply]
  split_ifs with isThread
  · rw [isThread]
    exact same
  · rfl

namespace Accounted

/-- Only the formatted lines and what the threads hold matter. -/
theorem congr (accounted : Accounted system settled) (formatted : next.formatted = system.formatted)
    (calls : next.calls = system.calls)
    (lines : ∀ thread, (next.writers thread).line? = (system.writers thread).line?) :
    Accounted next settled where
  distinct := accounted.distinct
  known := formatted ▸ accounted.known
  fresh := by
    rw [formatted, calls]
    exact accounted.fresh
  owned thread line holds := formatted ▸ accounted.owned thread line (lines thread ▸ holds)
  complete line member := by
    rw [lines]
    exact accounted.complete line (formatted ▸ member)

/-- A line changes places behind the threads. -/
theorem perm (accounted : Accounted system settled) {other : List Line} (same : other.Perm settled) :
    Accounted system other where
  distinct := same.nodup_iff.mpr accounted.distinct
  known line member := accounted.known line (same.mem_iff.mp member)
  fresh := accounted.fresh
  owned thread line holds := by
    rw [same.mem_iff]
    exact accounted.owned thread line holds
  complete line member := by
    rw [same.mem_iff]
    exact accounted.complete line member

/-- A thread formats a line of its own. -/
theorem addLine (accounted : Accounted system settled) (text : Bytes) (log : Log size)
    (nothing : (system.writers thread).line? = none) :
    Accounted (system.addLine thread text log) settled where
  distinct := accounted.distinct
  known line member := List.mem_append_left _ (accounted.known line member)
  fresh line member := by
    rcases List.mem_append.mp member with before | new
    · exact Nat.lt_succ_of_lt (accounted.fresh line before)
    · rw [List.mem_singleton.mp new]
      exact Nat.lt_succ_self _
  owned other line holds := by
    simp only [System.addLine, setWriter, Function.update_apply] at holds
    split_ifs at holds with isThread
    · cases holds
      refine ⟨isThread.symm, List.mem_append_right _ (List.mem_singleton_self _), fun present => ?_⟩
      exact (accounted.fresh _ (accounted.known _ present)).false
    · obtain ⟨owner, member, unsettled⟩ := accounted.owned other line holds
      exact ⟨owner, List.mem_append_left _ member, unsettled⟩
  complete line member := by
    simp only [System.addLine, setWriter, Function.update_apply]
    rcases List.mem_append.mp member with before | new
    · refine (accounted.complete line before).imp_right fun holds => ?_
      split_ifs with isThread
      · rw [isThread, nothing] at holds
        cases holds
      · exact holds
    · rw [List.mem_singleton.mp new]
      exact Or.inr (by simp [Writer.line?])

/-- A thread passes its line on. -/
theorem handOn (accounted : Accounted system settled)
    (holds : (system.writers thread).line? = some line) :
    Accounted (system.setWriter thread .idle) (line :: settled) := by
  obtain ⟨owner, member, unsettled⟩ := accounted.owned thread line holds
  constructor
  · exact List.nodup_cons.mpr ⟨unsettled, accounted.distinct⟩
  · exact List.forall_mem_cons.mpr ⟨member, accounted.known⟩
  · exact accounted.fresh
  · intro other held holdsOther
    simp only [setWriter, Function.update_apply] at holdsOther
    split_ifs at holdsOther with isThread
    · cases holdsOther
    · obtain ⟨ownerOther, memberOther, unsettledOther⟩ := accounted.owned other held holdsOther
      refine ⟨ownerOther, memberOther, fun present => ?_⟩
      rcases List.mem_cons.mp present with rfl | before
      · exact isThread (ownerOther.symm.trans owner)
      · exact unsettledOther before
  · intro other present
    simp only [setWriter, Function.update_apply]
    rcases accounted.complete other present with before | holdsOther
    · exact Or.inl (List.mem_cons_of_mem _ before)
    · split_ifs with isThread
      · rw [isThread, holds] at holdsOther
        cases holdsOther
        exact Or.inl (List.mem_cons_self ..)
      · exact Or.inr holdsOther

end Accounted

/-- The lines in a file, in the hands of the flush thread, or in the queue. -/
def passedOn (system : System size) (items : List Line) : List Line :=
  system.written.map Prod.snd ++ system.flusher.line?.toList ++ items

/-- The queue is sound and every line accounted for. -/
def Tracked (capacity : Capacity) (system : System size) : Prop :=
  ∃ queue items, system.log.logQueue = some queue ∧ Represents capacity queue items ∧
    Accounted system (system.passedOn items)

variable {capacity : Capacity}

theorem tracked_initial {log : Log size} (start : log.logQueue = some (.initial capacity)) :
    Tracked capacity (initial log) := by
  refine ⟨_, [], start, BlockQueue.represents_initial capacity, ?_⟩
  exact ⟨List.nodup_nil, by simp [passedOn, initial, Flusher.line?], by simp [initial],
    by simp [initial, Writer.line?], by simp [initial]⟩

namespace Tracked

/-- A thread that goes on with the same line, or with none as before. -/
theorem setWriter (tracked : Tracked capacity system) {writer : Writer} {log : Log size}
    (same : writer.line? = (system.writers thread).line?) (logQueue : log.logQueue = system.log.logQueue) :
    Tracked capacity { system.setWriter thread writer with log } := by
  obtain ⟨queue, items, found, represents, accounted⟩ := tracked
  exact ⟨queue, items, logQueue.trans found, represents, accounted.congr rfl rfl (setWriter_line? same)⟩

/-- The flush thread goes on empty-handed. -/
theorem setFlusher (tracked : Tracked capacity system) {flusher : Flusher}
    (nothing : system.flusher.line? = none) (still : flusher.line? = none) :
    Tracked capacity { system with flusher } := by
  obtain ⟨queue, items, found, represents, accounted⟩ := tracked
  refine ⟨queue, items, found, represents, ?_⟩
  rw [passedOn, nothing] at accounted
  rw [passedOn, still]
  exact accounted.congr rfl rfl fun _ => rfl

/-- The flush thread takes the oldest line. -/
theorem flusherTakes (tracked : Tracked capacity system) {queue after : BlockQueue Line}
    (nothing : system.flusher.line? = none) (found : system.log.logQueue = some queue)
    (nonempty : ¬ queue.mSize ≤ 0) (taken : queue.take = some (line, after)) :
    Tracked capacity { system with
      log := { system.log with logQueue := some after }
      flusher := .holding line } := by
  obtain ⟨_, items, same, represents, accounted⟩ := tracked
  obtain rfl := Option.some.inj (found.symm.trans same)
  rw [represents.isEmpty] at nonempty
  obtain ⟨oldest, rest, rfl⟩ := List.exists_cons_of_ne_nil nonempty
  obtain ⟨_, takes, represents⟩ := represents.take
  cases taken.symm.trans takes
  refine ⟨after, rest, rfl, represents, ?_⟩
  rw [passedOn, nothing] at accounted
  have moved : (system.written.map Prod.snd ++ [line] ++ rest).Perm
      (system.written.map Prod.snd ++ [] ++ line :: rest) := by simp
  exact (accounted.perm moved).congr rfl rfl fun _ => rfl

/-- A push that finds room. -/
theorem pushed (tracked : Tracked capacity system) {queue after : BlockQueue Line} {result : Bool}
    (holds : (system.writers thread).line? = some line) (found : system.log.logQueue = some queue)
    (room : queue.full = false) (stored : queue.push line = some (result, after)) :
    Tracked capacity
      { system.setWriter thread .idle with log := { system.log with logQueue := some after } } := by
  obtain ⟨_, items, same, represents, accounted⟩ := tracked
  obtain rfl := Option.some.inj (found.symm.trans same)
  have free : items.length < capacity.value := by
    rw [BlockQueue.full, decide_eq_false_iff_not, represents.isFull] at room
    exact Nat.lt_of_not_le room
  obtain ⟨_, stores, represents⟩ := represents.push free line
  cases stored.symm.trans stores
  refine ⟨after, items ++ [line], rfl, represents, ?_⟩
  have last : (system.passedOn (items ++ [line])).Perm (line :: system.passedOn items) := by
    rw [passedOn, ← List.append_assoc]
    exact List.perm_append_singleton line _
  exact ((accounted.handOn holds).perm last).congr rfl rfl fun _ => rfl

/-- A line written past the queue. -/
theorem put (tracked : Tracked capacity system) (holds : (system.writers thread).line? = some line)
    (file : Bytes) :
    Tracked capacity
      { system.setWriter thread .idle with written := system.written ++ [(file, line)] } := by
  obtain ⟨queue, items, found, represents, accounted⟩ := tracked
  refine ⟨queue, items, found, represents, ?_⟩
  have moved : ((system.written ++ [(file, line)]).map Prod.snd ++ system.flusher.line?.toList ++
      items).Perm (line :: system.passedOn items) := by
    simp only [passedOn, List.map_append, List.map_cons, List.map_nil, List.append_assoc,
      List.singleton_append]
    exact List.perm_middle
  exact ((accounted.handOn holds).perm moved).congr rfl rfl fun _ => rfl

/-- The flush thread writes its line. -/
theorem flusherPuts (tracked : Tracked capacity system) (stage : system.flusher = .holding line)
    (file : Bytes) :
    Tracked capacity { system with
      written := system.written ++ [(file, line)]
      flusher := .calling } := by
  obtain ⟨queue, items, found, represents, accounted⟩ := tracked
  refine ⟨queue, items, found, represents, ?_⟩
  rw [passedOn, stage] at accounted
  have moved : ((system.written ++ [(file, line)]).map Prod.snd ++ [] ++ items).Perm
      (system.written.map Prod.snd ++ [line] ++ items) := by simp
  exact (accounted.perm moved).congr rfl rfl fun _ => rfl

/-- Every step keeps account of the lines, if a push finds room. -/
theorem step {event : LogEvent} (tracked : Tracked capacity system)
    (room : system.PushFindsRoom event) (stepped : system.step event = some next) :
    Tracked capacity next := by
  cases moves_of_step stepped with
  | undefined =>
    obtain ⟨queue, items, found, represents, accounted⟩ := tracked
    exact ⟨queue, items, found, represents, accounted.congr rfl rfl fun _ => rfl⟩
  | called stage => exact tracked.setWriter (by rw [stage]; rfl) rfl
  | rotated stage rotates => exact tracked.setWriter (by rw [stage]; rfl) rotates.logQueue
  | formatted stage =>
    obtain ⟨queue, items, found, represents, accounted⟩ := tracked
    exact ⟨queue, items, found, represents, accounted.addLine _ _ (by rw [stage]; rfl)⟩
  | tested stage =>
    refine tracked.setWriter ?_ rfl
    rw [stage]
    split_ifs <;> rfl
  | pushed stage found stored =>
    have free := room rfl
    rw [found] at free
    exact tracked.pushed (by rw [stage]; rfl) found (by simpa using free) stored
  | put stage => exact tracked.put (by rw [stage]; rfl) _
  | flusherWaits nothing => exact tracked.setFlusher nothing rfl
  | flusherTakes nothing found nonempty taken => exact tracked.flusherTakes nothing found nonempty taken
  | flusherEnds stage => exact tracked.setFlusher (by rw [stage]; rfl) rfl
  | flusherPuts stage => exact tracked.flusherPuts stage _

end Tracked

/-- The line is in the queue, with a thread, with the flush thread, or in a file. -/
def Somewhere (system : System size) (line : Line) : Prop :=
  line ∈ system.queued ∨ (∃ thread, (system.writers thread).line? = some line) ∨
    system.flusher.line? = some line ∨ line ∈ system.written.map Prod.snd

/-- In every run in asynchronous mode in which each push finds room, every line that has been formatted is
in the queue, with a thread or in a file, and no line is written twice. -/
theorem somewhere_of_pushFindsRoom (fileName : Bytes) (splitLines : ℤ) (capacity : Capacity)
    (tm : LocalTime) (opens : Bool) (log : Log size) (events : List LogEvent) (system : System size)
    (start : Log.init fileName splitLines (some capacity) tm opens = some log)
    (room : Guarded step PushFindsRoom (initial log) events)
    (ran : run step (initial log) events = some system) :
    (∀ line ∈ system.formatted, system.Somewhere line) ∧ (system.written.map Prod.snd).Nodup := by
  obtain ⟨queue, items, found, represents, accounted⟩ :=
    invariant_of_guarded (fun _ _ _ tracked room stepped => Tracked.step tracked room stepped)
      (tracked_initial (Log.init_logQueue start)) room ran
  have queued : system.queued = items := by
    rw [System.queued, found]
    exact represents.contents_eq
  have distinct := accounted.distinct
  refine ⟨fun line member => ?_, ?_⟩
  · rcases accounted.complete line member with passed | holds
    · rw [passedOn, List.mem_append, List.mem_append, Option.mem_toList] at passed
      rcases passed with (written | holding) | waiting
      · exact Or.inr (Or.inr (Or.inr written))
      · exact Or.inr (Or.inr (Or.inl holding))
      · exact Or.inl (queued ▸ waiting)
    · exact Or.inr (Or.inl ⟨_, holds⟩)
  · rw [passedOn, List.append_assoc] at distinct
    exact (List.pairwise_append.mp distinct).1

/-- One line is pushed and comes to the flush thread, a second one finds the queue full and is written
directly, a third one waits. -/
theorem somewhere_of_pushFindsRoom_three : ∃ (log : Log 64) (system : System 64),
    (∀ line ∈ system.formatted, system.Somewhere line) ∧ (system.written.map Prod.snd).Nodup ∧
      Log.init (ascii "./server.log") 800000 (some ⟨1, by decide, by decide⟩) ⟨125, 0, 1, 12, 0, 0, 0⟩ true =
        some log :=
  let tm : LocalTime := ⟨125, 0, 1, 12, 0, 0, 0⟩
  let start := Option.some_get (by decide +kernel)
  let holds := somewhere_of_pushFindsRoom (ascii "./server.log") 800000 ⟨1, by decide, by decide⟩ tm true _
    [.flushPop, .call 1 tm 1 (ascii "first"), .rotate 1 true, .format 1, .testFull 1, .push 1,
      .call 2 tm 0 (ascii "second"), .rotate 2 true, .format 2, .testFull 2, .fputs 2, .flushWake,
      .call 1 tm 3 (ascii "third"), .rotate 1 true, .format 1, .testFull 1, .push 1, .flushFputs]
    _ start.symm (by decide +kernel) (Option.some_get (by decide +kernel)).symm
  ⟨_, _, holds.1, holds.2, start.symm⟩

/-- A push that finds the queue full loses its line. -/
theorem lost_of_full {queue : BlockQueue Line} (tracked : Tracked capacity system)
    (found : system.log.logQueue = some queue) (full : queue.full = true)
    (stage : system.writers thread = .pushing line) :
    ∃ next, system.step (.push thread) = some next ∧ line ∈ next.formatted ∧ ¬ next.Somewhere line := by
  obtain ⟨_, items, same, represents, accounted⟩ := tracked
  obtain rfl := Option.some.inj (found.symm.trans same)
  have holds : (system.writers thread).line? = some line := congrArg Writer.line? stage
  obtain ⟨owner, member, unsettled⟩ := accounted.owned thread line holds
  rw [BlockQueue.full, decide_eq_true_iff, represents.isFull] at full
  simp only [step, stage, found, pushLine, represents.push_full full, Option.map_some, orUndefined,
    Option.getD_some]
  refine ⟨_, rfl, member, ?_⟩
  rw [passedOn, List.mem_append, List.mem_append, Option.mem_toList] at unsettled
  rintro (waiting | ⟨other, held⟩ | holding | written)
  · change line ∈ queue.contents at waiting
    rw [represents.contents_eq] at waiting
    exact unsettled (Or.inr waiting)
  · simp only [setWriter, Function.update_apply] at held
    split_ifs at held with isThread
    · cases held
    · exact isThread ((accounted.owned other line held).1.symm.trans owner)
  · exact unsettled (Or.inl (Or.inr holding))
  · exact unsettled (Or.inl (Or.inl written))

/-- A log with a queue of one line. -/
private def smallLog : Log 64 :=
  (Log.init (ascii "./server.log") 800000 (some ⟨1, by decide, by decide⟩) ⟨125, 0, 1, 12, 0, 0, 0⟩
    true).get (by decide +kernel)

/-- Two callers find room in the queue one after the other, before either pushes its line. -/
private def twoCallers : List LogEvent :=
  let tm : LocalTime := ⟨125, 0, 1, 12, 0, 0, 0⟩
  [.call 1 tm 1 (ascii "first"), .call 2 tm 1 (ascii "second"), .rotate 1 true, .rotate 2 true, .format 1,
    .format 2, .testFull 1, .testFull 2, .push 1]

/-- The state in which only one of the two pushes can succeed, one having done so. -/
private def crowded : System 64 :=
  (run step (initial smallLog) twoCallers).get (by decide +kernel)

/-- The second caller finds the last free cell taken, and its line is gone. -/
theorem second_push_lost : ∃ (log : Log 64) (events : List LogEvent) (system : System 64) (line : Line),
    Log.init (ascii "./server.log") 800000 (some ⟨1, by decide, by decide⟩) ⟨125, 0, 1, 12, 0, 0, 0⟩ true =
        some log ∧
      run step (initial log) events = some system ∧ line ∈ system.formatted ∧ ¬ system.Somewhere line := by
  have start : Log.init _ _ _ _ _ = some smallLog := (Option.some_get _).symm
  have ran : run step (initial smallLog) twoCallers = some crowded := (Option.some_get _).symm
  have stage : crowded.writers 2 =
      .pushing ⟨2, 1, ascii "2025-01-01 12:00:00.000000 [info]: second\n"⟩ := by decide +kernel
  have full : crowded.log.logQueue.all BlockQueue.full = true := by decide +kernel
  have tracked := invariant_of_guarded (fun _ _ _ tracked room stepped => Tracked.step tracked room stepped)
    (tracked_initial (Log.init_logQueue start)) (by decide +kernel) ran
  obtain ⟨queue, _, found, _⟩ := id tracked
  rw [found] at full
  obtain ⟨next, stepped, member, lost⟩ := lost_of_full tracked found full stage
  refine ⟨smallLog, twoCallers ++ [.push 2], next, _, start, ?_, member, lost⟩
  rw [run_append, ran, Option.bind_some, run, stepped]
  rfl

end System

end WebServ.Logging
