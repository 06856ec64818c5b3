import WebServ.Soundness.Log

/-! # The lines of one thread in the log

The queue and the flush thread keep the order of the lines they are given. A thread that finds the queue full
writes its line directly, past its own lines that are still on their way. Without that, what has been written
of a thread's lines is in the order in which the thread has formatted them.
-/

namespace WebServ.Logging

open WebServ.Machine WebServ.Text

variable {size : ℕ}

namespace System

open BlockQueue (Represents)

/-- Nothing of the thread is in the hands of the flush thread or in the queue when the thread writes a line
directly. -/
def WritesBehindNone (system : System size) : LogEvent → Prop
  | .fputs thread => ∀ line ∈ system.flusher.line?.toList ++ system.queued, line.thread ≠ thread
  | _ => True

instance (system : System size) (event : LogEvent) : Decidable (system.WritesBehindNone event) :=
  match event with
  | .fputs _ => inferInstanceAs (Decidable (∀ _ ∈ _, _))
  | .call .. | .rotate .. | .format _ | .testFull _ | .push _ | .flushPop | .flushWake | .flushWaitFails
  | .flushFputs => isTrue trivial

/-- The lines of one thread. -/
def ofThread (thread : ℕ) (lines : List Line) : List Line := lines.filter (·.thread = thread)

/-- The lines of a thread behind it and the one it holds are among those it has formatted, in that order. -/
structure InOrder (system : System size) (items : List Line) : Prop where
  owned : ∀ thread line, (system.writers thread).line? = some line → line.thread = thread
  sublist : ∀ thread, (ofThread thread (system.passedOn items) ++ (system.writers thread).line?.toList).Sublist
    (ofThread thread system.formatted)

variable {system next : System size} {items : List Line} {thread : ℕ} {line : Line} {capacity : Capacity}

theorem ofThread_append (thread : ℕ) (first second : List Line) :
    ofThread thread (first ++ second) = ofThread thread first ++ ofThread thread second :=
  List.filter_append ..

theorem ofThread_singleton (thread : ℕ) (line : Line) :
    ofThread thread [line] = if line.thread = thread then [line] else [] := by
  simp [ofThread, List.filter_singleton]

namespace InOrder

/-- The lines behind the threads stay in their order, and the threads keep theirs. -/
theorem congr (inOrder : InOrder system items) {others : List Line}
    (formatted : next.formatted = system.formatted) (passed : next.passedOn others = system.passedOn items)
    (lines : ∀ thread, (next.writers thread).line? = (system.writers thread).line?) :
    InOrder next others where
  owned thread line holds := inOrder.owned thread line (lines thread ▸ holds)
  sublist thread := by
    rw [formatted, passed, lines]
    exact inOrder.sublist thread

/-- A thread formats a line of its own. -/
theorem addLine (inOrder : InOrder system items) (text : Bytes) (log : Log size)
    (nothing : (system.writers thread).line? = none) : InOrder (system.addLine thread text log) items where
  owned other line holds := by
    simp only [System.addLine, setWriter, Function.update_apply] at holds
    split_ifs at holds with isThread
    · cases holds
      exact isThread.symm
    · exact inOrder.owned other line holds
  sublist other := by
    have before := inOrder.sublist other
    simp only [System.addLine, setWriter, Function.update_apply]
    rw [ofThread_append, ofThread_singleton]
    split_ifs with isThread same same
    · rw [isThread, nothing, Option.toList_none, List.append_nil] at before
      exact (isThread ▸ before).append (List.Sublist.refl _)
    · exact absurd isThread.symm same
    · exact absurd same.symm isThread
    · rw [List.append_nil]
      exact before

/-- A thread passes its line on, behind its other lines. -/
theorem handOn (inOrder : InOrder system items) (holds : (system.writers thread).line? = some line)
    {others : List Line} {log : Log size} {written : List (Bytes × Line)}
    (passed : ∀ other, ofThread other (passedOn { system with written } others) =
      ofThread other (system.passedOn items) ++ ofThread other [line]) :
    InOrder { system.setWriter thread .idle with log, written } others := by
  have owner := inOrder.owned thread line holds
  constructor
  · intro other held holdsOther
    simp only [setWriter, Function.update_apply] at holdsOther
    split_ifs at holdsOther with isThread
    · cases holdsOther
    · exact inOrder.owned other held holdsOther
  · intro other
    have before := inOrder.sublist other
    change (ofThread other (passedOn { system with written } others) ++ _).Sublist _
    rw [passed, ofThread_singleton]
    simp only [setWriter, Function.update_apply]
    split_ifs with same isThread isThread
    · rw [isThread, holds] at before
      simpa [isThread, Writer.line?] using before
    · exact absurd (same.symm.trans owner) isThread
    · exact absurd (owner.trans isThread.symm) same
    · simpa using before

/-- A push that is refused drops the line. -/
theorem drop (inOrder : InOrder system items) (log : Log size) :
    InOrder { system.setWriter thread .idle with log } items := by
  constructor
  · intro other held holdsOther
    simp only [setWriter, Function.update_apply] at holdsOther
    split_ifs at holdsOther with isThread
    · cases holdsOther
    · exact inOrder.owned other held holdsOther
  · intro other
    refine List.Sublist.trans ?_ (inOrder.sublist other)
    refine List.Sublist.append (List.Sublist.refl _) ?_
    simp only [setWriter, Function.update_apply]
    split_ifs
    · exact List.nil_sublist _
    · exact List.Sublist.refl _

end InOrder

/-- The queue is sound and the lines are in order. -/
def Ordered (capacity : Capacity) (system : System size) : Prop :=
  ∃ queue items, system.log.logQueue = some queue ∧ Represents capacity queue items ∧ InOrder system items

theorem ordered_initial {log : Log size} (start : log.logQueue = some (.initial capacity)) :
    Ordered capacity (initial log) :=
  ⟨_, [], start, BlockQueue.represents_initial capacity, by simp [initial, Writer.line?],
    by simp [passedOn, initial, Flusher.line?, Writer.line?, ofThread]⟩

namespace Ordered

/-- A thread that goes on with the same line, or with none as before. -/
theorem setWriter (ordered : Ordered capacity system) {writer : Writer} {log : Log size}
    (same : writer.line? = (system.writers thread).line?) (logQueue : log.logQueue = system.log.logQueue) :
    Ordered capacity { system.setWriter thread writer with log } := by
  obtain ⟨queue, items, found, represents, inOrder⟩ := ordered
  exact ⟨queue, items, logQueue.trans found, represents, inOrder.congr rfl rfl (setWriter_line? same)⟩

/-- The flush thread goes on empty-handed. -/
theorem setFlusher (ordered : Ordered capacity system) {flusher : Flusher}
    (nothing : system.flusher.line? = none) (still : flusher.line? = none) :
    Ordered capacity { system with flusher } := by
  obtain ⟨queue, items, found, represents, inOrder⟩ := ordered
  refine ⟨queue, items, found, represents, inOrder.congr rfl ?_ fun _ => rfl⟩
  rw [passedOn, passedOn, nothing, still]

/-- Every step keeps the order, if a line written directly has none of its thread in front of it. -/
theorem step {event : LogEvent} (ordered : Ordered capacity system)
    (behindNone : system.WritesBehindNone event) (stepped : system.step event = some next) :
    Ordered capacity next := by
  cases moves_of_step stepped with
  | undefined =>
    obtain ⟨queue, items, found, represents, inOrder⟩ := ordered
    exact ⟨queue, items, found, represents, inOrder.congr rfl rfl fun _ => rfl⟩
  | called stage => exact ordered.setWriter (by rw [stage]; rfl) rfl
  | rotated stage rotates => exact ordered.setWriter (by rw [stage]; rfl) rotates.logQueue
  | formatted stage =>
    obtain ⟨queue, items, found, represents, inOrder⟩ := ordered
    exact ⟨queue, items, found, represents, inOrder.addLine _ _ (by rw [stage]; rfl)⟩
  | tested stage =>
    refine ordered.setWriter ?_ rfl
    rw [stage]
    split_ifs <;> rfl
  | @pushed thread line queue after result stage found stored =>
    obtain ⟨_, items, same, represents, inOrder⟩ := ordered
    obtain rfl := Option.some.inj (found.symm.trans same)
    rcases Nat.lt_or_ge items.length capacity.value with room | full
    · obtain ⟨_, stores, represents⟩ := represents.push room line
      cases stored.symm.trans stores
      refine ⟨after, items ++ [line], rfl, represents, inOrder.handOn (by rw [stage]; rfl) fun other => ?_⟩
      rw [← ofThread_append, passedOn, passedOn, List.append_assoc _ items]
      rfl
    · cases stored.symm.trans (represents.push_full full)
      exact ⟨queue, items, rfl, represents, inOrder.drop _⟩
  | @put thread line file stage isOpen =>
    obtain ⟨queue, items, found, represents, inOrder⟩ := ordered
    have holds : (system.writers thread).line? = some line := congrArg Writer.line? stage
    refine ⟨queue, items, found, represents, inOrder.handOn holds fun other => ?_⟩
    have contents : system.queued = items := by
      rw [queued, found]
      exact represents.contents_eq
    have owner := inOrder.owned thread line holds
    rw [WritesBehindNone, contents] at behindNone
    have nothing : ofThread thread (system.flusher.line?.toList ++ items) = [] :=
      List.filter_eq_nil_iff.mpr fun held member => by simpa using behindNone held member
    simp only [passedOn, List.map_append, List.map_cons, List.map_nil, List.append_assoc, ofThread_append]
    rw [ofThread_singleton]
    split_ifs with isThread
    · rw [← isThread, owner]
      rw [ofThread_append] at nothing
      obtain ⟨heldNone, queuedNone⟩ := List.append_eq_nil_iff.mp nothing
      rw [heldNone, queuedNone]
      simp
    · simp
  | flusherWaits nothing => exact ordered.setFlusher nothing rfl
  | @flusherTakes event line queue after nothing found nonempty taken =>
    obtain ⟨_, items, same, represents, inOrder⟩ := ordered
    obtain rfl := Option.some.inj (found.symm.trans same)
    rw [represents.isEmpty] at nonempty
    obtain ⟨oldest, rest, rfl⟩ := List.exists_cons_of_ne_nil nonempty
    obtain ⟨_, takes, represents⟩ := represents.take
    cases taken.symm.trans takes
    refine ⟨after, rest, rfl, represents, inOrder.congr rfl ?_ fun _ => rfl⟩
    rw [passedOn, passedOn, nothing]
    simp [Flusher.line?]
  | flusherEnds stage => exact ordered.setFlusher (by rw [stage]; rfl) rfl
  | flusherPuts stage =>
    obtain ⟨queue, items, found, represents, inOrder⟩ := ordered
    refine ⟨queue, items, found, represents, inOrder.congr rfl ?_ fun _ => rfl⟩
    rw [passedOn, passedOn, stage]
    simp [Flusher.line?]

end Ordered

/-- In every run in asynchronous mode in which no thread writes a line directly while an earlier one of its
own is in the queue or with the flush thread: the written lines of each thread are in the order in which it
has logged them. -/
theorem written_inOrder_of_writesBehindNone (fileName : Bytes) (splitLines : ℤ) (capacity : Capacity)
    (tm : LocalTime) (opens : Bool) (log : Log size) (events : List LogEvent) (system : System size)
    (start : Log.init fileName splitLines (some capacity) tm opens = some log)
    (behindNone : Guarded step WritesBehindNone (initial log) events)
    (ran : run step (initial log) events = some system) (thread : ℕ) :
    (ofThread thread (system.written.map Prod.snd)).Sublist (ofThread thread system.formatted) := by
  obtain ⟨queue, items, _, _, inOrder⟩ := invariant_of_guarded
    (fun _ _ _ ordered behindNone stepped => Ordered.step ordered behindNone stepped)
    (ordered_initial (Log.init_logQueue start)) behindNone ran
  refine List.Sublist.trans ?_ (inOrder.sublist thread)
  rw [passedOn, ofThread_append, ofThread_append, List.append_assoc, List.append_assoc]
  exact List.sublist_append_left _ _

/-- Two lines of one thread go through the queue, and one of another thread past them. -/
theorem written_inOrder_of_writesBehindNone_three : ∃ (log : Log 64) (system : System 64),
    (ofThread 1 (system.written.map Prod.snd)).Sublist (ofThread 1 system.formatted) ∧
      Log.init (ascii "./server.log") 800000 (some ⟨1, by decide, by decide⟩) ⟨125, 0, 1, 12, 0, 0, 0⟩ true =
        some log :=
  let tm : LocalTime := ⟨125, 0, 1, 12, 0, 0, 0⟩
  let start := Option.some_get (by decide +kernel)
  let holds := written_inOrder_of_writesBehindNone (ascii "./server.log") 800000 ⟨1, by decide, by decide⟩ tm
    true _
    [.call 1 tm 1 (ascii "first"), .rotate 1 true, .format 1, .testFull 1, .push 1,
      .call 2 tm 0 (ascii "second"), .rotate 2 true, .format 2, .testFull 2, .fputs 2, .flushPop,
      .call 1 tm 3 (ascii "third"), .rotate 1 true, .format 1, .testFull 1, .push 1, .flushFputs, .flushPop,
      .flushFputs]
    _ start.symm (by decide +kernel) (Option.some_get (by decide +kernel)).symm 1
  ⟨_, _, holds, start.symm⟩

/-- The second line of a thread finds the queue full with the first one and is written before it. -/
theorem second_line_first : ∃ (log : Log 64) (system : System 64),
    Log.init (ascii "./server.log") 800000 (some ⟨1, by decide, by decide⟩) ⟨125, 0, 1, 12, 0, 0, 0⟩ true =
        some log ∧
      run step (initial log)
        [.call 1 ⟨125, 0, 1, 12, 0, 0, 0⟩ 1 (ascii "first"), .rotate 1 true, .format 1, .testFull 1, .push 1,
          .call 1 ⟨125, 0, 1, 12, 0, 0, 0⟩ 1 (ascii "second"), .rotate 1 true, .format 1, .testFull 1,
          .fputs 1, .flushPop, .flushFputs] = some system ∧
      system.formatted.map Line.call = [0, 1] ∧ (system.written.map Prod.snd).map Line.call = [1, 0] ∧
      ¬ (ofThread 1 (system.written.map Prod.snd)).Sublist (ofThread 1 system.formatted) :=
  ⟨_, _, (Option.some_get (by decide +kernel)).symm, (Option.some_get (by decide +kernel)).symm,
    by decide +kernel, by decide +kernel, by decide +kernel⟩

end System

end WebServ.Logging
