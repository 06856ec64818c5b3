import WebServ.Soundness.Log
import WebServ.Machine.Fairness

/-! # Every logged line is written

A line goes from the thread that has formatted it into the queue, unless the thread writes it itself, and from
the queue in turn through the hands of the flush thread. Under weak fairness of the threads it comes to a
file, as long as the log runs on: each push finds room, no wait of the flush thread fails and nothing is
undefined. What brings a thread on is its rank in `write_log`, and what brings a queued line on is the number
of lines before it.
-/

namespace WebServ.Logging

open WebServ.Machine WebServ.Text

variable {size : ℕ}

/-- The steps of the flush thread, but for a wait that fails. -/
def LogEvent.isFlush : LogEvent → Bool
  | .flushPop | .flushWake | .flushFputs => true
  | _ => false

/-- The steps of a thread inside `write_log`. -/
def LogEvent.isIn (thread : ℕ) : LogEvent → Bool
  | .rotate actor _ | .format actor | .testFull actor | .push actor | .fputs actor => actor == thread
  | _ => false

/-- The steps a thread has before it until it returns from `write_log`. -/
def Writer.stepsLeft : Writer → ℕ
  | .called .. => 4
  | .rotated .. => 3
  | .testing _ => 2
  | .pushing _ | .putting _ => 1
  | .idle => 0

namespace System

open BlockQueue (Represents)

variable {system next : System size} {capacity : Capacity} {thread : ℕ} {line : Line}

/-! ## The flush thread -/

theorem queued_eq {queue : BlockQueue Line} {items : List Line} (found : system.log.logQueue = some queue)
    (represents : Represents capacity queue items) : system.queued = items := by
  rw [queued, found]
  exact represents.contents_eq

/-- What a step does to the queue and to the flush thread. -/
inductive Flushes (system next : System size) (event : LogEvent) : Prop where
  | stays (flusher : next.flusher = system.flusher) (queued : system.queued <+: next.queued)
      (other : event.isFlush = false ∨ next.undefined = true)
  | waits (nothing : system.flusher.line? = none) (empty : system.queued = []) (flusher : next.flusher = .waiting)
  | takes (line : Line) (nothing : system.flusher.line? = none) (queued : system.queued = line :: next.queued)
      (flusher : next.flusher = .holding line)
  | fails (event_eq : event = .flushWaitFails)
  | puts (line : Line) (holding : system.flusher = .holding line) (flusher : next.flusher = .calling)
      (queued : next.queued = system.queued) (written : line ∈ next.written.map Prod.snd)

theorem flushes_of_step {event : LogEvent} (tracked : Tracked capacity system)
    (room : system.PushFindsRoom event) (stepped : system.step event = some next) :
    Flushes system next event := by
  obtain ⟨queue, items, found, represents, _⟩ := tracked
  cases moves_of_step stepped with
  | undefined => exact .stays rfl (List.prefix_refl _) (Or.inr rfl)
  | called | formatted | tested | put => exact .stays rfl (List.prefix_refl _) (Or.inl rfl)
  | rotated stage rotates =>
    refine .stays rfl ?_ (Or.inl rfl)
    exact ⟨[], by rw [List.append_nil, queued, queued, rotates.logQueue]⟩
  | pushed stage same stored =>
    obtain rfl := Option.some.inj (same.symm.trans found)
    have free := room rfl
    rw [found, Option.all_some, Bool.not_eq_true', BlockQueue.full, decide_eq_false_iff_not,
      represents.isFull] at free
    obtain ⟨_, stores, after⟩ := represents.push (Nat.lt_of_not_le free) _
    cases stored.symm.trans stores
    refine .stays rfl ?_ (Or.inl rfl)
    rw [queued_eq found represents, queued_eq rfl after]
    exact List.prefix_append ..
  | flusherWaits nothing same empty =>
    obtain rfl := Option.some.inj (same.symm.trans found)
    rw [represents.isEmpty] at empty
    exact .waits nothing ((queued_eq found represents).trans empty) rfl
  | flusherTakes nothing same nonempty taken =>
    obtain rfl := Option.some.inj (same.symm.trans found)
    rw [represents.isEmpty] at nonempty
    obtain ⟨oldest, rest, rfl⟩ := List.exists_cons_of_ne_nil nonempty
    obtain ⟨_, takes, after⟩ := represents.take
    cases taken.symm.trans takes
    refine .takes _ nothing ?_ rfl
    rw [queued_eq found represents, queued_eq rfl after]
  | flusherEnds => exact .fails rfl
  | flusherPuts stage => exact .puts _ stage rfl rfl (by simp)

/-- The line is in the queue or in the hands of the flush thread, which goes on. -/
def OnItsWay (line : Line) (system : System size) : Prop :=
  system.flusher ≠ .ended ∧ (system.flusher = .holding line ∨ line ∈ system.queued)

/-- The steps of the flush thread until the line is written. -/
def flushesLeft (line : Line) (system : System size) : ℕ :=
  match system.flusher with
  | .holding first => if first = line then 1 else 2 * system.queued.idxOf line + 3
  | _ => 2 * system.queued.idxOf line + 2

theorem flushesLeft_holding (holding : system.flusher = .holding line) : flushesLeft line system = 1 := by
  rw [flushesLeft, holding]
  exact if_pos rfl

theorem flushesLeft_waiting (line : Line) (nothing : system.flusher.line? = none) :
    flushesLeft line system = 2 * system.queued.idxOf line + 2 := by
  rw [flushesLeft]
  cases stage : system.flusher with
  | holding first => simp [stage, Flusher.line?] at nothing
  | calling | waiting | ended => rfl

/-- The flush thread writes the line or comes nearer to it. -/
theorem nearer_of_flushes {event : LogEvent} (flushes : Flushes system next event)
    (defined : next.undefined = false) (waits : event ≠ .flushWaitFails) (onItsWay : OnItsWay line system) :
    line ∈ next.written.map Prod.snd ∨
      OnItsWay line next ∧ flushesLeft line next ≤ flushesLeft line system ∧
        (event.isFlush = true → flushesLeft line next < flushesLeft line system) := by
  obtain ⟨runs, either⟩ := onItsWay
  cases flushes with
  | stays flusher queued other =>
    right
    have notFlush : event.isFlush ≠ true := by
      rcases other with other | undefined
      · simp [other]
      · simp [defined] at undefined
    have same : line ∈ system.queued → next.queued.idxOf line = system.queued.idxOf line := by
      intro member
      exact (queued.idxOf_eq_of_mem member).symm
    refine ⟨⟨flusher ▸ runs, ?_⟩, ?_, fun isFlush => absurd isFlush notFlush⟩
    · rw [flusher]
      exact either.imp_right (queued.subset ·)
    · rcases either with holding | member
      · rw [flushesLeft_holding (flusher.trans holding), flushesLeft_holding holding]
      · rw [flushesLeft, flushesLeft, flusher, same member]
  | waits nothing empty flusher =>
    rcases either with holding | member
    · simp [holding, Flusher.line?] at nothing
    · simp [empty] at member
  | takes first nothing queued flusher =>
    right
    have member : line ∈ system.queued := by
      refine either.resolve_left fun holding => ?_
      simp [holding, Flusher.line?] at nothing
    have before := flushesLeft_waiting line nothing
    rw [queued] at member before
    by_cases same : first = line
    · subst same
      have after := flushesLeft_holding flusher
      have lower : flushesLeft first next < flushesLeft first system := by omega
      exact ⟨⟨by simp [flusher], Or.inl flusher⟩, lower.le, fun _ => lower⟩
    · have left : line ∈ next.queued := (List.mem_cons.mp member).resolve_left (Ne.symm same)
      have after : flushesLeft line next = 2 * next.queued.idxOf line + 3 := by
        rw [flushesLeft, flusher]
        exact if_neg same
      rw [List.idxOf_cons_ne _ same] at before
      have lower : flushesLeft line next < flushesLeft line system := by omega
      exact ⟨⟨by simp [flusher], Or.inr left⟩, lower.le, fun _ => lower⟩
  | fails event_eq => exact absurd event_eq waits
  | puts first holding flusher queued written =>
    by_cases same : first = line
    · exact Or.inl (same ▸ written)
    · right
      have member : line ∈ system.queued := by
        refine either.resolve_left fun held => same ?_
        simpa [holding] using held
      have after := flushesLeft_waiting line (show next.flusher.line? = none by rw [flusher]; rfl)
      have before : flushesLeft line system = 2 * system.queued.idxOf line + 3 := by
        rw [flushesLeft, holding]
        exact if_neg same
      rw [queued] at after
      have lower : flushesLeft line next < flushesLeft line system := by omega
      exact ⟨⟨by simp [flusher], Or.inr (queued ▸ member)⟩, lower.le, fun _ => lower⟩

/-! ## The callers -/

theorem setWriter_writers_self (writer : Writer) :
    (system.setWriter thread writer).writers thread = writer := by
  rw [setWriter]
  exact Function.update_self ..

theorem setWriter_writers_of_ne {other : ℕ} (writer : Writer) (differs : thread ≠ other) :
    (system.setWriter other writer).writers thread = system.writers thread := by
  rw [setWriter]
  exact Function.update_of_ne differs ..

/-- Only what is defined has to be looked at. -/
theorem stepsLeft_orUndefined {result : Option (System size)} {left : ℕ}
    (defined : (system.orUndefined result).undefined = false)
    (lower : ∀ next, result = some next → (next.writers thread).stepsLeft < left) :
    ((system.orUndefined result).writers thread).stepsLeft < left := by
  cases result with
  | none => cases defined
  | some next => exact lower next rfl

/-- A step of a thread in `write_log` brings it nearer to the end. -/
theorem stepsLeft_of_isIn {event : LogEvent} (stepped : system.step event = some next)
    (defined : next.undefined = false) (isIn : event.isIn thread = true) :
    (next.writers thread).stepsLeft < (system.writers thread).stepsLeft := by
  have moved : ∀ (actor : ℕ) (writer : Writer) {left : ℕ}, writer.stepsLeft < left →
      ((system.setWriter actor writer).writers actor).stepsLeft < left := by
    intro actor writer left lower
    rwa [setWriter_writers_self]
  cases event with
  | call | flushPop | flushWake | flushWaitFails | flushFputs => cases isIn
  | rotate actor opens =>
    obtain rfl := of_decide_eq_true isIn
    simp only [step] at stepped
    split at stepped
    · next tm level message stage =>
      obtain rfl := Option.some.inj stepped
      refine stepsLeft_orUndefined defined fun next made => ?_
      obtain ⟨_, _, rfl⟩ := Option.map_eq_some_iff.mp made
      rw [stage]
      exact moved actor (.rotated tm level message) (Nat.lt_succ_self _)
    · cases stepped
  | format actor =>
    obtain rfl := of_decide_eq_true isIn
    simp only [step] at stepped
    split at stepped
    · next stage =>
      obtain rfl := Option.some.inj stepped
      refine stepsLeft_orUndefined defined fun next made => ?_
      obtain ⟨_, _, rfl⟩ := Option.map_eq_some_iff.mp made
      rw [stage]
      exact moved actor (.testing _) (Nat.lt_succ_self _)
    · cases stepped
  | testFull actor =>
    obtain rfl := of_decide_eq_true isIn
    simp only [step] at stepped
    split at stepped
    · next stage =>
      obtain rfl := Option.some.inj stepped
      rw [stage]
      refine moved actor _ ?_
      split_ifs <;> exact Nat.lt_succ_self _
    · cases stepped
  | push actor =>
    obtain rfl := of_decide_eq_true isIn
    simp only [step] at stepped
    split at stepped
    · next stage _ =>
      obtain rfl := Option.some.inj stepped
      refine stepsLeft_orUndefined defined fun next made => ?_
      obtain ⟨_, _, rfl⟩ := Option.map_eq_some_iff.mp made
      rw [stage]
      exact moved actor .idle (Nat.lt_succ_self _)
    · cases stepped
  | fputs actor =>
    obtain rfl := of_decide_eq_true isIn
    simp only [step] at stepped
    split at stepped
    · next stage =>
      obtain rfl := Option.some.inj stepped
      refine stepsLeft_orUndefined defined fun next made => ?_
      obtain ⟨_, _, rfl⟩ := Option.map_eq_some_iff.mp made
      rw [stage, setWriter_writers_self]
      exact Nat.lt_succ_self _
    · cases stepped

/-- No other step moves a thread that is in `write_log`. -/
theorem writers_of_not_isIn {event : LogEvent} (stepped : system.step event = some next)
    (busy : system.writers thread ≠ .idle) (other : event.isIn thread = false) :
    next.writers thread = system.writers thread := by
  cases moves_of_step stepped with
  | undefined | flusherWaits | flusherTakes | flusherEnds | flusherPuts => rfl
  | called stage =>
    refine setWriter_writers_of_ne _ fun same => busy ?_
    rw [same]
    exact stage
  | rotated | formatted | tested | pushed | put =>
    exact setWriter_writers_of_ne _ (Ne.symm (of_decide_eq_false other))

/-- A thread in `write_log` can take a step. -/
theorem enabled_of_busy (tracked : Tracked capacity system) (busy : system.writers thread ≠ .idle) :
    Enabled step system (LogEvent.isIn thread ·) := by
  obtain ⟨queue, _, found, _⟩ := tracked
  cases stage : system.writers thread with
  | idle => exact absurd stage busy
  | called => exact ⟨.rotate thread true, beq_self_eq_true _, by simp [step, stage]⟩
  | rotated => exact ⟨.format thread, beq_self_eq_true _, by simp [step, stage]⟩
  | testing => exact ⟨.testFull thread, beq_self_eq_true _, by simp [step, stage]⟩
  | pushing => exact ⟨.push thread, beq_self_eq_true _, by simp [step, stage, found]⟩
  | putting => exact ⟨.fputs thread, beq_self_eq_true _, by simp [step, stage]⟩

/-! ## Executions -/

/-- The flush thread has a line or would get one. -/
def FlusherReady (system : System size) : Prop :=
  match system.flusher with
  | .calling | .holding _ => True
  | .waiting => system.queued ≠ []
  | .ended => False

section Progress

variable {log : Log size} (exec : Execution step (initial log))

/-- A thread in `write_log` goes on, and so does the flush thread unless it waits for a line and there is
none. For a flush thread asleep at the condition variable, `flushes` grants the wake-up that the broadcast of `push`
brings about. That the broadcast leaves nobody asleep is a result about the statements of the queue; no theorem
connects it with this assumption. -/
structure Fair : Prop where
  writes : ∀ thread, exec.WeaklyFair (LogEvent.isIn thread ·)
  flushes : ∀ start, (∀ time, start ≤ time → (exec.state time).FlusherReady) →
    ∃ time, start ≤ time ∧ exec.Occurs (LogEvent.isFlush ·) time

/-- The log runs on: each push finds room, no wait fails and nothing is undefined. -/
structure RunsOn (exec : Execution step (initial log)) : Prop where
  room : ∀ time event, exec.event time = some event → (exec.state time).PushFindsRoom event
  waits : ∀ time, exec.event time ≠ some .flushWaitFails
  defined : ∀ time, (exec.state time).undefined = false

variable {exec} {start : ℕ}

theorem RunsOn.tracked (runsOn : RunsOn exec) (begins : log.logQueue = some (.initial capacity)) (time : ℕ) :
    Tracked capacity (exec.state time) := by
  refine exec.persists (Tracked capacity) (fun time event _ taken tracked => ?_) ?_ (Nat.zero_le time)
  · exact tracked.step (runsOn.room time event taken) (exec.steps time event taken)
  · rw [exec.starts]
    exact tracked_initial begins

/-- Every call of `write_log` returns. -/
theorem RunsOn.returns (runsOn : RunsOn exec) (begins : log.logQueue = some (.initial capacity))
    (fair : Fair exec) (thread start : ℕ) :
    ∃ time, start ≤ time ∧ (exec.state time).writers thread = .idle := by
  by_cases idle : (exec.state start).writers thread = .idle
  · exact ⟨start, Nat.le_refl start, idle⟩
  · suffices ends : ∃ time, start ≤ time ∧ (exec.state (time + 1)).writers thread = .idle by
      obtain ⟨time, later, ends⟩ := ends
      exact ⟨time + 1, by omega, ends⟩
    -- as long as the thread is in the call, its own steps bring it to the end
    refine (fair.writes thread).reaches (fun system => Tracked capacity system ∧ system.writers thread ≠ .idle)
      (fun system => (system.writers thread).stepsLeft) _ ?_ ?_ ⟨runsOn.tracked begins start, idle⟩
    · rintro time ⟨tracked, busy⟩
      exact enabled_of_busy tracked busy
    · rintro time event _ taken ⟨_, busy⟩
      have stepped := exec.steps time event taken
      have tracked := runsOn.tracked begins (time + 1)
      by_cases isIn : event.isIn thread = true
      · have lower := stepsLeft_of_isIn stepped (runsOn.defined _) isIn
        by_cases ends : (exec.state (time + 1)).writers thread = .idle
        · exact Or.inl ends
        · exact Or.inr ⟨⟨tracked, ends⟩, lower.le, fun _ => lower⟩
      · have same := writers_of_not_isIn stepped busy (Bool.not_eq_true _ ▸ isIn)
        right
        rw [same]
        exact ⟨⟨tracked, busy⟩, Nat.le_refl _, fun own => absurd own isIn⟩

/-- The flush thread does not end. -/
theorem RunsOn.flusher_ne_ended (runsOn : RunsOn exec) (begins : log.logQueue = some (.initial capacity))
    (time : ℕ) : (exec.state time).flusher ≠ .ended := by
  refine exec.persists (fun system => system.flusher ≠ .ended) ?_ ?_ (Nat.zero_le time)
  · intro time event _ taken runs
    have flushes := flushes_of_step (runsOn.tracked begins time) (runsOn.room time event taken)
      (exec.steps time event taken)
    cases flushes with
    | stays flusher =>
      rw [flusher]
      exact runs
    | waits _ _ flusher | takes _ _ _ flusher | puts _ _ flusher =>
      rw [flusher]
      exact Flusher.noConfusion
    | fails event_eq => exact absurd (event_eq ▸ taken) (runsOn.waits time)
  · rw [exec.starts]
    exact Flusher.noConfusion

theorem flusherReady_of_onItsWay (onItsWay : OnItsWay line system) : system.FlusherReady := by
  obtain ⟨runs, either⟩ := onItsWay
  rw [FlusherReady]
  cases stage : system.flusher with
  | calling | holding => trivial
  | ended => exact runs stage
  | waiting =>
    intro empty
    simp [stage, empty] at either

/-- A line in the queue or with the flush thread is written. -/
theorem RunsOn.writes (runsOn : RunsOn exec) (begins : log.logQueue = some (.initial capacity))
    (fair : Fair exec) (onItsWay : OnItsWay line (exec.state start)) :
    ∃ time, start ≤ time ∧ line ∈ (exec.state time).written.map Prod.snd := by
  suffices ends : ∃ time, start ≤ time ∧ line ∈ (exec.state (time + 1)).written.map Prod.snd by
    obtain ⟨time, later, ends⟩ := ends
    exact ⟨time + 1, by omega, ends⟩
  refine exec.reaches (LogEvent.isFlush ·) (OnItsWay line) (flushesLeft line) _ ?_ ?_ onItsWay
  · intro time stays
    exact fair.flushes time fun later past => flusherReady_of_onItsWay (stays later past)
  · intro time event _ taken onItsWay
    refine nearer_of_flushes ?_ (runsOn.defined _) ?_ onItsWay
    · exact flushes_of_step (runsOn.tracked begins time) (runsOn.room time event taken)
        (exec.steps time event taken)
    · rintro rfl
      exact runsOn.waits time taken

/-- The formatted lines are recorded for good. -/
theorem formatted_grows {event : LogEvent} (stepped : system.step event = some next) :
    system.formatted <+: next.formatted := by
  cases moves_of_step stepped with
  | formatted => exact List.prefix_append ..
  | undefined | called | rotated | tested | pushed | put | flusherWaits | flusherTakes | flusherEnds
  | flusherPuts => exact List.prefix_refl _

/-- In every fair execution in asynchronous mode in which each push finds room, no wait of the flush thread
fails and nothing is undefined, every call of `write_log` returns, and every formatted line is written. -/
theorem written_of_runsOn (fileName : Bytes) (splitLines : ℤ) (capacity : Capacity) (tm : LocalTime)
    (opens : Bool) (log : Log size) (begins : Log.init fileName splitLines (some capacity) tm opens = some log)
    (exec : Execution step (initial log)) (fair : Fair exec) (runsOn : RunsOn exec) (start : ℕ) :
    (∀ thread, ∃ time, start ≤ time ∧ (exec.state time).writers thread = .idle) ∧
      ∀ line ∈ (exec.state start).formatted,
        ∃ time, start ≤ time ∧ line ∈ (exec.state time).written.map Prod.snd := by
  have hasQueue := Log.init_logQueue begins
  refine ⟨fun thread => runsOn.returns hasQueue fair thread start, fun line member => ?_⟩
  obtain ⟨passed, later, idle⟩ := runsOn.returns hasQueue fair line.thread start
  have kept : line ∈ (exec.state passed).formatted := by
    refine exec.persists (fun system => line ∈ system.formatted) ?_ member later
    exact fun time event _ taken member => (formatted_grows (exec.steps time event taken)).subset member
  obtain ⟨queue, items, found, represents, accounted⟩ := runsOn.tracked hasQueue passed
  -- the thread has returned, so the line is behind it
  have behind := (accounted.complete line kept).resolve_right (by simp [idle, Writer.line?])
  rw [passedOn, List.mem_append, List.mem_append, Option.mem_toList, or_assoc] at behind
  rcases behind with written | onItsWay
  · exact ⟨passed, later, written⟩
  · have runs := runsOn.flusher_ne_ended hasQueue passed
    have way : OnItsWay line (exec.state passed) := by
      refine ⟨runs, onItsWay.imp (fun holds => ?_) fun waits => queued_eq found represents ▸ waits⟩
      cases stage : (exec.state passed).flusher with
      | holding => simpa [stage, Flusher.line?] using holds
      | calling | waiting | ended => simp [stage, Flusher.line?] at holds
    obtain ⟨time, past, written⟩ := runsOn.writes hasQueue fair way
    exact ⟨time, by omega, written⟩

end Progress

section FiniteRuns

variable {log : Log size} {events : List LogEvent}

/-- A run that ends with no thread in `write_log` and the flush thread waiting at an empty queue is fair. -/
theorem fair_of_idle (ran : run step (initial log) events = some system)
    (idle : ∀ thread, system.writers thread = .idle) (waiting : system.flusher = .waiting)
    (empty : system.queued = []) : Fair (Execution.ofRun ran) where
  writes thread := by
    apply Execution.ofRun_weaklyFair
    rintro ⟨event, isIn, taken⟩
    obtain ⟨next, stepped⟩ := Option.isSome_iff_exists.mp taken
    cases event with
    | call | flushPop | flushWake | flushWaitFails | flushFputs => cases isIn
    | rotate | format | testFull | push | fputs => simp [step, idle] at stepped
  flushes start ready := by
    have late := ready (max start events.length) (Nat.le_max_left ..)
    rw [Execution.ofRun_state_of_length_le ran (Nat.le_max_right ..), FlusherReady, waiting] at late
    exact absurd empty late

/-- A thread that has made no call is idle. -/
theorem idle_of_run (ran : run step (initial log) events = some system)
    (silent : ∀ tm level message, .call thread tm level message ∉ events) : system.writers thread = .idle := by
  have quiet : Guarded step (fun _ event => ∀ tm level message, event ≠ .call thread tm level message)
      (initial log) events := by
    refine Guarded.of_forall fun event member tm level message same => ?_
    exact silent tm level message (same ▸ member)
  suffices kept : ∀ (system : System size) event next, system.writers thread = .idle →
      (∀ tm level message, event ≠ .call thread tm level message) → system.step event = some next →
      next.writers thread = .idle from
    invariant_of_guarded kept rfl quiet ran
  intro system event next idle other stepped
  -- a step of the thread itself would have to be a call
  have stays : ∀ {actor : ℕ} {writer : Writer}, system.writers actor ≠ .idle →
      (system.setWriter actor writer).writers thread = .idle := by
    intro actor writer busy
    rw [setWriter_writers_of_ne writer (by rintro rfl; exact busy idle)]
    exact idle
  cases moves_of_step stepped with
  | undefined | flusherWaits | flusherTakes | flusherEnds | flusherPuts => exact idle
  | @called actor tm level message =>
    rw [setWriter_writers_of_ne _ (by rintro rfl; exact other tm level message rfl)]
    exact idle
  | rotated stage | formatted stage | tested stage | pushed stage | put stage =>
    exact stays (stage ▸ Writer.noConfusion)

/-- A run in which each push finds room, no wait fails and nothing is undefined goes on so. -/
theorem runsOn_of_guarded (ran : run step (initial log) events = some system)
    (room : Guarded step PushFindsRoom (initial log) events) (waits : .flushWaitFails ∉ events)
    (defined : Guarded step (fun before _ => before.undefined = false) (initial log) events)
    (ends : system.undefined = false) : RunsOn (Execution.ofRun ran) where
  room _ _ taken := Execution.ofRun_guarded ran room taken
  waits _ taken := waits (List.mem_of_getElem? taken)
  defined time := by
    rcases taken : (Execution.ofRun ran).event time with _ | event
    · rw [Execution.ofRun_state_of_length_le ran (List.getElem?_eq_none_iff.mp taken)]
      exact ends
    · exact Execution.ofRun_guarded ran defined taken

end FiniteRuns

section Example

/-- One line goes to the flush thread, a second one finds the queue full and is written directly, and a third
one goes through the queue again. -/
private def threeLines : List LogEvent :=
  let tm : LocalTime := ⟨125, 0, 1, 12, 0, 0, 0⟩
  [.flushPop, .call 1 tm 1 (ascii "first"), .rotate 1 true, .format 1, .testFull 1, .push 1,
    .call 2 tm 0 (ascii "second"), .rotate 2 true, .format 2, .testFull 2, .fputs 2, .flushWake,
    .call 1 tm 3 (ascii "third"), .rotate 1 true, .format 1, .testFull 1, .push 1, .flushFputs, .flushPop,
    .flushFputs, .flushPop]

private theorem one_fits : 1 ≤ 2147483647 := by decide

private theorem smallQueue_made :
    (Log.init (ascii "./server.log") 800000 (some ⟨1, Nat.one_pos, one_fits⟩) ⟨125, 0, 1, 12, 0, 0, 0⟩
      true : Option (Log 64)).isSome := by decide +kernel

private abbrev smallQueue : Log 64 := Option.get _ smallQueue_made

private theorem threeLines_runs : (run step (initial smallQueue) threeLines).isSome := by decide +kernel

private abbrev threeExecution : Execution step (initial smallQueue) :=
  .ofRun (Option.some_get threeLines_runs).symm

private theorem threeLines_fair : Fair threeExecution := by
  refine fair_of_idle _ (fun thread => ?_) (by decide +kernel) (by decide +kernel)
  by_cases small : thread < 3
  · have all : ∀ thread < 3, ((run step (initial smallQueue) threeLines).get threeLines_runs).writers thread =
        .idle := by decide +kernel
    exact all thread small
  · refine idle_of_run (Option.some_get threeLines_runs).symm fun tm level message member => small ?_
    simp only [threeLines, List.mem_cons, List.not_mem_nil, reduceCtorEq, LogEvent.call.injEq, false_or,
      or_false] at member
    omega

/-- The first call has just returned. -/
theorem written_of_runsOn_three : ∃ line ∈ (threeExecution.state 6).formatted,
    ∃ time, 6 ≤ time ∧ line ∈ (threeExecution.state time).written.map Prod.snd :=
  have runsOn : RunsOn threeExecution :=
    runsOn_of_guarded _ (by decide +kernel) (by decide +kernel) (by decide +kernel) (by decide +kernel)
  have first : ⟨1, 0, ascii "2025-01-01 12:00:00.000000 [info]: first\n"⟩ ∈
    (threeExecution.state 6).formatted := by decide +kernel
  ⟨_, first, (written_of_runsOn (ascii "./server.log") 800000 ⟨1, Nat.one_pos, one_fits⟩ _ true _
    (Option.some_get smallQueue_made).symm _ threeLines_fair runsOn 6).2 _ first⟩

end Example

end System

end WebServ.Logging
