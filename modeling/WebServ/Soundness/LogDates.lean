import WebServ.Proofs.LogNames
import WebServ.Soundness.Log

/-! # The date of a line and of its file

A line begins with the date of its call, and the name of its file carries the date the file was opened at.
`write_log` changes the file when the day of the month is another, or when the lines of the file are complete.
So a call on the same day of another month finds the old file good, and a file that is changed takes the lines
of the day before that are still on their way. Without these two cases every line is in a file of its date.
-/

namespace WebServ.Logging

open WebServ.Machine WebServ.Text

variable {size : ℕ}

/-- The text a line begins with, up to the time of day. -/
def stampText (tm : LocalTime) : Bytes :=
  decimal (tm.tmYear + 1900) ++ ascii "-" ++ padded 2 (tm.tmMon + 1) ++ ascii "-" ++
    padded 2 tm.tmMday ++ ascii " "

/-- A name that consists of the directory, the date and something else. -/
def OfDate (dir : Bytes) (tm : LocalTime) (file : Bytes) : Prop := dir ++ dateText tm <+: file

instance (dir : Bytes) (tm : LocalTime) (file : Bytes) : Decidable (OfDate dir tm file) :=
  inferInstanceAs (Decidable (_ <+: _))

/-- The name of the file carries the date that the line begins with. -/
def DatedEntry (dir : Bytes) (entry : Bytes × Line) : Prop :=
  ∃ tm : LocalTime, tm.IsDate ∧ stampText tm <+: entry.2.text ∧ OfDate dir tm entry.1

/-! ## The start of a line -/

theorem padded_nonzero (width : ℕ) (value : ℤ) : ∀ byte ∈ padded width value, byte ≠ 0 := by
  intro byte member
  have digit : byte = 45 ∨ IsDigit byte := by
    rw [padded] at member
    split_ifs at member
    · rcases List.mem_cons.mp member with minus | inside
      · exact Or.inl minus
      · rcases List.mem_append.mp inside with zero | digit
        · exact Or.inr (List.eq_of_mem_replicate zero ▸ by decide)
        · exact mem_decimal digit
    · rcases List.mem_append.mp member with zero | digit
      · exact Or.inr (List.eq_of_mem_replicate zero ▸ by decide)
      · exact mem_decimal digit
  rintro rfl
  rcases digit with minus | digit
  · cases minus
  · exact absurd digit (by decide)

theorem stampText_nonzero (tm : LocalTime) : ∀ byte ∈ stampText tm, byte ≠ 0 := by
  have year : ∀ byte ∈ decimal (tm.tmYear + 1900), byte ≠ 0 := by
    rintro byte member rfl
    rcases mem_decimal member with minus | digit
    · cases minus
    · exact absurd digit (by decide)
  simp only [stampText, List.forall_mem_append]
  exact ⟨⟨⟨⟨⟨year, by decide +kernel⟩, padded_nonzero _ _⟩, by decide +kernel⟩, padded_nonzero _ _⟩,
    by decide +kernel⟩

theorem stampText_length {tm : LocalTime} (isDate : tm.IsDate) : (stampText tm).length ≤ 15 := by
  obtain ⟨year, same, short⟩ := decimal_year isDate
  have dash : (ascii "-").length = 1 := by decide
  have blank : (ascii " ").length = 1 := by decide
  rw [stampText, same]
  simp only [List.length_append, dash, blank, padded_month isDate, padded_day isDate]
  omega

theorem stampText_prefix (tm : LocalTime) (level : ℤ) : stampText tm <+: prefixText tm level := by
  rw [prefixText, ← stampText]
  simp only [List.append_assoc, List.prefix_append]

theorem snprintf_before {buffer after : Buffer size} {offset count query : ℕ} {text : Bytes}
    (stored : snprintf buffer offset count text = some after) (before : query < offset) :
    after.byte query = buffer.byte query := by
  rw [snprintf] at stored
  split_ifs at stored
  · cases stored
    rfl
  · rw [← (Buffer.write?_eq_some_iff.mp stored).2, Buffer.write_byte_outside _ _ (Or.inl before)]

theorem store?_before {buffer after : Buffer size} {offset query : ℕ} {value : UInt8}
    (stored : buffer.store? offset value = some after) (before : query < offset) :
    after.byte query = buffer.byte query := by
  rw [Buffer.store?, Option.ite_none_right_eq_some, Int.toNat_natCast] at stored
  rw [← Option.some.inj stored.2, Buffer.set_byte_ne _ _ (by omega)]

/-- A line begins with the date of its call; the message is stored behind it. -/
theorem stampText_of_format {log next : Log size} {tm : LocalTime} {level : ℤ} {message text : Bytes}
    (isDate : tm.IsDate) (made : log.format tm level message = some (text, next)) :
    stampText tm <+: text := by
  simp only [Log.format, bind, Option.bind_eq_some_iff, Option.some.injEq, Prod.mk.injEq] at made
  obtain ⟨first, storedPrefix, second, storedMessage, third, newline, fourth, terminator, logStr, found,
    rfl, _⟩ := made
  have short := stampText_length isDate
  have whole := stampText_prefix tm level
  have inside := whole.length_le
  refine Buffer.prefix_of_cstr found (stampText_nonzero tm) fun index bound => ?_
  rw [Nat.zero_add, store?_before terminator (by omega), store?_before newline (by omega),
    snprintf_before storedMessage (by omega)]
  rw [snprintf, if_neg (by decide), Buffer.write?_eq_some_iff] at storedPrefix
  have within : index < ((prefixText tm level).take (48 - 1) ++ [0]).length := by
    rw [List.length_append, List.length_take]
    omega
  have stored := Buffer.write_byte_inside log.buf 0 ((prefixText tm level).take (48 - 1) ++ [0]) within
  rw [Nat.zero_add] at stored
  rw [← storedPrefix.2, stored, List.getElem_append_left (by rw [List.length_take]; omega),
    List.getElem_take]
  exact (whole.getElem bound).symm

/-! ## Names of a date -/

theorem ofDate_truncated {dir : Bytes} {tm : LocalTime} (rest : Bytes) (isDate : tm.IsDate)
    (dirShort : dir.length ≤ 100) : OfDate dir tm (truncated 255 (dir ++ dateText tm ++ rest)) := by
  have date := dateText_length isDate
  refine List.prefix_take_iff.mpr ⟨List.prefix_append _ _, ?_⟩
  rw [List.length_append]
  omega

theorem ofDate_dayName {dir base : Bytes} {tm : LocalTime} (isDate : tm.IsDate)
    (dirShort : dir.length ≤ 100) : OfDate dir tm (Log.dayName dir base tm) := by
  rw [Log.dayName, truncated_dateText isDate]
  exact ofDate_truncated base isDate dirShort

theorem ofDate_segmentName {dir base : Bytes} {tm : LocalTime} (segment : ℤ) (isDate : tm.IsDate)
    (dirShort : dir.length ≤ 100) : OfDate dir tm (Log.segmentName dir base tm segment) := by
  rw [Log.segmentName, truncated_dateText isDate, List.append_assoc _ base, List.append_assoc _ (base ++ _)]
  exact ofDate_truncated _ isDate dirShort

theorem dateText_congr {first second : LocalTime} (same : first.SameDate second) :
    dateText first = dateText second := by
  obtain ⟨year, month, day⟩ := same
  rw [dateText, dateText, year, month, day]

/-! ## Lines on their way -/

/-- The line of the thread, formatted or not, is of this date. -/
def Writer.OfDate (tm : LocalTime) : Writer → Prop
  | .rotated time _ _ => time.SameDate tm
  | .testing line | .pushing line | .putting line => stampText tm <+: line.text
  | _ => True

/-- The thread goes on to write to a file of its date. -/
def Writer.Dated (dir file : Bytes) : Writer → Prop
  | .rotated tm _ _ => Logging.OfDate dir tm file
  | .testing line | .pushing line | .putting line => DatedEntry dir (file, line)
  | _ => True

theorem Writer.OfDate.dated {writer : Writer} {tm : LocalTime} {dir file : Bytes}
    (ofDate : writer.OfDate tm) (isDate : tm.IsDate) (named : Logging.OfDate dir tm file) :
    writer.Dated dir file := by
  cases writer with
  | rotated time =>
    change dir ++ dateText time <+: file
    rw [dateText_congr ofDate]
    exact named
  | testing line => exact ⟨tm, isDate, ofDate, named⟩
  | pushing line => exact ⟨tm, isDate, ofDate, named⟩
  | putting line => exact ⟨tm, isDate, ofDate, named⟩
  | _ => trivial

theorem Writer.Dated.entry {writer : Writer} {line : Line} {dir file : Bytes}
    (dated : writer.Dated dir file) (holds : writer.line? = some line) : DatedEntry dir (file, line) := by
  cases writer <;> cases holds <;> exact dated

namespace System

open BlockQueue (Represents)

/-- Whatever is on its way besides the thread is of this date. -/
def ClearFor (system : System size) (thread : ℕ) (tm : LocalTime) : Prop :=
  (∀ other ≠ thread, (system.writers other).OfDate tm) ∧
    ∀ line ∈ system.flusher.line?.toList ++ system.queued, stampText tm <+: line.text

/-- Where the file is changed, only lines of the new date are on their way; where it is not, it is a file of
that date already. -/
def ChangesInTime (dir : Bytes) (system : System size) : LogEvent → Prop
  | .call _ tm _ _ => tm.IsDate
  | .rotate thread _ => ∀ tm, (system.writers thread).time? = some tm →
      if system.log.Due tm then system.ClearFor thread tm
      else ∀ file, system.log.fp = some file → OfDate dir tm file
  | _ => True

/-- The queue, if there is one, holds these lines. -/
def QueueHolds (system : System size) (items : List Line) : Prop :=
  match system.log.logQueue with
  | none => items = []
  | some queue => ∃ capacity, Represents capacity queue items

/-- Every written line is in a file of its date, and every line on its way would be if it were written now. -/
structure Dated (dir : Bytes) (system : System size) (items : List Line) : Prop where
  written : ∀ entry ∈ system.written, DatedEntry dir entry
  current : ∀ file, system.log.fp = some file → (∀ thread, (system.writers thread).Dated dir file) ∧
    ∀ line ∈ system.flusher.line?.toList ++ items, DatedEntry dir (file, line)

/-- What holds in every state of a run that changes the file in time. -/
structure InTime (dir base : Bytes) (system : System size) (items : List Line) : Prop where
  names : system.log.Names dir base
  dates : system.WriteDates
  queue : system.QueueHolds items
  dated : system.Dated dir items

variable {system next : System size} {dir base : Bytes} {items : List Line} {thread : ℕ} {line : Line}

theorem QueueHolds.queued_eq (holds : system.QueueHolds items) : system.queued = items := by
  rw [QueueHolds] at holds
  rw [queued]
  split at holds
  · next none => rw [none, holds]
  · next queue found =>
    obtain ⟨capacity, represents⟩ := holds
    rw [found]
    exact represents.contents_eq

/-- A thread goes on with the same file open. -/
theorem Dated.move (dated : Dated dir system items) {writer : Writer}
    (writers : next.writers = Function.update system.writers thread writer)
    (fp : next.log.fp = system.log.fp) (written : next.written = system.written)
    (flusher : next.flusher = system.flusher)
    (own : ∀ file, system.log.fp = some file → writer.Dated dir file) : Dated dir next items where
  written := written ▸ dated.written
  current file isOpen := by
    rw [fp] at isOpen
    obtain ⟨threads, passed⟩ := dated.current file isOpen
    refine ⟨fun other => ?_, flusher ▸ passed⟩
    rw [writers, Function.update_apply]
    split_ifs
    · exact own file isOpen
    · exact threads other

/-- The first locked section of `write_log`. -/
theorem Dated.rotate (dated : Dated dir system items) {tm : LocalTime} {level : ℤ} {message : Bytes}
    {log : Log size} {opens : Bool} (stage : system.writers thread = .called tm level message)
    (rotates : system.log.Rotates tm opens log) (names : system.log.Names dir base)
    (dirShort : dir.length ≤ 100) (isDate : tm.IsDate) (queued : system.queued = items)
    (inTime : ChangesInTime dir system (.rotate thread opens)) :
    Dated dir { system.setWriter thread (.rotated tm level message) with log } items := by
  have inTime := inTime tm (congrArg Writer.time? stage)
  have changed : ∀ file, OfDate dir tm file → system.log.Due tm →
      (∀ other, ((system.setWriter thread (.rotated tm level message)).writers other).Dated dir file) ∧
        ∀ line ∈ system.flusher.line?.toList ++ items, DatedEntry dir (file, line) := by
    intro file named due
    rw [if_pos due] at inTime
    obtain ⟨others, passed⟩ := inTime
    refine ⟨fun other => ?_, fun line member => ⟨tm, isDate, passed line (queued ▸ member), named⟩⟩
    simp only [setWriter, Function.update_apply]
    split_ifs with isThread
    · exact named
    · exact (others other isThread).dated isDate named
  refine ⟨dated.written, fun file isOpen => ?_⟩
  cases rotates with
  | day other _ dirName =>
    obtain rfl := Option.some.inj (dirName.symm.trans names.dirName)
    obtain ⟨_, same⟩ := Option.ite_none_right_eq_some.mp isOpen
    obtain rfl := Option.some.inj same
    exact changed _ (ofDate_dayName isDate dirShort) (Or.inl other)
  | lines _ _ _ complete dirName =>
    obtain rfl := Option.some.inj (dirName.symm.trans names.dirName)
    obtain ⟨_, same⟩ := Option.ite_none_right_eq_some.mp isOpen
    obtain rfl := Option.some.inj same
    exact changed _ (ofDate_segmentName _ isDate dirShort) (Or.inr complete)
  | stays same nonzero incomplete =>
    have notDue : ¬system.log.Due tm := by
      rintro (other | complete)
      · exact other same
      · exact incomplete complete
    rw [if_neg notDue] at inTime
    have moved : Dated dir (system.setWriter thread (.rotated tm level message)) items :=
      dated.move rfl rfl rfl rfl inTime
    exact moved.current file isOpen

/-- A step that changes the file in time, if it changes it. -/
theorem InTime.step {event : LogEvent} (inTime : InTime dir base system items) (dirShort : dir.length ≤ 100)
    (guarded : ChangesInTime dir system event) (stepped : system.step event = some next) :
    ∃ items, InTime dir base next items := by
  have names := names_of_step inTime.names stepped
  have atDate : event.AtDate := by
    cases event with
    | call thread tm level message => exact guarded
    | _ => trivial
  have dates := writeDates_of_step inTime.dates atDate stepped
  have dated := inTime.dated
  have holds := inTime.queue
  have same : next.log.logQueue = system.log.logQueue → next.QueueHolds items := by
    intro logQueue
    rw [QueueHolds, logQueue]
    exact holds
  cases moves_of_step stepped with
  | undefined => exact ⟨items, names, dates, same rfl, dated.written, dated.current⟩
  | called stage => exact ⟨items, names, dates, same rfl, dated.move rfl rfl rfl rfl fun _ _ => trivial⟩
  | rotated stage rotates =>
    have isDate := inTime.dates _ _ (congrArg Writer.time? stage)
    exact ⟨items, names, dates, same rotates.logQueue,
      dated.rotate stage rotates inTime.names dirShort isDate holds.queued_eq guarded⟩
  | @formatted thread tm level message text buf stage made =>
    have isDate := inTime.dates _ _ (congrArg Writer.time? stage)
    refine ⟨items, names, dates, same rfl, dated.move rfl rfl rfl rfl fun file isOpen => ?_⟩
    have named := (dated.current file isOpen).1 thread
    rw [stage] at named
    exact ⟨tm, isDate, stampText_of_format isDate made, named⟩
  | @tested thread line stage =>
    refine ⟨items, names, dates, same rfl, dated.move rfl rfl rfl rfl fun file isOpen => ?_⟩
    have entry := ((dated.current file isOpen).1 thread).entry (congrArg Writer.line? stage)
    split_ifs <;> exact entry
  | @pushed thread line queue after result stage found stored =>
    rw [QueueHolds, found] at holds
    obtain ⟨capacity, represents⟩ := holds
    have idle : Dated dir (system.setWriter thread .idle) items :=
      dated.move rfl rfl rfl rfl fun _ _ => trivial
    rcases Nat.lt_or_ge items.length capacity.value with room | full
    · obtain ⟨_, stores, represents⟩ := represents.push room line
      cases stored.symm.trans stores
      refine ⟨items ++ [line], names, dates, ⟨capacity, represents⟩, idle.written, fun file isOpen => ?_⟩
      obtain ⟨threads, passed⟩ := idle.current file isOpen
      refine ⟨threads, ?_⟩
      rw [← List.append_assoc]
      refine List.forall_mem_append.mpr ⟨passed, List.forall_mem_singleton.mpr ?_⟩
      exact ((dated.current file isOpen).1 thread).entry (congrArg Writer.line? stage)
    · cases stored.symm.trans (represents.push_full full)
      exact ⟨items, names, dates, ⟨capacity, represents⟩, idle.written, idle.current⟩
  | @put thread line file stage isOpen =>
    have entry := ((dated.current file isOpen).1 thread).entry (congrArg Writer.line? stage)
    have idle : Dated dir (system.setWriter thread .idle) items :=
      dated.move rfl rfl rfl rfl fun _ _ => trivial
    exact ⟨items, names, dates, same rfl,
      List.forall_mem_append.mpr ⟨dated.written, List.forall_mem_singleton.mpr entry⟩, idle.current⟩
  | flusherWaits nothing found empty =>
    refine ⟨items, names, dates, same rfl, dated.written, fun file isOpen => ?_⟩
    obtain ⟨threads, passed⟩ := dated.current file isOpen
    rw [nothing] at passed
    exact ⟨threads, passed⟩
  | @flusherTakes _ line queue after nothing found nonempty taken =>
    rw [QueueHolds, found] at holds
    obtain ⟨capacity, represents⟩ := holds
    rw [represents.isEmpty] at nonempty
    obtain ⟨oldest, rest, rfl⟩ := List.exists_cons_of_ne_nil nonempty
    obtain ⟨_, takes, represents⟩ := represents.take
    cases taken.symm.trans takes
    refine ⟨rest, names, dates, ⟨capacity, represents⟩, dated.written, fun file isOpen => ?_⟩
    obtain ⟨threads, passed⟩ := dated.current file isOpen
    rw [nothing] at passed
    exact ⟨threads, passed⟩
  | flusherEnds stage =>
    refine ⟨items, names, dates, same rfl, dated.written, fun file isOpen => ?_⟩
    obtain ⟨threads, passed⟩ := dated.current file isOpen
    rw [stage] at passed
    exact ⟨threads, passed⟩
  | @flusherPuts line file stage isOpen =>
    obtain ⟨threads, passed⟩ := dated.current file isOpen
    rw [stage] at passed
    obtain ⟨entry, queued⟩ := List.forall_mem_cons.mp passed
    refine ⟨items, names, dates, same rfl,
      List.forall_mem_append.mpr ⟨dated.written, List.forall_mem_singleton.mpr entry⟩, fun other isOther => ?_⟩
    obtain rfl := Option.some.inj (isOpen.symm.trans isOther)
    exact ⟨threads, queued⟩

theorem inTime_initial {fileName : Bytes} {splitLines : ℤ} {maxQueueSize : Option Capacity} {tm : LocalTime}
    {opens : Bool} {log : Log size} (short : ShortName fileName) (isDate : tm.IsDate)
    (start : Log.init fileName splitLines maxQueueSize tm opens = some log) :
    ∃ base, InTime (dirPart fileName) base (initial log) [] := by
  obtain ⟨started, names, logQueue⟩ := Log.started_of_init short isDate start
  refine ⟨_, names, fun thread tm found => ?_, ?_, nofun, fun file _ => ⟨fun _ => trivial, nofun⟩⟩
  · cases found
  · change (match log.logQueue with | none => _ | some queue => _)
    rw [logQueue]
    cases maxQueueSize with
    | none => rfl
    | some capacity => exact ⟨capacity, BlockQueue.represents_initial capacity⟩

/-- In every run, with any number of threads and in both modes, that changes the file in time: each line is
written to a file whose name carries the date the line begins with. -/
theorem datedEntry_of_changesInTime (fileName : Bytes) (splitLines : ℤ) (maxQueueSize : Option Capacity)
    (tm : LocalTime) (opens : Bool) (log : Log size) (events : List LogEvent) (system : System size)
    (short : ShortName fileName) (isDate : tm.IsDate)
    (start : Log.init fileName splitLines maxQueueSize tm opens = some log)
    (inTime : Guarded step (ChangesInTime (dirPart fileName)) (initial log) events)
    (ran : run step (initial log) events = some system) :
    ∀ entry ∈ system.written, DatedEntry (dirPart fileName) entry := by
  obtain ⟨base, started⟩ := inTime_initial short isDate start
  have preserved : ∀ (s : System size) (e : LogEvent) (t : System size),
      (∃ items, InTime (dirPart fileName) base s items) → ChangesInTime (dirPart fileName) s e →
      step s e = some t → ∃ items, InTime (dirPart fileName) base t items :=
    fun s e t ⟨_, inTime⟩ guarded stepped => inTime.step short.dir guarded stepped
  obtain ⟨items, last⟩ := invariant_of_guarded preserved ⟨[], started⟩ inTime ran
  exact last.dated.written

/-! ## One thread in the synchronous mode -/

/-- Where the file is not changed, it is of the date of the call. -/
def FindsDate (dir : Bytes) (system : System size) : LogEvent → Prop
  | .call _ tm _ _ => tm.IsDate
  | .rotate thread _ => ∀ tm ∈ (system.writers thread).time?.toList, ¬system.log.Due tm →
      ∀ file ∈ system.log.fp.toList, OfDate dir tm file
  | _ => True

instance (dir : Bytes) (system : System size) (event : LogEvent) : Decidable (FindsDate dir system event) :=
  match event with
  | .call _ _ _ _ => inferInstanceAs (Decidable (LocalTime.IsDate _))
  | .rotate _ _ => inferInstanceAs (Decidable (∀ _ ∈ _, _))
  | .format _ | .testFull _ | .push _ | .fputs _ | .flushPop | .flushWake | .flushWaitFails
  | .flushFputs => isTrue trivial

/-- With one thread and without a queue nothing else is on its way. -/
theorem Alone.changesInTime {event : LogEvent} (alone : Alone system thread)
    (own : event.thread? = some thread) (finds : FindsDate dir system event) :
    ChangesInTime dir system event := by
  cases event with
  | call => exact finds
  | rotate caller opens =>
    obtain rfl := Option.some.inj own
    intro tm found
    split_ifs with due
    · refine ⟨fun other isOther => ?_, fun line member => ?_⟩
      · rw [alone.others other isOther]
        trivial
      · rw [alone.flusher, queued, alone.logQueue] at member
        cases member
    · exact fun file isOpen => finds tm (found ▸ by simp) due file (isOpen ▸ by simp)
  | _ => trivial

theorem changesInTime_of_alone {log : Log size} {events : List LogEvent} {system : System size}
    (synchronous : log.logQueue = none) (own : ∀ event ∈ events, event.thread? = some thread)
    (finds : Guarded step (FindsDate dir) (initial log) events)
    (ran : run step (initial log) events = some system) :
    Guarded step (ChangesInTime dir) (initial log) events := by
  have alone : Alone (initial log) thread := ⟨fun _ _ => rfl, synchronous, rfl⟩
  have preserved : ∀ (s : System size) (e : LogEvent) (t : System size), Alone s thread →
      FindsDate dir s e ∧ e.thread? = some thread → step s e = some t → Alone t thread :=
    fun _ _ _ alone both stepped => alone.step both.2 stepped
  have implies : ∀ (s : System size) (e : LogEvent) (t : System size), Alone s thread →
      FindsDate dir s e ∧ e.thread? = some thread → step s e = some t → ChangesInTime dir s e :=
    fun _ _ _ alone both _ => alone.changesInTime both.2 both.1
  exact Guarded.of_invariant preserved implies alone (finds.and (Guarded.of_forall own)) ran

/-- Lines of two days in a row. -/
theorem datedEntry_of_changesInTime_twoDays : ∃ system : System 64,
    system.written.map Prod.fst = [ascii "./2025_01_01_server.log", ascii "./2025_01_02_server.log"] ∧
      ∀ entry ∈ system.written, DatedEntry (ascii "./") entry :=
  let events := oneCall 1 ⟨125, 0, 1, 12, 0, 0, 0⟩ (ascii "first") ++
    oneCall 1 ⟨125, 0, 2, 12, 0, 0, 0⟩ (ascii "second")
  let system := (run step (initial newYearLog) events).get (by decide +kernel)
  let ran : run step (initial newYearLog) events = some system := (Option.some_get _).symm
  ⟨system, by decide +kernel,
    datedEntry_of_changesInTime (ascii "./server.log") 2 none ⟨125, 0, 1, 12, 0, 0, 0⟩ true newYearLog events
      system (by decide +kernel) (by decide) init_newYearLog
      (changesInTime_of_alone rfl (by decide : ∀ event ∈ events, event.thread? = some 1) (by decide +kernel) ran)
      ran⟩

theorem stampText_congr {first second : LocalTime} (same : first.SameDate second) :
    stampText first = stampText second := by
  obtain ⟨year, month, day⟩ := same
  rw [stampText, stampText, year, month, day]

/-- A line of the first of February goes to the file of the first of January. -/
theorem month_later_same_file : ∃ (system : System 64) (line : Line),
    run step (initial newYearLog) (oneCall 1 ⟨125, 1, 1, 12, 0, 0, 0⟩ (ascii "late")) = some system ∧
      system.written = [(ascii "./2025_01_01_server.log", line)] ∧ ascii "2025-02-01 " <+: line.text ∧
      ¬DatedEntry (ascii "./") (ascii "./2025_01_01_server.log", line) := by
  refine ⟨(run step (initial newYearLog) (oneCall 1 ⟨125, 1, 1, 12, 0, 0, 0⟩ (ascii "late"))).get
      (by decide +kernel), ⟨1, 0, ascii "2025-02-01 12:00:00.000000 [info]: late\n"⟩, (Option.some_get _).symm,
    by decide +kernel, by decide +kernel, ?_⟩
  rintro ⟨tm, isDate, stamp, named⟩
  obtain ⟨rest, whole⟩ := named
  have january : ascii "./" ++ (dateText ⟨125, 0, 1, 12, 0, 0, 0⟩ ++ ascii "server.log") =
      ascii "./2025_01_01_server.log" := by decide +kernel
  rw [← january, List.append_assoc] at whole
  have same := (dateText_injective isDate (by decide) (List.append_cancel_left whole)).1
  rw [stampText_congr same] at stamp
  exact absurd stamp (by decide +kernel)

end System

end WebServ.Logging
