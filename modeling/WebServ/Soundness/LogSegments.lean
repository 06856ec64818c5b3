import WebServ.Proofs.LogFiles

/-! # The lines of one thread in the files of the log

In the synchronous mode with one thread, the counter tells how many lines the open file may already have. The
first file of a run gets one line less than the others, since `m_count` is raised before the first line is
written; a change of the day sets it to zero with a line on its way.
-/

namespace WebServ.Logging

open WebServ.Machine WebServ.Text

variable {size : ℕ}

/-- The lines that were written to a file. -/
def linesOf (file : Bytes) (written : List (Bytes × Line)) : List Line :=
  (written.filter (·.1 = file)).map Prod.snd

theorem linesOf_concat (file : Bytes) (written : List (Bytes × Line)) (entry : Bytes × Line) :
    linesOf file (written ++ [entry]) =
      linesOf file written ++ if entry.1 = file then [entry.2] else [] := by
  rw [linesOf, List.filter_append, List.map_append, List.filter_singleton]
  split_ifs with same
  · simp [linesOf, same]
  · simp [linesOf, same]

theorem linesOf_unknown {file : Bytes} {written : List (Bytes × Line)}
    (unknown : ∀ entry ∈ written, entry.1 ≠ file) : linesOf file written = [] := by
  rw [linesOf, List.filter_eq_nil_iff.mpr fun entry member => by simpa using unknown entry member]
  rfl

/-- The lines are those of calls that follow one another. -/
def Consecutive (first : ℕ) (lines : List Line) : Prop :=
  lines.map Line.call = List.range' first lines.length

theorem Consecutive.concat {first : ℕ} {lines : List Line} {line : Line}
    (consecutive : Consecutive first lines) (next : line.call = first + lines.length) :
    Consecutive first (lines ++ [line]) := by
  rw [Consecutive, List.map_append, consecutive, List.length_append, List.length_singleton, List.range'_concat,
    List.map_singleton, next, one_mul]

/-- The thread has a line that is counted and not yet written. -/
def Writer.pending : Writer → ℕ
  | .idle | .called .. => 0
  | _ => 1

/-- The time an action calls `write_log` at. -/
def LogEvent.callTime? : LogEvent → Option LocalTime
  | .call _ tm _ _ => some tm
  | _ => none

namespace System

/-- The lines fill one file after the other: the open file has at most as many as the counter says, and those
are the last ones. -/
structure Filled (lines : ℤ) (opened : List Bytes) (thread : ℕ) (file : Bytes) (system : System size) :
    Prop where
  known : ∀ entry ∈ system.written, entry.1 ∈ opened
  calls : system.calls = system.written.length + (system.writers thread).line?.toList.length
  held : ∀ line, (system.writers thread).line? = some line → line.call = system.written.length
  inOrder : Consecutive 0 (system.written.map Prod.snd)
  atMost : ∀ other, ((linesOf other system.written).length : ℤ) ≤ lines
  consecutive : ∀ other, ∃ first, Consecutive first (linesOf other system.written)
  room : ((linesOf file system.written).length + (system.writers thread).pending : ℤ) ≤
    system.log.count % lines + 1
  last : ∃ first, first + (linesOf file system.written).length = system.written.length ∧
    Consecutive first (linesOf file system.written)

variable {system next : System size} {lines : ℤ} {opened : List Bytes} {thread : ℕ} {file : Bytes}

/-- The thread goes on and writes nothing. -/
theorem Filled.goOn (filled : Filled lines opened thread file system) {writer : Writer} {log : Log size}
    {more : List Bytes} {current : Bytes} (same : writer.line? = (system.writers thread).line?)
    (more_of_mem : ∀ name ∈ opened, name ∈ more)
    (room : ((linesOf current system.written).length + writer.pending : ℤ) ≤ log.count % lines + 1)
    (last : ∃ first, first + (linesOf current system.written).length = system.written.length ∧
      Consecutive first (linesOf current system.written)) :
    Filled lines more thread current { system.setWriter thread writer with log } := by
  have own : (system.setWriter thread writer).writers thread = writer := Function.update_self ..
  exact {
    known := fun entry member => more_of_mem _ (filled.known entry member)
    calls := by
      dsimp only
      rw [own, same]
      exact filled.calls
    held := fun line holds => by
      dsimp only at holds
      rw [own, same] at holds
      exact filled.held line holds
    inOrder := filled.inOrder
    atMost := filled.atMost
    consecutive := filled.consecutive
    room := by
      dsimp only
      rw [own]
      exact room
    last := last }

/-- The first locked section of `write_log`, in the same file. -/
theorem Filled.count (filled : Filled lines opened thread file system) {log : Log size} {tm : LocalTime}
    {level : ℤ} {message : Bytes} (stage : system.writers thread = .called tm level message)
    (further : log.count % lines = system.log.count % lines + 1) :
    Filled lines opened thread file { system.setWriter thread (.rotated tm level message) with log } := by
  have room := filled.room
  rw [stage] at room
  change ((linesOf file system.written).length + (0 : ℕ) : ℤ) ≤ _ at room
  refine filled.goOn (by rw [stage]; rfl) (fun _ => id) ?_ filled.last
  change ((linesOf file system.written).length + (1 : ℕ) : ℤ) ≤ _
  rw [further]
  omega

/-- The first locked section of `write_log`, in a new file. -/
theorem Filled.newFile (filled : Filled lines opened thread file system) {log : Log size} {tm : LocalTime}
    {level : ℤ} {message current : Bytes} (stage : system.writers thread = .called tm level message)
    (first : log.count % lines = 0) (fresh : current ∉ opened) :
    Filled lines (opened ++ [current]) thread current
      { system.setWriter thread (.rotated tm level message) with log } := by
  have nothing : linesOf current system.written = [] :=
    linesOf_unknown fun entry member same => fresh (same ▸ filled.known entry member)
  refine filled.goOn (by rw [stage]; rfl) (fun _ => List.mem_append_left _) ?_ ?_
  · rw [nothing, first]
    rfl
  · rw [nothing]
    exact ⟨_, rfl, rfl⟩

/-- The line is numbered by the call. -/
theorem Filled.addLine (filled : Filled lines opened thread file system) {tm : LocalTime} {level : ℤ}
    {message text : Bytes} {log : Log size} (stage : system.writers thread = .rotated tm level message)
    (count : log.count = system.log.count) :
    Filled lines opened thread file (system.addLine thread text log) := by
  have own : (system.addLine thread text log).writers thread = .testing ⟨thread, system.calls, text⟩ :=
    Function.update_self ..
  have calls := filled.calls
  have room := filled.room
  rw [stage] at calls room
  exact {
    known := filled.known
    calls := by
      rw [own]
      exact congrArg (· + 1) calls
    held := fun line holds => by
      rw [own] at holds
      obtain rfl := Option.some.inj holds
      exact calls
    inOrder := filled.inOrder
    atMost := filled.atMost
    consecutive := filled.consecutive
    room := by
      rw [own]
      change _ ≤ log.count % lines + 1
      rw [count]
      exact room
    last := filled.last }

/-- The line goes to the open file, which has room for it. -/
theorem Filled.put (filled : Filled lines opened thread file system) {line : Line} (positive : 1 ≤ lines)
    (stage : system.writers thread = .putting line) (isOpen : file ∈ opened) :
    Filled lines opened thread file
      { system.setWriter thread .idle with written := system.written ++ [(file, line)] } := by
  have own : (system.setWriter thread .idle).writers thread = .idle := Function.update_self ..
  have number : line.call = system.written.length := filled.held line (congrArg Writer.line? stage)
  have calls := filled.calls
  have room := filled.room
  rw [stage] at calls room
  obtain ⟨first, total, consecutive⟩ := filled.last
  have longer : linesOf file (system.written ++ [(file, line)]) = linesOf file system.written ++ [line] := by
    rw [linesOf_concat, if_pos rfl]
  have others : ∀ other, file ≠ other →
      linesOf other (system.written ++ [(file, line)]) = linesOf other system.written := by
    intro other isOther
    rw [linesOf_concat, if_neg isOther, List.append_nil]
  have block := consecutive.concat (number.trans total.symm)
  change ((linesOf file system.written).length + (1 : ℕ) : ℤ) ≤ _ at room
  have complete := Int.emod_lt_of_pos system.log.count (by omega : 0 < lines)
  exact {
    known := List.forall_mem_append.mpr ⟨filled.known, List.forall_mem_singleton.mpr isOpen⟩
    calls := by
      dsimp only
      rw [own, List.length_append]
      exact calls
    held := fun line holds => by
      dsimp only at holds
      rw [own] at holds
      cases holds
    inOrder := by
      rw [List.map_append]
      exact filled.inOrder.concat (number.trans (by rw [List.length_map, Nat.zero_add]))
    atMost := fun other => by
      dsimp only
      by_cases same : file = other
      · rw [← same, longer, List.length_append, List.length_singleton]
        omega
      · rw [others other same]
        exact filled.atMost other
    consecutive := fun other => by
      dsimp only
      by_cases same : file = other
      · rw [← same, longer]
        exact ⟨first, block⟩
      · rw [others other same]
        exact filled.consecutive other
    room := by
      dsimp only
      rw [own, longer, List.length_append, List.length_singleton]
      exact room
    last := by
      dsimp only
      rw [longer, List.length_append, List.length_append, List.length_singleton, ← total, Nat.add_assoc]
      exact ⟨first, rfl, block⟩ }

/-- The name of the file that an action is to open. -/
def opened? (system : System size) : LogEvent → Option Bytes
  | .rotate thread _ =>
      match system.writers thread with
      | .called tm _ _ => system.log.opened? tm true
      | _ => none
  | _ => none

/-- The names of the files that a run is to open, in their order. -/
def openedNames : System size → List LogEvent → List Bytes
  | _, [] => []
  | system, event :: events =>
      (system.opened? event).toList ++
        match system.step event with
        | none => []
        | some next => openedNames next events

/-- Nothing is opened where the behaviour is undefined. -/
theorem opened?_of_undefined {event : LogEvent}
    (stepped : system.step event = some { system with undefined := true }) : system.opened? event = none := by
  cases event with
  | rotate caller opens =>
    rw [opened?]
    split
    · next tm level message stage =>
      simp only [System.step, stage, Option.some.injEq] at stepped
      cases changed : system.log.rotate tm opens with
      | none => rw [Log.opened?, Log.rotate_eq_none changed, Option.bind_none, ite_self]
      | some log =>
        rw [changed] at stepped
        have moved := congrArg (fun next => next.writers caller) stepped
        simp [orUndefined, setWriter, stage] at moved
    · rfl
  | _ => rfl

/-- What holds of the files in every state of a run of one thread: the log moves on, and the lines fill its
files. `latest` is the time of the last call. -/
structure Advances (dir base : Bytes) (lines : ℤ) (thread : ℕ) (opened : List Bytes)
    (latest now : LocalTime) (key : FileKey) (system : System size) : Prop where
  alone : Alone system thread
  upTo : now.UpTo latest
  stage : ∀ tm, (system.writers thread).time? = some tm → now.UpTo tm ∧ tm.UpTo latest ∧ tm.IsDate
  forward : system.log.Forward dir base lines opened now key
  filled : Filled lines opened thread (key.name dir base) system

variable {dir base : Bytes} {latest now tm : LocalTime} {key : FileKey}

/-- The first locked section of `write_log`. -/
theorem Advances.rotate (advances : Advances dir base lines thread opened latest now key system)
    (positive : 1 ≤ lines) (dirShort : dir.length ≤ 100) (baseShort : base.length ≤ 100)
    (few : system.log.count + 1 < 2 ^ 63) {level : ℤ} {message : Bytes} {opens : Bool} {log : Log size}
    (stage : system.writers thread = .called tm level message) (rotates : system.log.Rotates tm opens log) :
    ∃ key, Advances dir base lines thread (opened ++ (system.log.opened? tm true).toList) latest tm key
      { system.setWriter thread (.rotated tm level message) with log } := by
  obtain ⟨fromNow, upTo, isDate⟩ := advances.stage tm (congrArg Writer.time? stage)
  let moved := system.setWriter thread (.rotated tm level message)
  have alone : Alone { moved with log } thread := advances.alone.move rfl rotates.logQueue rfl
  have own : moved.writers thread = .rotated tm level message := Function.update_self ..
  have still : ∀ time, (moved.writers thread).time? = some time →
      tm.UpTo time ∧ time.UpTo latest ∧ time.IsDate := by
    intro time found
    rw [own] at found
    obtain rfl := Option.some.inj found
    exact ⟨.refl _, upTo, isDate⟩
  cases advances.forward.rotate positive dirShort baseShort isDate fromNow few rotates with
  | later other before otherDate first isOpened forward =>
    rw [isOpened]
    have fresh := advances.forward.fresh before otherDate
    exact ⟨other, alone, upTo, still, forward, advances.filled.newFile stage first fresh⟩
  | same further notOpened forward =>
    rw [notOpened, Option.toList_none, List.append_nil]
    exact ⟨key, alone, upTo, still, forward, advances.filled.count stage further⟩

/-- A thread that goes on with the line it has, or with none as before. -/
theorem Advances.goOn (advances : Advances dir base lines thread opened latest now key system) {writer : Writer}
    {later : LocalTime} (upTo : now.UpTo later) (same : writer.line? = (system.writers thread).line?)
    (pending : writer.pending = (system.writers thread).pending)
    (stage : ∀ tm, writer.time? = some tm → now.UpTo tm ∧ tm.UpTo later ∧ tm.IsDate) :
    Advances dir base lines thread opened later now key (system.setWriter thread writer) where
  alone := advances.alone.move rfl rfl rfl
  upTo := upTo
  stage time found := by
    simp only [setWriter, Function.update_self] at found
    exact stage time found
  forward := advances.forward
  filled := by
    have filled := advances.filled
    exact filled.goOn same (fun _ => id) (pending ▸ filled.room) filled.last

/-- One action of the thread. -/
theorem Advances.step {event : LogEvent}
    (advances : Advances dir base lines thread opened latest now key system) (positive : 1 ≤ lines)
    (dirShort : dir.length ≤ 100) (baseShort : base.length ≤ 100)
    (few : event.isRotate = true → system.log.count + 1 < 2 ^ 63) (own : event.thread? = some thread)
    (atDate : event.AtDate) (ordered : ∀ tm, event.callTime? = some tm → latest.UpTo tm)
    (stepped : system.step event = some next) :
    ∃ now key, Advances dir base lines thread (opened ++ (system.opened? event).toList)
      (event.callTime?.getD latest) now key next := by
  have alone := advances.alone.step own stepped
  cases moves_of_step stepped with
  | undefined =>
    rw [opened?_of_undefined stepped, Option.toList_none, List.append_nil]
    have later : latest.UpTo (event.callTime?.getD latest) := by
      cases called : event.callTime? with
      | none => exact .refl _
      | some tm => exact ordered tm called
    have filled := advances.filled
    refine ⟨now, key, alone, advances.upTo.trans later, fun tm found => ?_, advances.forward, ?_⟩
    · obtain ⟨fromNow, upTo, isDate⟩ := advances.stage tm found
      exact ⟨fromNow, upTo.trans later, isDate⟩
    · exact ⟨filled.known, filled.calls, filled.held, filled.inOrder, filled.atMost, filled.consecutive,
        filled.room, filled.last⟩
  | @called thread tm level message stage =>
    obtain rfl := Option.some.inj own
    simp only [opened?, Option.toList_none, List.append_nil]
    have upTo := advances.upTo.trans (ordered tm rfl)
    refine ⟨now, key, advances.goOn upTo (by rw [stage]; rfl) (by rw [stage]; rfl) fun time found => ?_⟩
    obtain rfl := Option.some.inj found
    exact ⟨upTo, .refl _, atDate⟩
  | @rotated thread opens tm level message log stage rotates =>
    obtain rfl := Option.some.inj own
    obtain ⟨key, advances⟩ := advances.rotate positive dirShort baseShort (few rfl) stage rotates
    rw [opened?, stage]
    exact ⟨tm, key, advances⟩
  | formatted stage =>
    obtain rfl := Option.some.inj own
    simp only [opened?, Option.toList_none, List.append_nil]
    refine ⟨now, key, alone, advances.upTo, fun time found => ?_, ?_, advances.filled.addLine stage rfl⟩
    · simp only [System.addLine, setWriter, Function.update_self] at found
      cases found
    · have names := advances.forward.names
      exact { advances.forward with names := ⟨names.dirName, names.logName⟩ }
  | tested stage =>
    obtain rfl := Option.some.inj own
    simp only [opened?, Option.toList_none, List.append_nil]
    refine ⟨now, key, advances.goOn advances.upTo ?_ ?_ fun time found => ?_⟩
    · rw [stage]
      split_ifs <;> rfl
    · rw [stage]
      split_ifs <;> rfl
    · split_ifs at found <;> cases found
  | pushed stage found => cases advances.alone.logQueue.symm.trans found
  | put stage isOpen =>
    obtain rfl := Option.some.inj own
    obtain ⟨rfl, member⟩ := advances.forward.fp _ isOpen
    simp only [opened?, Option.toList_none, List.append_nil]
    refine ⟨now, key, alone, advances.upTo, fun time found => ?_, advances.forward,
      advances.filled.put positive stage member⟩
    simp only [setWriter, Function.update_self] at found
    cases found
  | flusherWaits nothing found => cases advances.alone.logQueue.symm.trans found
  | flusherTakes nothing found => cases advances.alone.logQueue.symm.trans found
  | flusherEnds stage => cases advances.alone.flusher.symm.trans stage
  | flusherPuts stage => cases advances.alone.flusher.symm.trans stage

/-- A run of the thread. -/
theorem Advances.run {events : List LogEvent}
    (advances : Advances dir base lines thread opened latest now key system) (positive : 1 ≤ lines)
    (dirShort : dir.length ≤ 100) (baseShort : base.length ≤ 100)
    (few : system.log.count + events.countP LogEvent.isRotate < 2 ^ 63)
    (own : ∀ event ∈ events, event.thread? = some thread) (atDate : ∀ event ∈ events, event.AtDate)
    (ordered : (latest :: events.filterMap LogEvent.callTime?).Pairwise LocalTime.UpTo)
    (ran : Machine.run System.step system events = some next) :
    ∃ latest now key,
      Advances dir base lines thread (opened ++ openedNames system events) latest now key next := by
  induction events generalizing opened latest now key system with
  | nil =>
    cases ran
    rw [openedNames, List.append_nil]
    exact ⟨latest, now, key, advances⟩
  | cons event events ih =>
    obtain ⟨middle, stepped, ran⟩ := (run_cons_eq_some System.step).mp ran
    obtain ⟨ownFirst, own⟩ := List.forall_mem_cons.mp own
    obtain ⟨dateFirst, atDate⟩ := List.forall_mem_cons.mp atDate
    obtain ⟨_, counted⟩ := count_of_step advances.forward.nonneg stepped
    rw [List.countP_cons] at few
    have fewFirst : event.isRotate = true → system.log.count + 1 < 2 ^ 63 := by
      intro rotates
      rw [if_pos rotates] at few
      omega
    have fewLater : middle.log.count + events.countP LogEvent.isRotate < 2 ^ 63 := by
      split_ifs at few counted <;> omega
    have later : (∀ tm, event.callTime? = some tm → latest.UpTo tm) ∧
        (event.callTime?.getD latest :: events.filterMap LogEvent.callTime?).Pairwise LocalTime.UpTo := by
      cases called : event.callTime? with
      | none =>
        rw [List.filterMap_cons_none called] at ordered
        exact ⟨nofun, ordered⟩
      | some tm =>
        rw [List.filterMap_cons_some called] at ordered
        obtain ⟨first, ordered⟩ := List.pairwise_cons.mp ordered
        exact ⟨fun _ same => first _ (Option.some.inj same ▸ List.mem_cons_self), ordered⟩
    obtain ⟨now, key, advances⟩ :=
      advances.step positive dirShort baseShort fewFirst ownFirst dateFirst later.1 stepped
    have last := ih advances fewLater own atDate later.2 ran
    rw [List.append_assoc] at last
    rw [openedNames, stepped]
    exact last

theorem advances_initial {fileName : Bytes} {opens : Bool} {log : Log size} (thread : ℕ)
    (short : ShortName fileName) (directory : 47 ∈ fileName) (positive : 1 ≤ lines) (isDate : tm.IsDate)
    (start : Log.init fileName lines none tm opens = some log) :
    Advances (dirPart fileName) (basePart fileName) lines thread log.fp.toList tm tm ⟨tm, 0⟩
      (initial log) := by
  obtain ⟨started, names, logQueue⟩ := Log.started_of_init short isDate start
  rw [if_pos directory] at names
  have isName : ∀ file, log.fp = some file →
      file = (FileKey.mk tm 0).name (dirPart fileName) (basePart fileName) := by
    intro file isOpen
    rw [started.fp] at isOpen
    rw [FileKey.name, if_pos rfl, List.append_nil]
    exact (Option.some.inj (Option.ite_none_right_eq_some.mp isOpen).2).symm
  refine ⟨⟨fun _ _ => rfl, logQueue, rfl⟩, .refl tm, fun time found => ?_, ?_, ?_⟩
  · cases found
  · exact {
      names := names
      splitLines := started.splitLines
      nonneg := started.count.ge
      segment := by
        change _ = log.count / lines
        rw [started.count, Int.zero_ediv]
        rfl
      isDate := isDate
      upTo := .refl tm
      today := started.today
      distinct := by
        cases log.fp with
        | none => exact List.nodup_nil
        | some file => exact List.pairwise_singleton _ _
      earlier := fun file member =>
        ⟨_, isDate, (isName file (Option.mem_toList.mp member)).symm, Or.inl rfl⟩
      fp := fun file isOpen => ⟨isName file isOpen, Option.mem_toList.mpr isOpen⟩ }
  · have count : (initial log).log.count = 0 := started.count
    exact {
      known := List.forall_mem_nil _
      calls := rfl
      held := fun line holds => by cases holds
      inOrder := rfl
      atMost := fun _ => by
        change (0 : ℤ) ≤ lines
        omega
      consecutive := fun _ => ⟨0, rfl⟩
      room := by
        rw [count, Int.zero_emod]
        exact Int.one_nonneg
      last := ⟨0, rfl, rfl⟩ }

/-- What a run leaves behind: the lines of its calls in their order, of each file consecutive ones and not too
many, in files that were opened once each. -/
structure Segmented (splitLines : ℤ) (names : List Bytes) (system : System size) : Prop where
  inOrder : Consecutive 0 (system.written.map Prod.snd)
  known : ∀ entry ∈ system.written, entry.1 ∈ names
  atMost : ∀ file, ((linesOf file system.written).length : ℤ) ≤ splitLines
  consecutive : ∀ file, ∃ first, Consecutive first (linesOf file system.written)
  once : names.Nodup

/-- In every run of one thread in the synchronous mode whose calls are made on the same day as the one before
or later: the lines of each file are consecutive calls, at most `split_lines` of them, and no name is opened
twice, be it by `init` or by a change of the file. -/
theorem segmented_of_alone (fileName : Bytes) (splitLines : ℤ) (tm : LocalTime) (opens : Bool)
    (log : Log size) (thread : ℕ) (events : List LogEvent) (system : System size)
    (short : ShortName fileName) (directory : 47 ∈ fileName) (positive : 1 ≤ splitLines) (isDate : tm.IsDate)
    (start : Log.init fileName splitLines none tm opens = some log)
    (own : ∀ event ∈ events, event.thread? = some thread) (atDate : ∀ event ∈ events, event.AtDate)
    (ordered : (tm :: events.filterMap LogEvent.callTime?).Pairwise LocalTime.UpTo)
    (few : events.countP LogEvent.isRotate < 2 ^ 63)
    (ran : run step (initial log) events = some system) :
    Segmented splitLines (log.fp.toList ++ openedNames (initial log) events) system := by
  have initially := advances_initial thread short directory positive isDate start
  have zero : (initial log).log.count = 0 := (Log.started_of_init short isDate start).1.count
  have counted : (initial log).log.count + events.countP LogEvent.isRotate < 2 ^ 63 := by
    rw [zero]
    omega
  obtain ⟨_, _, _, last⟩ := initially.run positive short.dir short.base counted own atDate ordered ran
  exact ⟨last.filled.inOrder, last.filled.known, last.filled.atMost, last.filled.consecutive,
    last.forward.distinct⟩

/-- The first file has one line less, a segment is full, and another day begins a new file. -/
theorem segmented_of_alone_newYear : ∃ system : System 64,
    system.written.map Prod.fst = [ascii "./2025_01_01_server.log", ascii "./2025_01_01_server.log.1",
        ascii "./2025_01_01_server.log.1", ascii "./2025_01_02_server.log"] ∧
      Segmented 2 [ascii "./2025_01_01_server.log", ascii "./2025_01_01_server.log.1",
        ascii "./2025_01_02_server.log"] system :=
  let first : LocalTime := ⟨125, 0, 1, 12, 0, 0, 0⟩
  let events := oneCall 1 first (ascii "a") ++ oneCall 1 first (ascii "b") ++ oneCall 1 first (ascii "c") ++
    oneCall 1 ⟨125, 0, 2, 12, 0, 0, 0⟩ (ascii "d")
  let system := (run step (initial newYearLog) events).get (by decide +kernel)
  let names : newYearLog.fp.toList ++ openedNames (initial newYearLog) events =
    [ascii "./2025_01_01_server.log", ascii "./2025_01_01_server.log.1", ascii "./2025_01_02_server.log"] := by
      decide +kernel
  ⟨system, by decide +kernel, names ▸
    segmented_of_alone (ascii "./server.log") 2 first true newYearLog 1 events system (by decide +kernel)
      (by decide +kernel) (by decide) (by decide) init_newYearLog (by decide +kernel) (by decide +kernel)
      (by decide +kernel) (by decide +kernel) (Option.some_get _).symm⟩

end System

end WebServ.Logging
