import WebServ.Proofs.LogNames

/-! # The names of the files a rotation opens

`init` builds the name of its file from the parts of the file name; the rotation builds names from two arrays
that `init` fills only when the file name has a slash. Without one the arrays stay empty, and every file a
rotation opens lacks the base name.
-/

namespace WebServ.Logging

open WebServ.Machine WebServ.Text

variable {size : ℕ}

namespace System

/-- The open file is named by directory, date and base name, and so is every file that a rotation opens in a
later run, with a segment behind the base name only where the lines of a file are complete. The lines are
fewer than `m_count`, a `long long`, can count. -/
def NamedAlike (log : Log size) (dir base : Bytes) (tm : LocalTime) : Prop :=
  log.fp = some (dir ++ dateText tm ++ base) ∧
    ∀ (events : List LogEvent) (system : System size), (∀ event ∈ events, event.AtDate) →
      events.countP LogEvent.isRotate + 1 < 2 ^ 63 → run step (initial log) events = some system →
      ∀ thread tm level message file, system.writers thread = .called tm level message →
        system.log.opened? tm true = some file →
        if system.log.today ≠ tm.tmMday then file = dir ++ dateText tm ++ base
        else ∃ segment : ℤ, file = dir ++ dateText tm ++ base ++ ascii "." ++ decimal segment

/-- Names that are built from these parts. -/
theorem namedAlike_of_names {log : Log size} {dir base : Bytes} {splitLines : ℤ} {tm : LocalTime}
    (started : log.Started dir base splitLines tm true) (names : log.Names dir base)
    (dirShort : dir.length ≤ 100) (baseShort : base.length ≤ 100) : NamedAlike log dir base tm := by
  refine ⟨started.fp, fun events system atDate short ran thread now level message file stage opened => ?_⟩
  have both : system.log.Names dir base ∧ system.WriteDates := by
    have preserved : ∀ (s : System size) (e : LogEvent) (t : System size),
        s.log.Names dir base ∧ s.WriteDates → e.AtDate → step s e = some t →
        t.log.Names dir base ∧ t.WriteDates := fun s e t both atDate stepped =>
      ⟨names_of_step both.1 stepped, writeDates_of_step both.2 atDate stepped⟩
    have idle : (initial log).WriteDates := by
      intro thread tm found
      cases found
    exact invariant_of_guarded preserved ⟨names, idle⟩ (Guarded.of_forall atDate) ran
  have isDate : now.IsDate := both.2 thread now (congrArg Writer.time? stage)
  have zero : (initial log).log.count = 0 := started.count
  obtain ⟨low, high⟩ := count_of_run zero.ge ran
  have named := Log.opened?_eq_some both.1 dirShort baseShort isDate ⟨low, by omega⟩ opened
  split_ifs at named ⊢ with other
  · exact named
  · exact ⟨_, named⟩

/-- Without a slash, the file of another day is named by its date alone. -/
theorem not_namedAlike {log : Log size} {base : Bytes} {splitLines : ℤ} {tm : LocalTime}
    (started : log.Started [] base splitLines tm true) (names : log.Names [] []) (isDate : tm.IsDate)
    (nonempty : base ≠ []) : ¬NamedAlike log [] base tm := by
  rintro ⟨_, alike⟩
  obtain ⟨now, nextDate, changes⟩ : ∃ now : LocalTime, now.IsDate ∧ log.today ≠ now.tmMday := by
    -- another day of the same month
    by_cases first : tm.tmMday = 1
    · refine ⟨{ tm with tmMday := 2 }, ⟨isDate.tmYear, isDate.tmMon, ⟨?_, ?_⟩⟩, ?_⟩ <;> dsimp only
      · decide
      · decide
      · rw [started.today, first]
        decide
    · refine ⟨{ tm with tmMday := 1 }, ⟨isDate.tmYear, isDate.tmMon, ⟨le_rfl, ?_⟩⟩, ?_⟩ <;> dsimp only
      · decide
      · rw [started.today]
        exact first
  have isOpen : log.fp ≠ none := by
    rw [started.fp]
    exact Option.some_ne_none _
  have opened := names.opened?_day isOpen changes
  have called : ∀ event ∈ [LogEvent.call 0 now 0 []], event.AtDate := List.forall_mem_singleton.mpr nextDate
  have named := alike _ _ called (by simp [LogEvent.isRotate]) rfl 0 now 0 [] _ rfl opened
  change if log.today ≠ now.tmMday then _ else _ at named
  rw [if_pos changes, Log.dayName_eq nextDate (by decide) (by decide)] at named
  simp only [List.nil_append, List.append_nil, List.self_eq_append_right] at named
  exact nonempty named

/-- For every file name with parts of at most 100 bytes: all files are named alike exactly if the name has a
slash or is empty. -/
theorem namedAlike_iff_slash (fileName : Bytes) (splitLines : ℤ) (maxQueueSize : Option Capacity)
    (tm : LocalTime) (log : Log size) (short : ShortName fileName) (isDate : tm.IsDate)
    (start : Log.init fileName splitLines maxQueueSize tm true = some log) :
    NamedAlike log (dirPart fileName) (basePart fileName) tm ↔ 47 ∈ fileName ∨ fileName = [] := by
  obtain ⟨started, names, _⟩ := Log.started_of_init short isDate start
  constructor
  · intro alike
    by_contra neither
    rw [not_or] at neither
    obtain ⟨noSlash, nonempty⟩ := neither
    obtain ⟨dir, base⟩ := parts_of_noSlash noSlash
    rw [if_neg noSlash] at names
    rw [dir, base] at started alike
    rw [dir] at names
    exact not_namedAlike started names isDate nonempty alike
  · intro slashOrNothing
    have same : (if 47 ∈ fileName then basePart fileName else []) = basePart fileName := by
      rcases slashOrNothing with slash | rfl
      · rw [if_pos slash]
      · rfl
    rw [same] at names
    exact namedAlike_of_names started names short.dir short.base

/-- A name with a directory. -/
theorem namedAlike_iff_slash_directory : ∃ log : Log 64,
    Log.init (ascii "./ServerLog") 800000 none ⟨125, 0, 1, 12, 0, 0, 0⟩ true = some log ∧
      NamedAlike log (ascii "./") (ascii "ServerLog") ⟨125, 0, 1, 12, 0, 0, 0⟩ :=
  ⟨_, (Option.some_get (by decide +kernel)).symm,
    (namedAlike_iff_slash (ascii "./ServerLog") 800000 none ⟨125, 0, 1, 12, 0, 0, 0⟩ _ (by decide +kernel)
      (by decide) (Option.some_get (by decide +kernel)).symm).mpr (Or.inl (by decide +kernel))⟩

/-- The name that `main` passes: the second file has no base name. -/
theorem serverLog_not_named : ∃ log : Log 64,
    Log.init (ascii "ServerLog") 800000 none ⟨125, 0, 1, 12, 0, 0, 0⟩ true = some log ∧
      log.fp = some (ascii "2025_01_01_ServerLog") ∧
      log.opened? ⟨125, 0, 2, 12, 0, 0, 0⟩ true = some (ascii "2025_01_02_") ∧
      ¬NamedAlike log [] (ascii "ServerLog") ⟨125, 0, 1, 12, 0, 0, 0⟩ := by
  refine ⟨_, (Option.some_get (by decide +kernel)).symm, by decide +kernel, by decide +kernel, ?_⟩
  rintro ⟨_, alike⟩
  have named := alike [.call 0 ⟨125, 0, 2, 12, 0, 0, 0⟩ 0 []] _ (by decide) (by decide) rfl
    0 ⟨125, 0, 2, 12, 0, 0, 0⟩ 0 [] (ascii "2025_01_02_") rfl (by decide +kernel)
  revert named
  rw [if_pos (by decide +kernel)]
  decide +kernel

end System

end WebServ.Logging
