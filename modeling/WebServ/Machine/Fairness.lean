import WebServ.Machine.Path
import Mathlib.Data.Nat.Init

/-! # Infinite executions and weak fairness

An execution takes a step or pauses at every time. It is weakly fair to a class of labels if the
class does not stay enabled for ever without one of its labels being taken. The one liveness rule
needed is that of a helpful class: a condition that enables the class, and that only the class itself
can end, leads to a step of the class taken under the condition. A finite run extends to an execution
that pauses after it, and this is fair to every class that is not enabled at its end.
-/

namespace WebServ.Machine

variable {σ ε : Type*}

/-- An infinite execution from `initial`. -/
structure Execution (step : σ → ε → Option σ) (initial : σ) where
  state : ℕ → σ
  event : ℕ → Option ε
  starts : state 0 = initial
  pauses : ∀ time, event time = none → state (time + 1) = state time
  steps : ∀ time label, event time = some label → step (state time) label = some (state (time + 1))

variable {step : σ → ε → Option σ} {initial : σ}

/-- Some label of the class can be taken. -/
def Enabled (step : σ → ε → Option σ) (state : σ) (taken : ε → Prop) : Prop :=
  ∃ label, taken label ∧ (step state label).isSome

namespace Execution

variable (exec : Execution step initial)

/-- A label of the class is taken at this time. -/
def Occurs (taken : ε → Prop) (time : ℕ) : Prop := ∃ label, taken label ∧ exec.event time = some label

/-- A class that stays enabled is taken eventually. -/
def WeaklyFair (taken : ε → Prop) : Prop :=
  ∀ start, (∀ time, start ≤ time → Enabled step (exec.state time) taken) →
    ∃ time, start ≤ time ∧ exec.Occurs taken time

/-- The labels taken before a time. -/
def labels (time : ℕ) : List ε := (List.range time).filterMap exec.event

/-- They lead to the state at that time. -/
theorem run_labels (time : ℕ) : run step initial (exec.labels time) = some (exec.state time) := by
  induction time with
  | zero => rw [labels, List.range_zero, List.filterMap_nil, run_nil, exec.starts]
  | succ time ih =>
    rw [labels, List.range_succ, List.filterMap_append, run_append, ← labels, ih, Option.bind_some]
    rcases taken : exec.event time with _ | label
    · rw [List.filterMap_cons_none taken, List.filterMap_nil, run_nil, exec.pauses time taken]
    · rw [List.filterMap_cons_some taken, List.filterMap_nil]
      exact (run_cons_eq_some step).mpr ⟨_, exec.steps time label taken, rfl⟩

/-- Every state of an execution is reachable. -/
theorem reachable (time : ℕ) : Reachable step initial (exec.state time) := by
  exact ⟨exec.labels time, exec.run_labels time⟩

/-- What every later step keeps stays true. -/
theorem persists (kept : σ → Prop) {start : ℕ}
    (preserved : ∀ time label, start ≤ time → exec.event time = some label → kept (exec.state time) →
      kept (exec.state (time + 1)))
    (holds : kept (exec.state start)) {time : ℕ} (later : start ≤ time) : kept (exec.state time) := by
  induction time, later using Nat.le_induction with
  | base => exact holds
  | succ time later ih =>
    rcases taken : exec.event time with _ | label
    · rw [exec.pauses time taken]
      exact ih
    · exact preserved time label later taken ih

/-- A preorder that every step follows relates earlier states to later ones. -/
theorem related (before : σ → σ → Prop) (refl : ∀ state, before state state)
    (trans : ∀ {first second third}, before first second → before second third → before first third)
    (follows : ∀ state label next, step state label = some next → before state next)
    {start time : ℕ} (later : start ≤ time) : before (exec.state start) (exec.state time) := by
  apply exec.persists (before (exec.state start)) _ (refl _) later
  intro time label _ taken related
  exact trans related (follows _ _ _ (exec.steps time label taken))

variable {exec}

/-- A condition that enables a class, and that no other label ends, leads to a step of the class taken
under the condition. -/
theorem WeaklyFair.occurs {taken : ε → Prop} (fair : exec.WeaklyFair taken) (pending : σ → Prop)
    {start : ℕ}
    (enabled : ∀ time, start ≤ time → pending (exec.state time) → Enabled step (exec.state time) taken)
    (preserved : ∀ time label, start ≤ time → exec.event time = some label → ¬ taken label →
      pending (exec.state time) → pending (exec.state (time + 1)))
    (holds : pending (exec.state start)) :
    ∃ time, start ≤ time ∧ pending (exec.state time) ∧ exec.Occurs taken time := by
  by_contra never
  have stays : ∀ time, start ≤ time → pending (exec.state time) := by
    intro time later
    apply exec.persists pending _ holds later
    intro time label later chosen pends
    apply preserved time label later chosen _ pends
    intro isTaken
    exact never ⟨time, later, pends, label, isTaken, chosen⟩
  obtain ⟨time, later, occurs⟩ := fair start fun time later => enabled time later (stays time later)
  exact never ⟨time, later, stays time later, occurs⟩

/-- A condition that cannot last without a step of a class, which lowers a rank that no other step raises, is
left, where every label that leaves it reaches the goal. -/
theorem reaches (exec : Execution step initial) (taken : ε → Prop) (pending : σ → Prop) (rank : σ → ℕ)
    (goal : ℕ → Prop) {start : ℕ}
    (occurs : ∀ time, (∀ later, time ≤ later → pending (exec.state later)) →
      ∃ later, time ≤ later ∧ exec.Occurs taken later)
    (follows : ∀ time label, start ≤ time → exec.event time = some label → pending (exec.state time) →
      goal time ∨ pending (exec.state (time + 1)) ∧ rank (exec.state (time + 1)) ≤ rank (exec.state time) ∧
        (taken label → rank (exec.state (time + 1)) < rank (exec.state time)))
    (holds : pending (exec.state start)) : ∃ time, start ≤ time ∧ goal time := by
  by_contra never
  have follows' : ∀ time label, start ≤ time → exec.event time = some label → pending (exec.state time) →
      pending (exec.state (time + 1)) ∧ rank (exec.state (time + 1)) ≤ rank (exec.state time) ∧
        (taken label → rank (exec.state (time + 1)) < rank (exec.state time)) := by
    intro time label later chosen pends
    exact (follows time label later chosen pends).resolve_left fun reached => never ⟨time, later, reached⟩
  -- the rank would fall for ever
  suffices falls : ∀ bound time, start ≤ time → pending (exec.state time) →
      ¬rank (exec.state time) < bound from
    falls _ start (Nat.le_refl start) holds (Nat.lt_succ_self _)
  intro bound
  induction bound with
  | zero => exact fun time _ _ => Nat.not_lt_zero _
  | succ bound ih =>
    intro time later pends below
    have stays : ∀ moment, time ≤ moment →
        pending (exec.state moment) ∧ rank (exec.state moment) ≤ rank (exec.state time) := by
      intro moment past
      refine exec.persists (fun state => pending state ∧ rank state ≤ rank (exec.state time)) ?_
        ⟨pends, Nat.le_refl _⟩ past
      rintro between label after chosen ⟨pends, kept⟩
      obtain ⟨pends, lower, _⟩ := follows' between label (by omega) chosen pends
      exact ⟨pends, Nat.le_trans lower kept⟩
    obtain ⟨moment, past, label, isTaken, chosen⟩ := occurs time fun moment past => (stays moment past).1
    obtain ⟨pends, kept⟩ := stays moment past
    obtain ⟨pends, _, lower⟩ := follows' moment label (by omega) chosen pends
    have less := lower isTaken
    exact ih (moment + 1) (by omega) pends (by omega)

/-- So is a condition that enables a fair class. -/
theorem WeaklyFair.reaches {taken : ε → Prop} (fair : exec.WeaklyFair taken) (pending : σ → Prop)
    (rank : σ → ℕ) (goal : ℕ → Prop) {start : ℕ}
    (enabled : ∀ time, pending (exec.state time) → Enabled step (exec.state time) taken)
    (follows : ∀ time label, start ≤ time → exec.event time = some label → pending (exec.state time) →
      goal time ∨ pending (exec.state (time + 1)) ∧ rank (exec.state (time + 1)) ≤ rank (exec.state time) ∧
        (taken label → rank (exec.state (time + 1)) < rank (exec.state time)))
    (holds : pending (exec.state start)) : ∃ time, start ≤ time ∧ goal time := by
  refine exec.reaches taken pending rank goal (fun time stays => fair time fun later past => ?_) follows holds
  exact enabled later (stays later past)

section Projection

variable {ρ η : Type*} {other : ρ → η → Option ρ} {view : σ → ρ} {seen : ε → Option η}

/-- The execution of the machine that the steps show. -/
def project (exec : Execution step initial) (projects : Projects step other view seen) :
    Execution other (view initial) where
  state time := view (exec.state time)
  event time := (exec.event time).bind seen
  starts := congrArg view exec.starts
  pauses time paused := by
    rcases taken : exec.event time with _ | label
    · rw [exec.pauses time taken]
    · rw [taken, Option.bind_some] at paused
      have same := projects _ _ _ (exec.steps time label taken)
      rw [paused] at same
      exact (Option.some.inj same).symm
  steps time shown isShown := by
    obtain ⟨label, taken, shows⟩ := Option.bind_eq_some_iff.mp isShown
    have stepped := projects _ _ _ (exec.steps time label taken)
    rw [shows, Option.toList_some, run_cons_eq_some] at stepped
    obtain ⟨next, answered, ends⟩ := stepped
    cases ends
    exact answered

/-- It is fair to a class that a fair class shows wherever it is enabled. -/
theorem WeaklyFair.project (projects : Projects step other view seen) {shown : η → Prop} {taken : ε → Prop}
    (fair : exec.WeaklyFair taken)
    (enabled : ∀ time, Enabled other (view (exec.state time)) shown → Enabled step (exec.state time) taken)
    (shows : ∀ label, taken label → ∃ event, shown event ∧ seen label = some event) :
    (exec.project projects).WeaklyFair shown := by
  intro start stays
  obtain ⟨time, later, label, isTaken, chosen⟩ := fair start fun time later => enabled time (stays time later)
  obtain ⟨event, isShown, same⟩ := shows label isTaken
  refine ⟨time, later, event, isShown, ?_⟩
  rw [Execution.project]
  exact (congrArg (Option.bind · seen) chosen).trans same

end Projection

end Execution

section FiniteRuns

variable {events : List ε} {final : σ}

/-- Every prefix of a run can be run. -/
theorem exists_run_take (ran : run step initial events = some final) (time : ℕ) :
    ∃ state, run step initial (events.take time) = some state := by
  rw [← List.take_append_drop time events, run_append, Option.bind_eq_some_iff] at ran
  obtain ⟨state, left, _⟩ := ran
  exact ⟨state, left⟩

/-- The execution that pauses after a finite run. -/
def Execution.ofRun (ran : run step initial events = some final) : Execution step initial where
  state time := (run step initial (events.take time)).getD final
  event time := events[time]?
  starts := rfl
  pauses time ended := by
    have short := List.getElem?_eq_none_iff.mp ended
    rw [List.take_of_length_le (by omega), List.take_of_length_le short]
  steps time label taken := by
    obtain ⟨state, here⟩ := exists_run_take ran time
    obtain ⟨next, there⟩ := exists_run_take ran (time + 1)
    rw [here, there, Option.getD_some, Option.getD_some]
    rw [List.take_add_one, taken, Option.toList_some, run_append, here, Option.bind_some,
      run_cons_eq_some] at there
    obtain ⟨other, stepped, ends⟩ := there
    cases ends
    exact stepped

theorem Execution.ofRun_state_of_length_le (ran : run step initial events = some final) {time : ℕ}
    (late : events.length ≤ time) : (Execution.ofRun ran).state time = final := by
  simp only [ofRun]
  rw [List.take_of_length_le late, ran, Option.getD_some]

/-- A finite run is fair to the classes not enabled at its end. -/
theorem Execution.ofRun_weaklyFair (ran : run step initial events = some final) {taken : ε → Prop}
    (disabled : ¬ Enabled step final taken) : (Execution.ofRun ran).WeaklyFair taken := by
  intro start enabled
  have late := enabled (max start events.length) (Nat.le_max_left ..)
  rw [ofRun_state_of_length_le ran (Nat.le_max_right ..)] at late
  exact absurd late disabled

/-- A guard met by a finite run is met at all times. -/
theorem Execution.ofRun_guarded (ran : run step initial events = some final) {guard : σ → ε → Prop}
    (guarded : Guarded step guard initial events) {time : ℕ} {label : ε}
    (taken : (Execution.ofRun ran).event time = some label) :
    guard ((Execution.ofRun ran).state time) label := by
  obtain ⟨state, here⟩ := exists_run_take ran time
  obtain ⟨bound, rfl⟩ := List.getElem?_eq_some_iff.mp taken
  have cut : events = events.take time ++ events[time] :: events.drop (time + 1) := by
    rw [List.getElem_cons_drop, List.take_append_drop]
  have met := (guarded_iff_forall ran).mp guarded _ _ _ state cut here
  simp only [ofRun]
  rw [here, Option.getD_some]
  exact met

end FiniteRuns

end WebServ.Machine
