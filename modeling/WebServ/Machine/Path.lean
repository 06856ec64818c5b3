import Mathlib.Data.List.Basic

/-! # Runs of a labelled machine

A machine is a partial step function: the label carries every choice of the environment and
`none` refuses it. Runs are label lists, so that "in every state reached" quantifies over all
finite runs and needs no separate prefix relation. Three rules package the inductions used by every
system of this development: an invariant kept by each step holds after any run, an invariant kept
only by the steps that meet a guard holds after any run whose steps all meet it, and a property kept
by exactly these steps holds throughout exactly the runs whose steps all meet it.
-/

namespace WebServ.Machine

variable {σ ε : Type*} (step : σ → ε → Option σ)

/-- Run the labels from left to right; the first refused label refuses the run. -/
def run : σ → List ε → Option σ
  | state, [] => some state
  | state, event :: rest => (step state event).bind fun next => run next rest

@[simp] theorem run_nil (state : σ) : run step state [] = some state := rfl

theorem run_cons_eq_some {state final : σ} {event : ε} {rest : List ε} :
    run step state (event :: rest) = some final ↔
      ∃ next, step state event = some next ∧ run step next rest = some final := by
  simp only [run, Option.bind_eq_some_iff]

theorem run_append (state : σ) (first second : List ε) :
    run step state (first ++ second) =
      (run step state first).bind fun middle => run step middle second := by
  induction first generalizing state with
  | nil => rfl
  | cons event rest ih => simp only [List.cons_append, run, ih, Option.bind_assoc]

/-- A run cut at one of its steps. -/
theorem run_append_cons_eq_some {state final : σ} {first second : List ε} {event : ε} :
    run step state (first ++ event :: second) = some final ↔
      ∃ before after, run step state first = some before ∧ step before event = some after ∧
        run step after second = some final := by
  simp only [run_append, Option.bind_eq_some_iff, run_cons_eq_some]
  constructor
  · rintro ⟨before, left, after, taken, right⟩
    exact ⟨before, after, left, taken, right⟩
  · rintro ⟨before, after, left, taken, right⟩
    exact ⟨before, left, after, taken, right⟩

/-- Some run of the machine leads from `initial` to `state`. -/
def Reachable (initial state : σ) : Prop := ∃ events, run step initial events = some state

/-- Every step of the run is taken from a state and with a label that meet `guard`. -/
def Guarded (guard : σ → ε → Prop) : σ → List ε → Prop
  | _, [] => True
  | state, event :: rest =>
      guard state event ∧ ∀ next, step state event = some next → Guarded guard next rest

/-- On concrete labels a decidable guard is checked by running the machine. -/
instance Guarded.decidable (guard : σ → ε → Prop) [∀ state event, Decidable (guard state event)] :
    ∀ state events, Decidable (Guarded step guard state events)
  | _, [] => isTrue trivial
  | state, event :: rest =>
      match taken : step state event with
      | none => decidable_of_iff (guard state event)
          ⟨fun met => ⟨met, fun _ other => nomatch taken.symm.trans other⟩, fun both => both.1⟩
      | some next =>
          have := Guarded.decidable guard next rest
          decidable_of_iff (guard state event ∧ Guarded step guard next rest)
            ⟨fun both => ⟨both.1, fun _ same => Option.some.inj (taken.symm.trans same) ▸ both.2⟩,
              fun both => ⟨both.1, both.2 next taken⟩⟩

variable {step}

/-- A condition on the labels alone. -/
theorem Guarded.of_forall {condition : ε → Prop} {state : σ} {events : List ε}
    (met : ∀ event ∈ events, condition event) :
    Guarded step (fun _ event => condition event) state events := by
  induction events generalizing state with
  | nil => trivial
  | cons event rest ih =>
    obtain ⟨first, others⟩ := List.forall_mem_cons.mp met
    exact ⟨first, fun next _ => ih others⟩

/-- Two conditions on the same run. -/
theorem Guarded.and {first second : σ → ε → Prop} {state : σ} {events : List ε}
    (left : Guarded step first state events) (right : Guarded step second state events) :
    Guarded step (fun state event => first state event ∧ second state event) state events := by
  induction events generalizing state with
  | nil => trivial
  | cons event rest ih =>
    refine ⟨⟨left.1, right.1⟩, fun next taken => ?_⟩
    exact ih (left.2 next taken) (right.2 next taken)

/-- A guard met by the whole run is met wherever the run is cut. -/
theorem guarded_iff_forall {guard : σ → ε → Prop} {state final : σ} {events : List ε}
    (ran : run step state events = some final) :
    Guarded step guard state events ↔ ∀ first event rest before, events = first ++ event :: rest →
      run step state first = some before → guard before event := by
  induction events generalizing state with
  | nil =>
    refine ⟨fun _ first event rest before split _ => ?_, fun _ => trivial⟩
    exact absurd split.symm (List.append_ne_nil_of_right_ne_nil first (List.cons_ne_nil event rest))
  | cons head events ih =>
    obtain ⟨next, taken, tail⟩ := (run_cons_eq_some step).mp ran
    constructor
    · rintro ⟨met, later⟩ first event rest before split left
      cases first with
      | nil =>
        cases left
        obtain ⟨rfl, _⟩ := List.cons_eq_cons.mp split
        exact met
      | cons other first =>
        obtain ⟨rfl, others⟩ := List.cons_eq_cons.mp split
        obtain ⟨middle, same, left⟩ := (run_cons_eq_some step).mp left
        obtain rfl := Option.some.inj (taken.symm.trans same)
        exact (ih tail).mp (later next taken) first event rest before others left
    · intro always
      refine ⟨always [] head events state rfl rfl, fun other same => ?_⟩
      obtain rfl := Option.some.inj (taken.symm.trans same)
      refine (ih tail).mpr fun first event rest before split left => ?_
      exact always (head :: first) event rest before (congrArg _ split)
        ((run_cons_eq_some step).mpr ⟨next, taken, left⟩)

/-- What every guarded step preserves holds after every guarded run. -/
theorem invariant_of_guarded {guard : σ → ε → Prop} {inv : σ → Prop}
    (preserved : ∀ s e t, inv s → guard s e → step s e = some t → inv t)
    {state final : σ} {events : List ε} (initial : inv state)
    (guarded : Guarded step guard state events) (ran : run step state events = some final) :
    inv final := by
  induction events generalizing state with
  | nil =>
    cases ran
    exact initial
  | cons event rest ih =>
    obtain ⟨next, taken, tail⟩ := (run_cons_eq_some step).mp ran
    exact ih (preserved _ _ _ initial guarded.1 taken) (guarded.2 next taken) tail

/-- A guard that is met under an invariant of the guarded steps is met by the whole run. -/
theorem Guarded.of_invariant {guard other : σ → ε → Prop} {inv : σ → Prop}
    (preserved : ∀ s e t, inv s → guard s e → step s e = some t → inv t)
    (implies : ∀ s e t, inv s → guard s e → step s e = some t → other s e)
    {state final : σ} {events : List ε} (initial : inv state)
    (guarded : Guarded step guard state events) (ran : run step state events = some final) :
    Guarded step other state events := by
  induction events generalizing state with
  | nil => trivial
  | cons event rest ih =>
    obtain ⟨next, taken, tail⟩ := (run_cons_eq_some step).mp ran
    refine ⟨implies _ _ _ initial guarded.1 taken, fun same isNext => ?_⟩
    obtain rfl := Option.some.inj (taken.symm.trans isNext)
    exact ih (preserved _ _ _ initial guarded.1 taken) (guarded.2 next taken) tail

/-- What every step preserves holds after every run. -/
theorem invariant {inv : σ → Prop} (preserved : ∀ s e t, inv s → step s e = some t → inv t)
    {state final : σ} {events : List ε} (initial : inv state)
    (ran : run step state events = some final) : inv final := by
  induction events generalizing state with
  | nil =>
    cases ran
    exact initial
  | cons event rest ih =>
    obtain ⟨next, taken, tail⟩ := (run_cons_eq_some step).mp ran
    exact ih (preserved _ _ _ initial taken) tail

/-- A label that lowers a measure can be taken only so often, and then it is refused. -/
theorem exists_refused_of_measure {label : ε} (measure : σ → ℕ)
    (lowers : ∀ s t, step s label = some t → measure t < measure s) (state : σ) :
    ∃ count final, count ≤ measure state ∧
      run step state (List.replicate count label) = some final ∧ step final label = none := by
  induction bound : measure state using Nat.strongRecOn generalizing state with
  | ind bound ih =>
    cases taken : step state label with
    | none => exact ⟨0, state, Nat.zero_le _, rfl, taken⟩
    | some next =>
      have less := lowers state next taken
      obtain ⟨count, final, small, ran, refused⟩ := ih (measure next) (bound ▸ less) next rfl
      refine ⟨count + 1, final, by omega, ?_, refused⟩
      exact (run_cons_eq_some step).mpr ⟨next, taken, ran⟩

/-- There is one state only where a label taken again and again is refused at last. -/
theorem eq_of_refused {label : ε} {state first second : σ} {count other : ℕ}
    (ran : run step state (List.replicate count label) = some first) (refused : step first label = none)
    (again : run step state (List.replicate other label) = some second)
    (refusedAgain : step second label = none) : first = second := by
  induction count generalizing state other with
  | zero =>
    cases ran
    cases other with
    | zero => exact Option.some.inj again
    | succ other =>
      obtain ⟨next, taken, _⟩ := (run_cons_eq_some step).mp again
      cases refused.symm.trans taken
  | succ count ih =>
    obtain ⟨next, taken, rest⟩ := (run_cons_eq_some step).mp ran
    cases other with
    | zero =>
      cases again
      cases refusedAgain.symm.trans taken
    | succ other =>
      obtain ⟨same, takenAgain, restAgain⟩ := (run_cons_eq_some step).mp again
      obtain rfl := Option.some.inj (taken.symm.trans takenAgain)
      exact ih rest restAgain

/-- Where every step of one machine has a counterpart in another, so has every run. -/
theorem run_of_simulation {ρ : Type*} {other : ρ → ε → Option ρ} {related : σ → ρ → Prop}
    (simulates : ∀ s r e t, related s r → step s e = some t → ∃ u, other r e = some u ∧ related t u)
    {state final : σ} {start : ρ} {events : List ε} (initial : related state start)
    (ran : run step state events = some final) :
    ∃ last, run other start events = some last ∧ related final last := by
  induction events generalizing state start with
  | nil =>
    cases ran
    exact ⟨start, rfl, initial⟩
  | cons event rest ih =>
    obtain ⟨next, taken, tail⟩ := (run_cons_eq_some step).mp ran
    obtain ⟨middle, answered, kept⟩ := simulates _ _ _ _ initial taken
    obtain ⟨last, remaining, holds⟩ := ih kept tail
    exact ⟨last, (run_cons_eq_some other).mpr ⟨middle, answered, remaining⟩, holds⟩

/-- Of two related options both are there if the first is. -/
theorem isSome_of_rel {ρ : Type*} {related : σ → ρ → Prop} {first : Option σ} {second : Option ρ}
    (both : Option.Rel related first second) (present : first.isSome) : second.isSome := by
  cases both with
  | some => rfl
  | none => cases present

/-- Machines that refuse the same labels and keep a relation between their states go through the same runs. -/
theorem run_rel {ρ : Type*} {other : ρ → ε → Option ρ} {related : σ → ρ → Prop}
    (lockstep : ∀ s r e, related s r → Option.Rel related (step s e) (other r e))
    {state : σ} {start : ρ} (initial : related state start) (events : List ε) :
    Option.Rel related (run step state events) (run other start events) := by
  induction events generalizing state start with
  | nil => exact .some initial
  | cons event rest ih =>
    have both := lockstep _ _ event initial
    rw [run, run]
    generalize step state event = taken at both
    generalize other start event = answered at both
    cases both with
    | none => exact .none
    | some kept => exact ih kept

/-- Where every step of one machine has a run of another as its counterpart, which may be empty, so has
every run. -/
theorem exists_run_of_simulation {ρ η : Type*} {other : ρ → η → Option ρ} {related : σ → ρ → Prop}
    (simulates : ∀ s r e t, related s r → step s e = some t →
      ∃ labels u, run other r labels = some u ∧ related t u)
    {state final : σ} {start : ρ} {events : List ε} (initial : related state start)
    (ran : run step state events = some final) :
    ∃ labels last, run other start labels = some last ∧ related final last := by
  induction events generalizing state start with
  | nil =>
    cases ran
    exact ⟨[], start, rfl, initial⟩
  | cons event rest ih =>
    obtain ⟨next, taken, tail⟩ := (run_cons_eq_some step).mp ran
    obtain ⟨first, middle, answered, kept⟩ := simulates _ _ _ _ initial taken
    obtain ⟨second, last, remaining, holds⟩ := ih kept tail
    refine ⟨first ++ second, last, ?_, holds⟩
    rw [run_append, answered, Option.bind_some, remaining]

/-- Every step is a step of another machine on a part of the state, or leaves that part alone. -/
def Projects {ρ η : Type*} (step : σ → ε → Option σ) (other : ρ → η → Option ρ) (view : σ → ρ)
    (seen : ε → Option η) : Prop :=
  ∀ state label next, step state label = some next →
    run other (view state) (seen label).toList = some (view next)

/-- So is every run. -/
theorem Projects.run {ρ η : Type*} {other : ρ → η → Option ρ} {view : σ → ρ} {seen : ε → Option η}
    (projects : Projects step other view seen) {state final : σ} {events : List ε}
    (ran : run step state events = some final) :
    run other (view state) (events.filterMap seen) = some (view final) := by
  induction events generalizing state with
  | nil =>
    cases ran
    rfl
  | cons event rest ih =>
    obtain ⟨next, taken, tail⟩ := (run_cons_eq_some step).mp ran
    have first := projects _ _ _ taken
    rw [← List.singleton_append, List.filterMap_append, run_append]
    rcases shown : seen event with _ | label
    · rw [shown] at first
      rw [List.filterMap_cons_none shown, List.filterMap_nil, run_nil, Option.bind_some,
        Option.some.inj first, ih tail]
    · rw [shown, Option.toList_some] at first
      rw [List.filterMap_cons_some shown, List.filterMap_nil, first, Option.bind_some, ih tail]

/-- The property holds in every state of the run. -/
def Throughout (step : σ → ε → Option σ) (property : σ → Prop) (state : σ) (events : List ε) : Prop :=
  ∀ first rest middle, events = first ++ rest → run step state first = some middle → property middle

theorem throughout_nil {property : σ → Prop} {state : σ} :
    Throughout step property state [] ↔ property state := by
  constructor
  · intro always
    exact always [] [] state rfl rfl
  · intro holds first rest middle split ran
    obtain ⟨rfl, _⟩ := List.append_eq_nil_iff.mp split.symm
    cases ran
    exact holds

theorem throughout_cons {property : σ → Prop} {state next : σ} {event : ε} {events : List ε}
    (taken : step state event = some next) :
    Throughout step property state (event :: events) ↔
      property state ∧ Throughout step property next events := by
  constructor
  · intro always
    refine ⟨always [] (event :: events) state rfl rfl, fun first rest middle split ran => ?_⟩
    exact always (event :: first) rest middle (congrArg _ split)
      ((run_cons_eq_some step).mpr ⟨next, taken, ran⟩)
  · rintro ⟨holds, later⟩ first rest middle split ran
    cases first with
    | nil =>
      cases ran
      exact holds
    | cons head first =>
      obtain ⟨rfl, others⟩ := List.cons_eq_cons.mp split
      obtain ⟨other, same, ran⟩ := (run_cons_eq_some step).mp ran
      obtain rfl := Option.some.inj (taken.symm.trans same)
      exact later first rest middle others ran

/-- A property that a step keeps exactly if it meets the guard holds in every state of a run exactly
if all steps of the run meet the guard. -/
theorem forall_prefix_iff_guarded {guard : σ → ε → Prop} (inv property : σ → Prop)
    (preserved : ∀ s e t, inv s → step s e = some t → inv t)
    (keeps : ∀ s e t, inv s → property s → step s e = some t → (property t ↔ guard s e))
    {state final : σ} {events : List ε} (initial : inv state) (holds : property state)
    (ran : run step state events = some final) :
    (∀ first rest middle, events = first ++ rest → run step state first = some middle →
      property middle) ↔ Guarded step guard state events := by
  induction events generalizing state with
  | nil =>
    refine ⟨fun _ => trivial, fun _ first rest middle split left => ?_⟩
    obtain ⟨rfl, rfl⟩ := List.append_eq_nil_iff.mp split.symm
    cases left
    exact holds
  | cons event events ih =>
    obtain ⟨next, taken, tail⟩ := (run_cons_eq_some step).mp ran
    have kept := keeps _ _ _ initial holds taken
    have later := fun holds => ih (preserved _ _ _ initial taken) holds tail
    constructor
    · intro always
      have holdsNext : property next :=
        always [event] events next rfl ((run_cons_eq_some step).mpr ⟨next, taken, rfl⟩)
      refine ⟨kept.mp holdsNext, fun other same => ?_⟩
      obtain rfl := Option.some.inj (taken.symm.trans same)
      apply (later holdsNext).mp
      intro first rest middle split left
      exact always (event :: first) rest middle (congrArg _ split)
        ((run_cons_eq_some step).mpr ⟨next, taken, left⟩)
    · rintro ⟨met, guarded⟩ first rest middle split left
      cases first with
      | nil =>
        cases left
        exact holds
      | cons head first =>
        obtain ⟨rfl, others⟩ := List.cons_eq_cons.mp split
        obtain ⟨other, same, left⟩ := (run_cons_eq_some step).mp left
        obtain rfl := Option.some.inj (taken.symm.trans same)
        exact (later (kept.mpr met)).mpr (guarded next taken) first rest middle others left

end WebServ.Machine
