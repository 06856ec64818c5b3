import WebServ.Machine.Path
import Mathlib.Logic.Function.Basic

/-! # Critical sections statement by statement

Threads share data under one lock, and objects beside it, such as a clock, that every access changes in one
step. A thread takes one statement at a time, and the others may act between any two of them; while a thread
is inside a section the lock keeps the others from the data. What is left of a section can be done in one go,
so every run of statements has the outcome of a run in which each section happens at once, at the moment its
lock is taken.
-/

namespace WebServ.Machine

/-- The statements of the threads. `inside` tells the places between lock and unlock; a statement inside
depends on the data alone, and `left` bounds how many of them are to come. A statement outside either takes the
lock, or neither reads nor changes the data. -/
structure Sections (π δ κ ε : Type*) where
  inside : π → Bool
  outer : ℕ → π → ε → δ → κ → Option (π × δ × κ)
  inner : ℕ → π → δ → Option (π × δ)
  left : π → ℕ
  inner_left : ∀ thread place data place' data', inside place = true →
    inner thread place data = some (place', data') → left place' < left place
  outer_free : ∀ thread place choice data objects place' data' objects',
    outer thread place choice data objects = some (place', data', objects') → inside place' = false →
      data' = data ∧ ∀ other, outer thread place choice other objects = some (place', other, objects')

/-- The threads, the data under the lock, and who holds it. -/
structure Monitor (π δ κ : Type*) where
  data : δ
  objects : κ
  places : ℕ → π
  owner : Option ℕ

/-- The label of a step: a statement of a thread outside or inside a section, or a change of the objects by
something else. -/
inductive MonitorEvent (ε η : Type*) where
  | outer (thread : ℕ) (choice : ε)
  | inner (thread : ℕ)
  | change (what : η)
deriving DecidableEq, Repr

variable {π δ κ ε η : Type*}

namespace Sections

variable (sections : Sections π δ κ ε) (thread : ℕ)

/-- The next statements of a section, up to its end. -/
def finish : ℕ → π → δ → π × δ
  | 0, place, data => (place, data)
  | count + 1, place, data =>
      if sections.inside place then
        match sections.inner thread place data with
        | some (place, data) => finish count place data
        | none => (place, data)
      else (place, data)

/-- What is left of a section in one go. -/
def complete (place : π) (data : δ) : π × δ := sections.finish thread (sections.left place) place data

theorem finish_outside {place : π} (outside : sections.inside place = false) (count : ℕ) (data : δ) :
    sections.finish thread count place data = (place, data) := by
  cases count with
  | zero => rfl
  | succ count => rw [finish, if_neg (by simp [outside])]

theorem finish_stuck {place : π} {data : δ} (stuck : sections.inner thread place data = none) (count : ℕ) :
    sections.finish thread count place data = (place, data) := by
  cases count with
  | zero => rfl
  | succ count => simp only [finish, stuck, ite_self]

theorem finish_inner {place place' : π} {data data' : δ} (within : sections.inside place = true)
    (taken : sections.inner thread place data = some (place', data')) (count : ℕ) :
    sections.finish thread (count + 1) place data = sections.finish thread count place' data' := by
  simp only [finish, within, taken, ↓reduceIte]

/-- More statements than are left change nothing. -/
theorem finish_eq {first second : ℕ} {place : π} (enough : sections.left place ≤ first)
    (also : sections.left place ≤ second) (data : δ) :
    sections.finish thread first place data = sections.finish thread second place data := by
  induction first generalizing second place data with
  | zero =>
    cases within : sections.inside place with
    | false => rw [finish_outside _ _ within, finish_outside _ _ within]
    | true =>
      rcases next : sections.inner thread place data with _ | after
      · rw [finish_stuck _ _ next, finish_stuck _ _ next]
      · exact absurd (sections.inner_left _ _ _ _ _ within next) (by omega)
  | succ first ih =>
    cases within : sections.inside place with
    | false => rw [finish_outside _ _ within, finish_outside _ _ within]
    | true =>
      rcases next : sections.inner thread place data with _ | after
      · rw [finish_stuck _ _ next, finish_stuck _ _ next]
      · have fewer := sections.inner_left _ _ _ _ _ within next
        obtain ⟨others, rfl⟩ : ∃ others, second = others + 1 := ⟨second - 1, by omega⟩
        rw [finish_inner _ _ within next, finish_inner _ _ within next]
        exact ih (by omega) (by omega) _

theorem complete_outside {place : π} (outside : sections.inside place = false) (data : δ) :
    sections.complete thread place data = (place, data) := sections.finish_outside thread outside _ data

/-- A statement of a section leaves the rest of it. -/
theorem complete_inner {place place' : π} {data data' : δ} (within : sections.inside place = true)
    (taken : sections.inner thread place data = some (place', data')) :
    sections.complete thread place data = sections.complete thread place' data' := by
  have fewer := sections.inner_left _ _ _ _ _ within taken
  have more := sections.finish_eq thread (Nat.le_refl (sections.left place)) (Nat.le_succ _) data
  rw [complete, more, finish_inner _ _ within taken]
  exact sections.finish_eq thread (Nat.le_of_lt fewer) (Nat.le_refl _) data'

/-- A section that comes to its end is not stuck now. -/
theorem inner_isSome {place : π} {data : δ} (within : sections.inside place = true)
    (ends : sections.inside (sections.complete thread place data).1 = false) :
    (sections.inner thread place data).isSome := by
  rcases next : sections.inner thread place data with _ | after
  · rw [complete, finish_stuck _ _ next, within] at ends
    cases ends
  · rfl

/-- What every statement of a section relates, the whole rest of it relates. -/
theorem complete_related (before : δ → δ → Prop) (refl : ∀ data, before data data)
    (trans : ∀ {first second third}, before first second → before second third → before first third)
    (follows : ∀ place data place' data', sections.inside place = true →
      sections.inner thread place data = some (place', data') → before data data')
    (place : π) (data : δ) : before data (sections.complete thread place data).2 := by
  have finishes : ∀ count place data, before data (sections.finish thread count place data).2 := by
    intro count
    induction count with
    | zero => exact fun _ data => refl data
    | succ count ih =>
      intro place data
      cases within : sections.inside place with
      | false =>
        rw [finish_outside _ _ within]
        exact refl data
      | true =>
        rcases next : sections.inner thread place data with _ | after
        · rw [finish_stuck _ _ next]
          exact refl data
        · rw [finish_inner _ _ within next]
          exact trans (follows _ _ _ _ within next) (ih _ _)
  exact finishes _ place data

end Sections

namespace Monitor

/-- The thread goes on to another place. -/
def goTo (monitor : Monitor π δ κ) (thread : ℕ) (place : π) (data : δ) (objects : κ) (owner : Option ℕ) :
    Monitor π δ κ where
  data := data
  objects := objects
  places := Function.update monitor.places thread place
  owner := owner

/-- What is left of the section of the owner is done. -/
def settle (sections : Sections π δ κ ε) (monitor : Monitor π δ κ) : Monitor π δ κ :=
  match monitor.owner with
  | none => monitor
  | some thread =>
      let (place, data) := sections.complete thread (monitor.places thread) monitor.data
      monitor.goTo thread place data monitor.objects none

/-- One statement, or one change of the objects. -/
def step (sections : Sections π δ κ ε) (change : η → κ → κ) (monitor : Monitor π δ κ) :
    MonitorEvent ε η → Option (Monitor π δ κ)
  | .change what => some { monitor with objects := change what monitor.objects }
  | .outer thread choice =>
      if sections.inside (monitor.places thread) then none
      else
        match sections.outer thread (monitor.places thread) choice monitor.data monitor.objects with
        | none => none
        | some (place, data, objects) =>
            if sections.inside place then
              if monitor.owner = none then some (monitor.goTo thread place data objects (some thread)) else none
            else some (monitor.goTo thread place data objects monitor.owner)
  | .inner thread =>
      if sections.inside (monitor.places thread) then
        (sections.inner thread (monitor.places thread) monitor.data).map fun (place, data) =>
          monitor.goTo thread place data monitor.objects
            (if sections.inside place then monitor.owner else none)
      else none

/-- The same with every section in one step. -/
def atomicStep (sections : Sections π δ κ ε) (change : η → κ → κ) (monitor : Monitor π δ κ) :
    MonitorEvent ε η → Option (Monitor π δ κ)
  | .change what => some { monitor with objects := change what monitor.objects }
  | .outer thread choice =>
      if sections.inside (monitor.places thread) then none
      else
        (sections.outer thread (monitor.places thread) choice monitor.data monitor.objects).map
          fun (place, data, objects) =>
            let (place, data) := sections.complete thread place data
            monitor.goTo thread place data objects monitor.owner
  | .inner _ => none

variable {sections : Sections π δ κ ε} {change : η → κ → κ} {monitor next : Monitor π δ κ} {thread other : ℕ}
  {choice : ε} {place : π} {data : δ} {objects : κ} {owner : Option ℕ}

@[simp] theorem goTo_places_self :
    (monitor.goTo thread place data objects owner).places thread = place := Function.update_self ..

theorem goTo_places_of_ne (differ : other ≠ thread) :
    (monitor.goTo thread place data objects owner).places other = monitor.places other :=
  Function.update_of_ne differ ..

/-- The steps of two threads change different places. -/
theorem goTo_comm (differ : thread ≠ other) {place' : π} {data' : δ} {objects' : κ} {owner' : Option ℕ} :
    (monitor.goTo other place' data' objects' owner').goTo thread place data objects owner =
      (monitor.goTo thread place data' objects' owner').goTo other place' data objects owner := by
  rw [goTo, goTo, goTo, goTo, Function.update_comm differ.symm]

theorem goTo_goTo {place' : π} {data' : δ} {objects' : κ} {owner' : Option ℕ} :
    (monitor.goTo thread place' data' objects' owner').goTo thread place data objects owner =
      monitor.goTo thread place data objects owner := by
  rw [goTo, goTo, goTo, Function.update_idem]

theorem settle_of_free (free : monitor.owner = none) : monitor.settle sections = monitor := by
  rw [settle, free]

theorem settle_of_owner (holder : monitor.owner = some thread) :
    monitor.settle sections =
      monitor.goTo thread (sections.complete thread (monitor.places thread) monitor.data).1
        (sections.complete thread (monitor.places thread) monitor.data).2 monitor.objects none := by
  rw [settle, holder]

/-- The lock is held by the thread inside a section. -/
def Owned (sections : Sections π δ κ ε) (monitor : Monitor π δ κ) : Prop :=
  ∀ thread, sections.inside (monitor.places thread) = true ↔ monitor.owner = some thread

/-- A monitor that nobody has entered. -/
theorem owned_of_outside (free : monitor.owner = none)
    (outside : ∀ thread, sections.inside (monitor.places thread) = false) : Owned sections monitor := by
  intro thread
  rw [outside, free]
  exact iff_of_false Bool.false_ne_true (Option.some_ne_none thread).symm

/-- What a step does: the objects change, or a thread goes on outside, takes the lock, goes on inside, or
gives the lock back. -/
inductive Taken (sections : Sections π δ κ ε) (change : η → κ → κ) (monitor : Monitor π δ κ) :
    MonitorEvent ε η → Monitor π δ κ → Prop where
  | changes (what : η) :
      Taken sections change monitor (.change what) { monitor with objects := change what monitor.objects }
  | passes {thread : ℕ} {choice : ε} {place : π} {data : δ} {objects : κ}
      (outside : sections.inside (monitor.places thread) = false) (stays : sections.inside place = false)
      (taken : sections.outer thread (monitor.places thread) choice monitor.data monitor.objects =
        some (place, data, objects)) :
      Taken sections change monitor (.outer thread choice)
        (monitor.goTo thread place data objects monitor.owner)
  | locks {thread : ℕ} {choice : ε} {place : π} {data : δ} {objects : κ}
      (outside : sections.inside (monitor.places thread) = false) (enters : sections.inside place = true)
      (free : monitor.owner = none)
      (taken : sections.outer thread (monitor.places thread) choice monitor.data monitor.objects =
        some (place, data, objects)) :
      Taken sections change monitor (.outer thread choice)
        (monitor.goTo thread place data objects (some thread))
  | works {thread : ℕ} {place : π} {data : δ} (within : sections.inside (monitor.places thread) = true)
      (stays : sections.inside place = true)
      (taken : sections.inner thread (monitor.places thread) monitor.data = some (place, data)) :
      Taken sections change monitor (.inner thread)
        (monitor.goTo thread place data monitor.objects monitor.owner)
  | unlocks {thread : ℕ} {place : π} {data : δ} (within : sections.inside (monitor.places thread) = true)
      (leaves : sections.inside place = false)
      (taken : sections.inner thread (monitor.places thread) monitor.data = some (place, data)) :
      Taken sections change monitor (.inner thread) (monitor.goTo thread place data monitor.objects none)

theorem taken_of_step {event : MonitorEvent ε η} (stepped : step sections change monitor event = some next) :
    Taken sections change monitor event next := by
  cases event with
  | change what =>
    cases stepped
    exact .changes what
  | outer thread choice =>
    rw [step] at stepped
    by_cases within : sections.inside (monitor.places thread) = true
    · rw [if_pos within] at stepped
      cases stepped
    · rw [if_neg within] at stepped
      rw [Bool.not_eq_true] at within
      split at stepped
      · cases stepped
      · next place data objects taken =>
        split_ifs at stepped with enters free
        · cases stepped
          exact .locks within enters free taken
        · cases stepped
          exact .passes within (by simpa using enters) taken
  | inner thread =>
    rw [step] at stepped
    split_ifs at stepped with within
    obtain ⟨⟨place, data⟩, taken, rfl⟩ := Option.map_eq_some_iff.mp stepped
    dsimp only
    split_ifs with stays
    · exact .works within stays taken
    · exact .unlocks within (by simpa using stays) taken

/-- A thread that moves leaves the others where they are, inside or outside. -/
theorem Owned.goTo (owned : Owned sections monitor)
    (own : sections.inside place = true ↔ owner = some thread)
    (others : ∀ other ≠ thread, monitor.owner = some other ↔ owner = some other) :
    Owned sections (monitor.goTo thread place data objects owner) := by
  intro other
  by_cases same : other = thread
  · rw [same, goTo_places_self]
    exact own
  · rw [goTo_places_of_ne same]
    exact (owned other).trans (others other same)

/-- The lock excludes. -/
theorem Owned.step {event : MonitorEvent ε η} (owned : Owned sections monitor)
    (stepped : step sections change monitor event = some next) : Owned sections next := by
  cases taken_of_step stepped with
  | changes what => exact owned
  | @passes thread choice place data objects outside stays taken =>
    refine owned.goTo ?_ fun _ _ => Iff.rfl
    rw [← owned thread, stays, outside]
  | @locks thread choice place data objects outside enters free taken =>
    refine owned.goTo (iff_of_true enters rfl) fun other differ => ?_
    rw [free]
    exact iff_of_false (Option.some_ne_none other).symm fun same => differ (Option.some.inj same).symm
  | @works thread place data within stays taken =>
    refine owned.goTo ?_ fun _ _ => Iff.rfl
    rw [← owned thread, stays, within]
  | @unlocks thread place data within leaves taken =>
    refine owned.goTo (iff_of_false (by simp [leaves]) (Option.some_ne_none thread).symm) fun other differ => ?_
    rw [(owned thread).mp within]
    exact iff_of_false (fun same => differ (Option.some.inj same).symm) (Option.some_ne_none other).symm

/-- A whole section, or a statement outside. -/
theorem atomicStep_outer (outside : sections.inside (monitor.places thread) = false)
    (taken : sections.outer thread (monitor.places thread) choice monitor.data monitor.objects =
      some (place, data, objects)) :
    atomicStep sections change monitor (.outer thread choice) =
      some (monitor.goTo thread (sections.complete thread place data).1 (sections.complete thread place data).2
        objects monitor.owner) := by
  rw [atomicStep, if_neg (by simp [outside]), taken]
  rfl

/-- A statement inside a section changes nothing in the settled monitor; any other step is one of the machine
whose sections are one step. -/
theorem settle_step {event : MonitorEvent ε η} (owned : Owned sections monitor)
    (stepped : step sections change monitor event = some next) :
    next.settle sections = monitor.settle sections ∨
      atomicStep sections change (monitor.settle sections) event = some (next.settle sections) := by
  cases taken_of_step stepped with
  | changes what =>
    right
    obtain ⟨data, objects, places, owner⟩ := monitor
    cases owner <;> rfl
  | @passes thread choice place data objects outside stays taken =>
    right
    obtain ⟨rfl, independent⟩ := sections.outer_free _ _ _ _ _ _ _ _ taken stays
    rcases holder : monitor.owner with _ | keeper
    · rw [settle_of_free holder, settle_of_free rfl, atomicStep_outer outside taken,
        sections.complete_outside _ stays, holder]
    · have differ : thread ≠ keeper := by
        rintro rfl
        rw [(owned thread).mpr holder] at outside
        cases outside
      have there : (monitor.settle sections).places thread = monitor.places thread := by
        rw [settle_of_owner holder, goTo_places_of_ne differ]
      -- the statement does not look at the data, which the owner has still to change
      have again : sections.outer thread ((monitor.settle sections).places thread) choice
          (monitor.settle sections).data (monitor.settle sections).objects =
            some (place, (monitor.settle sections).data, objects) := by
        rw [there, settle_of_owner holder]
        exact independent _
      rw [atomicStep_outer (there ▸ outside) again, sections.complete_outside _ stays,
        settle_of_owner holder, settle_of_owner rfl, goTo_places_of_ne differ.symm, goTo_comm differ.symm]
      rfl
  | @locks thread choice place data objects outside enters free taken =>
    right
    rw [settle_of_free free, settle_of_owner rfl, goTo_places_self, goTo_goTo,
      atomicStep_outer outside taken, free]
    rfl
  | @works thread place data within stays taken =>
    left
    have holder := (owned thread).mp within
    have still : (monitor.goTo thread place data monitor.objects monitor.owner).owner = some thread := holder
    rw [settle_of_owner holder, settle_of_owner still, goTo_places_self, goTo_goTo,
      sections.complete_inner _ within taken]
    rfl
  | @unlocks thread place data within leaves taken =>
    left
    have holder := (owned thread).mp within
    rw [settle_of_owner holder, settle_of_free rfl, sections.complete_inner _ within taken,
      sections.complete_outside _ leaves]

/-- Every run of statements settles to what a run of whole sections leads to. -/
theorem exists_atomic_run {events : List (MonitorEvent ε η)} {final : Monitor π δ κ}
    (owned : Owned sections monitor) (ran : run (step sections change) monitor events = some final) :
    ∃ whole, run (atomicStep sections change) (monitor.settle sections) whole =
      some (final.settle sections) := by
  have simulates : ∀ (s r : Monitor π δ κ) (e : MonitorEvent ε η) (t : Monitor π δ κ),
      Owned sections s ∧ s.settle sections = r → step sections change s e = some t →
        ∃ labels u, run (atomicStep sections change) r labels = some u ∧
          Owned sections t ∧ t.settle sections = u := by
    rintro s r e t ⟨owned, rfl⟩ stepped
    refine (settle_step owned stepped).elim (fun same => ?_) fun taken => ?_
    · exact ⟨[], _, rfl, owned.step stepped, same⟩
    · exact ⟨[e], _, (run_cons_eq_some _).mpr ⟨_, taken, rfl⟩, owned.step stepped, rfl⟩
  obtain ⟨labels, last, reached, _, rfl⟩ := exists_run_of_simulation simulates ⟨owned, rfl⟩ ran
  exact ⟨labels, reached⟩

end Monitor

end WebServ.Machine
