import WebServ.Proofs.BlockQueue
import WebServ.Machine.Path

/-! # When the timed `pop` gives up

The timed `pop` takes the seconds of the call time and drops its microseconds, and counts the milliseconds of
the timeout as microseconds; and unlike the other `pop` it does not look again after a wake-up. So a call that
finds the queue empty waits long enough only if it is made on a full second for whole seconds, and if nothing
but an element wakes it before its time.
-/

namespace WebServ.Logging

open WebServ.Machine

variable {α : Type*}

/-- A deadline for a call at this time with this timeout: not too early, and a valid `timespec`. -/
structure Timespec.OnTime (t : Timespec) (now : ℕ) (msTimeout : ℤ) : Prop where
  notEarly : (now : ℤ) * 1000 + msTimeout * 1000000 ≤ t.tvSec * 1000000000 + t.tvNsec
  tvNsec : 0 ≤ t.tvNsec ∧ t.tvNsec < 1000000000

/-- `tv_nsec` is in range for every timeout that is not negative. -/
theorem deadline_tvNsec (now : ℕ) {msTimeout : ℤ} (nonneg : 0 ≤ msTimeout) :
    0 ≤ (deadline now msTimeout).tvNsec ∧ (deadline now msTimeout).tvNsec < 1000000000 := by
  rw [deadline, Int.tmod_eq_emod_of_nonneg nonneg]
  dsimp only
  omega

/-- What the call time has beside full seconds is lost, and so are the milliseconds but for a thousandth. -/
theorem deadline_onTime_iff (now : ℕ) {msTimeout : ℤ} (nonneg : 0 ≤ msTimeout) :
    (deadline now msTimeout).OnTime now msTimeout ↔ now % 1000000 = 0 ∧ msTimeout % 1000 = 0 := by
  have value : (deadline now msTimeout).tvSec * 1000000000 + (deadline now msTimeout).tvNsec =
      ((now / 1000000 : ℕ) + msTimeout / 1000) * 1000000000 + msTimeout % 1000 * 1000 := by
    rw [deadline, Int.tmod_eq_emod_of_nonneg nonneg, Int.tdiv_eq_ediv_of_nonneg nonneg]
    rfl
  constructor
  · intro onTime
    have notEarly := onTime.notEarly
    rw [value] at notEarly
    omega
  · intro whole
    refine ⟨?_, deadline_tvNsec now nonneg⟩
    rw [value]
    omega

/-- When the time of such a deadline has come, the timeout is over. -/
theorem Timespec.OnTime.passed {t : Timespec} {now clock : ℕ} {msTimeout : ℤ}
    (onTime : t.OnTime now msTimeout) (passed : t.Passed clock) : (now : ℤ) + msTimeout * 1000 ≤ clock := by
  have notEarly := onTime.notEarly
  rw [Timespec.Passed] at passed
  omega

/-- A timed `pop` that has still to take the lock was called on a full second for whole seconds. -/
def Popping.StartsWhole : Popping → Prop
  | .called now msTimeout => 0 ≤ msTimeout → now % 1000000 = 0 ∧ msTimeout % 1000 = 0
  | _ => True

instance : DecidablePred Popping.StartsWhole
  | .called _ _ => inferInstanceAs (Decidable (_ → _))
  | .waiting | .timewaiting _ _ _ => isTrue trivial

/-- The timeout of a timed wait is over. -/
def Popping.Over (clock : ℕ) : Popping → Prop
  | .timewaiting now msTimeout _ => 0 ≤ msTimeout → (now : ℤ) + msTimeout * 1000 ≤ clock
  | _ => True

instance (clock : ℕ) : DecidablePred (Popping.Over clock)
  | .timewaiting _ _ _ => inferInstanceAs (Decidable (_ → _))
  | .waiting | .called _ _ => isTrue trivial

namespace Shared

/-- What a step does to the waits: a timed one begins, a `pop` returns false, or neither. -/
inductive WaitStep (shared : Shared α) (event : QueueEvent α) : Shared α → Prop where
  | neither {next : Shared α}
      (kept : ∀ thread now msTimeout t, next.popping thread = some (.timewaiting now msTimeout t) →
        shared.popping thread = some (.timewaiting now msTimeout t))
      (quiet : ∀ thread, next.returned ≠ shared.returned ++ [.pop thread none]) : WaitStep shared event next
  | waits {thread now : ℕ} {msTimeout : ℤ} (isLock : event = .timedLock thread)
      (called : shared.popping thread = some (.called now msTimeout)) (empty : shared.queue.mSize ≤ 0) :
      WaitStep shared event
        (shared.setPopping thread (some (.timewaiting now msTimeout (deadline now msTimeout))))
  | givesUp {thread : ℕ} (cause : Cause shared thread event) : WaitStep shared event (shared.giveUp thread)

/-- The other threads stand where they stood. -/
theorem timewaiting_of_setPopping (shared : Shared α) {thread other now : ℕ} {msTimeout : ℤ} {t : Timespec}
    {place : Option Popping} (untimed : place ≠ some (.timewaiting now msTimeout t))
    (waits : (shared.setPopping thread place).popping other = some (.timewaiting now msTimeout t)) :
    shared.popping other = some (.timewaiting now msTimeout t) := by
  simp only [setPopping, Function.update_apply] at waits
  split_ifs at waits
  · exact absurd waits untimed
  · exact waits

theorem returned_ne_self (returned : List (Return α)) (result : Return α) :
    returned ≠ returned ++ [result] := by
  intro same
  exact List.cons_ne_nil _ _ (List.self_eq_append_right.mp same)

theorem returned_ne {returned : List (Return α)} {result : Return α} {thread : ℕ}
    (other : result ≠ .pop thread none) : returned ++ [result] ≠ returned ++ [.pop thread none] := by
  intro same
  exact other (List.singleton_inj.mp (List.append_cancel_left same))

variable {shared next : Shared α} {event : QueueEvent α}

/-- No call returns and no timed wait begins. -/
theorem WaitStep.moves (thread : ℕ) {place : Option Popping}
    (untimed : ∀ now msTimeout t, place ≠ some (.timewaiting now msTimeout t)) :
    WaitStep shared event (shared.setPopping thread place) :=
  .neither (fun _ _ _ _ waits => timewaiting_of_setPopping _ (untimed _ _ _) waits)
    fun _ => returned_ne_self _ _

/-- A call that is no `pop` returns. -/
theorem WaitStep.returns (queue : BlockQueue α) {result : Return α}
    (other : ∀ thread, result ≠ .pop thread none) :
    WaitStep shared event ({ shared with queue }.returns result) :=
  .neither (fun _ _ _ _ waits => waits) fun thread => returned_ne (other thread)

theorem WaitStep.undefined : WaitStep shared event { shared with undefined := true } :=
  .neither (fun _ _ _ _ waits => waits) fun _ => returned_ne_self _ _

theorem WaitStep.takeItem (thread : ℕ) : WaitStep shared event (shared.takeItem thread) := by
  rw [Shared.takeItem]
  cases shared.queue.take with
  | none => exact .undefined
  | some taken =>
    refine .neither (fun other now msTimeout t waits => ?_) fun other => returned_ne ?_
    · exact timewaiting_of_setPopping { shared with queue := taken.2 } (by simp) waits
    · simp

theorem waitStep_of_step (stepped : shared.step event = some next) : WaitStep shared event next := by
  cases taken_of_step stepped with
  | advance usec => exact .neither (fun _ _ _ _ waits => waits) fun _ => returned_ne_self _ _
  | push item =>
    rw [returnPush]
    cases shared.queue.push item with
    | none => exact .undefined
    | some pushed => exact .returns _ (by simp)
  | waits _ => exact .moves _ (by simp)
  | calls => exact .moves _ (by simp)
  | timewaits called empty => exact .waits rfl called empty
  | waitsOn _ _ => exact .neither (fun _ _ _ _ waits => waits) fun _ => returned_ne_self _ _
  | takes thread _ _ => exact .takeItem thread
  | givesUp cause => exact .givesUp cause
  | clear => exact .returns _ (by simp)
  | size => exact .returns shared.queue (by simp)
  | full => exact .returns shared.queue (by simp)
  | empty => exact .returns shared.queue (by simp)
  | back =>
    rw [returnBack]
    cases shared.queue.back with
    | none => exact .undefined
    | some item => exact .returns shared.queue (by simp)

/-! ## Every run -/

/-- After a step every timed wait is on time, and if the step makes a timed `pop` return false, other than by
a failed wait, its timeout is over. -/
structure InTime (before : Shared α) (event : QueueEvent α) (after : Shared α) : Prop where
  deadlines : ∀ thread now msTimeout t, after.popping thread = some (.timewaiting now msTimeout t) →
    0 ≤ msTimeout → t.OnTime now msTimeout
  returns : ∀ thread now msTimeout t, before.popping thread = some (.timewaiting now msTimeout t) →
    0 ≤ msTimeout → event ≠ .waitFails thread → after.returned = before.returned ++ [.pop thread none] →
    (now : ℤ) + msTimeout * 1000 ≤ before.clock

/-- A wait for whole seconds begins for a call made on a full second, and a wake-up finds an element or comes
when the timeout is over. -/
def WaitsInTime (shared : Shared α) : QueueEvent α → Prop
  | .timedLock thread => shared.queue.mSize ≤ 0 → ∀ place ∈ shared.popping thread, place.StartsWhole
  | .wake thread => shared.queue.mSize ≤ 0 → ∀ place ∈ shared.popping thread, place.Over shared.clock
  | _ => True

instance (shared : Shared α) : DecidablePred shared.WaitsInTime
  | .timedLock _ | .wake _ => inferInstanceAs (Decidable (_ → _))
  | .advance _ | .push _ | .pop _ | .timedPop _ _ | .timeout _ | .waitFails _ | .clear | .size | .full
  | .empty | .back => isTrue trivial

/-- All timed waits are on time. -/
def OnTime (shared : Shared α) : Prop :=
  ∀ thread now msTimeout t, shared.popping thread = some (.timewaiting now msTimeout t) →
    0 ≤ msTimeout → t.OnTime now msTimeout

/-- A step that meets the condition is in time. -/
theorem inTime_of_waitsInTime (onTime : shared.OnTime) (condition : shared.WaitsInTime event)
    (stepped : shared.step event = some next) : InTime shared event next := by
  cases waitStep_of_step stepped with
  | neither kept quiet =>
    refine ⟨fun thread now msTimeout t waits => ?_, fun thread _ _ _ _ _ _ returned => ?_⟩
    · exact onTime thread now msTimeout t (kept _ _ _ _ waits)
    · exact absurd returned (quiet thread)
  | @waits thread now msTimeout isLock called empty =>
    subst isLock
    refine ⟨fun other now' msTimeout' t waits nonneg => ?_, fun _ _ _ _ _ _ _ returned => ?_⟩
    · simp only [setPopping, Function.update_apply] at waits
      split_ifs at waits
      · cases waits
        exact (deadline_onTime_iff now nonneg).mpr (condition empty _ called nonneg)
      · exact onTime other now' msTimeout' t waits nonneg
    · exact absurd returned (returned_ne_self _ _)
  | @givesUp thread cause =>
    refine ⟨fun other now msTimeout t waits => ?_, fun other now msTimeout t waits nonneg fails returned => ?_⟩
    · exact onTime other now msTimeout t (timewaiting_of_setPopping shared (by simp) waits)
    · have same := List.singleton_inj.mp (List.append_cancel_left returned)
      cases same
      cases cause with
      | emptied _ empty => exact condition empty _ waits nonneg
      | timeIsUp other passed =>
        obtain ⟨rfl, rfl, rfl⟩ : _ ∧ _ ∧ _ := by simpa using other.symm.trans waits
        exact (onTime thread _ _ _ waits nonneg).passed passed
      | waitFails => exact absurd rfl fails

/-- A step that is in time has met the condition. -/
theorem waitsInTime_of_inTime (inTime : InTime shared event next)
    (stepped : shared.step event = some next) : shared.WaitsInTime event := by
  cases event with
  | timedLock thread =>
    intro empty place called
    cases place with
    | called now msTimeout =>
      intro nonneg
      simp only [Shared.step, Option.mem_def.mp called, if_pos empty] at stepped
      cases stepped
      have waits := inTime.deadlines thread now msTimeout _ (Function.update_self ..) nonneg
      exact (deadline_onTime_iff now nonneg).mp waits
    | waiting => trivial
    | timewaiting now msTimeout t => trivial
  | wake thread =>
    intro empty place waits
    cases place with
    | timewaiting now msTimeout t =>
      intro nonneg
      simp only [Shared.step, Option.mem_def.mp waits, if_pos empty] at stepped
      cases stepped
      exact inTime.returns thread now msTimeout t waits nonneg (by simp) rfl
    | waiting => trivial
    | called now msTimeout => trivial
  | _ => trivial

/-- In every run: every timed `pop` waits for a deadline that is not early, with `tv_nsec` in range, and returns
false, other than by a failed wait, only after its timeout, exactly if every wait begins on a full second for
whole seconds and no wake-up finds the queue empty before the timeout is over. -/
theorem inTime_iff_waitsInTime [Inhabited α] (capacity : Capacity) (clock : ℕ) (events : List (QueueEvent α))
    (final : Shared α) (ran : run step (initial capacity clock) events = some final) :
    (∀ first event rest before after, events = first ++ event :: rest →
      run step (initial capacity clock) first = some before → before.step event = some after →
        InTime before event after) ↔
      Guarded step WaitsInTime (initial capacity clock) events := by
  constructor
  · intro always
    rw [guarded_iff_forall ran]
    intro first event rest before split left
    subst split
    obtain ⟨middle, after, same, stepped, _⟩ := (run_append_cons_eq_some step).mp ran
    obtain rfl := Option.some.inj (left.symm.trans same)
    exact waitsInTime_of_inTime (always first event rest before after rfl left stepped) stepped
  · intro guarded first event rest before after split left stepped
    have start : (initial capacity clock : Shared α).OnTime := by
      intro thread now msTimeout t waits
      cases waits
    have kept : ∀ (s : Shared α) (e : QueueEvent α) (t : Shared α),
        s.OnTime → s.WaitsInTime e → s.step e = some t → t.OnTime := by
      intro s e t onTime condition stepped
      exact (inTime_of_waitsInTime onTime condition stepped).deadlines
    have inTime : Guarded step (fun s e => ∀ t, s.step e = some t → InTime s e t)
        (initial capacity clock) events :=
      Guarded.of_invariant kept
        (fun s e _ onTime condition _ t stepped => inTime_of_waitsInTime onTime condition stepped)
        start guarded ran
    exact (guarded_iff_forall ran).mp inTime first event rest before split left after stepped

/-- Two consumers on full seconds: an element that comes when the first has timed out goes to the second. -/
theorem inTime_iff_waitsInTime_fullSeconds : ∃ final : Shared ℕ,
    run step (initial ⟨1, by decide, by decide⟩ 3000000) [.timedPop 1 2000, .timedLock 1, .timedPop 2 3000,
      .timedLock 2, .advance 2000000, .timeout 1, .push 10, .wake 2] = some final ∧
    ∀ first event rest before after, [.timedPop 1 2000, .timedLock 1, .timedPop 2 3000, .timedLock 2,
      .advance 2000000, .timeout 1, .push 10, .wake 2] = first ++ event :: rest →
      run step (initial ⟨1, by decide, by decide⟩ 3000000) first = some before →
        before.step event = some after → InTime before event after :=
  let ran := Option.some_get (by decide +kernel)
  ⟨_, ran.symm, (inTime_iff_waitsInTime ⟨1, by decide, by decide⟩ 3000000 _ _ ran.symm).mpr
    (by decide +kernel)⟩

/-- A `pop` of 300 ms called at half past a second returns false at once, and so does one of a whole second
whose element another consumer takes. -/
theorem returns_early :
    (∃ before after : Shared ℕ,
      run step (initial ⟨1, by decide, by decide⟩ 500000) [.timedPop 1 300, .timedLock 1] = some before ∧
      before.step (.timeout 1) = some after ∧ after.clock = 500000 ∧ ¬ InTime before (.timeout 1) after) ∧
    ∃ before after : Shared ℕ,
      run step (initial ⟨1, by decide, by decide⟩ 0) [.timedPop 1 1000, .timedLock 1, .push 10, .pop 2] =
        some before ∧
      before.step (.wake 1) = some after ∧ after.clock = 0 ∧ ¬ InTime before (.wake 1) after := by
  have first := Option.some_get (show (run step (initial ⟨1, by decide, by decide⟩ 500000 : Shared ℕ)
    [.timedPop 1 300, .timedLock 1]).isSome from by decide +kernel)
  have second := Option.some_get (show (run step (initial ⟨1, by decide, by decide⟩ 0 : Shared ℕ)
    [.timedPop 1 1000, .timedLock 1, .push 10, .pop 2]).isSome from by decide +kernel)
  refine ⟨⟨_, _, first.symm, (Option.some_get (by decide +kernel)).symm, by decide +kernel, fun inTime => ?_⟩,
    _, _, second.symm, (Option.some_get (by decide +kernel)).symm, by decide +kernel, fun inTime => ?_⟩
  · have late := inTime.returns 1 500000 300 ⟨0, 300000⟩ (by decide +kernel) (by decide) (by simp)
      (by decide +kernel)
    exact absurd late (by decide +kernel)
  · have late := inTime.returns 1 0 1000 ⟨1, 0⟩ (by decide +kernel) (by decide) (by simp) (by decide +kernel)
    exact absurd late (by decide +kernel)

end Shared

end WebServ.Logging
