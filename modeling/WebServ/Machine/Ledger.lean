import Mathlib.Data.List.Basic
import Mathlib.Logic.Function.Basic

/-! # Resources and their holders

Resources are handed out under numbers that are never used again, each with data that must be given back
with it. A ledger lists what is handed out; holders keep what they hold in a place of their own. The two
agree while a holder takes a resource only with empty hands and empties them when it gives one back. A
holder that forgets what it holds leaves the ledger with a resource that nobody can give back any more.
-/

namespace WebServ.Machine

variable {κ ρ : Type*}

/-- The resources handed out and not given back, and the next number. -/
structure Ledger (ρ : Type*) where
  live : List (ℕ × ρ)
  next : ℕ

namespace Ledger

/-- Nothing handed out yet. -/
def empty : Ledger ρ := ⟨[], 0⟩

/-- A resource is handed out. -/
def acquire (ledger : Ledger ρ) (data : ρ) : Ledger ρ where
  live := (ledger.next, data) :: ledger.live
  next := ledger.next + 1

/-- A resource is given back; none that is not handed out. -/
def release [DecidableEq ρ] (ledger : Ledger ρ) (entry : ℕ × ρ) : Option (Ledger ρ) :=
  if entry ∈ ledger.live then some { ledger with live := ledger.live.erase entry } else none

/-- What is handed out is what is held, each by one holder. -/
structure Balanced (ledger : Ledger ρ) (holds : κ → Option (ℕ × ρ)) : Prop where
  live_iff : ∀ entry, entry ∈ ledger.live ↔ ∃ holder, holds holder = some entry
  apart : ∀ first second entry, holds first = some entry → holds second = some entry → first = second
  fresh : ∀ entry ∈ ledger.live, entry.1 < ledger.next
  once : ledger.live.Nodup

theorem balanced_empty : (empty : Ledger ρ).Balanced fun _ : κ => none where
  live_iff _ := iff_of_false List.not_mem_nil fun ⟨_, held⟩ => nomatch held
  apart _ _ _ held := nomatch held
  fresh _ member := absurd member List.not_mem_nil
  once := List.nodup_nil

namespace Balanced

variable {ledger : Ledger ρ} {holds : κ → Option (ℕ × ρ)}

/-- The number of a held resource has been used. -/
theorem held_lt (balanced : ledger.Balanced holds) {holder : κ} {entry : ℕ × ρ}
    (held : holds holder = some entry) : entry.1 < ledger.next :=
  balanced.fresh entry ((balanced.live_iff entry).mpr ⟨holder, held⟩)

variable [DecidableEq κ]

/-- A holder with empty hands takes a new resource. -/
theorem acquire (balanced : ledger.Balanced holds) {holder : κ} (free : holds holder = none) (data : ρ) :
    (ledger.acquire data).Balanced (Function.update holds holder (some (ledger.next, data))) := by
  have new : ∀ other, holds other ≠ some (ledger.next, data) := by
    intro other held
    exact Nat.lt_irrefl _ (balanced.held_lt held)
  constructor
  · intro entry
    rw [Ledger.acquire, List.mem_cons, balanced.live_iff]
    constructor
    · rintro (rfl | ⟨other, held⟩)
      · exact ⟨holder, Function.update_self ..⟩
      · refine ⟨other, ?_⟩
        rw [Function.update_of_ne]
        · exact held
        · rintro rfl
          cases free.symm.trans held
    · rintro ⟨other, held⟩
      by_cases same : other = holder
      · rw [same, Function.update_self] at held
        exact .inl (Option.some.inj held).symm
      · rw [Function.update_of_ne same] at held
        exact .inr ⟨other, held⟩
  · intro first second entry left right
    by_cases isFirst : first = holder
    · by_cases isSecond : second = holder
      · exact isFirst.trans isSecond.symm
      · rw [isFirst, Function.update_self] at left
        rw [Function.update_of_ne isSecond, ← left] at right
        exact absurd right (new second)
    · rw [Function.update_of_ne isFirst] at left
      by_cases isSecond : second = holder
      · rw [isSecond, Function.update_self] at right
        rw [← right] at left
        exact absurd left (new first)
      · rw [Function.update_of_ne isSecond] at right
        exact balanced.apart first second entry left right
  · rintro entry member
    rcases List.mem_cons.mp member with rfl | before
    · exact Nat.lt_succ_self _
    · exact Nat.lt_succ_of_lt (balanced.fresh entry before)
  · refine List.nodup_cons.mpr ⟨fun member => ?_, balanced.once⟩
    exact Nat.lt_irrefl _ (balanced.fresh _ member)

/-- A holder gives back what it holds. -/
theorem release [DecidableEq ρ] (balanced : ledger.Balanced holds) {holder : κ} {entry : ℕ × ρ}
    (held : holds holder = some entry) :
    ∃ after, ledger.release entry = some after ∧ after.Balanced (Function.update holds holder none) := by
  refine ⟨_, if_pos ((balanced.live_iff entry).mpr ⟨holder, held⟩), ?_⟩
  constructor
  · intro other
    rw [balanced.once.mem_erase_iff, balanced.live_iff]
    constructor
    · rintro ⟨differ, keeper, keeps⟩
      refine ⟨keeper, ?_⟩
      rw [Function.update_of_ne]
      · exact keeps
      · rintro rfl
        exact differ (Option.some.inj (keeps.symm.trans held))
    · rintro ⟨keeper, keeps⟩
      by_cases same : keeper = holder
      · rw [same, Function.update_self] at keeps
        cases keeps
      · rw [Function.update_of_ne same] at keeps
        refine ⟨?_, keeper, keeps⟩
        rintro rfl
        exact same (balanced.apart keeper holder other keeps held)
  · intro first second other left right
    by_cases isFirst : first = holder
    · rw [isFirst, Function.update_self] at left
      cases left
    · by_cases isSecond : second = holder
      · rw [isSecond, Function.update_self] at right
        cases right
      · rw [Function.update_of_ne isFirst] at left
        rw [Function.update_of_ne isSecond] at right
        exact balanced.apart first second other left right
  · exact fun other member => balanced.fresh other (List.mem_of_mem_erase member)
  · exact balanced.once.erase entry

end Balanced

end Ledger

end WebServ.Machine
