import Mathlib.Data.List.Perm.Basic
import Mathlib.Data.List.Nodup

/-! # The sorted timer list

`sort_timer_lst` at the level of its members in list order. A timer is identified by the number of
the accepted connection it was created for, which stands for its address; `slot` is the index of
the `client_data` it points to. The main thread is the only one to use the list.
-/

namespace WebServ.Http

/-- `util_timer`. -/
structure Timer where
  owner : ℕ
  expire : ℕ
  slot : ℕ
deriving DecidableEq, Repr

namespace TimerList

/-- Insertion in front of the first timer that expires later: the place where both `add_timer`
functions put a timer. -/
def addTimer (timer : Timer) : List Timer → List Timer
  | [] => [timer]
  | first :: rest =>
      if timer.expire < first.expire then timer :: first :: rest else first :: addTimer timer rest

/-- The timer's `expire` is set and `adjust_timer` moves it towards the tail if it is out of order. -/
def adjustTimer (owner expire : ℕ) : List Timer → List Timer
  | [] => []
  | first :: rest =>
      if first.owner = owner then addTimer { first with expire } rest
      else first :: adjustTimer owner expire rest

/-- `del_timer`. -/
def delTimer (owner : ℕ) (timers : List Timer) : List Timer := timers.filter (·.owner ≠ owner)

/-- The timer is a member of the list, hence not freed. -/
def Live (owner : ℕ) (timers : List Timer) : Prop := owner ∈ timers.map Timer.owner

instance (owner : ℕ) (timers : List Timer) : Decidable (Live owner timers) :=
  inferInstanceAs (Decidable (_ ∈ _))

theorem addTimer_perm (timer : Timer) (timers : List Timer) :
    List.Perm (addTimer timer timers) (timer :: timers) := by
  induction timers with
  | nil => exact List.Perm.refl _
  | cons first rest ih =>
    rw [addTimer]
    split_ifs
    · exact List.Perm.refl _
    · exact (ih.cons first).trans (List.Perm.swap timer first rest)

/-- Adjusting changes the expiry of one timer. -/
theorem adjustTimer_perm (owner expire : ℕ) {timers : List Timer}
    (unique : (timers.map Timer.owner).Nodup) :
    List.Perm (adjustTimer owner expire timers)
      (timers.map fun timer => if timer.owner = owner then { timer with expire } else timer) := by
  induction timers with
  | nil => exact List.Perm.refl _
  | cons first rest ih =>
    obtain ⟨absent, unique⟩ := List.nodup_cons.mp unique
    rw [adjustTimer, List.map_cons]
    split_ifs with found
    · have others : (rest.map fun timer => if timer.owner = owner then { timer with expire } else timer) =
          rest := by
        refine (List.map_congr_left fun timer member => ?_).trans (List.map_id _)
        have other : timer.owner ≠ owner := by
          intro same
          exact absent (found ▸ same ▸ List.mem_map_of_mem member)
        rw [if_neg other, id_eq]
      rw [others]
      exact addTimer_perm _ _
    · exact (ih unique).cons first

end TimerList

end WebServ.Http
