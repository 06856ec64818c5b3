import Mathlib.Data.List.Basic
import Mathlib.Data.Nat.Basic

/-! # Lexical resolution of paths

An absolute path is walked segment by segment: an empty segment and `.` stay, `..` leaves the last
directory, any other segment enters one. A walk has a normal form that does not mention where it
starts: it climbs a number of directories and then enters a list of names. From there, whether a walk
from a directory ends below that directory is a question about the normal form: the names must enter
again what the climb has left.
-/

namespace WebServ.Text

/-- One segment of a path. -/
inductive Segment (ν : Type*) where
  | here
  | parent
  | entry (name : ν)
deriving DecidableEq, Repr

section Walks

variable {ν : Type*}

/-- Follow one segment from a directory. -/
def Segment.enter (dirs : List ν) : Segment ν → List ν
  | .here => dirs
  | .parent => dirs.dropLast
  | .entry name => dirs ++ [name]

/-- Follow a list of segments. -/
def resolve (dirs : List ν) (segments : List (Segment ν)) : List ν := segments.foldl Segment.enter dirs

/-- The normal form of a walk. -/
structure Climb (ν : Type*) where
  up : ℕ
  names : List ν
deriving DecidableEq, Repr

/-- One more segment at the end of a walk. -/
def Climb.enter (climb : Climb ν) : Segment ν → Climb ν
  | .here => climb
  | .parent =>
      match climb.names with
      | [] => { climb with up := climb.up + 1 }
      | _ :: _ => { climb with names := climb.names.dropLast }
  | .entry name => { climb with names := climb.names ++ [name] }

/-- The normal form of a list of segments. -/
def climb (segments : List (Segment ν)) : Climb ν := segments.foldl Climb.enter ⟨0, []⟩

/-- Where a walk in normal form leads to. -/
def Climb.from (climb : Climb ν) (dirs : List ν) : List ν :=
  dirs.take (dirs.length - climb.up) ++ climb.names

theorem resolve_append (dirs : List ν) (first second : List (Segment ν)) :
    resolve dirs (first ++ second) = resolve (resolve dirs first) second := List.foldl_append

/-- The two ways to follow a segment agree. -/
theorem Climb.enter_from (climb : Climb ν) (dirs : List ν) (segment : Segment ν) :
    (climb.enter segment).from dirs = segment.enter (climb.from dirs) := by
  cases segment with
  | here => rfl
  | entry name => simp only [Climb.enter, Climb.from, Segment.enter, List.append_assoc]
  | parent =>
    obtain ⟨up, names⟩ := climb
    cases names with
    | nil =>
      simp only [Climb.enter, Climb.from, Segment.enter, List.append_nil, List.dropLast_eq_take,
        List.length_take, List.take_take]
      congr 1
      omega
    | cons first rest =>
      simp only [Climb.enter, Climb.from, Segment.enter]
      exact (List.dropLast_append_of_ne_nil (List.cons_ne_nil first rest)).symm

/-- A walk leads where its normal form leads. -/
theorem resolve_eq_climb (dirs : List ν) (segments : List (Segment ν)) :
    resolve dirs segments = (climb segments).from dirs := by
  suffices ∀ start : Climb ν, resolve (start.from dirs) segments =
      (segments.foldl Climb.enter start).from dirs by
    have walked := this ⟨0, []⟩
    simpa only [climb, Climb.from, Nat.sub_zero, List.take_length, List.append_nil] using walked
  induction segments with
  | nil => exact fun _ => rfl
  | cons segment rest ih =>
    intro start
    rw [List.foldl_cons, ← ih, Climb.enter_from]
    rfl

/-- A walk ends below its start if its names enter again the directories its climb has left. -/
theorem prefix_resolve_iff (dirs : List ν) (segments : List (Segment ν)) :
    dirs <+: resolve dirs segments ↔
      dirs.drop (dirs.length - (climb segments).up) <+: (climb segments).names := by
  rw [resolve_eq_climb, Climb.from]
  generalize dirs.length - (climb segments).up = kept
  nth_rewrite 1 [← List.take_append_drop kept dirs]
  exact List.prefix_append_right_inj _

end Walks

section Strings

variable {α : Type*} [DecidableEq α] (slash dot : α)

/-- The segment a string between two slashes stands for. -/
def classify (segment : List α) : Segment (List α) :=
  if segment = [] ∨ segment = [dot] then .here
  else if segment = [dot, dot] then .parent
  else .entry segment

/-- The segments of a path. -/
def segments (path : List α) : List (Segment (List α)) := (path.splitOn slash).map (classify dot)

theorem segments_append (first second : List α) :
    segments slash dot (first ++ slash :: second) =
      segments slash dot first ++ segments slash dot second := by
  rw [segments, List.splitOn_append_cons_self, List.map_append]
  rfl

/-- The directory or file an absolute path names. -/
def lexical (path : List α) : List (List α) := resolve [] (segments slash dot path)

/-- A path below a root is walked from the root. -/
theorem lexical_append (root path : List α) :
    lexical slash dot (root ++ slash :: path) =
      resolve (lexical slash dot root) (segments slash dot path) := by
  rw [lexical, segments_append, resolve_append, lexical]

end Strings

end WebServ.Text
