import WebServ.Proofs.SortTimerLst
import WebServ.Model.TimerList
import WebServ.Machine.Path
import WebServ.Machine.KeyedList

/-! # The timer list is sorted

`Ledger` says what the uses of the list mean without any list: which timers have been added and neither
deleted nor expired, and when each was added or adjusted last. After every sequence of uses the pointers
link exactly the timers of the ledger, ordered by `expire` and, where that is equal, by the last touch.
-/

namespace WebServ.Http

open WebServ.Machine DoublyLinked

namespace SortTimerLst

variable {τ : Type}

/-- The timers in use, in any order, and the number of uses so far. -/
structure Ledger (τ : Type) where
  members : List (Entry τ)
  uses : ℕ
deriving DecidableEq, Repr

variable [LinearOrder τ]

/-- What a use does to the timers in use; refused is adding a timer at an address in use, putting off one
that is not in use or to an earlier time, and deleting one that is not in use. -/
def Ledger.use (ledger : Ledger τ) : Use τ → Option (Ledger τ)
  | .add timer expire userData =>
      if timer ∈ timers ledger.members then none
      else some ⟨⟨timer, expire, userData, ledger.uses⟩ :: ledger.members, ledger.uses + 1⟩
  | .adjust timer expire =>
      match ledger.members.find? fun entry => entry.timer = timer with
      | some entry =>
          if entry.expire ≤ expire then
            some ⟨⟨timer, expire, entry.userData, ledger.uses⟩ ::
              ledger.members.filter (·.timer ≠ timer), ledger.uses + 1⟩
          else none
      | none => none
  | .del timer =>
      if timer ∈ timers ledger.members then
        some ⟨ledger.members.filter (·.timer ≠ timer), ledger.uses + 1⟩
      else none
  | .tick cur => some ⟨ledger.members.filter (cur < ·.expire), ledger.uses + 1⟩

/-- Earlier by `expire`, or by the last touch where that is equal. -/
def Entry.Before (first second : Entry τ) : Prop :=
  first.expire < second.expire ∨ first.expire = second.expire ∧ first.touched < second.touched

/-- The members in list order agree with the ledger. -/
structure Sorted (ledger : Ledger τ) (list : SortTimerLst τ) (entries : List (Entry τ)) : Prop where
  represents : Represents list entries
  members : entries.Perm ledger.members
  sorted : entries.Pairwise Entry.Before
  touched : ∀ entry ∈ entries, entry.touched < ledger.uses

theorem sorted_initial : Sorted ⟨[], 0⟩ (initial : SortTimerLst τ) [] where
  represents := represents_initial
  members := List.Perm.refl _
  sorted := List.Pairwise.nil
  touched _ member := nomatch member

variable {ledger next : Ledger τ} {list : SortTimerLst τ} {entries front back : List (Entry τ)}
  {entry : Entry τ}

/-! ## The order -/

/-- The entry touched last goes behind all that expire no later. -/
theorem orderedInsert_sorted (sorted : entries.Pairwise Entry.Before)
    (latest : ∀ other ∈ entries, other.touched < entry.touched) :
    (List.orderedInsert (fun x y => x.expire < y.expire) entry entries).Pairwise Entry.Before := by
  induction entries with
  | nil => exact List.pairwise_singleton _ entry
  | cons first rest ih =>
    obtain ⟨least, sorted⟩ := List.pairwise_cons.mp sorted
    obtain ⟨older, latest⟩ := List.forall_mem_cons.mp latest
    rw [List.orderedInsert_cons]
    split_ifs with earlier
    · refine List.pairwise_cons.mpr ⟨List.forall_mem_cons.mpr ⟨Or.inl earlier, ?_⟩,
        List.pairwise_cons.mpr ⟨least, sorted⟩⟩
      intro other member
      rcases least other member with less | ⟨same, _⟩
      · exact Or.inl (earlier.trans less)
      · exact Or.inl (same ▸ earlier)
    · refine List.pairwise_cons.mpr ⟨fun other member => ?_, ih sorted latest⟩
      rcases List.mem_cons.mp ((List.perm_orderedInsert _ _ _).mem_iff.mp member) with rfl | old
      · rcases (not_lt.mp earlier).lt_or_eq with less | same
        · exact Or.inl less
        · exact Or.inr ⟨same, older⟩
      · exact least other old

/-- In a sorted list the members that have expired are those at the front. -/
theorem span_eq_filter (sorted : entries.Pairwise Entry.Before) (cur : τ) :
    (entries.takeWhile fun entry => entry.expire ≤ cur) = entries.filter (·.expire ≤ cur) ∧
      (entries.dropWhile fun entry => entry.expire ≤ cur) = entries.filter (cur < ·.expire) := by
  induction entries with
  | nil => exact ⟨rfl, rfl⟩
  | cons first rest ih =>
    obtain ⟨least, sorted⟩ := List.pairwise_cons.mp sorted
    rw [List.takeWhile_cons, List.dropWhile_cons, List.filter_cons, List.filter_cons]
    by_cases due : first.expire ≤ cur
    · obtain ⟨taken, dropped⟩ := ih sorted
      simp [due, not_lt.mpr due, taken, dropped]
    · have pending : ∀ other ∈ rest, cur < other.expire := by
        intro other member
        have later : first.expire ≤ other.expire := by
          rcases least other member with less | ⟨same, _⟩
          · exact less.le
          · exact same.le
        exact (not_le.mp due).trans_le later
      have nothing : rest.filter (·.expire ≤ cur) = [] :=
        List.filter_eq_nil_iff.mpr fun other member => by simp [pending other member]
      have everything : rest.filter (cur < ·.expire) = rest :=
        List.filter_eq_self.mpr fun other member => decide_eq_true (pending other member)
      simp [due, not_le.mp due, nothing, everything]

/-! ## Runs -/

namespace Sorted

/-- The other members, in list order and in the ledger. -/
theorem others (sorted : Sorted ledger list (front ++ entry :: back)) :
    (front ++ back).Perm (ledger.members.filter (·.timer ≠ entry.timer)) := by
  have split : (front ++ entry :: back).Perm
      (entry :: (front ++ entry :: back).filter (·.timer ≠ entry.timer)) :=
    perm_cons_filter_key sorted.represents.nodup (List.mem_append_right front (List.mem_cons_self ..))
  refine List.Perm.trans ?_ (sorted.members.filter _)
  exact (List.perm_middle.symm.trans split).cons_inv

/-- Every use the ledger admits is defined and keeps the agreement. -/
theorem use {event : Use τ} (sorted : Sorted ledger list entries)
    (admitted : ledger.use event = some next) :
    ∃ after entries, list.use event = some after ∧ Sorted next after entries := by
  have represents := sorted.represents
  cases event with
  | add timer expire userData =>
    simp only [Ledger.use] at admitted
    split_ifs at admitted with taken
    cases admitted
    have fresh : timer ∉ timers entries := fun member =>
      taken ((sorted.members.map Entry.timer).mem_iff.mp member)
    set new : Entry τ := ⟨timer, expire, userData, ledger.uses⟩ with isNew
    have detached : Detached (list.allocate new.timer new.expire new.userData) new entries :=
      represents.allocate fresh
    obtain ⟨after, added, result⟩ := detached.addTimer (load_store_self ..) ⟨rfl, rfl⟩
    refine ⟨after, _, added, result, ?_, ?_, ?_⟩
    · exact (List.perm_orderedInsert _ _ _).trans (sorted.members.cons _)
    · exact orderedInsert_sorted sorted.sorted sorted.touched
    · intro other member
      rcases List.mem_cons.mp ((List.perm_orderedInsert _ _ _).mem_iff.mp member) with rfl | old
      · exact Nat.lt_succ_self _
      · exact Nat.lt_succ_of_lt (sorted.touched other old)
  | adjust timer expire =>
    simp only [Ledger.use] at admitted
    split at admitted
    · next old found =>
      split_ifs at admitted with raised
      cases admitted
      have isTimer : old.timer = timer := by simpa using List.find?_some found
      subst isTimer
      have member : old ∈ entries := sorted.members.mem_iff.mpr (List.mem_of_find?_eq_some found)
      obtain ⟨front, back, rfl⟩ := List.append_of_mem member
      obtain ⟨middle, set, changed⟩ := represents.setExpire expire ledger.uses
      obtain ⟨after, adjusted, result⟩ := changed.adjustTimer
      have pairwise := List.pairwise_append.mp sorted.sorted
      have older : ∀ other ∈ front ++ back, other.touched < ledger.uses := fun other inside =>
        sorted.touched other (List.perm_middle.mem_iff.mpr (List.mem_cons_of_mem _ inside))
      refine ⟨after, _, ?_, result, ?_, ?_, ?_⟩
      · simp only [SortTimerLst.use, Option.bind_eq_bind, set, Option.bind_some]
        exact adjusted
      · exact ((List.perm_orderedInsert _ _ _).append_left front).trans
          (List.perm_middle.trans (sorted.others.cons _))
      · refine List.pairwise_append.mpr ⟨pairwise.1, ?_, ?_⟩
        · apply orderedInsert_sorted (List.pairwise_cons.mp pairwise.2.1).2
          exact fun other inside => older other (List.mem_append_right _ inside)
        · intro first inFront second inBack
          rcases List.mem_cons.mp ((List.perm_orderedInsert _ _ _).mem_iff.mp inBack) with rfl | inside
          · have before : first.expire ≤ old.expire := by
              rcases pairwise.2.2 first inFront old (List.mem_cons_self ..) with less | ⟨same, _⟩
              · exact less.le
              · exact same.le
            rcases (before.trans raised).lt_or_eq with less | same
            · exact Or.inl less
            · exact Or.inr ⟨same, older first (List.mem_append_left _ inFront)⟩
          · exact pairwise.2.2 first inFront second (List.mem_cons_of_mem _ inside)
      · intro other inside
        rcases List.mem_append.mp inside with inFront | inBack
        · exact Nat.lt_succ_of_lt (older other (List.mem_append_left _ inFront))
        · rcases List.mem_cons.mp ((List.perm_orderedInsert _ _ _).mem_iff.mp inBack) with rfl | inside
          · exact Nat.lt_succ_self _
          · exact Nat.lt_succ_of_lt (older other (List.mem_append_right _ inside))
    · cases admitted
  | del timer =>
    simp only [Ledger.use] at admitted
    split_ifs at admitted with taken
    cases admitted
    obtain ⟨old, member, rfl⟩ := List.mem_map.mp taken
    obtain ⟨front, back, rfl⟩ := List.append_of_mem (sorted.members.mem_iff.mpr member)
    obtain ⟨after, deleted, result⟩ := represents.delTimer
    have sublist : (front ++ back).Sublist (front ++ old :: back) :=
      (List.sublist_cons_self old back).append_left front
    refine ⟨after, _, deleted, result, sorted.others, sorted.sorted.sublist sublist, ?_⟩
    exact fun other inside => Nat.lt_succ_of_lt (sorted.touched other (sublist.subset inside))
  | tick cur =>
    cases admitted
    obtain ⟨after, ticked, result⟩ := represents.tick cur
    rw [(span_eq_filter sorted.sorted cur).2] at result
    refine ⟨after, _, ?_, result, sorted.members.filter _, sorted.sorted.sublist List.filter_sublist, ?_⟩
    · simp only [SortTimerLst.use, ticked, Option.map_some]
    · exact fun other inside =>
        Nat.lt_succ_of_lt (sorted.touched other (List.filter_sublist.subset inside))

/-- So does every sequence of them. -/
theorem run {uses : List (Use τ)} (sorted : Sorted ledger list entries)
    (admitted : Machine.run Ledger.use ledger uses = some next) :
    ∃ after entries, Machine.run SortTimerLst.use list uses = some after ∧ Sorted next after entries := by
  have simulates : ∀ (ledger : Ledger τ) (list : SortTimerLst τ) (event : Use τ) (next : Ledger τ),
      (∃ entries, Sorted ledger list entries) → ledger.use event = some next →
        ∃ after, list.use event = some after ∧ ∃ entries, Sorted next after entries := by
    rintro ledger list event next ⟨entries, sorted⟩ admitted
    obtain ⟨after, entries, used, sorted⟩ := sorted.use admitted
    exact ⟨after, used, entries, sorted⟩
  obtain ⟨after, ran, entries, sorted⟩ := run_of_simulation simulates ⟨entries, sorted⟩ admitted
  exact ⟨after, entries, ran, sorted⟩

/-- A tick takes the members whose time has come off the front, the others stay as they are. -/
theorem tick (sorted : Sorted ledger list entries) (cur : τ) :
    ∃ due rest after, entries = due ++ rest ∧ due.Perm (ledger.members.filter (·.expire ≤ cur)) ∧
      list.tick cur = some (due.map Entry.userData, after) ∧
      Sorted ⟨ledger.members.filter (cur < ·.expire), ledger.uses + 1⟩ after rest := by
  obtain ⟨after, ticked, result⟩ := sorted.represents.tick cur
  have split := List.takeWhile_append_dropWhile (p := fun entry => decide (entry.expire ≤ cur)) (l := entries)
  obtain ⟨due, pending⟩ := span_eq_filter sorted.sorted cur
  refine ⟨_, _, after, split.symm, ?_, ticked, result, ?_, ?_, ?_⟩
  · exact due ▸ sorted.members.filter _
  · exact pending ▸ sorted.members.filter _
  · exact sorted.sorted.sublist (List.dropWhile_sublist _)
  · exact fun other inside =>
      Nat.lt_succ_of_lt (sorted.touched other ((List.dropWhile_sublist _).subset inside))

end Sorted

/-- After every sequence of uses that adds only timers at new addresses, puts off only members and not to an
earlier time, and deletes only members: the pointers from `head` on link the timers in use, each once and
both ways, `tail` is the last of them if there is one, and their order is that of `expire` and the last
touch. -/
theorem sorted_of_uses (uses : List (Use τ)) (ledger : Ledger τ)
    (admitted : run Ledger.use ⟨[], 0⟩ uses = some ledger) :
    ∃ list entries, run use initial uses = some list ∧
      Linked UtilTimer.prev UtilTimer.next list.load none (timers entries) none ∧
      (timers entries).Nodup ∧ list.head = (timers entries).head? ∧
      (list.head ≠ none → list.tail = (timers entries).getLast?) ∧
      (∀ entry ∈ entries, list.Stores entry) ∧ entries.Perm ledger.members ∧
      entries.Pairwise Entry.Before := by
  obtain ⟨list, entries, ran, sorted⟩ := sorted_initial.run admitted
  have represents := sorted.represents
  refine ⟨list, entries, ran, represents.links, represents.nodup, represents.head, fun occupied => ?_,
    represents.stored, sorted.members, sorted.sorted⟩
  apply represents.tail
  rintro rfl
  exact occupied represents.head

/-- Three timers, two with the same time; one is put off to that time, the list is emptied by a tick and
used again, at a freed address. -/
theorem sorted_of_uses_seven : ∃ (list : SortTimerLst ℕ) (entries : List (Entry ℕ)),
    run use initial [.add 1 10 1, .add 2 10 2, .add 3 5 3, .adjust 3 10, .del 1, .tick 10, .add 2 7 4] =
        some list ∧
      list.head = (timers entries).head? ∧ entries.Pairwise Entry.Before :=
  let ⟨list, entries, ran, _, _, head, _, _, _, sorted⟩ := sorted_of_uses
    [.add 1 10 1, .add 2 10 2, .add 3 5 3, .adjust 3 10, .del 1, .tick 10, .add 2 7 4]
    (⟨[⟨2, 7, 4, 6⟩], 7⟩ : Ledger ℕ) (by decide +kernel)
  ⟨list, entries, ran, head, sorted⟩

/-- On every list that uses like these have led to, at every time: a tick calls back for each member whose
time has come, once and in the order of `expire`, and for no other; it frees exactly these, and the others
are left linked in the order they had; and every further sequence of uses is defined and keeps the list
sorted. -/
theorem tick_of_uses (uses : List (Use τ)) (ledger : Ledger τ)
    (admitted : run Ledger.use ⟨[], 0⟩ uses = some ledger) (cur : τ) :
    ∃ list due rest after, run use initial uses = some list ∧ Represents list (due ++ rest) ∧
      due.Perm (ledger.members.filter (·.expire ≤ cur)) ∧
      rest.Perm (ledger.members.filter (cur < ·.expire)) ∧
      list.tick cur = some (due.map Entry.userData, after) ∧
      due.Pairwise (fun first second => first.expire ≤ second.expire) ∧ Represents after rest ∧
      ∀ later final,
        run Ledger.use ⟨ledger.members.filter (cur < ·.expire), ledger.uses + 1⟩ later = some final →
          ∃ last entries, run use after later = some last ∧ Sorted final last entries := by
  obtain ⟨list, entries, ran, sorted⟩ := sorted_initial.run admitted
  obtain ⟨due, rest, after, rfl, exactly, ticked, remaining⟩ := sorted.tick cur
  refine ⟨list, due, rest, after, ran, sorted.represents, exactly, remaining.members, ticked, ?_,
    remaining.represents, fun later final admitted => remaining.run admitted⟩
  refine (List.pairwise_append.mp sorted.sorted).1.imp fun {first second} before => ?_
  rcases before with less | ⟨same, _⟩
  · exact less.le
  · exact same.le

/-- Of three timers, two are due, and the list goes on with the third one and a freed address. -/
theorem tick_of_uses_three : ∃ (list after last : SortTimerLst ℕ) (calls : List ℕ) (rest : List (Entry ℕ))
    (final : Ledger ℕ), run use initial [.add 1 10 1, .add 2 20 2, .add 3 5 3] = some list ∧
      list.tick 10 = some (calls, after) ∧ Represents after rest ∧
      run use after [.add 1 7 4, .tick 30, .add 3 40 5] = some last ∧ ∃ entries, Sorted final last entries :=
  let ⟨list, due, rest, after, ran, _, _, _, ticked, _, represents, later⟩ :=
    tick_of_uses [.add 1 10 1, .add 2 20 2, .add 3 5 3] _ (Option.some_get (by decide +kernel)).symm 10
  let ⟨last, entries, ranLater, sorted⟩ := later [.add 1 7 4, .tick 30, .add 3 40 5] _
    (Option.some_get (by decide +kernel)).symm
  ⟨list, after, last, due.map Entry.userData, rest, _, ran, ticked, represents, ranLater, entries, sorted⟩

/-! ## The list of members -/

/-- A member as the list of the server has it, identified by its address. -/
def Entry.toTimer (entry : Entry ℕ) : Timer := ⟨entry.timer, entry.expire, entry.userData⟩

theorem orderedInsert_toTimer (entry : Entry ℕ) (entries : List (Entry ℕ)) :
    (List.orderedInsert (fun x y => x.expire < y.expire) entry entries).map Entry.toTimer =
      TimerList.addTimer entry.toTimer (entries.map Entry.toTimer) := by
  induction entries with
  | nil => rfl
  | cons first rest ih =>
    rw [List.orderedInsert_cons, List.map_cons, TimerList.addTimer]
    change List.map _ _ = if entry.expire < first.expire then _ else _
    split_ifs
    · rfl
    · rw [List.map_cons, ih]

section Members

variable {list : SortTimerLst ℕ} {entries front back : List (Entry ℕ)} {entry : Entry ℕ}

/-- `add_timer` in memory does what `addTimer` does to the members. -/
theorem addTimer_members (represents : Represents list entries) (fresh : entry.timer ∉ timers entries) :
    ∃ after members, (list.allocate entry.timer entry.expire entry.userData).addTimer entry.timer =
        some after ∧
      Represents after members ∧
      members.map Entry.toTimer = TimerList.addTimer entry.toTimer (entries.map Entry.toTimer) := by
  obtain ⟨after, added, result⟩ :=
    (represents.allocate fresh).addTimer (load_store_self ..) ⟨rfl, rfl⟩
  exact ⟨after, _, added, result, orderedInsert_toTimer entry entries⟩

/-- So does `adjust_timer`. -/
theorem adjustTimer_members (represents : Represents list (front ++ entry :: back)) (expire : ℕ) :
    ∃ after members, list.use (.adjust entry.timer expire) = some after ∧ Represents after members ∧
      members.map Entry.toTimer =
        TimerList.adjustTimer entry.timer expire ((front ++ entry :: back).map Entry.toTimer) := by
  obtain ⟨middle, set, changed⟩ := represents.setExpire expire 0
  obtain ⟨after, adjusted, result⟩ := changed.adjustTimer
  refine ⟨after, _, ?_, result, ?_⟩
  · simp only [use, Option.bind_eq_bind, set, Option.bind_some]
    exact adjusted
  · have absent := represents.notMem.1
    clear represents set changed adjusted result
    induction front with
    | nil =>
      rw [List.nil_append, List.nil_append, orderedInsert_toTimer, List.map_cons, TimerList.adjustTimer]
      exact (if_pos rfl).symm
    | cons first rest ih =>
      rw [timers, List.map_cons, List.mem_cons, not_or] at absent
      rw [List.cons_append, List.cons_append, List.map_cons, List.map_cons, TimerList.adjustTimer, ih absent.2]
      exact (if_neg (Ne.symm absent.1)).symm

/-- And `del_timer`. -/
theorem delTimer_members (represents : Represents list (front ++ entry :: back)) :
    ∃ after members, list.delTimer entry.timer = some after ∧ Represents after members ∧
      members.map Entry.toTimer =
        TimerList.delTimer entry.timer ((front ++ entry :: back).map Entry.toTimer) := by
  obtain ⟨after, deleted, result⟩ := represents.delTimer
  obtain ⟨inFront, inBack⟩ := represents.notMem
  refine ⟨after, _, deleted, result, ?_⟩
  have kept : ∀ others : List (Entry ℕ), entry.timer ∉ timers others →
      (others.map Entry.toTimer).filter (·.owner ≠ entry.timer) = others.map Entry.toTimer := by
    intro others absent
    apply List.filter_eq_self.mpr
    intro timer member
    obtain ⟨other, present, rfl⟩ := List.mem_map.mp member
    have differ : other.timer ≠ entry.timer := fun same => absent (same ▸ List.mem_map_of_mem present)
    exact decide_eq_true differ
  rw [TimerList.delTimer, List.map_append, List.map_append, List.filter_append, List.map_cons,
    List.filter_cons_of_neg (by simp [Entry.toTimer]), kept front inFront, kept back inBack]

end Members

end SortTimerLst

end WebServ.Http
