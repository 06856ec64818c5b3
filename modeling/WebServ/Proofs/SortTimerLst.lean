import WebServ.Model.SortTimerLst
import WebServ.Machine.DoublyLinked
import Mathlib.Data.List.Sort

/-! # The operations of the timer list

`Represents` ties the pointers to the sequence of the members, and `Detached` describes a list one of
whose timers is out of the links, between its removal and its insertion or its end. Each operation takes
the one to the other; what it does to the sequence is said with the list functions of the library.
-/

namespace WebServ.Http

open WebServ.Machine DoublyLinked

namespace SortTimerLst

variable {τ : Type}

/-- A member of the list: its address, its data, and the number of the use that has added or adjusted it
last. -/
structure Entry (τ : Type) where
  timer : ℕ
  expire : τ
  userData : ℕ
  touched : ℕ
deriving DecidableEq, Repr

/-- The addresses of the members. -/
abbrev timers (entries : List (Entry τ)) : List ℕ := entries.map Entry.timer

/-- The member's data lie at its address. -/
def Stores (list : SortTimerLst τ) (entry : Entry τ) : Prop :=
  ∃ node, list.load entry.timer = some node ∧ node.expire = entry.expire ∧
    node.userData = entry.userData

/-- From `head` on the members are linked both ways, `tail` is the last of them, and they are all the
timers there are. -/
structure Represents (list : SortTimerLst τ) (entries : List (Entry τ)) : Prop where
  links : Linked UtilTimer.prev UtilTimer.next list.load none (timers entries) none
  head : list.head = (timers entries).head?
  tail : entries ≠ [] → list.tail = (timers entries).getLast?
  keys : list.heap.keys.Perm (timers entries)
  stored : ∀ entry ∈ entries, list.Stores entry

/-- The list represents the other members, and one more timer lies in the heap. -/
structure Detached (list : SortTimerLst τ) (entry : Entry τ) (others : List (Entry τ)) : Prop where
  links : Linked UtilTimer.prev UtilTimer.next list.load none (timers others) none
  head : list.head = (timers others).head?
  tail : others ≠ [] → list.tail = (timers others).getLast?
  keys : list.heap.keys.Perm (timers (entry :: others))
  stored : ∀ other ∈ entry :: others, list.Stores other

theorem represents_initial : Represents (initial : SortTimerLst τ) [] where
  links := trivial
  head := rfl
  tail nonempty := absurd rfl nonempty
  keys := List.Perm.refl _
  stored _ member := nomatch member

variable {list : SortTimerLst τ} {timer query : ℕ} {node : UtilTimer τ} {entry : Entry τ}
  {entries others : List (Entry τ)}

/-! ## Loads and stores -/

@[simp] theorem load_store_self (list : SortTimerLst τ) (timer : ℕ) (node : UtilTimer τ) :
    (list.store timer node).load timer = some node := AList.lookup_insert _

theorem load_store_ne (list : SortTimerLst τ) (node : UtilTimer τ) (other : query ≠ timer) :
    (list.store timer node).load query = list.load query := AList.lookup_insert_ne other

@[simp] theorem store_head (list : SortTimerLst τ) (timer : ℕ) (node : UtilTimer τ) :
    (list.store timer node).head = list.head := rfl

@[simp] theorem store_tail (list : SortTimerLst τ) (timer : ℕ) (node : UtilTimer τ) :
    (list.store timer node).tail = list.tail := rfl

theorem mem_keys_of_load (found : list.load timer = some node) : timer ∈ list.heap.keys :=
  AList.lookup_isSome.mp (Option.isSome_iff_exists.mpr ⟨node, found⟩)

/-- A store to an allocated timer allocates nothing. -/
theorem keys_store (found : list.load timer = some node) (new : UtilTimer τ) :
    (list.store timer new).heap.keys.Perm list.heap.keys := by
  rw [store, AList.keys_insert]
  exact (List.perm_cons_erase (mem_keys_of_load found)).symm

theorem setPrev_eq (found : list.load timer = some node) (value : Option ℕ) :
    list.setPrev (some timer) value = some (list.store timer { node with prev := value }) := by
  simp only [setPrev, found, Option.bind_eq_bind, Option.bind_some]

theorem setNext_eq (found : list.load timer = some node) (value : Option ℕ) :
    list.setNext (some timer) value = some (list.store timer { node with next := value }) := by
  simp only [setNext, found, Option.bind_eq_bind, Option.bind_some]

/-- A store that keeps the data of the timer. -/
theorem Stores.store (stores : list.Stores entry) (found : list.load timer = some node)
    {new : UtilTimer τ} (expire : new.expire = node.expire) (userData : new.userData = node.userData) :
    (list.store timer new).Stores entry := by
  obtain ⟨held, present, expires, user⟩ := stores
  by_cases same : entry.timer = timer
  · rw [same, found] at present
    cases present
    exact ⟨new, by rw [same, load_store_self], expire.trans expires, userData.trans user⟩
  · exact ⟨held, (load_store_ne list new same).trans present, expires, user⟩

/-! ## A timer out of the links -/

/-- A timer is allocated where there was none. -/
theorem Represents.allocate (represents : Represents list others) (fresh : entry.timer ∉ timers others) :
    Detached (list.allocate entry.timer entry.expire entry.userData) entry others := by
  have absent : entry.timer ∉ list.heap.keys := fun allocated => fresh (represents.keys.mem_iff.mp allocated)
  have differ : ∀ query ∈ timers others, query ≠ entry.timer := fun query member same =>
    fresh (same ▸ member)
  constructor
  · exact represents.links.congr fun query member => load_store_ne _ _ (differ query member)
  · exact represents.head
  · exact represents.tail
  · rw [SortTimerLst.allocate, store, AList.keys_insert, List.erase_of_not_mem absent]
    exact represents.keys.cons entry.timer
  · intro other member
    rcases List.mem_cons.mp member with rfl | inside
    · exact ⟨_, load_store_self .., rfl, rfl⟩
    · obtain ⟨node, found, data⟩ := represents.stored other inside
      exact ⟨node, (load_store_ne _ _ (differ _ (List.mem_map_of_mem inside))).trans found, data⟩

namespace Detached

/-- The addresses are distinct. -/
theorem nodup (detached : Detached list entry others) : (timers (entry :: others)).Nodup :=
  detached.keys.nodup_iff.mp list.heap.keys_nodup

theorem load (detached : Detached list entry others) : list.Stores entry :=
  detached.stored entry (List.mem_cons_self ..)

/-- The timer out of the links is freed. -/
theorem delete (detached : Detached list entry others) :
    ∃ after, list.delete entry.timer = some after ∧ Represents after others := by
  have allocated : entry.timer ∈ list.heap.keys := detached.keys.mem_iff.mpr (List.mem_cons_self ..)
  have absent := (List.nodup_cons.mp detached.nodup).1
  have same : ∀ query ∈ timers others,
      AList.lookup query (list.heap.erase entry.timer) = list.load query := fun _ member =>
    AList.lookup_erase_ne fun equal => absent (equal ▸ member)
  refine ⟨{ list with heap := list.heap.erase entry.timer }, if_pos allocated, ?_⟩
  constructor
  · exact detached.links.congr same
  · exact detached.head
  · exact detached.tail
  · change (list.heap.erase entry.timer).keys.Perm _
    rw [AList.keys_erase]
    exact (detached.keys.erase _).trans (by simp)
  · intro other member
    obtain ⟨node, found, data⟩ := detached.stored other (List.mem_cons_of_mem _ member)
    exact ⟨node, (same _ (List.mem_map_of_mem member)).trans found, data⟩

/-- The pointers of the timer itself do not matter. -/
theorem store (detached : Detached list entry others) (found : list.load entry.timer = some node)
    {new : UtilTimer τ} (expire : new.expire = node.expire) (userData : new.userData = node.userData) :
    Detached (list.store entry.timer new) entry others where
  links := detached.links.congr fun _ member =>
    load_store_ne list new fun equal => (List.nodup_cons.mp detached.nodup).1 (equal ▸ member)
  head := detached.head
  tail := detached.tail
  keys := (keys_store found new).trans detached.keys
  stored other member := (detached.stored other member).store found expire userData

end Detached

namespace Represents

variable {front back : List (Entry τ)} {last first : Entry τ}

/-- The addresses are distinct. -/
theorem nodup (represents : Represents list entries) : (timers entries).Nodup :=
  represents.keys.nodup_iff.mp list.heap.keys_nodup

/-- A member's node, with its neighbours. -/
theorem neighbours (represents : Represents list (front ++ entry :: back)) :
    ∃ node, list.load entry.timer = some node ∧ node.prev = (timers front).getLast? ∧
      node.next = (timers back).head? ∧ node.expire = entry.expire ∧ node.userData = entry.userData := by
  have links := represents.links
  rw [timers, List.map_append, List.map_cons, linked_append] at links
  obtain ⟨node, found, prev, next⟩ := links.2.1
  obtain ⟨other, same, expire, userData⟩ :=
    represents.stored entry (List.mem_append_right _ (List.mem_cons_self ..))
  obtain rfl := Option.some.inj (found.symm.trans same)
  exact ⟨node, found, prev.trans (Option.or_none ..), next.trans (Option.or_none ..), expire, userData⟩

/-- The first of several members is taken out of the links. -/
theorem unlinkHead (represents : Represents list (entry :: first :: back)) :
    ∃ after, { list with head := some first.timer }.setPrev (some first.timer) none = some after ∧
      after.head = some first.timer ∧ Detached after entry (first :: back) := by
  have member : first ∈ entry :: first :: back := List.mem_cons_of_mem _ (List.mem_cons_self ..)
  obtain ⟨node, found, _, _⟩ := represents.stored first member
  have stored : { list with head := some first.timer }.load first.timer = some node := found
  have absent : first.timer ∉ timers back :=
    (List.nodup_cons.mp (List.nodup_cons.mp represents.nodup).2).1
  refine ⟨_, setPrev_eq stored none, rfl, ?_⟩
  constructor
  · apply represents.links.2.setBefore none
    · intro old present
      obtain rfl := Option.some.inj (found.symm.trans present)
      exact ⟨_, load_store_self .., rfl, rfl⟩
    · intro query inside
      exact load_store_ne { list with head := some first.timer } _ fun equal => absent (equal ▸ inside)
  · rfl
  · exact fun _ => represents.tail (List.cons_ne_nil entry _)
  · exact (keys_store stored _).trans represents.keys
  · intro other inside
    have stores : { list with head := some first.timer }.Stores other := represents.stored other inside
    exact stores.store stored rfl rfl

/-- A member's `expire` is set, whenever that counts as its last touch. -/
theorem setExpire (represents : Represents list (front ++ entry :: back)) (expire : τ) (touched : ℕ) :
    ∃ after, list.setExpire entry.timer expire = some after ∧
      Represents after (front ++ ⟨entry.timer, expire, entry.userData, touched⟩ :: back) := by
  obtain ⟨node, found, _, _, _, userData⟩ := represents.neighbours
  have distinct := represents.nodup
  simp only [timers, List.map_append, List.map_cons] at distinct
  have apart : entry.timer ∉ front.map Entry.timer ∧ entry.timer ∉ back.map Entry.timer := by
    simp [List.nodup_append] at distinct
    grind
  have sameTimers : timers (front ++ ⟨entry.timer, expire, entry.userData, touched⟩ :: back) =
      timers (front ++ entry :: back) := by
    simp only [timers, List.map_append, List.map_cons]
  refine ⟨list.store entry.timer { node with expire }, ?_, ?_⟩
  · simp only [SortTimerLst.setExpire, found, Option.bind_eq_bind, Option.bind_some]
  constructor
  · rw [sameTimers]
    apply represents.links.retain
    intro query _ old present
    by_cases same : query = entry.timer
    · rw [same] at present ⊢
      obtain rfl := Option.some.inj (found.symm.trans present)
      exact ⟨_, load_store_self .., rfl, rfl⟩
    · exact ⟨old, (load_store_ne _ _ same).trans present, rfl, rfl⟩
  · rw [sameTimers]
    exact represents.head
  · rw [sameTimers]
    exact fun _ => represents.tail (by simp)
  · rw [sameTimers]
    exact (keys_store found _).trans represents.keys
  · have keeps : ∀ other ∈ front ++ back, (list.store entry.timer { node with expire }).Stores other := by
      intro other member
      obtain ⟨held, present, data⟩ := represents.stored other (by
        rcases List.mem_append.mp member with inFront | inBack
        · exact List.mem_append_left _ inFront
        · exact List.mem_append_right _ (List.mem_cons_of_mem _ inBack))
      have differ : other.timer ≠ entry.timer := by
        rcases List.mem_append.mp member with inFront | inBack
        · exact fun same => apart.1 (same ▸ List.mem_map_of_mem inFront)
        · exact fun same => apart.2 (same ▸ List.mem_map_of_mem inBack)
      exact ⟨held, (load_store_ne _ _ differ).trans present, data⟩
    intro other member
    rcases List.mem_cons.mp (List.perm_middle.mem_iff.mp member) with rfl | inside
    · exact ⟨_, load_store_self .., rfl, userData⟩
    · exact keeps other inside

/-- The only member is out of the links once `head` is null. -/
theorem unlinkOnly (represents : Represents list [entry]) : Detached { list with head := none } entry [] where
  links := trivial
  head := rfl
  tail nonempty := absurd rfl nonempty
  keys := represents.keys
  stored := represents.stored

/-- The first member is taken out of the links. -/
theorem setHead (represents : Represents list (entry :: back)) :
    ∃ after, list.setHead (timers back).head? = some after ∧ Detached after entry back := by
  rcases back with _ | ⟨first, rest⟩
  · exact ⟨_, rfl, represents.unlinkOnly⟩
  · obtain ⟨after, unlinked, _, detached⟩ := represents.unlinkHead
    exact ⟨after, unlinked, detached⟩

/-- The last of several members is taken out of the links. -/
theorem unlinkTail (represents : Represents list (front ++ [last] ++ [entry])) :
    ∃ after, { list with tail := some last.timer }.setNext (some last.timer) none = some after ∧
      Detached after entry (front ++ [last]) := by
  have member : last ∈ front ++ [last] ++ [entry] := by simp
  obtain ⟨node, found, _, _⟩ := represents.stored last member
  have stored : { list with tail := some last.timer }.load last.timer = some node := found
  have distinct := represents.nodup
  have links := represents.links
  simp only [timers, List.map_append, List.map_cons, List.map_nil] at distinct links
  have absent : last.timer ∉ front.map Entry.timer := by
    intro inside
    exact (List.nodup_append.mp (List.nodup_append.mp distinct).1).2.2 _ inside _
      (List.mem_singleton_self _) rfl
  refine ⟨_, setNext_eq stored none, ?_⟩
  constructor
  · rw [timers, List.map_append, List.map_cons, List.map_nil]
    apply ((linked_append _ _).mp links).1.setAfter none
    · intro old present
      obtain rfl := Option.some.inj (found.symm.trans present)
      exact ⟨_, load_store_self .., rfl, rfl⟩
    · intro query inside
      exact load_store_ne { list with tail := some last.timer } _ fun equal => absent (equal ▸ inside)
  · have head := represents.head
    cases front <;> exact head
  · intro _
    simp [timers]
  · refine ((keys_store stored _).trans represents.keys).trans ?_
    exact (List.perm_append_singleton entry _).map _
  · intro other inside
    have stores : { list with tail := some last.timer }.Stores other :=
      represents.stored other ((List.perm_append_singleton entry _).mem_iff.mpr inside)
    exact stores.store stored rfl rfl

/-- A member between two others is taken out of the links. -/
theorem unlink (represents : Represents list (front ++ [last] ++ entry :: first :: back)) :
    ∃ after node, list.unlink entry.timer = some after ∧ after.load entry.timer = some node ∧
      node.next = some first.timer ∧ Detached after entry (front ++ [last] ++ first :: back) := by
  obtain ⟨node, found, prev, next, expire, userData⟩ := represents.neighbours
  obtain ⟨before, foundBefore, _, _⟩ := represents.stored last (by simp)
  obtain ⟨behind, foundBehind, _, _⟩ := represents.stored first (by simp)
  have distinct := represents.nodup
  have links := represents.links
  simp only [timers, List.map_append, List.map_cons, List.map_nil] at distinct links prev next
  obtain ⟨linksFront, _, linksBack⟩ := (linked_append _ _).mp links
  rw [List.getLast?_concat] at prev
  rw [List.head?_cons] at next
  have apart : last.timer ∉ front.map Entry.timer ∧ first.timer ∉ front.map Entry.timer ∧
      last.timer ∉ back.map Entry.timer ∧ first.timer ∉ back.map Entry.timer ∧
      first.timer ≠ last.timer ∧ entry.timer ≠ last.timer ∧ entry.timer ≠ first.timer := by
    simp [List.nodup_append] at distinct
    grind
  obtain ⟨lastFront, firstFront, lastBack, firstBack, firstLast, entryLast, entryFirst⟩ := apart
  set middle := list.store last.timer { before with next := some first.timer } with isMiddle
  set after := middle.store first.timer { behind with prev := some last.timer } with isAfter
  have foundMiddle : middle.load entry.timer = some node := (load_store_ne _ _ entryLast).trans found
  have behindMiddle : middle.load first.timer = some behind :=
    (load_store_ne _ _ firstLast).trans foundBehind
  have foundAfter : after.load entry.timer = some node :=
    (load_store_ne _ _ entryFirst).trans foundMiddle
  have other : ∀ query, query ≠ last.timer → query ≠ first.timer → after.load query = list.load query :=
    fun query notLast notFirst => (load_store_ne _ _ notFirst).trans (load_store_ne _ _ notLast)
  refine ⟨after, node, ?_, foundAfter, next, ?_⟩
  · simp only [SortTimerLst.unlink, Option.bind_eq_bind, found, Option.bind_some, prev, next,
      setNext_eq foundBefore, ← isMiddle, foundMiddle, setPrev_eq behindMiddle, ← isAfter]
  constructor
  · simp only [timers, List.map_append, List.map_cons, List.map_nil]
    refine (linked_append _ _).mpr ⟨?_, ?_⟩
    · apply linksFront.setAfter
      · intro old present
        obtain rfl := Option.some.inj (foundBefore.symm.trans present)
        exact ⟨_, (load_store_ne _ _ firstLast.symm).trans (load_store_self ..), rfl, rfl⟩
      · intro query inside
        exact other query (fun equal => lastFront (equal ▸ inside)) fun equal => firstFront (equal ▸ inside)
    · rw [leave_concat]
      apply linksBack.setBefore
      · intro old present
        obtain rfl := Option.some.inj (foundBehind.symm.trans present)
        exact ⟨_, load_store_self .., rfl, rfl⟩
      · intro query inside
        exact other query (fun equal => lastBack (equal ▸ inside)) fun equal => firstBack (equal ▸ inside)
  · have head := represents.head
    cases front <;> exact head
  · have tail := represents.tail (by simp)
    intro _
    rw [timers, List.map_append, List.map_cons, List.getLast?_append_cons] at tail ⊢
    exact tail
  · refine ((keys_store behindMiddle _).trans (keys_store foundBefore _)).trans ?_
    exact represents.keys.trans (List.perm_middle.map _)
  · intro member inside
    have stores := represents.stored member (List.perm_middle.mem_iff.mpr inside)
    have kept : middle.Stores member := stores.store foundBefore rfl rfl
    exact kept.store behindMiddle rfl rfl

end Represents

/-! ## Insertion -/

section Insertion

variable {front back : List (Entry τ)} {last first : Entry τ}

namespace Detached

/-- A timer is put in front of all members. -/
theorem attachFirst (detached : Detached list entry (first :: back))
    (found : list.load entry.timer = some node) (prev : node.prev = none) :
    ∃ middle after, list.setNext (some entry.timer) (some first.timer) = some middle ∧
      middle.setPrev (some first.timer) (some entry.timer) = some after ∧
        Represents { after with head := some entry.timer } (entry :: first :: back) := by
  obtain ⟨behind, foundBehind, _, _⟩ := detached.stored first (by simp)
  obtain ⟨own, foundOwn, expire, userData⟩ := detached.load
  obtain rfl := Option.some.inj (found.symm.trans foundOwn)
  have distinct := detached.nodup
  simp only [timers, List.map_cons, List.nodup_cons, List.mem_cons, not_or] at distinct
  obtain ⟨⟨entryFirst, entryBack⟩, firstBack, _⟩ := distinct
  set middle := list.store entry.timer { node with next := some first.timer } with isMiddle
  have behindMiddle : middle.load first.timer = some behind :=
    (load_store_ne _ _ (Ne.symm entryFirst)).trans foundBehind
  set after := middle.store first.timer { behind with prev := some entry.timer } with isAfter
  refine ⟨middle, after, setNext_eq found _, setPrev_eq behindMiddle _, ?_⟩
  constructor
  · refine ⟨⟨{ node with next := some first.timer }, ?_, prev, rfl⟩, ?_⟩
    · exact (load_store_ne _ _ entryFirst).trans (load_store_self ..)
    · apply detached.links.setBefore
      · intro old present
        obtain rfl := Option.some.inj (foundBehind.symm.trans present)
        exact ⟨_, load_store_self .., rfl, rfl⟩
      · intro query inside
        have notEntry : query ≠ entry.timer := fun equal => entryBack (equal ▸ inside)
        have notFirst : query ≠ first.timer := fun equal => firstBack (equal ▸ inside)
        exact (load_store_ne _ _ notFirst).trans (load_store_ne _ _ notEntry)
  · rfl
  · exact fun _ => detached.tail (List.cons_ne_nil first back)
  · exact ((keys_store behindMiddle _).trans (keys_store found _)).trans detached.keys
  · intro member inside
    have kept : middle.Stores member := (detached.stored member inside).store found rfl rfl
    exact kept.store behindMiddle rfl rfl

/-- A timer is put behind all members. -/
theorem attachLast (detached : Detached list entry (front ++ [last])) :
    ∃ one two three, list.setNext (some last.timer) (some entry.timer) = some one ∧
      one.setPrev (some entry.timer) (some last.timer) = some two ∧
        two.setNext (some entry.timer) none = some three ∧
          Represents { three with tail := some entry.timer } (front ++ [last] ++ [entry]) := by
  obtain ⟨before, foundBefore, _, _⟩ := detached.stored last (by simp)
  obtain ⟨own, found, _, _⟩ := detached.load
  have distinct := detached.nodup
  have links := detached.links
  simp only [timers, List.map_cons, List.map_append, List.map_nil] at distinct links
  have apart : entry.timer ≠ last.timer ∧ entry.timer ∉ front.map Entry.timer ∧
      last.timer ∉ front.map Entry.timer := by
    simp [List.nodup_append] at distinct
    grind
  obtain ⟨entryLast, entryFront, lastFront⟩ := apart
  set one := list.store last.timer { before with next := some entry.timer } with isOne
  have foundOne : one.load entry.timer = some own := (load_store_ne _ _ entryLast).trans found
  set two := one.store entry.timer { own with prev := some last.timer } with isTwo
  have foundTwo : two.load entry.timer = some { own with prev := some last.timer } := load_store_self ..
  set three := two.store entry.timer { own with prev := some last.timer, next := none } with isThree
  have other : ∀ query ≠ entry.timer, three.load query = one.load query := fun query differ =>
    (load_store_ne _ _ differ).trans (load_store_ne _ _ differ)
  refine ⟨one, two, three, setNext_eq foundBefore _, setPrev_eq foundOne _, setNext_eq foundTwo _, ?_⟩
  constructor
  · simp only [timers, List.map_append, List.map_cons, List.map_nil]
    refine (linked_append _ _).mpr ⟨?_, ?_⟩
    · apply links.setAfter
      · intro old present
        obtain rfl := Option.some.inj (foundBefore.symm.trans present)
        exact ⟨_, (other _ entryLast.symm).trans (load_store_self ..), rfl, rfl⟩
      · intro query inside
        have notEntry : query ≠ entry.timer := fun equal => entryFront (equal ▸ inside)
        have notLast : query ≠ last.timer := fun equal => lastFront (equal ▸ inside)
        exact (other query notEntry).trans (load_store_ne _ _ notLast)
    · rw [leave_concat]
      exact linked_singleton (load_store_self two entry.timer _)
  · have head := detached.head
    cases front <;> exact head
  · intro _
    simp [timers]
  · have kept := (keys_store foundTwo { own with prev := some last.timer, next := none }).trans
      ((keys_store foundOne { own with prev := some last.timer }).trans (keys_store foundBefore _))
    exact (kept.trans detached.keys).trans ((List.perm_append_singleton entry _).symm.map _)
  · intro member inside
    have stores := detached.stored member ((List.perm_append_singleton entry _).mem_iff.mp inside)
    have keptOne : one.Stores member := stores.store foundBefore rfl rfl
    have keptTwo : two.Stores member := keptOne.store foundOne rfl rfl
    exact keptTwo.store foundTwo rfl rfl

/-- A timer is put between two members. -/
theorem attachBetween (detached : Detached list entry (front ++ [last] ++ first :: back)) :
    ∃ one two three four, list.setNext (some last.timer) (some entry.timer) = some one ∧
      one.setNext (some entry.timer) (some first.timer) = some two ∧
        two.setPrev (some first.timer) (some entry.timer) = some three ∧
          three.setPrev (some entry.timer) (some last.timer) = some four ∧
            Represents four (front ++ [last] ++ entry :: first :: back) := by
  obtain ⟨before, foundBefore, _, _⟩ := detached.stored last (by simp)
  obtain ⟨behind, foundBehind, _, _⟩ := detached.stored first (by simp)
  obtain ⟨own, found, _, _⟩ := detached.load
  have distinct := detached.nodup
  have links := detached.links
  simp only [timers, List.map_cons, List.map_append, List.map_nil] at distinct links
  obtain ⟨linksFront, linksBack⟩ := (linked_append _ _).mp links
  have apart : entry.timer ≠ last.timer ∧ entry.timer ≠ first.timer ∧ first.timer ≠ last.timer ∧
      entry.timer ∉ front.map Entry.timer ∧ last.timer ∉ front.map Entry.timer ∧
      first.timer ∉ front.map Entry.timer ∧ entry.timer ∉ back.map Entry.timer ∧
      last.timer ∉ back.map Entry.timer ∧ first.timer ∉ back.map Entry.timer := by
    simp [List.nodup_append] at distinct
    grind
  obtain ⟨entryLast, entryFirst, firstLast, entryFront, lastFront, firstFront, entryBack, lastBack,
    firstBack⟩ := apart
  set one := list.store last.timer { before with next := some entry.timer } with isOne
  have foundOne : one.load entry.timer = some own := (load_store_ne _ _ entryLast).trans found
  set two := one.store entry.timer { own with next := some first.timer } with isTwo
  have foundTwo : two.load first.timer = some behind :=
    ((load_store_ne _ _ entryFirst.symm).trans (load_store_ne _ _ firstLast)).trans foundBehind
  set three := two.store first.timer { behind with prev := some entry.timer } with isThree
  have foundThree : three.load entry.timer = some { own with next := some first.timer } :=
    (load_store_ne _ _ entryFirst).trans (load_store_self ..)
  set four := three.store entry.timer { own with prev := some last.timer, next := some first.timer }
    with isFour
  have other : ∀ query, query ≠ entry.timer → query ≠ first.timer → query ≠ last.timer →
      four.load query = list.load query := fun query notEntry notFirst notLast =>
    ((load_store_ne _ _ notEntry).trans (load_store_ne _ _ notFirst)).trans
      ((load_store_ne _ _ notEntry).trans (load_store_ne _ _ notLast))
  refine ⟨one, two, three, four, setNext_eq foundBefore _, setNext_eq foundOne _, setPrev_eq foundTwo _,
    setPrev_eq foundThree _, ?_⟩
  constructor
  · simp only [timers, List.map_append, List.map_cons, List.map_nil]
    refine (linked_append _ _).mpr ⟨?_, ?_⟩
    · apply linksFront.setAfter
      · intro old present
        obtain rfl := Option.some.inj (foundBefore.symm.trans present)
        refine ⟨{ before with next := some entry.timer }, ?_, rfl, rfl⟩
        exact ((load_store_ne _ _ entryLast.symm).trans (load_store_ne _ _ firstLast.symm)).trans
          ((load_store_ne _ _ entryLast.symm).trans (load_store_self ..))
      · intro query inside
        exact other query (fun equal => entryFront (equal ▸ inside))
          (fun equal => firstFront (equal ▸ inside)) fun equal => lastFront (equal ▸ inside)
    · rw [leave_concat]
      refine ⟨⟨_, load_store_self .., rfl, rfl⟩, ?_⟩
      apply linksBack.setBefore
      · intro old present
        obtain rfl := Option.some.inj (foundBehind.symm.trans present)
        exact ⟨_, (load_store_ne _ _ entryFirst.symm).trans (load_store_self ..), rfl, rfl⟩
      · intro query inside
        exact other query (fun equal => entryBack (equal ▸ inside))
          (fun equal => firstBack (equal ▸ inside)) fun equal => lastBack (equal ▸ inside)
  · have head := detached.head
    cases front <;> exact head
  · have tail := detached.tail (by simp)
    intro _
    simp only [timers, List.map_append, List.map_cons, List.getLast?_append_cons,
      List.getLast?_cons_cons] at tail ⊢
    exact tail
  · have kept := (keys_store foundThree { own with prev := some last.timer, next := some first.timer }).trans
      ((keys_store foundTwo _).trans ((keys_store foundOne _).trans (keys_store foundBefore _)))
    exact (kept.trans detached.keys).trans (List.perm_middle.symm.map _)
  · intro member inside
    have stores := detached.stored member (List.perm_middle.mem_iff.mp inside)
    have keptOne : one.Stores member := stores.store foundBefore rfl rfl
    have keptTwo : two.Stores member := keptOne.store foundOne rfl rfl
    have keptThree : three.Stores member := keptTwo.store foundTwo rfl rfl
    exact keptThree.store foundThree rfl rfl

variable [LinearOrder τ]

/-- The loop of the private `add_timer`, behind the member reached so far. -/
theorem addLoop {passes : ℕ} (detached : Detached list entry (front ++ [last] ++ back))
    (enough : back.length ≤ passes) :
    ∃ after, SortTimerLst.addLoop entry.timer passes (some last.timer) (timers back).head? list =
        some after ∧
      Represents after (front ++ [last] ++ List.orderedInsert (fun x y => x.expire < y.expire) entry back) := by
  induction back generalizing front last passes with
  | nil =>
    rw [List.append_nil] at detached
    obtain ⟨one, two, three, first, second, third, represents⟩ := detached.attachLast
    refine ⟨{ three with tail := some entry.timer }, ?_, represents⟩
    simp only [timers, List.map_nil, List.head?_nil, SortTimerLst.addLoop, Option.bind_eq_bind, first,
      Option.bind_some, second, third]
  | cons tmp rest ih =>
    cases passes with
    | zero => cases enough
    | succ passes =>
      obtain ⟨own, found, expire, _⟩ := detached.load
      obtain ⟨other, foundOther, expireOther, _⟩ := detached.stored tmp (by simp)
      simp only [timers, List.map_cons, List.head?_cons, SortTimerLst.addLoop, Option.bind_eq_bind, found,
        Option.bind_some, foundOther, expire, expireOther, List.orderedInsert_cons]
      split_ifs with earlier
      · obtain ⟨one, two, three, four, first, second, third, fourth, represents⟩ :=
          detached.attachBetween
        refine ⟨four, ?_, represents⟩
        simp only [first, Option.bind_some, second, third, fourth]
      · have behind : other.next = (timers rest).head? := by
          have links := detached.links
          rw [timers, List.map_append, List.map_cons, linked_append] at links
          obtain ⟨node, same, _, next⟩ := links.2.1
          obtain rfl := Option.some.inj (foundOther.symm.trans same)
          exact next.trans (Option.or_none ..)
        have moved : Detached list entry (front ++ [last] ++ [tmp] ++ rest) := by
          rwa [List.append_assoc _ [tmp], List.singleton_append]
        obtain ⟨after, done, represents⟩ := ih moved (Nat.le_of_succ_le_succ enough)
        refine ⟨after, behind ▸ done, ?_⟩
        rwa [List.append_assoc _ [tmp], List.singleton_append] at represents

/-- The private `add_timer`, behind some member. -/
theorem addFrom (detached : Detached list entry (front ++ last :: back)) :
    ∃ after, list.addFrom entry.timer (some last.timer) = some after ∧
      Represents after (front ++ last :: List.orderedInsert (fun x y => x.expire < y.expire) entry back) := by
  obtain ⟨node, found, _, _⟩ := detached.stored last (by simp)
  have links := detached.links
  rw [timers, List.map_append, List.map_cons, linked_append] at links
  obtain ⟨_, same, _, next⟩ := links.2.1
  obtain rfl := Option.some.inj (found.symm.trans same)
  have behind : node.next = (timers back).head? := next.trans (Option.or_none ..)
  have enough : back.length ≤ list.heap.keys.length := by
    rw [detached.keys.length_eq]
    simp only [timers, List.length_map, List.length_cons, List.length_append]
    omega
  rw [← List.singleton_append, ← List.append_assoc] at detached
  obtain ⟨after, done, represents⟩ := detached.addLoop enough
  refine ⟨after, ?_, ?_⟩
  · simp only [SortTimerLst.addFrom, Option.bind_eq_bind, Option.bind_some, found, behind]
    exact done
  · rwa [List.append_assoc, List.singleton_append] at represents

/-- The public `add_timer` of a new timer. -/
theorem addTimer (detached : Detached list entry others) (found : list.load entry.timer = some node)
    (fresh : node.prev = none ∧ node.next = none) :
    ∃ after, list.addTimer entry.timer = some after ∧
      Represents after (List.orderedInsert (fun x y => x.expire < y.expire) entry others) := by
  obtain ⟨own, same, expire, _⟩ := detached.load
  obtain rfl := Option.some.inj (found.symm.trans same)
  rcases others with _ | ⟨first, rest⟩
  · have head : list.head = none := detached.head
    refine ⟨{ list with head := some entry.timer, tail := some entry.timer }, ?_, ?_⟩
    · simp only [SortTimerLst.addTimer, head]
    · exact ⟨⟨⟨node, found, fresh⟩, trivial⟩, rfl, fun _ => rfl, detached.keys, detached.stored⟩
  · have head : list.head = some first.timer := detached.head
    obtain ⟨other, foundOther, expireOther, _⟩ := detached.stored first (by simp)
    simp only [SortTimerLst.addTimer, head, Option.bind_eq_bind, found, Option.bind_some, foundOther, expire,
      expireOther, List.orderedInsert_cons]
    split_ifs with earlier
    · obtain ⟨middle, after, one, two, represents⟩ := detached.attachFirst found fresh.1
      refine ⟨_, ?_, represents⟩
      simp only [one, Option.bind_some, two]
    · have behindNone : Detached list entry ([] ++ first :: rest) := detached
      exact behindNone.addFrom

end Detached

end Insertion

/-! ## The operations -/

namespace Represents

variable {front back : List (Entry τ)}

/-- A member's address occurs once. -/
theorem notMem (represents : Represents list (front ++ entry :: back)) :
    entry.timer ∉ timers front ∧ entry.timer ∉ timers back := by
  have distinct := represents.nodup
  simp only [timers, List.map_append, List.map_cons] at distinct
  simp [List.nodup_append] at distinct
  grind

theorem head_ne (represents : Represents list (front ++ entry :: back)) (behind : front ≠ []) :
    list.head ≠ some entry.timer := by
  have absent := represents.notMem.1
  rw [represents.head]
  cases front with
  | nil => exact absurd rfl behind
  | cons first rest =>
    intro same
    exact absent (Option.some.inj same ▸ List.mem_cons_self ..)

theorem tail_ne (represents : Represents list (front ++ entry :: back)) (before : back ≠ []) :
    list.tail ≠ some entry.timer := by
  have absent := represents.notMem.2
  rw [represents.tail (by simp)]
  cases back with
  | nil => exact absurd rfl before
  | cons first rest =>
    simp only [timers, List.map_append, List.map_cons, List.getLast?_append_cons,
      List.getLast?_cons_cons] at absent ⊢
    exact fun same => absent (List.mem_of_getLast? same)

/-- `del_timer` takes a member out and frees it. -/
theorem delTimer (represents : Represents list (front ++ entry :: back)) :
    ∃ after, list.delTimer entry.timer = some after ∧ Represents after (front ++ back) := by
  obtain ⟨node, found, prev, next, _, _⟩ := represents.neighbours
  rcases List.eq_nil_or_concat front with rfl | ⟨others, last, rfl⟩
  · have head : list.head = some entry.timer := represents.head
    rcases back with _ | ⟨first, rest⟩
    · have tail : list.tail = some entry.timer := represents.tail (by simp)
      obtain ⟨after, deleted, result⟩ := represents.unlinkOnly.delete
      have allocated : entry.timer ∈ list.heap := mem_keys_of_load found
      simp only [delete, allocated, ↓reduceIte, Option.some.injEq] at deleted
      subst deleted
      refine ⟨{ list with heap := list.heap.erase entry.timer, head := none, tail := none }, ?_, ?_⟩
      · simp only [SortTimerLst.delTimer, head, tail, and_self, ↓reduceIte, delete, allocated,
          Option.bind_eq_bind, Option.bind_some]
      · exact { result with tail := fun nonempty => absurd rfl nonempty }
    · have differ := represents.tail_ne (List.cons_ne_nil first rest)
      obtain ⟨middle, unlinked, _, detached⟩ := represents.unlinkHead
      obtain ⟨after, deleted, result⟩ := detached.delete
      simp only [timers, List.map_cons, List.head?_cons] at next
      refine ⟨after, ?_, result⟩
      simp only [SortTimerLst.delTimer, head, differ, and_false, ↓reduceIte, Option.bind_eq_bind, found,
        Option.bind_some, next, unlinked, deleted]
  · rw [List.concat_eq_append] at represents prev ⊢
    have notHead := represents.head_ne (List.append_ne_nil_of_right_ne_nil _ (List.cons_ne_nil last []))
    simp only [timers, List.map_append, List.map_cons, List.map_nil, List.getLast?_concat] at prev
    rcases back with _ | ⟨first, rest⟩
    · have tail : list.tail = some entry.timer := by
        rw [represents.tail (by simp)]
        simp [timers]
      obtain ⟨middle, unlinked, detached⟩ := represents.unlinkTail
      obtain ⟨after, deleted, result⟩ := detached.delete
      refine ⟨after, ?_, by rwa [List.append_nil]⟩
      simp only [SortTimerLst.delTimer, notHead, false_and, tail, ↓reduceIte, Option.bind_eq_bind, found,
        Option.bind_some, prev, unlinked, deleted]
    · have notTail := represents.tail_ne (List.cons_ne_nil first rest)
      obtain ⟨middle, _, unlinked, _, _, detached⟩ := represents.unlink
      obtain ⟨after, deleted, result⟩ := detached.delete
      refine ⟨after, ?_, result⟩
      simp only [SortTimerLst.delTimer, notHead, false_and, notTail, ↓reduceIte, Option.bind_eq_bind,
        unlinked, Option.bind_some, deleted]

variable [LinearOrder τ]

/-- `adjust_timer` moves a member towards the tail, to where its `expire` belongs. -/
theorem adjustTimer (represents : Represents list (front ++ entry :: back)) :
    ∃ after, list.adjustTimer entry.timer = some after ∧
      Represents after (front ++ List.orderedInsert (fun x y => x.expire < y.expire) entry back) := by
  obtain ⟨node, found, prev, next, expire, _⟩ := represents.neighbours
  rcases back with _ | ⟨first, rest⟩
  · refine ⟨list, ?_, represents⟩
    simp only [SortTimerLst.adjustTimer, Option.bind_eq_bind, found, Option.bind_some, next, timers,
      List.map_nil, List.head?_nil]
  · obtain ⟨other, foundOther, expireOther, _⟩ := represents.stored first (by simp)
    simp only [timers, List.map_cons, List.head?_cons] at next
    simp only [SortTimerLst.adjustTimer, Option.bind_eq_bind, found, Option.bind_some, next, foundOther,
      expire, expireOther, List.orderedInsert_cons]
    split_ifs with earlier isHead
    · exact ⟨list, rfl, represents⟩
    · obtain rfl : front = [] := by_contra fun behind => represents.head_ne behind isHead
      obtain ⟨after, unlinked, head, detached⟩ := represents.unlinkHead
      obtain ⟨own, foundOwn, _, _⟩ := detached.load
      have cut : Detached (after.store entry.timer { own with next := none }) entry ([] ++ first :: rest) :=
        detached.store foundOwn rfl rfl
      obtain ⟨final, done, result⟩ := cut.addFrom
      refine ⟨final, ?_, result⟩
      simp only [unlinked, Option.bind_some, setNext_eq foundOwn, store_head, head, done]
    · rcases List.eq_nil_or_concat front with rfl | ⟨others, last, rfl⟩
      · exact absurd represents.head isHead
      · rw [List.concat_eq_append] at represents ⊢
        obtain ⟨after, own, unlinked, foundOwn, nextOwn, detached⟩ := represents.unlink
        obtain ⟨final, done, result⟩ := detached.addFrom
        refine ⟨final, ?_, result⟩
        simp only [unlinked, Option.bind_some, foundOwn, nextOwn, done]

/-- The loop of `tick` frees the members at the front whose time has come, and calls back for each. -/
theorem tickLoop {cur : τ} {passes : ℕ} (represents : Represents list entries)
    (enough : entries.length ≤ passes) :
    ∃ after, SortTimerLst.tickLoop cur passes list.head list =
        some ((entries.takeWhile fun entry => entry.expire ≤ cur).map Entry.userData, after) ∧
      Represents after (entries.dropWhile fun entry => entry.expire ≤ cur) := by
  induction entries generalizing list passes with
  | nil =>
    have head : list.head = none := represents.head
    refine ⟨list, ?_, represents⟩
    rw [head, SortTimerLst.tickLoop]
    rfl
  | cons entry rest ih =>
    cases passes with
    | zero => cases enough
    | succ passes =>
      have head : list.head = some entry.timer := represents.head
      have whole : Represents list ([] ++ entry :: rest) := represents
      obtain ⟨node, found, _, next, expire, userData⟩ := whole.neighbours
      simp only [head, SortTimerLst.tickLoop, Option.bind_eq_bind, found, Option.bind_some, expire,
        userData, next]
      split_ifs with pending
      · have notDue : ¬ entry.expire ≤ cur := not_le.mpr pending
        refine ⟨list, ?_, ?_⟩
        · simp only [List.takeWhile_cons, notDue, decide_false, Bool.false_eq_true, ↓reduceIte, List.map_nil]
        · simpa only [List.dropWhile_cons, notDue, decide_false, Bool.false_eq_true, ↓reduceIte]
      · have due : entry.expire ≤ cur := not_lt.mp pending
        obtain ⟨middle, unlinked, detached⟩ := represents.setHead
        obtain ⟨shorter, deleted, result⟩ := detached.delete
        obtain ⟨after, done, final⟩ := ih result (Nat.le_of_succ_le_succ enough)
        refine ⟨after, ?_, ?_⟩
        · simp only [unlinked, Option.bind_some, deleted, done, List.takeWhile_cons, due, decide_true,
            ↓reduceIte, List.map_cons]
        · simpa only [List.dropWhile_cons, due, decide_true, ↓reduceIte]

/-- `tick` at a time. -/
theorem tick (represents : Represents list entries) (cur : τ) :
    ∃ after, list.tick cur =
        some ((entries.takeWhile fun entry => entry.expire ≤ cur).map Entry.userData, after) ∧
      Represents after (entries.dropWhile fun entry => entry.expire ≤ cur) := by
  apply represents.tickLoop
  rw [represents.keys.length_eq, List.length_map]

end Represents

/-- The destructor goes along the pointers to the next timer alone, and leaves none of them. -/
theorem destroyLoop_empties {nodes : List ℕ} {before : Option ℕ} {passes : ℕ}
    (links : Linked UtilTimer.prev UtilTimer.next list.load before nodes none)
    (head : list.head = nodes.head?) (keys : list.heap.keys.Perm nodes) (enough : nodes.length ≤ passes) :
    ∃ after, destroyLoop passes list.head list = some after ∧ after.heap.keys = [] := by
  induction nodes generalizing list before passes with
  | nil =>
    refine ⟨list, ?_, List.perm_nil.mp keys⟩
    rw [head, List.head?_nil, destroyLoop]
  | cons timer rest ih =>
    cases passes with
    | zero => cases enough
    | succ passes =>
      obtain ⟨⟨node, found, _, next⟩, tail⟩ := links
      have isNext : node.next = rest.head? := next.trans (Option.or_none ..)
      have allocated : timer ∈ list.heap := mem_keys_of_load found
      have distinct := List.nodup_cons.mp (keys.nodup_iff.mp list.heap.keys_nodup)
      set shorter : SortTimerLst τ := { list with head := node.next, heap := list.heap.erase timer }
      have deleted : { list with head := node.next }.delete timer = some shorter := if_pos allocated
      have left : shorter.heap.keys.Perm rest := by
        change (list.heap.erase timer).keys.Perm rest
        rw [AList.keys_erase]
        apply (keys.erase timer).trans
        rw [List.erase_cons_head]
      have links : Linked UtilTimer.prev UtilTimer.next shorter.load (some timer) rest none :=
        tail.congr fun place member => AList.lookup_erase_ne fun same => distinct.1 (same ▸ member)
      obtain ⟨after, done, empty⟩ := ih links isNext left (Nat.le_of_succ_le_succ enough)
      refine ⟨after, ?_, empty⟩
      rw [head, List.head?_cons]
      simp only [destroyLoop, Option.bind_eq_bind, found, Option.bind_some, deleted, done]

/-- The destructor frees every timer of the list, once. -/
theorem Represents.destroy (represents : Represents list entries) :
    ∃ after, list.destroy = some after ∧ after.heap.keys = [] := by
  apply destroyLoop_empties represents.links represents.head represents.keys
  rw [represents.keys.length_eq]

end SortTimerLst

end WebServ.Http
