import WebServ.Model.ConnectionPool
import WebServ.Machine.Slots
import WebServ.Machine.Path
import Mathlib.Data.List.Count

/-! # The connection pool keeps its connections

The semaphore, the list and the two counters change in separate steps. What survives every interleaving
is that the list is as long as the semaphore, the threads between `wait` and the locked part and the posts
still to come say together, so that a thread past `wait` finds a connection, and that the listed and the
held connections together are those that `init` has made.
-/

namespace WebServ.Pool

open WebServ.Machine

namespace ConnectionPool

/-- The connections the threads hold. -/
def held (pool : ConnectionPool) : List ℕ := pool.clients.flatMap Client.held

/-- The number of threads at a place. -/
def count (pool : ConnectionPool) (place : Place) : ℕ :=
  pool.clients.countP fun client => client.place = place

/-- The listed and the held connections are the initial ones, the counters count them, and there are as
many listed as the semaphore and the threads in between promise. -/
structure Conserves (maxConn : ℕ) (pool : ConnectionPool) : Prop where
  whole : (pool.connList ++ pool.held).Perm (List.range maxConn)
  freeConn : pool.freeConn = UInt32.ofNat pool.connList.length
  curConn : pool.curConn = UInt32.ofNat pool.held.length
  promised : pool.connList.length = pool.reserve + pool.count .granted + pool.count .posting
  defined : pool.undefined = false

variable {pool next : ConnectionPool} {maxConn thread con : ℕ} {place other : Place} {before after : List ℕ}

/-- One thread's change of place. -/
theorem count_setClient (counted : Place) (here : pool.clients[thread]? = some ⟨place, before⟩)
    (other : Place) (after : List ℕ) :
    (pool.setClient thread ⟨other, after⟩).count counted + (if place = counted then 1 else 0) =
      pool.count counted + if other = counted then 1 else 0 := by
  have changed := countP_set_add (fun client => decide (client.place = counted)) here ⟨other, after⟩
  simp only [decide_eq_true_eq] at changed
  exact changed

/-- One thread's change of connections. -/
theorem held_setClient (here : pool.clients[thread]? = some ⟨place, before⟩) (other : Place)
    (after : List ℕ) :
    ((pool.setClient thread ⟨other, after⟩).held ++ before).Perm (pool.held ++ after) :=
  flatMap_set_perm Client.held here ⟨other, after⟩

theorem held_move (here : pool.clients[thread]? = some ⟨place, before⟩) :
    (pool.setClient thread ⟨other, before⟩).held.Perm pool.held :=
  (List.perm_append_right_iff before).mp (held_setClient here other before)

theorem held_gain (here : pool.clients[thread]? = some ⟨place, before⟩) :
    (pool.setClient thread ⟨other, con :: before⟩).held.Perm (con :: pool.held) := by
  apply (List.perm_append_right_iff before).mp
  exact (held_setClient here other (con :: before)).trans List.perm_middle

theorem held_lose (here : pool.clients[thread]? = some ⟨place, before⟩) (member : con ∈ before) :
    pool.held.Perm (con :: (pool.setClient thread ⟨other, before.erase con⟩).held) := by
  apply (List.perm_append_right_iff (before.erase con)).mp
  refine (held_setClient here other (before.erase con)).symm.trans ?_
  exact ((List.perm_cons_erase member).append_left _).trans List.perm_middle

/-- A counter of 32 bits goes up and down again. -/
theorem ofNat_succ (value : ℕ) : UInt32.ofNat (value + 1) = UInt32.ofNat value + 1 :=
  UInt32.ofNat_add value 1

/-! ## One action -/

/-- What an action does, with where its thread has stood before. -/
inductive Moves (pool : ConnectionPool) : ConnectionEvent → ConnectionPool → Prop where
  | refused {thread : ℕ} {held : List ℕ} (here : pool.clients[thread]? = some ⟨.outside, held⟩)
      (empty : pool.connList.length = 0) :
      Moves pool (.check thread) { pool with returned := pool.returned ++ [(thread, none)] }
  | checked {thread : ℕ} {held : List ℕ} (here : pool.clients[thread]? = some ⟨.outside, held⟩)
      (listed : pool.connList.length ≠ 0) :
      Moves pool (.check thread) (pool.setClient thread ⟨.checked, held⟩)
  | waited {thread : ℕ} {held : List ℕ} (here : pool.clients[thread]? = some ⟨.checked, held⟩)
      (token : 0 < pool.reserve) :
      Moves pool (.wait thread)
        { pool.setClient thread ⟨.granted, held⟩ with reserve := pool.reserve - 1 }
  | interrupted {thread : ℕ} {held : List ℕ} (here : pool.clients[thread]? = some ⟨.checked, held⟩) :
      Moves pool (.interrupted thread) (pool.setClient thread ⟨.granted, held⟩)
  | takes {thread : ℕ} {held : List ℕ} (here : pool.clients[thread]? = some ⟨.granted, held⟩) :
      Moves pool (.takeFront thread) (pool.takeFront thread held)
  | releasesNull {thread : ℕ} {held : List ℕ} (here : pool.clients[thread]? = some ⟨.outside, held⟩) :
      Moves pool (.release thread none) pool
  | releases {thread con : ℕ} {held : List ℕ} (here : pool.clients[thread]? = some ⟨.outside, held⟩)
      (member : con ∈ held) : Moves pool (.release thread (some con)) (pool.pushBack thread held con)
  | posts {thread : ℕ} {held : List ℕ} (here : pool.clients[thread]? = some ⟨.posting, held⟩) :
      Moves pool (.post thread)
        { pool.setClient thread ⟨.outside, held⟩ with reserve := semPost pool.reserve }

theorem moves_of_step {event : ConnectionEvent} (stepped : pool.step event = some next) :
    Moves pool event next := by
  cases event with
  | check thread =>
    simp only [ConnectionPool.step] at stepped
    split at stepped
    · next held here =>
      split_ifs at stepped with empty
      · cases stepped
        exact .refused here empty
      · cases stepped
        exact .checked here empty
    · cases stepped
  | wait thread =>
    simp only [ConnectionPool.step] at stepped
    split at stepped
    · next held here =>
      split_ifs at stepped with token
      cases stepped
      exact .waited here token
    · cases stepped
  | interrupted thread =>
    simp only [ConnectionPool.step] at stepped
    split at stepped
    · next held here =>
      cases stepped
      exact .interrupted here
    · cases stepped
  | takeFront thread =>
    simp only [ConnectionPool.step] at stepped
    split at stepped
    · next held here =>
      cases stepped
      exact .takes here
    · cases stepped
  | release thread con =>
    simp only [ConnectionPool.step] at stepped
    split at stepped
    · next held here =>
      cases con with
      | none =>
        cases stepped
        exact .releasesNull here
      | some con =>
        dsimp only at stepped
        split_ifs at stepped with member
        cases stepped
        exact .releases here member
    · cases stepped
  | post thread =>
    simp only [ConnectionPool.step] at stepped
    split at stepped
    · next held here =>
      cases stepped
      exact .posts here
    · cases stepped

/-! ## The pool after `init` -/

/-- The loop appends the connections in order and counts them. -/
theorem createConnections_eq {connects : ℕ → Bool} {count i : ℕ}
    (created : createConnections connects count i pool = some next) :
    next = { pool with
      connList := pool.connList ++ List.range' i count
      freeConn := pool.freeConn + UInt32.ofNat count } := by
  induction count generalizing i pool with
  | zero =>
    cases created
    simp
  | succ count ih =>
    rw [createConnections] at created
    split_ifs at created
    rw [ih created, List.range'_succ, List.append_assoc]
    simp [UInt32.add_assoc, UInt32.add_comm]

theorem conserves_init {connects : ℕ → Bool} {max : UInt32} {threads : ℕ}
    (start : init connects max threads = some pool) :
    max.toNat ≤ semValueMax ∧ pool.connList = List.range max.toNat ∧
      pool.clients = List.replicate threads ⟨.outside, []⟩ ∧ pool.returned = [] ∧
      Conserves max.toNat pool := by
  rw [init] at start
  split_ifs at start with large
  obtain ⟨created, made, rfl⟩ := Option.map_eq_some_iff.mp start
  rw [createConnections_eq made]
  have noneHeld : (blank threads).held = [] := by simp [held, blank]
  have nobody : ∀ place ≠ Place.outside, (blank threads).count place = 0 := by
    intro place differ
    simp [count, blank, List.countP_replicate, differ.symm]
  refine ⟨Nat.le_of_not_lt large, List.range_eq_range'.symm, rfl, rfl, ?_⟩
  constructor
  · change ([] ++ List.range' 0 max.toNat ++ (blank threads).held).Perm _
    rw [noneHeld, List.nil_append, List.append_nil, List.range_eq_range']
  · simp [blank]
  · change (0 : UInt32) = UInt32.ofNat (blank threads).held.length
    rw [noneHeld]
    rfl
  · change _ = _ + (blank threads).count .granted + (blank threads).count .posting
    rw [nobody .granted (by decide), nobody .posting (by decide)]
    simp [blank]
  · rfl

namespace Conserves

/-- A thread goes from one place to another outside the locked sections. -/
theorem move (conserves : Conserves maxConn pool) {reserve : ℕ}
    (here : pool.clients[thread]? = some ⟨place, before⟩) (other : Place)
    (promised : pool.reserve + (if place = .granted then 1 else 0) + (if place = .posting then 1 else 0) =
      reserve + (if other = .granted then 1 else 0) + (if other = .posting then 1 else 0)) :
    Conserves maxConn { pool.setClient thread ⟨other, before⟩ with reserve } where
  whole := ((held_move here).append_left _).trans conserves.whole
  freeConn := conserves.freeConn
  curConn := conserves.curConn.trans (congrArg UInt32.ofNat (held_move here).length_eq.symm)
  promised := by
    have granted := count_setClient .granted here other before
    have posting := count_setClient .posting here other before
    have listed := conserves.promised
    change pool.connList.length = reserve + (pool.setClient thread ⟨other, before⟩).count .granted +
      (pool.setClient thread ⟨other, before⟩).count .posting
    omega
  defined := conserves.defined

/-- The locked part of `GetConnection`, behind a `wait` that has taken a token. -/
theorem takeFront (conserves : Conserves maxConn pool)
    (here : pool.clients[thread]? = some ⟨.granted, before⟩) :
    ∃ con rest, pool.connList = con :: rest ∧ Conserves maxConn (pool.takeFront thread before) := by
  have listed := conserves.promised
  have waiting : 0 < pool.count .granted :=
    List.countP_pos_iff.mpr ⟨_, List.mem_of_getElem? here, by simp⟩
  rcases list : pool.connList with _ | ⟨con, rest⟩
  · rw [list, List.length_nil] at listed
    omega
  · refine ⟨con, rest, rfl, ?_⟩
    have gained : (pool.setClient thread ⟨.outside, con :: before⟩).held.Perm (con :: pool.held) :=
      held_gain here
    have whole := conserves.whole
    have freeConn := conserves.freeConn
    rw [list] at whole freeConn listed
    rw [ConnectionPool.takeFront, list]
    constructor
    · exact ((gained.append_left rest).trans List.perm_middle).trans whole
    · dsimp only
      rw [freeConn, List.length_cons, ofNat_succ, UInt32.add_sub_cancel]
    · change pool.curConn + 1 = UInt32.ofNat (pool.setClient thread ⟨.outside, con :: before⟩).held.length
      rw [gained.length_eq, List.length_cons, ofNat_succ, conserves.curConn]
    · have granted := count_setClient .granted here .outside (con :: before)
      have posting := count_setClient .posting here .outside (con :: before)
      change rest.length = pool.reserve + (pool.setClient thread ⟨.outside, con :: before⟩).count .granted +
        (pool.setClient thread ⟨.outside, con :: before⟩).count .posting
      simp only [List.length_cons, reduceCtorEq, ↓reduceIte] at listed granted posting
      omega
    · exact conserves.defined

/-- The locked part of `ReleaseConnection`. -/
theorem pushBack (conserves : Conserves maxConn pool)
    (here : pool.clients[thread]? = some ⟨.outside, before⟩) (member : con ∈ before) :
    Conserves maxConn (pool.pushBack thread before con) := by
  have lost : pool.held.Perm (con :: (pool.setClient thread ⟨.posting, before.erase con⟩).held) :=
    held_lose here member
  constructor
  · change (pool.connList ++ [con] ++ (pool.setClient thread ⟨.posting, before.erase con⟩).held).Perm _
    rw [List.append_assoc, List.singleton_append]
    exact (lost.symm.append_left _).trans conserves.whole
  · change pool.freeConn + 1 = UInt32.ofNat (pool.connList ++ [con]).length
    rw [List.length_append, List.length_singleton, ofNat_succ, conserves.freeConn]
  · change pool.curConn - 1 =
      UInt32.ofNat (pool.setClient thread ⟨.posting, before.erase con⟩).held.length
    rw [conserves.curConn, lost.length_eq, List.length_cons, ofNat_succ, UInt32.add_sub_cancel]
  · have granted := count_setClient .granted here .posting (before.erase con)
    have posting := count_setClient .posting here .posting (before.erase con)
    have listed := conserves.promised
    change (pool.connList ++ [con]).length = pool.reserve +
      (pool.setClient thread ⟨.posting, before.erase con⟩).count .granted +
        (pool.setClient thread ⟨.posting, before.erase con⟩).count .posting
    rw [List.length_append, List.length_singleton]
    simp only [reduceCtorEq, ↓reduceIte] at granted posting
    omega
  · exact conserves.defined

/-- Every connection is listed or held. -/
theorem listed_add_held (conserves : Conserves maxConn pool) :
    pool.connList.length + pool.held.length = maxConn := by
  have lengths := conserves.whole.length_eq
  rwa [List.length_append, List.length_range] at lengths

/-- Every step but an interrupted wait keeps the connections. -/
theorem step {event : ConnectionEvent} (conserves : Conserves maxConn pool)
    (small : maxConn ≤ semValueMax) (uninterrupted : event.isInterrupted = false)
    (stepped : pool.step event = some next) : Conserves maxConn next := by
  cases moves_of_step stepped with
  | refused => exact { conserves with }
  | checked here => exact conserves.move here .checked rfl
  | waited here token =>
    apply conserves.move here .granted
    simp only [reduceCtorEq, ↓reduceIte]
    omega
  | interrupted => cases uninterrupted
  | takes here =>
    obtain ⟨_, _, _, taken⟩ := conserves.takeFront here
    exact taken
  | releasesNull => exact conserves
  | releases here member => exact conserves.pushBack here member
  | posts here =>
    apply conserves.move here .outside
    have posting : 0 < pool.count .posting :=
      List.countP_pos_iff.mpr ⟨_, List.mem_of_getElem? here, by simp⟩
    have listed := conserves.promised
    have bound := conserves.listed_add_held
    have below : pool.reserve < semValueMax := by omega
    rw [semPost, if_pos below]
    simp

end Conserves

/-! ## Threads that hold one connection at most -/

/-- A thread that asks for a connection holds none. -/
def HoldsNone (pool : ConnectionPool) : ConnectionEvent → Prop
  | .check thread => pool.clients[thread]?.all (fun client => client.held.isEmpty) = true
  | _ => True

instance (pool : ConnectionPool) (event : ConnectionEvent) : Decidable (pool.HoldsNone event) :=
  match event with
  | .check _ => inferInstanceAs (Decidable (_ = _))
  | .wait _ | .interrupted _ | .takeFront _ | .release _ _ | .post _ => isTrue trivial

/-- The thread holds one connection at most, and none while it waits for one. -/
def Single (client : Client) : Prop :=
  client.held.length ≤ 1 ∧ (client.place = .checked ∨ client.place = .granted → client.held = [])

/-- Every thread holds one connection at most, and `GetConnection` has not returned null. -/
structure Modest (threads : ℕ) (pool : ConnectionPool) : Prop where
  size : pool.clients.length = threads
  single : ∀ client ∈ pool.clients, Single client
  real : ∀ result ∈ pool.returned, result.2 ≠ none

/-- With one connection a thread at most, a thread that holds none leaves one over. -/
theorem held_length_lt (single : ∀ client ∈ pool.clients, Single client) {client : Client}
    (member : client ∈ pool.clients) (idle : client.held = []) :
    pool.held.length < pool.clients.length := by
  have counted : ∀ clients : List Client, (∀ client ∈ clients, Single client) →
      (clients.flatMap Client.held).length ≤ clients.countP fun client => !client.held.isEmpty := by
    intro clients each
    induction clients with
    | nil => exact le_refl 0
    | cons first rest ih =>
      obtain ⟨⟨few, _⟩, others⟩ := List.forall_mem_cons.mp each
      rw [List.flatMap_cons, List.length_append, List.countP_cons]
      have tail := ih others
      rcases holds : first.held with _ | ⟨con, more⟩
      · simpa [holds] using tail
      · rw [holds] at few
        simp only [List.length_cons] at few
        simp only [List.length_cons, List.isEmpty_cons, Bool.not_false, ↓reduceIte]
        omega
  apply (counted pool.clients single).trans_lt
  exact List.countP_lt_length_iff.mpr ⟨client, member, by simp [idle]⟩

namespace Modest

variable {threads : ℕ}

/-- One thread goes on. -/
theorem setClient (modest : Modest threads pool) (thread : ℕ) {client : Client} (single : Single client) :
    Modest threads (pool.setClient thread client) where
  size := List.length_set.trans modest.size
  single other member := by
    rcases List.mem_or_eq_of_mem_set member with before | rfl
    · exact modest.single other before
    · exact single
  real := modest.real

/-- With no more threads than connections, the list is not empty where a thread asks for one. -/
theorem step {event : ConnectionEvent} (modest : Modest threads pool)
    (shared : pool.connList.length + pool.held.length = maxConn) (enough : threads ≤ maxConn)
    (asks : pool.HoldsNone event) (stepped : pool.step event = some next) : Modest threads next := by
  cases moves_of_step stepped with
  | @refused thread held here empty =>
    rw [HoldsNone, here] at asks
    have spare := held_length_lt modest.single (List.mem_of_getElem? here) (List.isEmpty_iff.mp asks)
    have size := modest.size
    omega
  | @checked thread held here listed =>
    rw [HoldsNone, here] at asks
    obtain rfl : held = [] := List.isEmpty_iff.mp asks
    exact modest.setClient thread ⟨Nat.zero_le 1, fun _ => rfl⟩
  | @waited thread held here token =>
    obtain ⟨few, asking⟩ := modest.single _ (List.mem_of_getElem? here)
    have single : Single ⟨.granted, held⟩ := ⟨few, fun _ => asking (Or.inl rfl)⟩
    exact { modest.setClient thread single with }
  | @interrupted thread held here =>
    obtain ⟨few, asking⟩ := modest.single _ (List.mem_of_getElem? here)
    exact modest.setClient thread ⟨few, fun _ => asking (Or.inl rfl)⟩
  | @takes thread held here =>
    obtain rfl := (modest.single _ (List.mem_of_getElem? here)).2 (Or.inr rfl)
    rw [ConnectionPool.takeFront]
    rcases pool.connList with _ | ⟨con, rest⟩
    · exact { modest with }
    · have single : Single ⟨.outside, [con]⟩ := ⟨le_refl 1, by simp⟩
      refine { modest.setClient thread single with real := ?_ }
      intro result member
      rcases List.mem_append.mp member with before | new
      · exact modest.real result before
      · rw [List.mem_singleton.mp new]
        exact Option.some_ne_none con
  | releasesNull => exact modest
  | @releases thread con held here member =>
    obtain ⟨few, _⟩ := modest.single _ (List.mem_of_getElem? here)
    have single : Single ⟨.posting, held.erase con⟩ := ⟨(List.length_erase_le ..).trans few, by simp⟩
    exact { modest.setClient thread single with }
  | @posts thread held here =>
    obtain ⟨few, _⟩ := modest.single _ (List.mem_of_getElem? here)
    have single : Single ⟨.outside, held⟩ := ⟨few, by simp⟩
    exact { modest.setClient thread single with }

end Modest

theorem modest_of_outside {threads : ℕ}
    (clients : pool.clients = List.replicate threads ⟨.outside, []⟩) (returned : pool.returned = []) :
    Modest threads pool where
  size := clients ▸ List.length_replicate
  single client member := by
    rw [clients] at member
    rw [List.eq_of_mem_replicate member]
    exact ⟨Nat.zero_le 1, fun _ => rfl⟩
  real result member := by
    rw [returned] at member
    cases member

/-- In every run of any number of threads in which no wait is interrupted: the listed and the held
connections together are those `init` has made, each once; the counters count them; nothing is taken from
an empty list; and if there are no more threads than connections and each asks only while it holds none,
`GetConnection` returns a connection to each. -/
theorem connections_conserved (connects : ℕ → Bool) (maxConn : UInt32) (threads : ℕ)
    (events : List ConnectionEvent) (start pool : ConnectionPool)
    (made : init connects maxConn threads = some start)
    (uninterrupted : ∀ event ∈ events, event.isInterrupted = false)
    (ran : run step start events = some pool) :
    start.connList = List.range maxConn.toNat ∧ (pool.connList ++ pool.held).Perm start.connList ∧
      pool.held.Nodup ∧ pool.freeConn.toNat = pool.connList.length ∧
      pool.curConn.toNat = pool.held.length ∧ pool.undefined = false ∧
      (threads ≤ maxConn.toNat → Guarded step HoldsNone start events →
        ∀ result ∈ pool.returned, result.2 ≠ none) := by
  obtain ⟨small, connList, clients, returned, initial⟩ := conserves_init made
  have waits : Guarded step (fun _ event => event.isInterrupted = false) start events :=
    Guarded.of_forall uninterrupted
  have conserves : Conserves maxConn.toNat pool := invariant_of_guarded
    (fun _ _ _ conserves uninterrupted stepped => conserves.step small uninterrupted stepped)
    initial waits ran
  have together := conserves.listed_add_held
  have narrow : maxConn.toNat < UInt32.size := lt_of_le_of_lt small (by decide)
  refine ⟨connList, connList ▸ conserves.whole, ?_, ?_, ?_, conserves.defined, fun enough asks => ?_⟩
  · have distinct := conserves.whole.nodup_iff.mpr List.nodup_range
    exact (List.nodup_append.mp distinct).2.1
  · rw [conserves.freeConn]
    exact UInt32.toNat_ofNat_of_lt' (by omega)
  · rw [conserves.curConn]
    exact UInt32.toNat_ofNat_of_lt' (by omega)
  · have preserved : ∀ (before : ConnectionPool) (event : ConnectionEvent) (after : ConnectionPool),
        Conserves maxConn.toNat before ∧ Modest threads before →
          before.HoldsNone event ∧ event.isInterrupted = false → before.step event = some after →
            Conserves maxConn.toNat after ∧ Modest threads after := by
      rintro before event after ⟨conserves, modest⟩ ⟨asks, uninterrupted⟩ stepped
      exact ⟨conserves.step small uninterrupted stepped,
        modest.step conserves.listed_add_held enough asks stepped⟩
    have both := invariant_of_guarded preserved ⟨initial, modest_of_outside clients returned⟩
      (asks.and waits) ran
    exact both.2.real

/-- Two threads share two connections, and the second asks while the first has not posted yet. -/
theorem connections_conserved_two : ∃ start pool : ConnectionPool,
    (pool.connList ++ pool.held).Perm start.connList ∧ pool.undefined = false ∧
      (∀ result ∈ pool.returned, result.2 ≠ none) ∧ init (fun _ => true) 2 2 = some start :=
  let made := Option.some_get (by decide +kernel)
  let holds := connections_conserved (fun _ => true) 2 2
    [.check 0, .wait 0, .takeFront 0, .release 0 (some 0), .check 1, .post 0, .check 0, .wait 1, .wait 0,
      .takeFront 0, .takeFront 1] _ _ made.symm (by decide) (Option.some_get (by decide +kernel)).symm
  ⟨_, _, holds.2.1, holds.2.2.2.2.2.1,
    holds.2.2.2.2.2.2 (by decide +kernel) (by decide +kernel), made.symm⟩

end ConnectionPool

end WebServ.Pool
