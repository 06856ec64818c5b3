import WebServ.Soundness.ConnectionPool

/-! # When `GetConnection` yields a connection

The test for an empty list comes before the semaphore and outside the lock, and answers null where the
semaphore would wait. The result of the wait is ignored, so a thread that a signal has woken goes on to take
a connection that nobody has promised it, and leaves a token for one more thread than there are connections.
Neither happens as long as there are more listed connections than threads that have passed the wait.
-/

namespace WebServ.Pool

open WebServ.Machine

namespace ConnectionPool

/-- The test of `GetConnection` finds a connection, and a wait ends, by a token or by a signal, only while
there are more listed connections than threads between the wait and the locked part. -/
def FindsListed (pool : ConnectionPool) : ConnectionEvent → Prop
  | .check _ => pool.connList ≠ []
  | .wait _ | .interrupted _ => pool.count .granted < pool.connList.length
  | _ => True

instance (pool : ConnectionPool) (event : ConnectionEvent) : Decidable (pool.FindsListed event) :=
  match event with
  | .check _ => inferInstanceAs (Decidable (_ ≠ _))
  | .wait _ | .interrupted _ => inferInstanceAs (Decidable (_ < _))
  | .takeFront _ | .release _ _ | .post _ => isTrue trivial

/-- Every thread past the wait has a listed connection, and `GetConnection` has returned nothing but
connections. -/
structure Covered (pool : ConnectionPool) : Prop where
  granted : pool.count .granted ≤ pool.connList.length
  defined : pool.undefined = false
  real : ∀ result ∈ pool.returned, result.2 ≠ none

variable {pool next : ConnectionPool} {maxConn threads : ℕ}

namespace Covered

/-- A thread goes on outside the locked parts. -/
theorem move (covered : Covered pool) {thread : ℕ} {place : Place} {held : List ℕ} {reserve : ℕ}
    (here : pool.clients[thread]? = some ⟨place, held⟩) (other : Place)
    (room : other = .granted → pool.count .granted < pool.connList.length) :
    Covered { pool.setClient thread ⟨other, held⟩ with reserve } where
  granted := by
    have moved := count_setClient .granted here other held
    have bound := covered.granted
    change (pool.setClient thread ⟨other, held⟩).count .granted ≤ pool.connList.length
    by_cases passes : other = .granted
    · have spare := room passes
      rw [if_pos passes] at moved
      omega
    · rw [if_neg passes] at moved
      omega
  defined := covered.defined
  real := covered.real

/-- The locked part of `GetConnection`. -/
theorem takeFront (covered : Covered pool) {thread : ℕ} {held : List ℕ}
    (here : pool.clients[thread]? = some ⟨.granted, held⟩) : Covered (pool.takeFront thread held) := by
  have bound := covered.granted
  have waiting : 0 < pool.count .granted :=
    List.countP_pos_iff.mpr ⟨_, List.mem_of_getElem? here, by simp⟩
  rcases list : pool.connList with _ | ⟨con, rest⟩
  · rw [list, List.length_nil] at bound
    omega
  · rw [ConnectionPool.takeFront, list]
    have taken := count_setClient .granted here .outside (con :: held)
    simp only [reduceCtorEq, ↓reduceIte] at taken
    rw [list, List.length_cons] at bound
    refine ⟨?_, covered.defined, fun result member => ?_⟩
    · change (pool.setClient thread ⟨.outside, con :: held⟩).count .granted ≤ rest.length
      omega
    · rcases List.mem_append.mp member with before | new
      · exact covered.real result before
      · rw [List.mem_singleton.mp new]
        exact Option.some_ne_none con

/-- The locked part of `ReleaseConnection`. -/
theorem pushBack (covered : Covered pool) {thread con : ℕ} {held : List ℕ}
    (here : pool.clients[thread]? = some ⟨.outside, held⟩) : Covered (pool.pushBack thread held con) where
  granted := by
    have moved := count_setClient .granted here .posting (held.erase con)
    have bound := covered.granted
    simp only [reduceCtorEq, ↓reduceIte] at moved
    change (pool.setClient thread ⟨.posting, held.erase con⟩).count .granted ≤ (pool.connList ++ [con]).length
    rw [List.length_append]
    omega
  defined := covered.defined
  real := covered.real

theorem step {event : ConnectionEvent} (covered : Covered pool) (finds : pool.FindsListed event)
    (stepped : pool.step event = some next) : Covered next := by
  cases moves_of_step stepped with
  | refused here empty => exact absurd (List.eq_nil_of_length_eq_zero empty) finds
  | checked here => exact covered.move here .checked nofun
  | waited here => exact covered.move here .granted fun _ => finds
  | interrupted here => exact covered.move here .granted fun _ => finds
  | takes here => exact covered.takeFront here
  | releasesNull => exact covered
  | releases here => exact covered.pushBack here
  | posts here => exact covered.move here .outside nofun

end Covered

theorem covered_init {connects : ℕ → Bool} {max : UInt32} (start : init connects max threads = some pool) :
    Covered pool := by
  obtain ⟨_, _, _, returned, conserves⟩ := conserves_init start
  have promised := conserves.promised
  refine ⟨by omega, conserves.defined, fun result member => ?_⟩
  rw [returned] at member
  cases member

/-- In every run of any number of threads on any number of connections, with any waits interrupted, whose
steps meet the condition: `GetConnection` has returned a connection to each call, and nothing has been taken
from an empty list. -/
theorem yields_of_findsListed (connects : ℕ → Bool) (maxConn : UInt32) (threads : ℕ)
    (events : List ConnectionEvent) (start pool : ConnectionPool)
    (made : init connects maxConn threads = some start) (finds : Guarded step FindsListed start events)
    (ran : run step start events = some pool) :
    pool.undefined = false ∧ ∀ result ∈ pool.returned, result.2 ≠ none := by
  have covered : Covered pool := invariant_of_guarded
    (fun _ _ _ covered finds stepped => covered.step finds stepped) (covered_init made) finds ran
  exact ⟨covered.defined, covered.real⟩

/-- A signal wakes the second thread after the first has released the only connection and not posted
yet. -/
theorem yields_of_findsListed_interrupted : ∃ start pool : ConnectionPool,
    (pool.undefined = false ∧ ∀ result ∈ pool.returned, result.2 ≠ none) ∧
      init (fun _ => true) 1 2 = some start ∧ pool.returned = [(0, some 0), (1, some 0)] :=
  let made := Option.some_get (by decide +kernel)
  let ran := Option.some_get (by decide +kernel)
  ⟨_, _, yields_of_findsListed (fun _ => true) 1 2
    [.check 0, .check 1, .wait 0, .takeFront 0, .release 0 (some 0), .interrupted 1, .takeFront 1] _ _
    made.symm (by decide +kernel) ran.symm, made.symm, by decide +kernel⟩

/-- With all connections in use `GetConnection` returns null, and an interrupted wait takes from the empty
list. -/
theorem null_and_empty :
    (∃ start pool : ConnectionPool, init (fun _ => true) 1 2 = some start ∧
      run step start [.check 0, .wait 0, .takeFront 0, .check 1] = some pool ∧
      (1, none) ∈ pool.returned) ∧
    ∃ start pool : ConnectionPool, init (fun _ => true) 1 2 = some start ∧
      run step start [.check 0, .check 1, .wait 0, .takeFront 0, .interrupted 1, .takeFront 1] =
        some pool ∧ pool.undefined = true :=
  ⟨⟨_, _, (Option.some_get (by decide +kernel)).symm, (Option.some_get (by decide +kernel)).symm,
      by decide +kernel⟩,
    ⟨_, _, (Option.some_get (by decide +kernel)).symm, (Option.some_get (by decide +kernel)).symm,
      by decide +kernel⟩⟩

/-! ## Runs that meet the condition -/

/-- Without an interrupted wait, a token promises a connection, and only the test for an empty list
remains. -/
theorem findsListed_of_uninterrupted {connects : ℕ → Bool} {maxConn : UInt32} {events : List ConnectionEvent}
    {start : ConnectionPool} (made : init connects maxConn threads = some start)
    (waits : Guarded step
      (fun pool event => event.isInterrupted = false ∧ ∀ thread, event = .check thread → pool.connList ≠ [])
      start events)
    (ran : run step start events = some pool) : Guarded step FindsListed start events := by
  obtain ⟨small, _, _, _, initial⟩ := conserves_init made
  refine Guarded.of_invariant (fun _ _ _ conserves met stepped => ?_) ?_ initial waits ran
  · exact Conserves.step conserves small met.1 stepped
  · rintro before event after conserves ⟨uninterrupted, listed⟩ stepped
    have promised := conserves.promised
    cases moves_of_step stepped with
    | refused | checked => exact listed _ rfl
    | waited here token =>
      change before.count .granted < before.connList.length
      omega
    | interrupted => cases uninterrupted
    | takes | releasesNull | releases | posts => trivial

/-- A thread that holds a connection or waits for one is one of the threads. -/
theorem held_add_count_le (single : ∀ client ∈ pool.clients, Single client) :
    pool.held.length + pool.count .granted + pool.count .checked ≤ pool.clients.length := by
  rw [held, count, count]
  generalize pool.clients = clients at single ⊢
  induction clients with
  | nil => exact le_rfl
  | cons first rest ih =>
    obtain ⟨⟨few, asking⟩, others⟩ := List.forall_mem_cons.mp single
    have tail := ih others
    rw [List.flatMap_cons, List.length_append, List.countP_cons, List.countP_cons, List.length_cons]
    rcases first with ⟨place, held⟩
    dsimp only at few asking ⊢
    cases place with
    | outside | posting =>
      simp only [reduceCtorEq, decide_false, Bool.false_eq_true, ↓reduceIte]
      omega
    | checked | granted =>
      rw [asking (by simp)]
      simp only [reduceCtorEq, decide_false, decide_true, Bool.false_eq_true, ↓reduceIte, List.length_nil]
      omega

/-- A thread that goes on with the same connections. -/
private theorem held_length_move {thread : ℕ} {place : Place} {held : List ℕ}
    (here : pool.clients[thread]? = some ⟨place, held⟩) (other : Place) :
    (pool.setClient thread ⟨other, held⟩).held.length = pool.held.length :=
  (held_move here).length_eq

/-- No step makes a connection or loses one. -/
theorem listed_add_held_of_step {event : ConnectionEvent}
    (shared : pool.connList.length + pool.held.length = maxConn) (stepped : pool.step event = some next) :
    next.connList.length + next.held.length = maxConn := by
  cases moves_of_step stepped with
  | refused | releasesNull => exact shared
  | checked here => exact held_length_move here .checked ▸ shared
  | waited here => exact held_length_move here .granted ▸ shared
  | interrupted here => exact held_length_move here .granted ▸ shared
  | posts here => exact held_length_move here .outside ▸ shared
  | @takes thread held here =>
    rcases list : pool.connList with _ | ⟨con, rest⟩
    · rw [list] at shared
      rw [takeFront, list]
      exact shared
    · rw [takeFront, list]
      have gained : (pool.setClient thread ⟨.outside, con :: held⟩).held.Perm (con :: pool.held) :=
        held_gain here
      have more := gained.length_eq
      rw [list, List.length_cons] at shared
      change rest.length + (pool.setClient thread ⟨.outside, con :: held⟩).held.length = maxConn
      rw [List.length_cons] at more
      omega
  | @releases thread con held here member =>
    have lost : pool.held.Perm (con :: (pool.setClient thread ⟨.posting, held.erase con⟩).held) :=
      held_lose here member
    have fewer := lost.length_eq
    rw [List.length_cons] at fewer
    change (pool.connList ++ [con]).length + (pool.setClient thread ⟨.posting, held.erase con⟩).held.length = _
    rw [List.length_append, List.length_singleton]
    omega

/-- With no more threads than connections, of which each asks only while it holds none, even an interrupted
wait finds a connection. -/
theorem findsListed_of_enough {connects : ℕ → Bool} {maxConn : UInt32} {events : List ConnectionEvent}
    {start : ConnectionPool} (made : init connects maxConn threads = some start)
    (enough : threads ≤ maxConn.toNat) (asks : Guarded step HoldsNone start events)
    (ran : run step start events = some pool) : Guarded step FindsListed start events := by
  obtain ⟨_, _, clients, returned, initial⟩ := conserves_init made
  have begun : Modest threads start ∧ start.connList.length + start.held.length = maxConn.toNat :=
    ⟨modest_of_outside clients returned, initial.listed_add_held⟩
  have preserved : ∀ (before : ConnectionPool) (event : ConnectionEvent) (after : ConnectionPool),
      (Modest threads before ∧ before.connList.length + before.held.length = maxConn.toNat) →
        before.HoldsNone event → before.step event = some after →
          Modest threads after ∧ after.connList.length + after.held.length = maxConn.toNat := by
    rintro before event after ⟨modest, shared⟩ asks stepped
    exact ⟨modest.step shared enough asks stepped, listed_add_held_of_step shared stepped⟩
  refine Guarded.of_invariant preserved ?_ begun asks ran
  rintro before event after ⟨modest, shared⟩ asks stepped
  have size := modest.size
  have counted := held_add_count_le modest.single
  have asking : ∀ (thread : ℕ) (held : List ℕ), before.clients[thread]? = some (Client.mk .checked held) →
      before.count .granted < before.connList.length := by
    intro thread held here
    have one : 0 < before.count .checked :=
      List.countP_pos_iff.mpr ⟨_, List.mem_of_getElem? here, by simp⟩
    omega
  cases moves_of_step stepped with
  | @refused thread held here | @checked thread held here =>
    rw [HoldsNone, here] at asks
    have spare := held_length_lt modest.single (List.mem_of_getElem? here) (List.isEmpty_iff.mp asks)
    exact List.ne_nil_of_length_pos (by omega)
  | waited here => exact asking _ _ here
  | interrupted here => exact asking _ _ here
  | takes | releasesNull | releases | posts => trivial

end ConnectionPool

end WebServ.Pool
