import WebServ.Model.Workers
import WebServ.Soundness.ThreadPool
import WebServ.Soundness.GetConnection
import Mathlib.Data.List.Nodup

/-! # Every worker has a connection of its own

A request is read and written by the one worker that serves it, so the connection it finds in the member
`mysql` is the one the worker has got. With no more workers than connections no worker waits for ever: the
tokens, the workers past the wait and the posts still to come cover the listed connections even where waits
are interrupted, and of the connections one is left over for each worker that asks. Under weak fairness of
the workers every accepted request is processed, and the calls of `process` return as the thread pool needs.
-/

namespace WebServ.Pool

open WebServ.Machine

/-! ## Any threads -/

namespace ConnectionPool

variable {pool next : ConnectionPool}

/-- No step makes a connection, loses one or doubles one. -/
theorem perm_of_step {event : ConnectionEvent} (defined : next.undefined = false)
    (stepped : pool.step event = some next) :
    (next.connList ++ next.held).Perm (pool.connList ++ pool.held) := by
  have moved : ∀ {thread : ℕ} {place : Place} {held : List ℕ},
      pool.clients[thread]? = some ⟨place, held⟩ → ∀ other,
        (pool.connList ++ (pool.setClient thread ⟨other, held⟩).held).Perm (pool.connList ++ pool.held) :=
    fun here _ => (held_move here).append_left _
  cases moves_of_step stepped with
  | refused | releasesNull => exact List.Perm.refl _
  | checked here => exact moved here .checked
  | waited here => exact moved here .granted
  | interrupted here => exact moved here .granted
  | posts here => exact moved here .outside
  | @takes thread held here =>
    rcases list : pool.connList with _ | ⟨con, rest⟩
    · rw [takeFront, list] at defined
      cases defined
    · rw [takeFront, list]
      have gained : (pool.setClient thread ⟨.outside, con :: held⟩).held.Perm (con :: pool.held) :=
        held_gain here
      exact (gained.append_left rest).trans List.perm_middle
  | @releases thread con held here member =>
    have lost : pool.held.Perm (con :: (pool.setClient thread ⟨.posting, held.erase con⟩).held) :=
      held_lose here member
    change (pool.connList ++ [con] ++ (pool.setClient thread ⟨.posting, held.erase con⟩).held).Perm _
    rw [List.append_assoc, List.singleton_append]
    exact lost.symm.append_left _

/-- The tokens, the threads past the wait and the posts still to come cover the listed connections. -/
def Promised (pool : ConnectionPool) : Prop :=
  pool.connList.length ≤ pool.reserve + pool.count .granted + pool.count .posting

/-- A thread goes from one place to another outside the locked sections. -/
theorem Promised.move (promised : Promised pool) {thread reserve : ℕ} {place : Place} {held : List ℕ}
    (here : pool.clients[thread]? = some ⟨place, held⟩) (other : Place)
    (covered : pool.connList.length ≤ pool.reserve + pool.count .granted + pool.count .posting →
      pool.connList.length + (if place = .granted then 1 else 0) + (if place = .posting then 1 else 0) ≤
        reserve + pool.count .granted + pool.count .posting + (if other = .granted then 1 else 0) +
          if other = .posting then 1 else 0) :
    Promised { pool.setClient thread ⟨other, held⟩ with reserve } := by
  have granted := count_setClient .granted here other held
  have posting := count_setClient .posting here other held
  have still := covered promised
  change pool.connList.length ≤ reserve + (pool.setClient thread ⟨other, held⟩).count .granted +
    (pool.setClient thread ⟨other, held⟩).count .posting
  omega

/-- Every step keeps the promise, an interrupted wait as well. -/
theorem Promised.step {event : ConnectionEvent} (promised : Promised pool)
    (small : pool.connList.length ≤ semValueMax) (stepped : pool.step event = some next) :
    Promised next := by
  cases moves_of_step stepped with
  | refused | releasesNull => exact promised
  | checked here => exact promised.move here .checked (by simp)
  | waited here token =>
    apply promised.move here .granted
    simp only [reduceCtorEq, ↓reduceIte]
    omega
  | interrupted here =>
    apply promised.move here .granted
    simp only [reduceCtorEq, ↓reduceIte]
    omega
  | @takes thread held here =>
    rcases list : pool.connList with _ | ⟨con, rest⟩
    · rw [Promised, list] at promised
      rw [takeFront, list]
      exact promised
    · have granted := count_setClient .granted here .outside (con :: held)
      have posting := count_setClient .posting here .outside (con :: held)
      rw [Promised, list, List.length_cons] at promised
      rw [takeFront, list]
      simp only [reduceCtorEq, ↓reduceIte] at granted posting
      change rest.length ≤ pool.reserve + (pool.setClient thread ⟨.outside, con :: held⟩).count .granted +
        (pool.setClient thread ⟨.outside, con :: held⟩).count .posting
      omega
  | @releases thread con held here =>
    have granted := count_setClient .granted here .posting (held.erase con)
    have posting := count_setClient .posting here .posting (held.erase con)
    rw [Promised] at promised
    simp only [reduceCtorEq, ↓reduceIte] at granted posting
    change (pool.connList ++ [con]).length ≤ pool.reserve +
      (pool.setClient thread ⟨.posting, held.erase con⟩).count .granted +
        (pool.setClient thread ⟨.posting, held.erase con⟩).count .posting
    rw [List.length_append, List.length_singleton]
    omega
  | posts here =>
    apply promised.move here .outside
    intro covered
    have posting : 0 < pool.count .posting :=
      List.countP_pos_iff.mpr ⟨_, List.mem_of_getElem? here, by simp⟩
    have reaches : pool.connList.length ≤
        semPost pool.reserve + (pool.count .granted + (pool.count .posting - 1)) :=
      ThreadPool.semPost_covers small (by omega)
    simp only [reduceCtorEq, ↓reduceIte]
    omega

/-- A step leaves the other threads alone. -/
theorem client_of_other {event : ConnectionEvent} {thread : ℕ} (stepped : pool.step event = some next)
    (other : event.thread ≠ thread) : next.clients[thread]? = pool.clients[thread]? := by
  have elsewhere : ∀ {actor : ℕ} {client : Client}, actor ≠ thread →
      (pool.setClient actor client).clients[thread]? = pool.clients[thread]? :=
    fun differ => List.getElem?_set_ne differ
  cases moves_of_step stepped with
  | refused | releasesNull => rfl
  | checked | waited | interrupted | posts | releases => exact elsewhere other
  | @takes actor held =>
    rw [takeFront]
    rcases pool.connList with _ | ⟨con, rest⟩
    · rfl
    · exact elsewhere other

theorem clients_length_of_step {event : ConnectionEvent} (stepped : pool.step event = some next) :
    next.clients.length = pool.clients.length := by
  cases moves_of_step stepped with
  | refused | releasesNull => rfl
  | checked | waited | interrupted | posts | releases => exact List.length_set ..
  | takes =>
    rw [takeFront]
    rcases pool.connList with _ | ⟨con, rest⟩
    · rfl
    · exact List.length_set ..

/-- Only a thread past the wait takes from the list. -/
theorem defined_of_step {event : ConnectionEvent} (defined : pool.undefined = false)
    (listed : ∀ thread held, event = .takeFront thread → pool.clients[thread]? = some ⟨.granted, held⟩ →
      pool.connList ≠ [])
    (stepped : pool.step event = some next) : next.undefined = false := by
  cases moves_of_step stepped with
  | refused | releasesNull | checked | waited | interrupted | posts | releases => exact defined
  | @takes thread held here =>
    rw [takeFront]
    rcases list : pool.connList with _ | ⟨con, rest⟩
    · exact absurd list (listed thread held rfl here)
    · exact defined

/-- A thread in the pool holds nothing, and a thread outside one connection at most. -/
def Frugal (client : Client) : Prop := client.held.length ≤ 1 ∧ (client.place ≠ .outside → client.held = [])

/-- Of frugal threads each is counted once. -/
theorem held_add_counts_le (frugal : ∀ client ∈ pool.clients, Frugal client) :
    pool.held.length + pool.count .granted + pool.count .posting + pool.count .checked ≤
      pool.clients.length := by
  rw [held, count, count, count]
  generalize pool.clients = clients at frugal ⊢
  induction clients with
  | nil => exact le_rfl
  | cons first rest ih =>
    obtain ⟨⟨few, inside⟩, others⟩ := List.forall_mem_cons.mp frugal
    have tail := ih others
    rw [List.flatMap_cons, List.length_append, List.countP_cons, List.countP_cons, List.countP_cons,
      List.length_cons]
    rcases first with ⟨place, held⟩
    dsimp only at few inside ⊢
    cases place with
    | outside =>
      simp only [reduceCtorEq, decide_false, Bool.false_eq_true, ↓reduceIte]
      omega
    | checked | granted | posting =>
      rw [inside (by simp)]
      simp only [reduceCtorEq, decide_false, decide_true, Bool.false_eq_true, ↓reduceIte, List.length_nil]
      omega

/-- With no more frugal threads than connections, a thread that holds nothing leaves one in the list. -/
theorem listed_of_frugal {maxConn : ℕ} (frugal : ∀ client ∈ pool.clients, Frugal client)
    (shared : pool.connList.length + pool.held.length = maxConn) (enough : pool.clients.length ≤ maxConn)
    {client : Client} (member : client ∈ pool.clients) (idle : client.held = []) : pool.connList ≠ [] := by
  have single : ∀ client ∈ pool.clients, Single client := by
    intro client member
    obtain ⟨few, inside⟩ := frugal client member
    refine ⟨few, fun asking => inside fun outside => ?_⟩
    simp [outside] at asking
  have spare := held_length_lt single member idle
  exact List.ne_nil_of_length_pos (by omega)

/-- And a thread that waits finds a token. -/
theorem token_of_frugal {maxConn : ℕ} (promised : Promised pool)
    (frugal : ∀ client ∈ pool.clients, Frugal client)
    (shared : pool.connList.length + pool.held.length = maxConn) (enough : pool.clients.length ≤ maxConn)
    {client : Client} (member : client ∈ pool.clients) (waits : client.place = .checked) :
    0 < pool.reserve := by
  have counted := held_add_counts_le frugal
  have one : 0 < pool.count .checked := List.countP_pos_iff.mpr ⟨client, member, by simp [waits]⟩
  rw [Promised] at promised
  omega

end ConnectionPool

/-! ## One action of the workers -/

/-- The worker that takes the step. -/
def WorkersEvent.worker? {α : Type*} : WorkersEvent α → Option ℕ
  | .pool event => event.worker?
  | .connection event => some event.thread
  | .assign worker | .construct worker | .process worker | .finish worker => some worker

/-- The places between the end of `pop_front` and the return of `process`. -/
def RunPlace.inRequest : RunPlace → Bool
  | .getting | .got _ | .assigned | .processing _ => true
  | _ => false

namespace Workers

variable {α : Type*} {size : Size} {workers next : Workers α} {worker : ℕ}

/-- Where a worker stands, with its stage in the thread pool and its place in the connection pool. -/
structure Stands (workers : Workers α) (worker : ℕ) (place : RunPlace) (stage : Stage α) (client : Client) :
    Prop where
  place : workers.places worker = place
  stage : workers.requests.stages[worker]? = some stage
  client : workers.connections.clients[worker]? = some client

@[simp] theorem goTo_places_self (workers : Workers α) (worker : ℕ) (place : RunPlace) :
    (workers.goTo worker place).places worker = place :=
  Function.update_self ..

/-- The worker has the request and has not returned from `process`. -/
def Serves (workers : Workers α) (worker : ℕ) (request : α) : Prop :=
  (workers.places worker).inRequest = true ∧ workers.requests.stages[worker]? = some (.processing request)

instance [DecidableEq α] (request : α) : Decidable (workers.Serves worker request) :=
  inferInstanceAs (Decidable (_ ∧ _))

/-- No request is taken that another worker has and has not returned from `process` with. -/
def Apart (workers : Workers α) : WorkersEvent α → Prop
  | .pool (.popFront _) =>
      ∀ request ∈ workers.requests.workqueue.head?, ∀ other < workers.requests.stages.length,
        ¬workers.Serves other request
  | _ => True

instance [DecidableEq α] (event : WorkersEvent α) : Decidable (workers.Apart event) :=
  match event with
  | .pool (.popFront _) => inferInstanceAs (Decidable (∀ _ ∈ _, _))
  | .pool (.append _) | .pool .post | .pool (.wait _) | .pool (.interrupted _) | .pool (.processed _)
  | .connection _ | .assign _ | .construct _ | .process _ | .finish _ => isTrue trivial

/-- What belongs together: a worker with a request is where its client is, holds one connection between
`GetConnection` and `ReleaseConnection`, and has it in the member of the request until `process` returns. -/
inductive Fits (mysql : α → Option ℕ) : RunPlace → Stage α → Client → Prop where
  | outside {stage : Stage α} (idle : ∀ request, stage ≠ .processing request) :
      Fits mysql .outside stage ⟨.outside, []⟩
  | getting {request : α} {place : Place} (asks : place ≠ .posting) :
      Fits mysql .getting (.processing request) ⟨place, []⟩
  | got {request : α} {con : ℕ} : Fits mysql (.got (some con)) (.processing request) ⟨.outside, [con]⟩
  | assigned {request : α} {con : ℕ} (assigned : mysql request = some con) :
      Fits mysql .assigned (.processing request) ⟨.outside, [con]⟩
  | processing {request : α} {con : ℕ} (assigned : mysql request = some con) :
      Fits mysql (.processing (some con)) (.processing request) ⟨.outside, [con]⟩
  | releasing {request : α} {con : ℕ} :
      Fits mysql (.releasing (some con)) (.processing request) ⟨.outside, [con]⟩
  | posting {request : α} : Fits mysql .posting (.processing request) ⟨.posting, []⟩
  | ended {request : α} : Fits mysql .ended (.processing request) ⟨.outside, []⟩

theorem Fits.frugal {mysql : α → Option ℕ} {place : RunPlace} {stage : Stage α} {client : Client}
    (fits : Fits mysql place stage client) : ConnectionPool.Frugal client := by
  cases fits <;> simp [ConnectionPool.Frugal]

/-- The invariant of the two pools and the workers between them. -/
structure Tied (size : Size) (maxConn : ℕ) (workers : Workers α) : Prop where
  accounted : ThreadPool.Accounted size workers.requests
  threads : workers.connections.clients.length = size.threadNumber
  fits : ∀ worker stage client, workers.requests.stages[worker]? = some stage →
    workers.connections.clients[worker]? = some client →
      Fits workers.mysql (workers.places worker) stage client
  inside : ∀ worker, workers.places worker ≠ .outside → worker < size.threadNumber
  apart : ∀ one other request, workers.Serves one request → workers.Serves other request → one = other
  whole : (workers.connections.connList ++ workers.connections.held).Perm (List.range maxConn)
  promised : workers.connections.Promised
  defined : workers.connections.undefined = false

variable {place : RunPlace} {stage : Stage α} {client : Client} {request : α}

theorem serves_iff (stands : Stands workers worker place stage client) :
    workers.Serves worker request ↔ place.inRequest = true ∧ stage = .processing request := by
  rw [Serves, stands.place, stands.stage, Option.some.injEq]

namespace Tied

variable {maxConn : ℕ}

/-- Every worker is a thread of both pools. -/
theorem exists_client (tied : Tied size maxConn workers)
    (here : workers.requests.stages[worker]? = some stage) :
    ∃ client, workers.connections.clients[worker]? = some client := by
  have bound := (List.getElem?_eq_some_iff.mp here).1
  rw [tied.accounted.threads, ← tied.threads] at bound
  exact ⟨_, List.getElem?_eq_getElem bound⟩

theorem exists_stage (tied : Tied size maxConn workers)
    (here : workers.connections.clients[worker]? = some client) :
    ∃ stage, workers.requests.stages[worker]? = some stage := by
  have bound := (List.getElem?_eq_some_iff.mp here).1
  rw [tied.threads, ← tied.accounted.threads] at bound
  exact ⟨_, List.getElem?_eq_getElem bound⟩

theorem frugal (tied : Tied size maxConn workers) :
    ∀ client ∈ workers.connections.clients, ConnectionPool.Frugal client := by
  intro client member
  obtain ⟨worker, here⟩ := List.mem_iff_getElem?.mp member
  obtain ⟨stage, stands⟩ := tied.exists_stage here
  exact (tied.fits worker stage client stands here).frugal

theorem shared (tied : Tied size maxConn workers) :
    workers.connections.connList.length + workers.connections.held.length = maxConn := by
  have lengths := tied.whole.length_eq
  rwa [List.length_append, List.length_range] at lengths

/-- `GetConnection` finds a connection. -/
theorem listed (tied : Tied size maxConn workers) (enough : size.threadNumber ≤ maxConn) {place : Place}
    (here : workers.connections.clients[worker]? = some ⟨place, []⟩) :
    workers.connections.connList ≠ [] :=
  ConnectionPool.listed_of_frugal tied.frugal tied.shared (tied.threads ▸ enough) (List.mem_of_getElem? here)
    rfl

theorem fitsAt (tied : Tied size maxConn workers) (stands : Stands workers worker place stage client) :
    Fits workers.mysql place stage client := by
  have fits := tied.fits worker stage client stands.stage stands.client
  rwa [stands.place] at fits

theorem exists_stands (tied : Tied size maxConn workers)
    (here : workers.requests.stages[worker]? = some stage) :
    ∃ client, Stands workers worker (workers.places worker) stage client := by
  obtain ⟨client, stands⟩ := tied.exists_client here
  exact ⟨client, rfl, here, stands⟩

/-- A worker in `process` has a request and a connection. -/
theorem exists_con (tied : Tied size maxConn workers) {conRAII : Option ℕ}
    (place : workers.places worker = .processing conRAII) : ∃ request con, conRAII = some con ∧
      workers.mysql request = some con ∧
      Stands workers worker (.processing conRAII) (.processing request) ⟨.outside, [con]⟩ := by
  have bound := tied.inside worker (by simp [place])
  rw [← tied.accounted.threads] at bound
  obtain ⟨client, stands⟩ := tied.exists_stands (List.getElem?_eq_getElem bound)
  rw [place] at stands
  generalize workers.requests.stages[worker] = stage at stands
  cases tied.fitsAt stands with
  | processing assigned => exact ⟨_, _, rfl, assigned, stands⟩

/-- A connection is held by one worker. -/
theorem holder_unique (tied : Tied size maxConn workers) {one other con : ℕ} {first second : Client}
    (here : workers.connections.clients[one]? = some first)
    (there : workers.connections.clients[other]? = some second) (left : con ∈ first.held)
    (right : con ∈ second.held) : one = other := by
  have distinct := (List.nodup_append.mp (tied.whole.nodup_iff.mpr List.nodup_range)).2.1
  have disjoint := List.pairwise_iff_getElem.mp (List.nodup_flatMap.mp distinct).2
  obtain ⟨boundOne, rfl⟩ := List.getElem?_eq_some_iff.mp here
  obtain ⟨boundOther, rfl⟩ := List.getElem?_eq_some_iff.mp there
  rcases lt_trichotomy one other with less | same | more
  · exact absurd right (disjoint one other boundOne boundOther less left)
  · exact same
  · exact absurd left (disjoint other one boundOther boundOne more right)

/-- Two workers in `process` have two connections. -/
theorem con_unique (tied : Tied size maxConn workers) {one other : ℕ} {conRAII : Option ℕ}
    (first : workers.places one = .processing conRAII) (second : workers.places other = .processing conRAII) :
    one = other := by
  obtain ⟨_, con, rfl, _, stands⟩ := tied.exists_con first
  obtain ⟨_, again, same, _, stands'⟩ := tied.exists_con second
  obtain rfl := Option.some.inj same
  exact tied.holder_unique stands.client stands'.client (List.mem_singleton_self con)
    (List.mem_singleton_self con)

end Tied

/-! ## Steps -/

/-- What a worker's own step does to it. -/
inductive Turn (workers next : Workers α) (worker : ℕ) : WorkersEvent α → Prop where
  | wakes {event : PoolEvent α} {client : Client}
      (label : event = .wait worker ∨ event = .interrupted worker)
      (before : Stands workers worker .outside .waiting client)
      (after : Stands next worker .outside .woken client) : Turn workers next worker (.pool event)
  | findsNone {client : Client} (before : Stands workers worker .outside .woken client)
      (after : Stands next worker .outside .waiting client) :
      Turn workers next worker (.pool (.popFront worker))
  | takes {request : α} {client : Client} (queue : workers.requests.workqueue.head? = some request)
      (before : Stands workers worker .outside .woken client)
      (after : Stands next worker .getting (.processing request) client) :
      Turn workers next worker (.pool (.popFront worker))
  | checks {stage : Stage α} (before : Stands workers worker .getting stage ⟨.outside, []⟩)
      (after : Stands next worker .getting stage ⟨.checked, []⟩) :
      Turn workers next worker (.connection (.check worker))
  | waits {event : ConnectionEvent} {stage : Stage α}
      (label : event = .wait worker ∨ event = .interrupted worker)
      (before : Stands workers worker .getting stage ⟨.checked, []⟩)
      (after : Stands next worker .getting stage ⟨.granted, []⟩) :
      Turn workers next worker (.connection event)
  | gets {stage : Stage α} {con : ℕ} (before : Stands workers worker .getting stage ⟨.granted, []⟩)
      (after : Stands next worker (.got (some con)) stage ⟨.outside, [con]⟩) :
      Turn workers next worker (.connection (.takeFront worker))
  | assigns {request : α} {con : Option ℕ} {client : Client}
      (before : Stands workers worker (.got con) (.processing request) client)
      (after : Stands next worker .assigned (.processing request) client)
      (stored : next.mysql request = con) : Turn workers next worker (.assign worker)
  | constructs {request : α} {client : Client}
      (before : Stands workers worker .assigned (.processing request) client)
      (after : Stands next worker (.processing (workers.mysql request)) (.processing request) client) :
      Turn workers next worker (.construct worker)
  | processes {stage : Stage α} {conRAII : Option ℕ} {client : Client}
      (before : Stands workers worker (.processing conRAII) stage client)
      (after : Stands next worker (.releasing conRAII) stage client) :
      Turn workers next worker (.process worker)
  | releases {stage : Stage α} {con : ℕ}
      (before : Stands workers worker (.releasing (some con)) stage ⟨.outside, [con]⟩)
      (after : Stands next worker .posting stage ⟨.posting, []⟩) :
      Turn workers next worker (.connection (.release worker (some con)))
  | posts {stage : Stage α} (before : Stands workers worker .posting stage ⟨.posting, []⟩)
      (after : Stands next worker .ended stage ⟨.outside, []⟩) :
      Turn workers next worker (.connection (.post worker))
  | finishes {request : α} {client : Client} (before : Stands workers worker .ended (.processing request) client)
      (after : Stands next worker .outside .waiting client) : Turn workers next worker (.finish worker)

/-- The steps a worker is due to take in the connection pool. -/
inductive Due (connections : ConnectionPool) : RunPlace → ConnectionEvent → RunPlace → Prop where
  | refused {thread : ℕ} (empty : connections.connList.length = 0) :
      Due connections .getting (.check thread) (.got none)
  | checks {thread : ℕ} (listed : connections.connList.length ≠ 0) :
      Due connections .getting (.check thread) .getting
  | waits {thread : ℕ} : Due connections .getting (.wait thread) .getting
  | interrupted {thread : ℕ} : Due connections .getting (.interrupted thread) .getting
  | takes {thread : ℕ} : Due connections .getting (.takeFront thread) (.got connections.connList.head?)
  | releasesNull {thread : ℕ} : Due connections (.releasing none) (.release thread none) .ended
  | releases {thread con : ℕ} :
      Due connections (.releasing (some con)) (.release thread (some con)) .posting
  | posts {thread : ℕ} : Due connections .posting (.post thread) .ended

theorem due_of_behind {connections : ConnectionPool} {place other : RunPlace} {event : ConnectionEvent}
    (due : place.behind connections event = some other) : Due connections place event other := by
  rw [RunPlace.behind.eq_def] at due
  split at due
  · split_ifs at due with listed
    · cases due
      exact .refused listed
    · cases due
      exact .checks listed
  · cases due
    exact .waits
  · cases due
    exact .interrupted
  · cases due
    exact .takes
  · next conRAII _ con =>
    split_ifs at due with same null
    · cases due
      subst same null
      exact .releasesNull
    · cases due
      subst same
      obtain ⟨con, rfl⟩ := Option.ne_none_iff_exists'.mp null
      exact .releases
  · cases due
    exact .posts
  · cases due

/-- A worker gets a request by taking it. -/
theorem Turn.serves {event : WorkersEvent α} (turn : Turn workers next worker event)
    (serves : next.Serves worker request) : workers.Serves worker request ∨
      event = .pool (.popFront worker) ∧ workers.requests.workqueue.head? = some request := by
  cases turn with
  | wakes _ _ after => simp [serves_iff after] at serves
  | findsNone _ after => simp [serves_iff after] at serves
  | takes queue before after =>
    obtain ⟨_, same⟩ := (serves_iff after).mp serves
    cases same
    exact Or.inr ⟨rfl, queue⟩
  | checks before after | waits _ before after | gets before after | assigns before after
  | constructs before after =>
    left
    rw [serves_iff after] at serves
    rw [serves_iff before]
    exact ⟨rfl, serves.2⟩
  | processes before after | releases before after | posts before after =>
    rw [serves_iff after] at serves
    cases serves.1
  | finishes before after => simp [serves_iff after] at serves

/-- In the connection pool. -/
theorem turn_of_connection {maxConn : ℕ} {event : ConnectionEvent} {place : RunPlace}
    {connections : ConnectionPool} (tied : Tied size maxConn workers) (enough : size.threadNumber ≤ maxConn)
    (own : event.thread = worker) (due : Due workers.connections (workers.places worker) event place)
    (moved : workers.connections.step event = some connections) :
    Turn workers ({ workers with connections }.goTo worker place) worker (.connection event) := by
  have arrives : ∀ {old client : Client}, workers.connections.clients[worker]? = some old →
      (workers.connections.setClient worker client).clients[worker]? = some client :=
    fun here => List.getElem?_set_self (List.getElem?_eq_some_iff.mp here).1
  have goes : ∀ place, Function.update workers.places worker place worker = place :=
    fun place => Function.update_self ..
  have stands : ∀ {client : Client}, workers.connections.clients[worker]? = some client →
      ∃ stage, workers.requests.stages[worker]? = some stage ∧
        Fits workers.mysql (workers.places worker) stage client := by
    intro client here
    obtain ⟨stage, stands⟩ := tied.exists_stage here
    exact ⟨stage, stands, tied.fits worker stage client stands here⟩
  generalize here : workers.places worker = old at due stands
  cases ConnectionPool.moves_of_step moved with
  | refused asks empty =>
    obtain rfl := own
    obtain ⟨stage, inStage, fits⟩ := stands asks
    cases due with
    | checks listed => exact absurd empty listed
    | refused =>
      cases fits with
      | getting => exact absurd (List.eq_nil_of_length_eq_zero empty) (tied.listed enough asks)
  | checked asks listed =>
    obtain rfl := own
    obtain ⟨stage, inStage, fits⟩ := stands asks
    cases due with
    | refused empty => exact absurd empty listed
    | checks =>
      cases fits with
      | getting => exact .checks ⟨here, inStage, asks⟩ ⟨goes _, inStage, arrives asks⟩
  | waited waits =>
    obtain rfl := own
    obtain ⟨stage, inStage, fits⟩ := stands waits
    cases due with
    | waits =>
      cases fits with
      | getting => exact .waits (Or.inl rfl) ⟨here, inStage, waits⟩ ⟨goes _, inStage, arrives waits⟩
  | interrupted waits =>
    obtain rfl := own
    obtain ⟨stage, inStage, fits⟩ := stands waits
    cases due with
    | interrupted =>
      cases fits with
      | getting => exact .waits (Or.inr rfl) ⟨here, inStage, waits⟩ ⟨goes _, inStage, arrives waits⟩
  | takes granted =>
    obtain rfl := own
    obtain ⟨stage, inStage, fits⟩ := stands granted
    cases due with
    | takes =>
      cases fits with
      | getting =>
        rcases list : workers.connections.connList with _ | ⟨con, rest⟩
        · exact absurd list (tied.listed enough granted)
        · rw [ConnectionPool.takeFront, list]
          exact .gets ⟨here, inStage, granted⟩ ⟨goes _, inStage, arrives granted⟩
  | releasesNull holds =>
    obtain rfl := own
    obtain ⟨stage, inStage, fits⟩ := stands holds
    cases due with
    | releasesNull => cases fits
  | @releases _ con held holds =>
    obtain rfl := own
    obtain ⟨stage, inStage, fits⟩ := stands holds
    cases due with
    | releases =>
      cases fits with
      | releasing =>
        have erased : [con].erase con = [] := List.erase_cons_head ..
        rw [ConnectionPool.pushBack, erased]
        exact .releases ⟨here, inStage, holds⟩ ⟨goes _, inStage, arrives holds⟩
  | posts posting =>
    obtain rfl := own
    obtain ⟨stage, inStage, fits⟩ := stands posting
    cases due with
    | posts =>
      cases fits with
      | posting => exact .posts ⟨here, inStage, posting⟩ ⟨goes _, inStage, arrives posting⟩

variable [DecidableEq α]

/-- What an action does. -/
inductive Acts (size : Size) (workers : Workers α) : WorkersEvent α → Workers α → Prop where
  | pool {event : PoolEvent α} {requests : ThreadPool α}
      (other : ∀ worker, event ≠ .popFront worker ∧ event ≠ .processed worker)
      (stepped : workers.requests.step size event = some requests) :
      Acts size workers (.pool event) { workers with requests }
  | findsNone {worker : ℕ} {requests : ThreadPool α} (empty : workers.requests.workqueue = [])
      (stepped : workers.requests.step size (.popFront worker) = some requests) :
      Acts size workers (.pool (.popFront worker)) { workers with requests }
  | takes {worker : ℕ} {request : α} {rest : List α} {requests : ThreadPool α}
      (queue : workers.requests.workqueue = request :: rest)
      (stepped : workers.requests.step size (.popFront worker) = some requests) :
      Acts size workers (.pool (.popFront worker)) ({ workers with requests }.goTo worker .getting)
  | connection {event : ConnectionEvent} {place : RunPlace} {connections : ConnectionPool}
      (due : (workers.places event.thread).behind workers.connections event = some place)
      (stepped : workers.connections.step event = some connections) :
      Acts size workers (.connection event) ({ workers with connections }.goTo event.thread place)
  | assign {worker : ℕ} {request : α} {con : Option ℕ} (place : workers.places worker = .got con)
      (stage : workers.requests.stages[worker]? = some (.processing request)) :
      Acts size workers (.assign worker)
        ({ workers with mysql := Function.update workers.mysql request con }.goTo worker .assigned)
  | construct {worker : ℕ} {request : α} (place : workers.places worker = .assigned)
      (stage : workers.requests.stages[worker]? = some (.processing request)) :
      Acts size workers (.construct worker) (workers.goTo worker (.processing (workers.mysql request)))
  | process {worker : ℕ} {conRAII : Option ℕ} (place : workers.places worker = .processing conRAII) :
      Acts size workers (.process worker) (workers.goTo worker (.releasing conRAII))
  | finish {worker : ℕ} {requests : ThreadPool α} (place : workers.places worker = .ended)
      (stepped : workers.requests.step size (.processed worker) = some requests) :
      Acts size workers (.finish worker) ({ workers with requests }.goTo worker .outside)

theorem acts_of_step {event : WorkersEvent α} (stepped : step size workers event = some next) :
    Acts size workers event next := by
  cases event with
  | pool event =>
    cases event with
    | processed worker => cases stepped
    | popFront worker =>
      rcases queue : workers.requests.workqueue with _ | ⟨request, rest⟩
      · simp only [step, queue, List.isEmpty_nil, ↓reduceIte] at stepped
        obtain ⟨requests, moved, rfl⟩ := Option.map_eq_some_iff.mp stepped
        exact .findsNone queue moved
      · simp only [step, queue, List.isEmpty_cons, Bool.false_eq_true, ↓reduceIte] at stepped
        obtain ⟨requests, moved, rfl⟩ := Option.map_eq_some_iff.mp stepped
        exact .takes queue moved
    | append | post | wait | interrupted =>
      obtain ⟨requests, moved, rfl⟩ := Option.map_eq_some_iff.mp stepped
      exact .pool (by simp) moved
  | connection event =>
    obtain ⟨place, due, stepped⟩ := Option.bind_eq_some_iff.mp stepped
    obtain ⟨connections, moved, rfl⟩ := Option.map_eq_some_iff.mp stepped
    exact .connection due moved
  | assign worker =>
    simp only [step] at stepped
    split at stepped
    · next con request place stage =>
      cases stepped
      exact .assign place stage
    · cases stepped
  | construct worker =>
    simp only [step] at stepped
    split at stepped
    · next request place stage =>
      cases stepped
      exact .construct place stage
    · cases stepped
  | process worker =>
    simp only [step] at stepped
    split at stepped
    · next conRAII place =>
      cases stepped
      exact .process place
    · cases stepped
  | finish worker =>
    simp only [step] at stepped
    split at stepped
    · next place =>
      obtain ⟨requests, moved, rfl⟩ := Option.map_eq_some_iff.mp stepped
      exact .finish place moved
    · cases stepped

/-- A step leaves the other workers where they are. -/
theorem kept_of_other {event : WorkersEvent α} (stepped : step size workers event = some next)
    (other : event.worker? ≠ some worker) :
    next.places worker = workers.places worker ∧
      next.requests.stages[worker]? = workers.requests.stages[worker]? ∧
      next.connections.clients[worker]? = workers.connections.clients[worker]? := by
  have elsewhere : ∀ {actor : ℕ} (place : RunPlace), some actor ≠ some worker →
      Function.update workers.places actor place worker = workers.places worker := by
    intro actor place differ
    exact Function.update_of_ne (fun same => differ (congrArg some same.symm)) ..
  cases acts_of_step stepped with
  | pool _ moved => exact ⟨rfl, ThreadPool.stage_of_other moved other, rfl⟩
  | findsNone _ moved => exact ⟨rfl, ThreadPool.stage_of_other moved other, rfl⟩
  | takes _ moved => exact ⟨elsewhere _ other, ThreadPool.stage_of_other moved other, rfl⟩
  | connection _ moved =>
    refine ⟨elsewhere _ other, rfl, ConnectionPool.client_of_other moved fun same => other ?_⟩
    exact congrArg some same
  | assign | construct | process => exact ⟨elsewhere _ other, rfl, rfl⟩
  | finish _ moved => exact ⟨elsewhere _ other, ThreadPool.stage_of_other moved other, rfl⟩

/-- Inversion of a worker's own step. -/
theorem turn_of_step {event : WorkersEvent α} {maxConn : ℕ} (tied : Tied size maxConn workers)
    (enough : size.threadNumber ≤ maxConn) (stepped : step size workers event = some next)
    (own : event.worker? = some worker) : Turn workers next worker event := by
  have arrives : ∀ {old stage : Stage α}, workers.requests.stages[worker]? = some old →
      (workers.requests.setStage worker stage).stages[worker]? = some stage :=
    fun here => List.getElem?_set_self (List.getElem?_eq_some_iff.mp here).1
  have goes : ∀ place, Function.update workers.places worker place worker = place :=
    fun place => Function.update_self ..
  have idle : ∀ {stage : Stage α}, workers.requests.stages[worker]? = some stage →
      (∀ request, stage ≠ .processing request) → ∃ client, Stands workers worker .outside stage client := by
    intro stage inStage notProcessing
    obtain ⟨client, here⟩ := tied.exists_client inStage
    have fits := tied.fits worker stage client inStage here
    generalize standing : workers.places worker = place at fits
    cases fits with
    | outside => exact ⟨_, standing, inStage, here⟩
    | getting | got | assigned | processing | releasing | posting | ended => exact absurd rfl (notProcessing _)
  cases acts_of_step stepped with
  | @pool event requests other moved =>
    cases ThreadPool.taken_of_step moved with
    | refused | append | post => cases own
    | wait stage =>
      obtain rfl := Option.some.inj own
      obtain ⟨client, before⟩ := idle stage (by simp)
      exact .wakes (Or.inl rfl) before ⟨before.place, arrives stage, before.client⟩
    | interrupted stage =>
      obtain rfl := Option.some.inj own
      obtain ⟨client, before⟩ := idle stage (by simp)
      exact .wakes (Or.inr rfl) before ⟨before.place, arrives stage, before.client⟩
    | foundEmpty | popFront => exact absurd rfl (other _).1
    | processed => exact absurd rfl (other _).2
  | findsNone empty moved =>
    obtain rfl := Option.some.inj own
    cases ThreadPool.taken_of_step moved with
    | foundEmpty stage =>
      obtain ⟨client, before⟩ := idle stage (by simp)
      exact .findsNone before ⟨before.place, arrives stage, before.client⟩
    | popFront request rest stage queue => simp [empty] at queue
  | takes queue moved =>
    obtain rfl := Option.some.inj own
    cases ThreadPool.taken_of_step moved with
    | foundEmpty stage empty => simp [empty] at queue
    | popFront request rest stage queue =>
      obtain ⟨client, before⟩ := idle stage (by simp)
      exact .takes (by rw [queue, List.head?_cons]) before ⟨goes _, arrives stage, before.client⟩
  | connection due moved =>
    obtain rfl := Option.some.inj own
    exact turn_of_connection tied enough rfl (due_of_behind due) moved
  | assign place stage =>
    obtain rfl := Option.some.inj own
    obtain ⟨client, here⟩ := tied.exists_client stage
    exact .assigns ⟨place, stage, here⟩ ⟨goes _, stage, here⟩ (Function.update_self ..)
  | construct place stage =>
    obtain rfl := Option.some.inj own
    obtain ⟨client, here⟩ := tied.exists_client stage
    exact .constructs ⟨place, stage, here⟩ ⟨goes _, stage, here⟩
  | @process actor conRAII place =>
    have bound := tied.inside actor (by simp [place])
    obtain rfl := Option.some.inj own
    rw [← tied.accounted.threads] at bound
    have stage := List.getElem?_eq_getElem bound
    obtain ⟨client, here⟩ := tied.exists_client stage
    exact .processes ⟨place, stage, here⟩ ⟨goes _, stage, here⟩
  | finish place moved =>
    obtain rfl := Option.some.inj own
    cases ThreadPool.taken_of_step moved with
    | processed stage =>
      obtain ⟨client, here⟩ := tied.exists_client stage
      exact .finishes ⟨place, stage, here⟩ ⟨goes _, arrives stage, here⟩

/-- Only the constructor of `connectionRAII` stores to the member. -/
theorem mysql_of_step {event : WorkersEvent α} (stepped : step size workers event = some next)
    (other : ∀ worker, event ≠ .assign worker) : next.mysql = workers.mysql := by
  cases acts_of_step stepped with
  | assign => exact absurd rfl (other _)
  | pool | findsNone | takes | connection | construct | process | finish => rfl

namespace Tied

variable {event : WorkersEvent α} {maxConn : ℕ}

/-- Of two workers with one request one would have taken it while the other had it. -/
theorem apart_of_step (tied : Tied size maxConn workers) (enough : size.threadNumber ≤ maxConn)
    (apart : workers.Apart event) (stepped : step size workers event = some next) {one other : ℕ}
    (first : next.Serves one request) (second : next.Serves other request) : one = other := by
  have before : ∀ {worker : ℕ}, next.Serves worker request → workers.Serves worker request ∨
      event = .pool (.popFront worker) ∧ workers.requests.workqueue.head? = some request := by
    intro worker serves
    by_cases own : event.worker? = some worker
    · exact (turn_of_step tied enough stepped own).serves serves
    · obtain ⟨places, stages, _⟩ := kept_of_other stepped own
      rw [Serves, places, stages] at serves
      exact Or.inl serves
  have free : ∀ {taker worker : ℕ}, event = .pool (.popFront taker) →
      workers.requests.workqueue.head? = some request → ¬workers.Serves worker request := by
    rintro taker worker rfl queue serves
    exact apart request queue worker (List.getElem?_eq_some_iff.mp serves.2).1 serves
  rcases before first with first | ⟨takes, queue⟩
  · rcases before second with second | ⟨takes, queue⟩
    · exact tied.apart one other request first second
    · exact absurd first (free takes queue)
  · rcases before second with second | ⟨again, _⟩
    · exact absurd second (free takes queue)
    · simpa using takes.symm.trans again

/-- The member of another worker's request is not stored to. -/
theorem mysql_of_other (tied : Tied size maxConn workers) (stepped : step size workers event = some next)
    (serves : workers.Serves worker request) (other : event.worker? ≠ some worker) :
    next.mysql request = workers.mysql request := by
  cases acts_of_step stepped with
  | @assign actor taken con place stage =>
    refine Function.update_of_ne ?_ ..
    rintro rfl
    apply other
    exact congrArg some (tied.apart actor worker request ⟨by rw [place]; rfl, stage⟩ serves)
  | pool | findsNone | takes | connection | construct | process | finish => rfl

/-- A worker still fits after its own step. -/
theorem fits_of_turn (tied : Tied size maxConn workers) (stepped : step size workers event = some next)
    (turn : Turn workers next worker event) :
    ∃ place stage client, Stands next worker place stage client ∧ Fits next.mysql place stage client := by
  cases turn with
  | wakes _ before after | findsNone before after | finishes before after =>
    cases tied.fitsAt before
    exact ⟨_, _, _, after, .outside (by simp)⟩
  | takes _ before after | checks before after | waits _ before after =>
    cases tied.fitsAt before
    exact ⟨_, _, _, after, .getting (by simp)⟩
  | gets before after =>
    cases tied.fitsAt before
    exact ⟨_, _, _, after, .got⟩
  | assigns before after stored =>
    cases tied.fitsAt before
    exact ⟨_, _, _, after, .assigned stored⟩
  | constructs before after =>
    cases tied.fitsAt before with
    | assigned assigned =>
      rw [assigned] at after
      refine ⟨_, _, _, after, .processing ?_⟩
      rw [mysql_of_step stepped (by simp), assigned]
  | processes before after =>
    cases tied.fitsAt before
    exact ⟨_, _, _, after, .releasing⟩
  | releases before after =>
    cases tied.fitsAt before
    exact ⟨_, _, _, after, .posting⟩
  | posts before after =>
    cases tied.fitsAt before
    exact ⟨_, _, _, after, .ended⟩

/-- And after a step of another. -/
theorem fits_of_other (tied : Tied size maxConn workers) (stepped : step size workers event = some next)
    (other : event.worker? ≠ some worker) (inStage : next.requests.stages[worker]? = some stage)
    (inPlace : next.connections.clients[worker]? = some client) :
    Fits next.mysql (next.places worker) stage client := by
  obtain ⟨places, stages, clients⟩ := kept_of_other stepped other
  rw [places]
  rw [stages] at inStage
  rw [clients] at inPlace
  have kept : ∀ request, workers.Serves worker request → next.mysql request = workers.mysql request :=
    fun request serves => tied.mysql_of_other stepped serves other
  have fits := tied.fits worker stage client inStage inPlace
  generalize place : workers.places worker = old at fits
  cases fits with
  | outside idle => exact .outside idle
  | getting asks => exact .getting asks
  | got => exact .got
  | assigned assigned => exact .assigned (kept _ ⟨by rw [place]; rfl, inStage⟩ ▸ assigned)
  | processing assigned => exact .processing (kept _ ⟨by rw [place]; rfl, inStage⟩ ▸ assigned)
  | releasing => exact .releasing
  | posting => exact .posting
  | ended => exact .ended

/-- The connection pool takes its own steps only. -/
theorem connections_of_step (stepped : step size workers event = some next) :
    next.connections = workers.connections ∨
      ∃ label, event = .connection label ∧ workers.connections.step label = some next.connections := by
  cases acts_of_step stepped with
  | connection due moved => exact Or.inr ⟨_, rfl, moved⟩
  | pool | findsNone | takes | assign | construct | process | finish => exact Or.inl rfl

/-- So does the thread pool. -/
theorem requests_of_step (stepped : step size workers event = some next) :
    next.requests = workers.requests ∨
      ∃ label, workers.requests.step size label = some next.requests := by
  cases acts_of_step stepped with
  | pool _ moved | findsNone _ moved | takes _ moved | finish _ moved => exact Or.inr ⟨_, moved⟩
  | connection | assign | construct | process => exact Or.inl rfl

theorem accounted_of_step (tied : Tied size maxConn workers) (stepped : step size workers event = some next) :
    ThreadPool.Accounted size next.requests := by
  rcases requests_of_step stepped with same | ⟨label, moved⟩
  · rw [same]
    exact tied.accounted
  · exact tied.accounted.step moved

/-- Nothing is taken from the empty list. -/
theorem defined_of_step (tied : Tied size maxConn workers) (enough : size.threadNumber ≤ maxConn)
    (stepped : step size workers event = some next) : next.connections.undefined = false := by
  rcases connections_of_step stepped with same | ⟨label, rfl, moved⟩
  · rw [same]
    exact tied.defined
  · refine ConnectionPool.defined_of_step tied.defined (fun thread held _ here => ?_) moved
    obtain rfl : held = [] := (tied.frugal _ (List.mem_of_getElem? here)).2 (by simp)
    exact tied.listed enough here

/-- Every step that takes no request from under another worker keeps the invariant. -/
theorem step (tied : Tied size maxConn workers) (enough : size.threadNumber ≤ maxConn)
    (small : maxConn ≤ semValueMax) (apart : workers.Apart event)
    (stepped : step size workers event = some next) : Tied size maxConn next where
  accounted := tied.accounted_of_step stepped
  threads := by
    rcases connections_of_step stepped with same | ⟨label, rfl, moved⟩
    · rw [same]
      exact tied.threads
    · exact (ConnectionPool.clients_length_of_step moved).trans tied.threads
  fits worker stage client inStage inPlace := by
    by_cases own : event.worker? = some worker
    · obtain ⟨place, _, _, stands, fits⟩ := tied.fits_of_turn stepped (turn_of_step tied enough stepped own)
      obtain rfl := Option.some.inj (stands.stage.symm.trans inStage)
      obtain rfl := Option.some.inj (stands.client.symm.trans inPlace)
      rwa [stands.place]
    · exact tied.fits_of_other stepped own inStage inPlace
  inside worker busy := by
    by_cases own : event.worker? = some worker
    · obtain ⟨_, stage, _, stands, _⟩ := tied.fits_of_turn stepped (turn_of_step tied enough stepped own)
      rw [← (tied.accounted_of_step stepped).threads]
      exact (List.getElem?_eq_some_iff.mp stands.stage).1
    · obtain ⟨places, _⟩ := kept_of_other stepped own
      exact tied.inside worker (places ▸ busy)
  apart one other request first second := tied.apart_of_step enough apart stepped first second
  whole := by
    rcases connections_of_step stepped with same | ⟨label, rfl, moved⟩
    · rw [same]
      exact tied.whole
    · exact (ConnectionPool.perm_of_step (tied.defined_of_step enough stepped) moved).trans tied.whole
  promised := by
    rcases connections_of_step stepped with same | ⟨label, rfl, moved⟩
    · rw [same]
      exact tied.promised
    · have shared := tied.shared
      exact tied.promised.step (by omega) moved
  defined := tied.defined_of_step enough stepped

end Tied

/-! ## Runs -/

omit [DecidableEq α] in
/-- The constructed pools. -/
theorem tied_initial {connects : ℕ → Bool} {maxConn : UInt32} {connections : ConnectionPool}
    (made : ConnectionPool.init connects maxConn size.threadNumber = some connections) (mysql : α → Option ℕ) :
    maxConn.toNat ≤ semValueMax ∧ Tied size maxConn.toNat (initial size connections mysql) := by
  obtain ⟨small, _, clients, _, conserves⟩ := ConnectionPool.conserves_init made
  refine ⟨small, ThreadPool.accounted_initial, ?_, ?_, ?_, ?_, conserves.whole, ?_, conserves.defined⟩
  · rw [initial, clients, List.length_replicate]
  · intro worker stage client inStage inPlace
    rw [initial, clients] at inPlace
    obtain rfl := List.eq_of_mem_replicate (List.mem_of_getElem? inStage)
    obtain rfl := List.eq_of_mem_replicate (List.mem_of_getElem? inPlace)
    exact .outside (by simp)
  · exact fun worker busy => absurd rfl busy
  · intro one other request first
    cases first.1
  · exact conserves.promised.le

theorem tied_of_run {connects : ℕ → Bool} {maxConn : UInt32} {connections : ConnectionPool}
    {mysql : α → Option ℕ} {events : List (WorkersEvent α)} (enough : size.threadNumber ≤ maxConn.toNat)
    (made : ConnectionPool.init connects maxConn size.threadNumber = some connections)
    (apart : Guarded (step size) Apart (initial size connections mysql) events)
    (ran : run (step size) (initial size connections mysql) events = some workers) :
    Tied size maxConn.toNat workers := by
  obtain ⟨small, tied⟩ := tied_initial made mysql
  exact invariant_of_guarded (fun _ _ _ tied apart stepped => tied.step enough small apart stepped) tied
    apart ran

/-- In every run of a thread pool of any size with at least as many connections, with any waits interrupted,
in which no worker takes a request that another has and has not returned from `process` with: the worker in
`process` has the request it has taken, with the connection that its `connectionRAII` holds, and no two have
the same connection; nothing is popped or taken from an empty list, and no connection is lost. -/
theorem processes_with_own_connection (size : Size) (connects : ℕ → Bool) (maxConn : UInt32)
    (mysql : α → Option ℕ) (connections : ConnectionPool) (events : List (WorkersEvent α))
    (workers : Workers α) (enough : size.threadNumber ≤ maxConn.toNat)
    (made : ConnectionPool.init connects maxConn size.threadNumber = some connections)
    (apart : Guarded (step size) Apart (initial size connections mysql) events)
    (ran : run (step size) (initial size connections mysql) events = some workers) :
    (∀ worker conRAII, workers.places worker = .processing conRAII → ∃ request con,
      workers.requests.stages[worker]? = some (.processing request) ∧ conRAII = some con ∧
        workers.mysql request = some con) ∧
    (∀ one other conRAII, workers.places one = .processing conRAII →
      workers.places other = .processing conRAII → one = other) ∧
    workers.requests.undefined = false ∧ workers.connections.undefined = false ∧
    (workers.connections.connList ++ workers.connections.held).Perm (List.range maxConn.toNat) := by
  have tied := tied_of_run enough made apart ran
  refine ⟨?_, ?_, tied.accounted.defined, tied.defined, tied.whole⟩
  · intro worker conRAII place
    obtain ⟨request, con, rfl, assigned, stands⟩ := tied.exists_con place
    exact ⟨request, con, stands.stage, rfl, assigned⟩
  · exact fun one other conRAII => tied.con_unique

/-! ## Progress -/

/-- The steps a worker takes once it has a request, unless a signal interrupts its wait. -/
def Proceeds (worker : ℕ) : WorkersEvent α → Prop
  | .connection event => event.thread = worker ∧ event.isInterrupted = false
  | .assign actor | .construct actor | .process actor | .finish actor => actor = worker
  | .pool _ => False

omit [DecidableEq α] in
theorem worker?_of_proceeds {event : WorkersEvent α} (proceeds : Proceeds worker event) :
    event.worker? = some worker := by
  cases event with
  | pool => cases proceeds
  | connection => exact congrArg some proceeds.1
  | assign | construct | process | finish => exact congrArg some proceeds

/-- The steps to the end of the request, by place. -/
def stepsLeft (place : Place) : RunPlace → ℕ
  | .outside => 0
  | .ended => 1
  | .posting => 2
  | .releasing _ => 3
  | .processing _ => 4
  | .assigned => 5
  | .got _ => 6
  | .getting =>
      match place with
      | .outside => 9
      | .checked => 8
      | .granted | .posting => 7

/-- The steps to the end of the worker's request. -/
def rank (worker : ℕ) (workers : Workers α) : ℕ :=
  ((workers.connections.clients[worker]?).map fun client =>
    stepsLeft client.place (workers.places worker)).getD 0

omit [DecidableEq α] in
theorem rank_of_stands {place : RunPlace} {stage : Stage α} {client : Client}
    (stands : Stands workers worker place stage client) : rank worker workers = stepsLeft client.place place := by
  rw [rank, stands.client, stands.place, Option.map_some, Option.getD_some]

omit [DecidableEq α] in
/-- A worker's own step brings it nearer to the end of its request. -/
theorem rank_of_turn {event : WorkersEvent α} (turn : Turn workers next worker event)
    (busy : workers.places worker ≠ .outside) : rank worker next < rank worker workers := by
  cases turn with
  | wakes _ before | findsNone before | takes _ before => exact absurd before.place busy
  | checks before after | waits _ before after | gets before after | assigns before after
  | constructs before after | processes before after | releases before after | posts before after
  | finishes before after =>
    rw [rank_of_stands before, rank_of_stands after]
    simp only [stepsLeft]
    omega

theorem rank_of_other {event : WorkersEvent α} (stepped : step size workers event = some next)
    (other : event.worker? ≠ some worker) : rank worker next = rank worker workers := by
  obtain ⟨places, _, clients⟩ := kept_of_other stepped other
  rw [rank, rank, places, clients]

/-- A worker with a request can always go on. -/
theorem enabled_of_busy {maxConn : ℕ} (tied : Tied size maxConn workers) (enough : size.threadNumber ≤ maxConn)
    (busy : workers.places worker ≠ .outside) : Enabled (step size) workers (Proceeds worker) := by
  have bound := tied.inside worker busy
  rw [← tied.accounted.threads] at bound
  obtain ⟨client, stands⟩ := tied.exists_stands (List.getElem?_eq_getElem bound)
  generalize workers.requests.stages[worker] = stage at stands
  obtain ⟨place, inStage, inPlace⟩ := stands
  have fits := tied.fits worker stage client inStage inPlace
  generalize place : workers.places worker = old at fits busy
  cases fits with
  | outside => exact absurd rfl busy
  | @getting request asking asks =>
    cases asking with
    | outside =>
      refine ⟨.connection (.check worker), ⟨rfl, rfl⟩, ?_⟩
      simp [step, ConnectionEvent.thread, place, RunPlace.behind, ConnectionPool.step, inPlace]
      split_ifs <;> rfl
    | checked =>
      have token := ConnectionPool.token_of_frugal tied.promised tied.frugal tied.shared
        (tied.threads ▸ enough) (List.mem_of_getElem? inPlace) rfl
      refine ⟨.connection (.wait worker), ⟨rfl, rfl⟩, ?_⟩
      simp [step, ConnectionEvent.thread, place, RunPlace.behind, ConnectionPool.step, inPlace, token]
    | granted =>
      refine ⟨.connection (.takeFront worker), ⟨rfl, rfl⟩, ?_⟩
      simp [step, ConnectionEvent.thread, place, RunPlace.behind, ConnectionPool.step, inPlace]
    | posting => exact absurd rfl asks
  | got =>
    refine ⟨.assign worker, rfl, ?_⟩
    simp [step, place, inStage]
  | assigned =>
    refine ⟨.construct worker, rfl, ?_⟩
    simp [step, place, inStage]
  | processing =>
    refine ⟨.process worker, rfl, ?_⟩
    simp [step, place]
  | @releasing _ con =>
    refine ⟨.connection (.release worker (some con)), ⟨rfl, rfl⟩, ?_⟩
    simp [step, ConnectionEvent.thread, place, RunPlace.behind, ConnectionPool.step, inPlace]
  | posting =>
    refine ⟨.connection (.post worker), ⟨rfl, rfl⟩, ?_⟩
    simp [step, ConnectionEvent.thread, place, RunPlace.behind, ConnectionPool.step, inPlace]
  | ended =>
    refine ⟨.finish worker, rfl, ?_⟩
    simp [step, place, ThreadPool.step, inStage]

/-- A call of `pop_front` that finds a request gives it to its worker. -/
theorem dequeued_of_step {event : WorkersEvent α} (stepped : step size workers event = some next) :
    next.requests.dequeued = workers.requests.dequeued ∨
      ∃ worker request, event = .pool (.popFront worker) ∧
        next.requests.dequeued = workers.requests.dequeued ++ [(request, worker)] ∧
          next.Serves worker request := by
  cases acts_of_step stepped with
  | pool other moved =>
    cases ThreadPool.taken_of_step moved with
    | foundEmpty | popFront => exact absurd rfl (other _).1
    | refused | append | post | wait | interrupted | processed => exact Or.inl rfl
  | findsNone empty moved =>
    cases ThreadPool.taken_of_step moved with
    | foundEmpty => exact Or.inl rfl
    | popFront request rest stage queue => simp [empty] at queue
  | @takes worker request rest requests queue moved =>
    cases ThreadPool.taken_of_step moved with
    | foundEmpty stage empty => simp [empty] at queue
    | popFront request rest stage queue =>
      refine Or.inr ⟨worker, request, rfl, rfl, ?_, ?_⟩
      · rw [goTo_places_self]
        rfl
      · exact List.getElem?_set_self (List.getElem?_eq_some_iff.mp stage).1
  | finish _ moved =>
    cases ThreadPool.taken_of_step moved with
    | processed => exact Or.inl rfl
  | connection | assign | construct | process => exact Or.inl rfl

/-- What the steps show of the thread pool. -/
def poolEvent? : WorkersEvent α → Option (PoolEvent α)
  | .pool event => some event
  | .finish worker => some (.processed worker)
  | _ => none

theorem projects : Projects (step size) (ThreadPool.step size) (requests (α := α)) poolEvent? := by
  intro workers event next stepped
  cases acts_of_step stepped with
  | pool _ moved | findsNone _ moved | takes _ moved | finish _ moved =>
    exact (run_cons_eq_some _).mpr ⟨_, moved, rfl⟩
  | connection | assign | construct | process => rfl

section Progress

variable {connections : ConnectionPool} {mysql : α → Option ℕ}
  (exec : Execution (step size) (initial size connections mysql))

/-- The threads are scheduled weakly fairly: an appender posts, some worker gets a token as long as there is
one, a woken worker gets the mutex, and a worker with a request goes on. -/
structure Fair : Prop where
  post : exec.WeaklyFair fun event => event = .pool .post
  wait : exec.WeaklyFair fun event => ∃ worker, event = .pool (.wait worker)
  popFront : ∀ worker, exec.WeaklyFair fun event => event = .pool (.popFront worker)
  proceeds : ∀ worker, exec.WeaklyFair (Proceeds worker)

/-- What the steps of this execution start from and keep to. -/
structure Regular (maxConn : ℕ) : Prop where
  enough : size.threadNumber ≤ maxConn
  small : maxConn ≤ semValueMax
  begins : Tied size maxConn (initial size connections mysql)
  apart : ∀ time label, exec.event time = some label → Apart (exec.state time) label

variable {exec} {maxConn : ℕ} {start : ℕ}

theorem Regular.tied (regular : Regular exec maxConn) (time : ℕ) : Tied size maxConn (exec.state time) := by
  refine exec.persists (Tied size maxConn) (fun time label _ taken tied => ?_) ?_ (Nat.zero_le time)
  · exact tied.step regular.enough regular.small (regular.apart time label taken)
      (exec.steps time label taken)
  · rw [exec.starts]
    exact regular.begins

/-- A worker goes on with its request until it reaches the goal. -/
theorem Regular.goesOn (regular : Regular exec maxConn) (fair : Fair exec) (worker : ℕ)
    (pending : Workers α → Prop) (goal : ℕ → Prop)
    (busy : ∀ workers, pending workers → workers.places worker ≠ .outside)
    (own : ∀ time label, exec.event time = some label → pending (exec.state time) →
      Turn (exec.state time) (exec.state (time + 1)) worker label →
        goal time ∨ pending (exec.state (time + 1)))
    (other : ∀ time label, exec.event time = some label → pending (exec.state time) →
      label.worker? ≠ some worker → pending (exec.state (time + 1)))
    (holds : pending (exec.state start)) : ∃ time, start ≤ time ∧ goal time := by
  refine (fair.proceeds worker).reaches pending (rank worker) goal ?_ ?_ holds
  · intro time pends
    exact enabled_of_busy (regular.tied time) regular.enough (busy _ pends)
  · intro time label _ taken pends
    have stepped := exec.steps time label taken
    by_cases isOwn : label.worker? = some worker
    · have turn := turn_of_step (regular.tied time) regular.enough stepped isOwn
      have nearer := rank_of_turn turn (busy _ pends)
      rcases own time label taken pends turn with reached | pends
      · exact Or.inl reached
      · exact Or.inr ⟨pends, nearer.le, fun _ => nearer⟩
    · refine Or.inr ⟨other time label taken pends isOwn, (rank_of_other stepped isOwn).le, fun proceeds => ?_⟩
      exact absurd (worker?_of_proceeds proceeds) isOwn

/-- `process` returns, and the worker goes on to its next wait. -/
theorem Regular.finishes (regular : Regular exec maxConn) (fair : Fair exec)
    (busy : (exec.state start).places worker ≠ .outside) :
    ∃ time, start ≤ time ∧ exec.event time = some (.finish worker) := by
  refine regular.goesOn fair worker (fun workers => workers.places worker ≠ .outside) _ (fun _ busy => busy) ?_ ?_
    busy
  · intro time label taken busy turn
    cases turn with
    | wakes _ before | findsNone before | takes _ before => exact absurd before.place busy
    | finishes => exact Or.inl taken
    | checks _ after | waits _ _ after | gets _ after | assigns _ after | constructs _ after
    | processes _ after | releases _ after | posts _ after =>
      rw [after.place]
      exact Or.inr RunPlace.noConfusion
  · intro time label taken busy other
    obtain ⟨places, _⟩ := kept_of_other (exec.steps time label taken) other
    rwa [places]

/-- The worker has the request, and has taken no other since. -/
def HasLast (worker : ℕ) (request : α) (index : ℕ) (workers : Workers α) : Prop :=
  workers.Serves worker request ∧ workers.requests.dequeued[index]? = some (request, worker) ∧
    ∀ later, index < later → ∀ other, workers.requests.dequeued[later]? ≠ some (other, worker)

/-- Another worker that takes a request changes nothing about that. -/
theorem lasts_of_step {request : α} {index : ℕ} {event : WorkersEvent α}
    (stepped : step size workers event = some next) (last : HasLast worker request index workers)
    (serves : next.Serves worker request) (other : event ≠ .pool (.popFront worker)) :
    HasLast worker request index next := by
  obtain ⟨_, here, after⟩ := last
  rcases dequeued_of_step stepped with same | ⟨actor, taken, rfl, more, _⟩
  · rw [← same] at here after
    exact ⟨serves, here, after⟩
  · refine ⟨serves, ?_, fun later less again there => ?_⟩
    · rw [more, List.getElem?_append_left (List.getElem?_eq_some_iff.mp here).1, here]
    · rw [more, List.getElem?_append] at there
      split_ifs at there with inside
      · exact after later less again there
      · have entry := List.mem_singleton.mp (List.mem_of_getElem? there)
        cases entry
        exact other rfl

/-- A worker with a request calls `process`. -/
theorem Regular.processes (regular : Regular exec maxConn) (fair : Fair exec) {request : α} {index : ℕ}
    (last : HasLast worker request index (exec.state start)) :
    ∃ time, start ≤ time ∧ exec.event time = some (.process worker) ∧
      HasLast worker request index (exec.state time) := by
  refine regular.goesOn fair worker (HasLast worker request index) _ ?_ ?_ ?_ last
  · rintro workers ⟨⟨serves, _⟩, _⟩ outside
    rw [outside] at serves
    cases serves
  · intro time label taken last turn
    have stepped := exec.steps time label taken
    have keeps : ∀ {place : RunPlace} {stage : Stage α} {client : Client} {other : RunPlace} {before : Client},
        Stands (exec.state time) worker other stage before →
        Stands (exec.state (time + 1)) worker place stage client → place.inRequest = true →
        label ≠ .pool (.popFront worker) → HasLast worker request index (exec.state (time + 1)) := by
      intro place stage client other before stands after inRequest differs
      refine lasts_of_step stepped last ((serves_iff after).mpr ⟨inRequest, ?_⟩) differs
      exact ((serves_iff stands).mp last.1).2
    cases turn with
    | wakes _ before | findsNone before | takes _ before | releases before | posts before
    | finishes before => cases ((serves_iff before).mp last.1).1
    | processes => exact Or.inl ⟨taken, last⟩
    | checks before after | waits _ before after | gets before after | assigns before after
    | constructs before after => exact Or.inr (keeps before after rfl nofun)
  · intro time label taken last other
    have stepped := exec.steps time label taken
    obtain ⟨places, stages, _⟩ := kept_of_other stepped other
    refine lasts_of_step stepped last ?_ ?_
    · rw [Serves, places, stages]
      exact last.1
    · rintro rfl
      exact other rfl

/-- The execution the thread pool takes part in is fair to it: `process` returns. -/
theorem Regular.poolFair (regular : Regular exec maxConn) (fair : Fair exec) :
    ThreadPool.Fair (exec.project projects) where
  post := by
    refine fair.post.project projects ?_ ?_
    · rintro time ⟨_, rfl, enabled⟩
      exact ⟨_, rfl, by simpa [step] using enabled⟩
    · rintro _ rfl
      exact ⟨_, rfl, rfl⟩
  wait := by
    refine fair.wait.project projects ?_ ?_
    · rintro time ⟨_, ⟨worker, rfl⟩, enabled⟩
      exact ⟨_, ⟨worker, rfl⟩, by simpa [step] using enabled⟩
    · rintro _ ⟨worker, rfl⟩
      exact ⟨_, ⟨worker, rfl⟩, rfl⟩
  popFront worker := by
    refine (fair.popFront worker).project projects ?_ ?_
    · rintro time ⟨_, rfl, enabled⟩
      exact ⟨_, rfl, by simpa [step] using enabled⟩
    · rintro _ rfl
      exact ⟨_, rfl, rfl⟩
  processed worker := by
    intro start enabled
    obtain ⟨_, rfl, here⟩ := enabled start (Nat.le_refl start)
    obtain ⟨next, moved⟩ := Option.isSome_iff_exists.mp here
    have busy : (exec.state start).places worker ≠ .outside := by
      intro outside
      cases ThreadPool.taken_of_step moved with
      | processed stage =>
        obtain ⟨client, stands⟩ := (regular.tied start).exists_stands stage
        rw [outside] at stands
        cases (regular.tied start).fitsAt stands with
        | outside idle => exact idle _ rfl
    obtain ⟨time, later, taken⟩ := regular.finishes fair busy
    exact ⟨time, later, _, rfl, congrArg (Option.bind · poolEvent?) taken⟩

/-- The call of `pop_front` with a number is taken at some time. -/
theorem exists_hasLast {later index : ℕ} (called : index < (exec.state later).requests.dequeued.length) :
    ∃ time worker request, HasLast worker request index (exec.state time) := by
  induction later with
  | zero =>
    rw [exec.starts] at called
    cases called
  | succ later ih =>
    by_cases before : index < (exec.state later).requests.dequeued.length
    · exact ih before
    · rcases taken : exec.event later with _ | label
      · rw [exec.pauses later taken] at called
        exact absurd called before
      · rcases dequeued_of_step (exec.steps later label taken) with same | ⟨worker, request, _, more, serves⟩
        · rw [same] at called
          exact absurd called before
        · rw [more, List.length_append, List.length_singleton] at called
          obtain rfl : index = (exec.state later).requests.dequeued.length := by omega
          refine ⟨later + 1, worker, request, serves, ?_, fun further less other => ?_⟩
          · rw [more, List.getElem?_concat_length]
          · rw [more, List.getElem?_eq_none (by simp; omega)]
            exact Option.some_ne_none _ ∘ Eq.symm

/-- Every accepted request is processed by the worker that takes it. -/
theorem Regular.serves_accepted (regular : Regular exec maxConn) (fair : Fair exec) {time index : ℕ}
    {request : α} (accepted : (exec.state time).requests.accepted[index]? = some request) :
    ∃ later worker con, exec.event later = some (.process worker) ∧
      (exec.state later).places worker = .processing (some con) ∧
      HasLast worker request index (exec.state later) := by
  have bound := (List.getElem?_eq_some_iff.mp accepted).1
  obtain ⟨reached, called⟩ := ThreadPool.dequeues_all (exec.project projects) (regular.poolFair fair)
    (index + 1) time bound
  obtain ⟨taken, worker, same, last⟩ := exists_hasLast called
  obtain rfl : request = same := ThreadPool.accepted_unique (exec.project projects) accepted
    (ThreadPool.accepted_of_dequeued (exec.project projects) last.2.1)
  obtain ⟨later, _, processes, last⟩ := regular.processes fair last
  have stepped := exec.steps later _ processes
  generalize exec.state (later + 1) = next at stepped
  cases acts_of_step stepped with
  | process place =>
    obtain ⟨_, con, rfl, _, _⟩ := (regular.tied later).exists_con place
    exact ⟨later, worker, con, processes, place, last⟩

end Progress

/-- In every weakly fair execution of a thread pool of any size with at least as many connections, with any
waits interrupted, in which no worker takes a request that another has and has not returned from `process`
with: every accepted request is processed by the worker that has dequeued it, before this worker dequeues
another, and with a connection. -/
theorem requests_processed (size : Size) (connects : ℕ → Bool) (maxConn : UInt32) (mysql : α → Option ℕ)
    (connections : ConnectionPool) (enough : size.threadNumber ≤ maxConn.toNat)
    (made : ConnectionPool.init connects maxConn size.threadNumber = some connections)
    (exec : Execution (step size) (initial size connections mysql)) (fair : Fair exec)
    (apart : ∀ time label, exec.event time = some label → Apart (exec.state time) label)
    (time index : ℕ) (request : α)
    (accepted : (exec.state time).requests.accepted[index]? = some request) :
    ∃ later worker con, exec.event later = some (.process worker) ∧
      (exec.state later).places worker = .processing (some con) ∧
      (exec.state later).requests.stages[worker]? = some (.processing request) ∧
      (exec.state later).requests.dequeued[index]? = some (request, worker) ∧
      ∀ further, index < further → ∀ other,
        (exec.state later).requests.dequeued[further]? ≠ some (other, worker) := by
  obtain ⟨small, begins⟩ := tied_initial made mysql
  have regular : Regular exec maxConn.toNat := ⟨enough, small, begins, apart⟩
  obtain ⟨later, worker, con, processes, place, ⟨_, serves⟩, here, after⟩ :=
    regular.serves_accepted fair accepted
  exact ⟨later, worker, con, processes, place, serves, here, after⟩

/-- All workers are at `wait`, and there is no token and no post to come. -/
structure Idle (workers : Workers α) : Prop where
  noToken : workers.requests.queuestat = 0
  noPost : workers.requests.posting = 0
  waiting : ∀ stage ∈ workers.requests.stages, stage = .waiting
  outside : ∀ worker, workers.places worker = .outside

/-- Then no thread has a step that it is to be scheduled for. -/
theorem Idle.stuck (idle : Idle workers) {event : WorkersEvent α}
    (scheduled : event = .pool .post ∨ (∃ worker, event = .pool (.wait worker)) ∨
      (∃ worker, event = .pool (.popFront worker)) ∨ ∃ worker, Proceeds worker event) :
    step size workers event = none := by
  by_contra taken
  obtain ⟨next, stepped⟩ := Option.ne_none_iff_exists'.mp taken
  have place : ∀ {worker : ℕ} {place : RunPlace}, workers.places worker = place → place = .outside :=
    fun place => place.symm.trans (idle.outside _)
  have notWoken : ∀ {worker : ℕ}, workers.requests.stages[worker]? ≠ some .woken := by
    intro worker woken
    cases idle.waiting _ (List.mem_of_getElem? woken)
  cases acts_of_step stepped with
  | @pool event _ other moved =>
    have noToken := idle.noToken
    have noPost := idle.noPost
    cases ThreadPool.taken_of_step moved with
    | post pending => omega
    | wait _ positive => omega
    | foundEmpty | popFront => exact absurd rfl (other _).1
    | processed => exact absurd rfl (other _).2
    | refused | append | interrupted => simp [Proceeds] at scheduled
  | findsNone _ moved | takes _ moved =>
    cases ThreadPool.taken_of_step moved with
    | foundEmpty stage | popFront _ _ stage => exact notWoken stage
  | connection due =>
    rw [idle.outside] at due
    cases due_of_behind due
  | assign there | construct there | process there | finish there => cases place there

/-- So a run that ends there is fair. -/
theorem fair_of_idle {connections : ConnectionPool} {mysql : α → Option ℕ} {events : List (WorkersEvent α)}
    (ran : run (step size) (initial size connections mysql) events = some workers) (idle : Idle workers) :
    Fair (Execution.ofRun ran) where
  post := by
    apply Execution.ofRun_weaklyFair
    rintro ⟨event, isPost, taken⟩
    simp [idle.stuck (Or.inl isPost)] at taken
  wait := by
    apply Execution.ofRun_weaklyFair
    rintro ⟨event, isWait, taken⟩
    simp [idle.stuck (Or.inr (Or.inl isWait))] at taken
  popFront worker := by
    apply Execution.ofRun_weaklyFair
    rintro ⟨event, isPop, taken⟩
    simp [idle.stuck (Or.inr (Or.inr (Or.inl ⟨worker, isPop⟩)))] at taken
  proceeds worker := by
    apply Execution.ofRun_weaklyFair
    rintro ⟨event, proceeds, taken⟩
    simp [idle.stuck (Or.inr (Or.inr (Or.inr ⟨worker, proceeds⟩)))] at taken

section Example

/-- Two workers and two connections; the second worker is woken by a signal while it waits for a connection
and takes its request when the first has returned from `process`. -/
private def twoServed : List (WorkersEvent ℕ) :=
  [.pool (.append 10), .pool .post, .pool (.append 20), .pool (.wait 0), .pool (.popFront 0),
    .pool .post, .pool (.wait 1), .pool (.popFront 1), .connection (.check 0), .connection (.check 1),
    .connection (.wait 0), .connection (.interrupted 1), .connection (.takeFront 1),
    .connection (.takeFront 0), .assign 0, .assign 1, .construct 1, .construct 0, .process 1, .process 0,
    .connection (.release 0 (some 1)), .connection (.post 0), .finish 0,
    .connection (.release 1 (some 0)), .connection (.post 1), .finish 1]

private def twoWorkers : Size := ⟨2, 5, by decide, by decide, by decide⟩

private theorem twoConnections_made : (ConnectionPool.init (fun _ => true) 2 2).isSome := by decide

private abbrev twoStart : Workers ℕ :=
  initial twoWorkers ((ConnectionPool.init (fun _ => true) 2 2).get twoConnections_made) fun _ => none

private theorem twoServed_runs : (run (step twoWorkers) twoStart twoServed).isSome := by decide +kernel

private theorem twoServed_apart : Guarded (step twoWorkers) Apart twoStart twoServed := by decide +kernel

private abbrev twoExecution : Execution (step twoWorkers) twoStart :=
  .ofRun (Option.some_get twoServed_runs).symm

private theorem twoServed_fair : Fair twoExecution := by
  refine fair_of_idle _ ⟨by decide +kernel, by decide +kernel, by decide +kernel, fun worker => ?_⟩
  have tied := tied_of_run (by decide) (Option.some_get twoConnections_made).symm twoServed_apart
    (Option.some_get twoServed_runs).symm
  by_contra busy
  have bound := tied.inside worker busy
  have all : ∀ worker < 2, ((run (step twoWorkers) twoStart twoServed).get twoServed_runs).places worker =
      .outside := by decide +kernel
  exact busy (all worker bound)

private theorem bothServed_runs : (run (step twoWorkers) twoStart (twoServed.take 18)).isSome := by
  decide +kernel

/-- Both workers are in `process`. -/
theorem processes_with_own_connection_two : ∃ workers : Workers ℕ,
    workers.places 0 = .processing (some 1) ∧ workers.places 1 = .processing (some 0) ∧
      ∃ request con, workers.requests.stages[1]? = some (.processing request) ∧ some 0 = some con ∧
        workers.mysql request = some con :=
  have second : ((run (step twoWorkers) twoStart (twoServed.take 18)).get bothServed_runs).places 1 =
    .processing (some 0) := by decide +kernel
  ⟨_, by decide +kernel, second,
    (processes_with_own_connection twoWorkers (fun _ => true) 2 (fun _ => none) _ (twoServed.take 18) _
      (by decide) (Option.some_get twoConnections_made).symm (by decide +kernel)
      (Option.some_get bothServed_runs).symm).1 1 _ second⟩

/-- The second request is taken by the second worker. -/
theorem requests_processed_two : ∃ later worker con,
    twoExecution.event later = some (.process worker) ∧
      (twoExecution.state later).places worker = .processing (some con) ∧
      (twoExecution.state later).requests.stages[worker]? = some (.processing 20) ∧
      (twoExecution.state later).requests.dequeued[1]? = some (20, worker) ∧
      ∀ further, 1 < further → ∀ other,
        (twoExecution.state later).requests.dequeued[further]? ≠ some (other, worker) :=
  requests_processed twoWorkers (fun _ => true) 2 (fun _ => none) _ (by decide)
    (Option.some_get twoConnections_made).symm twoExecution twoServed_fair
    (fun _ _ taken => Execution.ofRun_guarded _ twoServed_apart taken) 3 1 20 (by decide +kernel)

end Example

end Workers

end WebServ.Pool
