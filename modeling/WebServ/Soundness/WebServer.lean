import WebServ.Model.WebServer
import WebServ.Soundness.Workers
import WebServ.Soundness.Connections

/-! # Every queued request is processed, by one worker, and its connection armed again

The queue of the server and that of the thread pool are one, and the objects the server counts as held are
those the workers have. A one-shot registration keeps an object out of the queue while a worker has it, which
is what the workers rely on; and the workers rely on nothing else.
-/

namespace WebServ.Pool.Workers

open WebServ.Machine

/-! ## Who has which request -/

variable {α : Type*} [DecidableEq α] {size : Size} {workers next : Workers α} {worker : ℕ} {request : α}
  {maxConn : ℕ}

omit [DecidableEq α] in
/-- A worker keeps its request but where it takes one or returns from `process`. -/
theorem serves_of_turn {event : WorkersEvent α} (turn : Turn workers next worker event)
    (returns : event ≠ .process worker)
    (finds : event = .pool (.popFront worker) → workers.requests.workqueue = []) :
    next.Serves worker request ↔ workers.Serves worker request := by
  cases turn with
  | takes queue => simp [finds rfl] at queue
  | processes => exact absurd rfl returns
  | wakes _ before after | findsNone before after | checks before after | waits _ before after
  | gets before after | assigns before after | constructs before after | releases before after
  | posts before after | finishes before after =>
    simp [serves_iff before, serves_iff after, RunPlace.inRequest]

theorem serves_of_other {event : WorkersEvent α} (stepped : step size workers event = some next)
    (other : event.worker? ≠ some worker) :
    next.Serves worker request ↔ workers.Serves worker request := by
  obtain ⟨places, stages, _⟩ := kept_of_other stepped other
  rw [Serves, Serves, places, stages]

/-- It has none that it did not have before the others have given it to it. -/
theorem serves_of_step {event : WorkersEvent α} (tied : Tied size maxConn workers)
    (enough : size.threadNumber ≤ maxConn) (stepped : step size workers event = some next)
    (returns : event ≠ .process worker)
    (finds : event = .pool (.popFront worker) → workers.requests.workqueue = []) :
    next.Serves worker request ↔ workers.Serves worker request := by
  by_cases own : event.worker? = some worker
  · exact serves_of_turn (turn_of_step tied enough stepped own) returns finds
  · exact serves_of_other stepped own

/-- The worker that takes a request has it. -/
theorem takes_of_step {rest : List α} {slot : α} {taker : ℕ} (queue : workers.requests.workqueue = slot :: rest)
    (stepped : step size workers (.pool (.popFront taker)) = some next) :
    next.requests.workqueue = rest ∧ next.Serves taker slot := by
  cases acts_of_step stepped with
  | pool other => exact absurd rfl (other _).1
  | findsNone empty => simp [queue] at empty
  | takes _ moved =>
    cases ThreadPool.taken_of_step moved with
    | foundEmpty _ empty => simp [queue] at empty
    | popFront _ _ stage same =>
      obtain ⟨rfl, rfl⟩ := List.cons_eq_cons.mp (queue.symm.trans same)
      refine ⟨rfl, ?_, List.getElem?_set_self (List.getElem?_eq_some_iff.mp stage).1⟩
      rw [goTo_places_self]
      rfl

theorem exists_serves_of_take {rest : List α} {slot : α} {taker : ℕ} (tied : Tied size maxConn workers)
    (enough : size.threadNumber ≤ maxConn) (queue : workers.requests.workqueue = slot :: rest)
    (stepped : step size workers (.pool (.popFront taker)) = some next) :
    (∃ worker, next.Serves worker request) ↔ request = slot ∨ ∃ worker, workers.Serves worker request := by
  have turn : Turn workers next taker (.pool (.popFront taker)) := turn_of_step tied enough stepped rfl
  have takes := (takes_of_step queue stepped).2
  have before : ¬workers.Serves taker request := by
    cases turn with
    | findsNone before | takes _ before => simp [serves_iff before]
    | wakes label => simp at label
  constructor
  · rintro ⟨worker, serves⟩
    by_cases same : worker = taker
    · subst same
      exact Or.inl (Stage.processing.inj (Option.some.inj (serves.2.symm.trans takes.2)))
    · have other : (WorkersEvent.pool (.popFront taker) : WorkersEvent α).worker? ≠ some worker :=
        fun own => same (Option.some.inj own).symm
      exact Or.inr ⟨worker, (serves_of_other stepped other).mp serves⟩
  · rintro (rfl | ⟨worker, serves⟩)
    · exact ⟨taker, takes⟩
    · have other : (WorkersEvent.pool (.popFront taker) : WorkersEvent α).worker? ≠ some worker := by
        intro own
        cases own
        exact before serves
      exact ⟨worker, (serves_of_other stepped other).mpr serves⟩

/-- The worker that returns from `process` has no request. -/
theorem exists_serves_of_process {slot : α} {actor : ℕ} (request : α) (tied : Tied size maxConn workers)
    (serves : workers.Serves actor slot) (stepped : step size workers (.process actor) = some next) :
    (∃ worker, next.Serves worker request) ↔ request ≠ slot ∧ ∃ worker, workers.Serves worker request := by
  have none : ¬next.Serves actor request := by
    cases acts_of_step stepped with
    | process => simp [Serves, RunPlace.inRequest]
  have others : ∀ worker, worker ≠ actor → (next.Serves worker request ↔ workers.Serves worker request) := by
    intro worker differ
    exact serves_of_other stepped fun own => differ (Option.some.inj own).symm
  constructor
  · rintro ⟨worker, holds⟩
    have differ : worker ≠ actor := by
      rintro rfl
      exact none holds
    have before := (others worker differ).mp holds
    refine ⟨?_, worker, before⟩
    rintro rfl
    exact differ (tied.apart worker actor request before serves)
  · rintro ⟨differs, worker, holds⟩
    refine ⟨worker, (others worker ?_).mpr holds⟩
    rintro rfl
    exact differs (Stage.processing.inj (Option.some.inj (holds.2.symm.trans serves.2)))

theorem workqueue_of_append {slot : α} (stepped : step size workers (.pool (.append slot)) = some next) :
    next.requests.workqueue = if size.maxRequests ≤ workers.requests.workqueue.length
      then workers.requests.workqueue else workers.requests.workqueue ++ [slot] := by
  cases acts_of_step stepped with
  | pool _ moved =>
    cases ThreadPool.taken_of_step moved with
    | refused full => exact (if_pos full).symm
    | append room => exact (if_neg (Nat.not_le.mpr room)).symm

/-- The other actions leave the queue of the requests alone. -/
theorem workqueue_of_alone {event : WorkersEvent α} (append : ∀ slot, event ≠ .pool (.append slot))
    (finds : ∀ worker, event = .pool (.popFront worker) → workers.requests.workqueue = [])
    (stepped : step size workers event = some next) :
    next.requests.workqueue = workers.requests.workqueue := by
  cases acts_of_step stepped with
  | pool other moved =>
    cases ThreadPool.taken_of_step moved with
    | append => exact absurd rfl (append _)
    | foundEmpty | popFront => exact absurd rfl (other _).1
    | refused | post | wait | interrupted | processed => rfl
  | findsNone empty moved =>
    cases ThreadPool.taken_of_step moved with
    | foundEmpty => rfl
    | popFront _ _ _ queue => simp [empty] at queue
  | takes queue => simp [finds _ rfl] at queue
  | finish _ moved =>
    cases ThreadPool.taken_of_step moved with
    | processed => rfl
  | connection | assign | construct | process => rfl

end WebServ.Pool.Workers

namespace WebServ.Http

open WebServ.Machine WebServ.Pool

/-! ## The queue -/

namespace Server

variable {server next : Server} {slot : ℕ}

/-- The other actions leave the queue and the objects the workers have alone. -/
theorem queue_of_alone {event : Event} (alone : event.isShared = false)
    (stepped : server.step event = some next) :
    next.workqueue = server.workqueue ∧ next.held = server.held := by
  cases taken_of_step stepped with
  | take | finish | closeConn | finishClosed | read => cases alone
  | advance | epollWait | acceptFails | signals => exact ⟨rfl, rfl⟩
  | accept _ _ accepted =>
    rw [acceptConn] at accepted
    split_ifs at accepted <;> cases accepted <;> exact ⟨rfl, rfl⟩
  | close _ _ _ closed =>
    obtain ⟨timers, rfl⟩ := closeByTimer_eq_some closed
    exact ⟨rfl, rfl⟩
  | write _ _ postponed | writeClosed _ _ postponed =>
    obtain ⟨timers, rfl⟩ := postponeTimer_eq_some postponed
    exact ⟨rfl, rfl⟩
  | endBatch =>
    obtain ⟨_, _, _, workqueue, held⟩ := endBatch_frame stepped
    exact ⟨workqueue, held⟩

/-- An object that a worker gives back is the only one it gives back. -/
theorem mem_erase_iff {held : List (ℕ × Phase)} {phase : Phase} {other : ℕ} (once : (held.map Prod.fst).Nodup)
    (member : (slot, phase) ∈ held) :
    other ∈ (held.erase (slot, phase)).map Prod.fst ↔ other ≠ slot ∧ other ∈ held.map Prod.fst := by
  have split := (List.perm_cons_erase member).map Prod.fst
  have left := (List.nodup_cons.mp (split.nodup_iff.mp once)).1
  rw [split.mem_iff, List.map_cons, List.mem_cons]
  constructor
  · intro present
    refine ⟨?_, Or.inr present⟩
    rintro rfl
    exact left present
  · rintro ⟨differs, same | present⟩
    · exact absurd same differs
    · exact present

/-- A read that has succeeded. -/
theorem queue_of_read (front : server.front = [slot]) (stepped : server.step (.read true) = some next) :
    next.workqueue = (server.append slot).workqueue ∧ next.held = server.held := by
  cases taken_of_step stepped with
  | close _ event_eq => simp at event_eq
  | @read fd socket rest _ batch pointer postponed =>
    obtain ⟨timers, rfl⟩ := postponeTimer_eq_some postponed
    obtain rfl : fd = slot := by simpa [Server.front, batch, Ready.fd?] using front
    refine ⟨?_, ?_⟩
    · change ({ server with batch := rest }.append fd).workqueue = _
      rw [append, append]
      split_ifs <;> rfl
    · change ({ server with batch := rest }.append fd).held = _
      rw [append]
      split_ifs <;> rfl

end Server

namespace WebServer

variable {web next : WebServer} {worker slot maxConn : ℕ}

/-- What an action does on each side. -/
inductive Acts (web : WebServer) : WebServerEvent → WebServer → Prop where
  | main {event : Event} {server : Server} (alone : event.isShared = false)
      (stepped : web.server.step event = some server) : Acts web (.main event) { web with server }
  | append {slot : ℕ} {server : Server} {workers : Workers ℕ} (front : web.server.front = [slot])
      (read : web.server.step (.read true) = some server)
      (appended : web.workers.step .default (.pool (.append slot)) = some workers) :
      Acts web (.append slot) ⟨server, workers⟩
  | take {worker : ℕ} {server : Server} {workers : Workers ℕ}
      (finds : web.workers.requests.workqueue ≠ []) (taken : web.server.step .take = some server)
      (popped : web.workers.step .default (.pool (.popFront worker)) = some workers) :
      Acts web (.take worker) ⟨server, workers⟩
  | worker {event : WorkersEvent ℕ} {workers : Workers ℕ} (alone : web.shares event = false)
      (stepped : web.workers.step .default event = some workers) :
      Acts web (.worker event) { web with workers }
  | process {worker slot : ℕ} {interest : Option Interest} {server : Server} {workers : Workers ℕ}
      (holds : web.slot? worker = some slot)
      (ended : web.server.step (endOfProcess slot interest) = some server)
      (returned : web.workers.step .default (.process worker) = some workers) :
      Acts web (.process worker interest) ⟨server, workers⟩
  | closeConn {worker slot : ℕ} {server : Server} (holds : web.slot? worker = some slot)
      (closed : web.server.step (.closeConn slot) = some server) :
      Acts web (.closeConn worker) { web with server }

theorem both_eq_some {event : Event} {other : WorkersEvent ℕ} (stepped : web.both event other = some next) :
    web.server.step event = some next.server ∧ web.workers.step .default other = some next.workers := by
  obtain ⟨server, left, stepped⟩ := Option.bind_eq_some_iff.mp stepped
  obtain ⟨workers, right, rfl⟩ := Option.map_eq_some_iff.mp stepped
  exact ⟨left, right⟩

theorem acts_of_step {event : WebServerEvent} (stepped : web.step event = some next) :
    Acts web event next := by
  cases event with
  | main event =>
    rw [step] at stepped
    split_ifs at stepped with joint
    obtain ⟨server, moved, rfl⟩ := Option.map_eq_some_iff.mp stepped
    exact .main (Bool.not_eq_true _ ▸ joint) moved
  | append slot =>
    rw [step] at stepped
    split_ifs at stepped with front
    obtain ⟨left, right⟩ := both_eq_some stepped
    exact .append front left right
  | take worker =>
    rw [step] at stepped
    split_ifs at stepped with joint
    obtain ⟨left, right⟩ := both_eq_some stepped
    exact .take (by simpa [shares] using joint) left right
  | worker event =>
    rw [step] at stepped
    split_ifs at stepped with joint
    obtain ⟨workers, moved, rfl⟩ := Option.map_eq_some_iff.mp stepped
    exact .worker (Bool.not_eq_true _ ▸ joint) moved
  | process worker interest =>
    obtain ⟨slot, holds, stepped⟩ := Option.bind_eq_some_iff.mp stepped
    obtain ⟨left, right⟩ := both_eq_some stepped
    exact .process holds left right
  | closeConn worker =>
    obtain ⟨slot, holds, stepped⟩ := Option.bind_eq_some_iff.mp stepped
    obtain ⟨server, closed, rfl⟩ := Option.map_eq_some_iff.mp stepped
    exact .closeConn holds closed

/-- A worker in `process` has the slot. -/
theorem serves_of_slot? (holds : web.slot? worker = some slot) : web.workers.Serves worker slot := by
  rw [slot?] at holds
  split at holds
  · next conRAII request place stage =>
    cases holds
    exact ⟨by rw [place]; rfl, stage⟩
  · cases holds

/-! ## Both sides -/

/-- The queues are one, and the objects held are those the workers have. -/
structure Joined (maxConn : ℕ) (web : WebServer) : Prop where
  tied : Workers.Tied .default maxConn web.workers
  consistent : web.server.Consistent
  exclusive : web.server.Exclusive
  queue : web.workers.requests.workqueue = web.server.workqueue
  held : ∀ slot, (∃ worker, web.workers.Serves worker slot) ↔ slot ∈ web.server.held.map Prod.fst

/-- No tick expires a busy connection, and no worker calls `close_conn`. -/
def SparesBusy (web : WebServer) : WebServerEvent → Prop
  | .main event => web.server.SparesBusy event
  | .closeConn _ => False
  | _ => True

instance (web : WebServer) (event : WebServerEvent) : Decidable (web.SparesBusy event) :=
  match event with
  | .main event => inferInstanceAs (Decidable (web.server.SparesBusy event))
  | .closeConn _ => isFalse id
  | .append _ | .take _ | .worker _ | .process .. => isTrue trivial

namespace Joined

/-- A queued slot is not one that a worker has. -/
theorem apart (joined : Joined maxConn web) {rest : List ℕ}
    (queue : web.workers.requests.workqueue = slot :: rest) : ¬web.workers.Serves worker slot := by
  intro serves
  have once := joined.exclusive.once
  rw [Server.busy, ← joined.queue, queue, List.cons_append] at once
  apply (List.nodup_cons.mp once).1
  exact List.mem_append_right rest ((joined.held slot).mp ⟨worker, serves⟩)

/-- So no worker takes a request from under another. -/
theorem apartOf (joined : Joined maxConn web) (event : WorkersEvent ℕ) : web.workers.Apart event := by
  cases event with
  | pool event =>
    cases event with
    | popFront worker =>
      intro slot head other _
      rcases queue : web.workers.requests.workqueue with _ | ⟨first, rest⟩
      · simp [queue] at head
      · obtain rfl : first = slot := by simpa [queue] using head
        exact joined.apart queue
    | append | post | wait | interrupted | processed => trivial
  | connection | assign | construct | process | finish => trivial

/-- Every step that spares the busy connections keeps both sides together. -/
theorem step {event : WebServerEvent} (joined : Joined maxConn web)
    (enough : Size.default.threadNumber ≤ maxConn) (small : maxConn ≤ semValueMax)
    (spares : web.SparesBusy event) (stepped : web.step event = some next) : Joined maxConn next := by
  have kept : ∀ {event server}, web.server.SparesBusy event → web.server.step event = some server →
      server.Consistent ∧ server.Exclusive := fun spares moved =>
    ⟨joined.consistent.step spares.1 moved, joined.exclusive.step joined.consistent spares moved⟩
  cases acts_of_step stepped with
  | main alone moved =>
    obtain ⟨consistent, exclusive⟩ := kept spares moved
    obtain ⟨workqueue, held⟩ := Server.queue_of_alone alone moved
    exact ⟨joined.tied, consistent, exclusive, joined.queue.trans workqueue.symm, held ▸ joined.held⟩
  | append front read appended =>
    obtain ⟨consistent, exclusive⟩ := kept (by simp [Server.SparesBusy, Event.isCloseConn]) read
    obtain ⟨workqueue, held⟩ := Server.queue_of_read front read
    refine ⟨joined.tied.step enough small (joined.apartOf _) appended, consistent, exclusive, ?_, fun slot => ?_⟩
    · have same : Size.default.maxRequests = maxRequests := rfl
      rw [Workers.workqueue_of_append appended, workqueue, joined.queue, same, Server.append]
      split_ifs <;> rfl
    · rw [held, ← joined.held slot]
      exact exists_congr fun worker => Workers.serves_of_step joined.tied enough appended (by simp) (by simp)
  | take finds taken popped =>
    obtain ⟨consistent, exclusive⟩ := kept (by simp [Server.SparesBusy, Event.isCloseConn]) taken
    obtain ⟨slot, rest, queue⟩ := List.exists_cons_of_ne_nil finds
    obtain ⟨workqueue, takes⟩ := Workers.takes_of_step queue popped
    cases Server.taken_of_step taken with
    | close _ event_eq => simp at event_eq
    | take other more queued =>
      obtain ⟨rfl, rfl⟩ := List.cons_eq_cons.mp (queued.symm.trans (joined.queue.symm.trans queue))
      refine ⟨joined.tied.step enough small (joined.apartOf _) popped, consistent, exclusive, workqueue,
        fun slot => ?_⟩
      rw [Workers.exists_serves_of_take joined.tied enough queue popped, joined.held slot, List.map_cons,
          List.mem_cons]
  | @worker event _ alone moved =>
    have append : ∀ slot, event ≠ .pool (.append slot) := by
      rintro slot rfl
      cases alone
    have returns : ∀ worker, event ≠ .process worker := by
      rintro worker rfl
      cases alone
    have finds : ∀ worker, event = .pool (.popFront worker) → web.workers.requests.workqueue = [] := by
      rintro worker rfl
      simpa [shares] using alone
    refine ⟨joined.tied.step enough small (joined.apartOf _) moved, joined.consistent, joined.exclusive, ?_,
      fun slot => ?_⟩
    · exact (Workers.workqueue_of_alone append finds moved).trans joined.queue
    · rw [← joined.held slot]
      exact exists_congr fun worker => Workers.serves_of_step joined.tied enough moved (returns _) (finds _)
  | @process worker slot interest _ _ holds ended returned =>
    have serves := serves_of_slot? holds
    have spared : web.server.SparesBusy (endOfProcess slot interest) := by
      cases interest <;> simp [endOfProcess, Server.SparesBusy, Event.isCloseConn]
    obtain ⟨consistent, exclusive⟩ := kept spared ended
    have queue := Workers.workqueue_of_alone (by simp) (by simp) returned
    have released := fun other => Workers.exists_serves_of_process other joined.tied serves returned
    cases interest with
    | none =>
      cases Server.taken_of_step ended with
      | close _ event_eq => simp [endOfProcess] at event_eq
      | finishClosed holds => cases joined.exclusive.processing _ holds
    | some interest =>
      cases Server.taken_of_step ended with
      | close _ event_eq => simp [endOfProcess] at event_eq
      | finish _ member =>
        have once := (List.nodup_append.mp joined.exclusive.once).2.1
        refine ⟨joined.tied.step enough small (joined.apartOf _) returned, consistent, exclusive,
          queue.trans joined.queue, fun other => ?_⟩
        rw [released, joined.held other]
        exact (Server.mem_erase_iff once member).symm
  | closeConn => cases spares

end Joined

/-! ## Runs -/

section Runs

variable {clock : ℕ} {connects : ℕ → Bool} {connections : ConnectionPool} {mysql : ℕ → Option ℕ}

theorem joined_initial (clock : ℕ) (mysql : ℕ → Option ℕ) {maxConn : UInt32}
    (made : ConnectionPool.init connects maxConn Size.default.threadNumber = some connections) :
    maxConn.toNat ≤ semValueMax ∧ Joined maxConn.toNat (initial clock connections mysql) := by
  obtain ⟨small, tied⟩ := Workers.tied_initial made mysql
  refine ⟨small, tied, Server.consistent_initial clock, Server.exclusive_initial clock, rfl, fun slot => ?_⟩
  constructor
  · rintro ⟨worker, inRequest, _⟩
    cases inRequest
  · intro held
    cases held

theorem joined_of_run {maxConn : UInt32} {events : List WebServerEvent}
    (enough : Size.default.threadNumber ≤ maxConn.toNat)
    (made : ConnectionPool.init connects maxConn Size.default.threadNumber = some connections)
    (spares : Guarded step SparesBusy (initial clock connections mysql) events)
    (ran : run step (initial clock connections mysql) events = some web) : Joined maxConn.toNat web := by
  obtain ⟨small, begins⟩ := joined_initial clock mysql made
  exact invariant_of_guarded (fun _ _ _ joined spares stepped => joined.step enough small spares stepped)
    begins spares ran

/-- In every run of `main` and eight workers with at least as many connections, with any waits interrupted,
in which no tick expires a connection that is queued or held by a worker and no worker calls `close_conn`:
a worker in `process` has the object it has taken, whose descriptor is open, waits for no event, and is
neither reported nor queued, and it has its own connection in that object; no two workers have the same
object or the same connection. -/
theorem objects_and_connections_apart (clock : ℕ) (connects : ℕ → Bool) (maxConn : UInt32)
    (mysql : ℕ → Option ℕ) (connections : ConnectionPool) (events : List WebServerEvent) (web : WebServer)
    (enough : Size.default.threadNumber ≤ maxConn.toNat)
    (made : ConnectionPool.init connects maxConn Size.default.threadNumber = some connections)
    (spares : Guarded step SparesBusy (initial clock connections mysql) events)
    (ran : run step (initial clock connections mysql) events = some web) :
    (∀ worker conRAII, web.workers.places worker = .processing conRAII → ∃ slot con,
      web.workers.requests.stages[worker]? = some (.processing slot) ∧ conRAII = some con ∧
        web.workers.mysql slot = some con ∧ slot ∉ web.server.reported ∧ slot ∉ web.server.workqueue ∧
        ∃ descriptor ∈ web.server.descriptors, descriptor.fd = slot ∧ descriptor.armed = none) ∧
    (∀ one other slot, web.workers.Serves one slot → web.workers.Serves other slot → one = other) ∧
    (∀ one other conRAII, web.workers.places one = .processing conRAII →
      web.workers.places other = .processing conRAII → one = other) := by
  have joined := joined_of_run enough made spares ran
  refine ⟨?_, joined.tied.apart, fun one other conRAII => joined.tied.con_unique⟩
  intro worker conRAII place
  obtain ⟨slot, con, rfl, assigned, stands⟩ := joined.tied.exists_con place
  have serves : web.workers.Serves worker slot := ⟨by rw [place]; rfl, stands.stage⟩
  have held := (joined.held slot).mp ⟨worker, serves⟩
  have busy : slot ∈ web.server.busy := List.mem_append_right _ held
  obtain ⟨descriptor, member, same⟩ := Server.descriptor_of_open (joined.exclusive.isOpen slot busy)
  refine ⟨slot, con, stands.stage, rfl, assigned, fun reported => ?_, fun queued => ?_, descriptor, member,
    same, joined.exclusive.disarmed descriptor member (Or.inl (same ▸ busy))⟩
  · exact joined.exclusive.apart slot reported busy
  · exact (List.nodup_append.mp joined.exclusive.once).2.2 slot queued slot held rfl

/-! ## Executions -/

/-- What the steps show of the workers. -/
def workersEvent? : WebServerEvent → Option (WorkersEvent ℕ)
  | .main _ | .closeConn _ => none
  | .append slot => some (.pool (.append slot))
  | .take worker => some (.pool (.popFront worker))
  | .worker event => some event
  | .process worker _ => some (.process worker)

theorem projects : Projects step (Workers.step .default) workers workersEvent? := by
  intro web event next stepped
  cases acts_of_step stepped with
  | main | closeConn => rfl
  | append _ _ moved | take _ _ moved | worker _ moved | process _ _ moved =>
    exact (run_cons_eq_some _).mpr ⟨_, moved, rfl⟩

/-- The step of a woken worker. -/
def PopsFront (worker : ℕ) (event : WebServerEvent) : Prop :=
  event = .take worker ∨ event = .worker (.pool (.popFront worker))

/-- The steps a worker takes once it has a request, unless a signal interrupts its wait. -/
def Proceeds (worker : ℕ) (event : WebServerEvent) : Prop :=
  ∃ own, workersEvent? event = some own ∧ Workers.Proceeds worker own

/-- The threads are scheduled weakly fairly: `main` posts, some worker gets a token as long as there is one, a
woken worker gets the mutex, and a worker with a request goes on. -/
structure Fair (exec : Execution step (initial clock connections mysql)) : Prop where
  post : exec.WeaklyFair fun event => event = .worker (.pool .post)
  wait : exec.WeaklyFair fun event => ∃ worker, event = .worker (.pool (.wait worker))
  popFront : ∀ worker, exec.WeaklyFair (PopsFront worker)
  proceeds : ∀ worker, exec.WeaklyFair (Proceeds worker)

/-- A woken worker leaves the objects of the others to be held. -/
theorem Joined.held_lt (joined : Joined maxConn web)
    (woken : web.workers.requests.stages[worker]? = some .woken) : web.server.held.length < threadNumber := by
  have once := (List.nodup_append.mp joined.exclusive.once).2.1
  have inside : web.server.held.map Prod.fst ⊆ web.workers.requests.stages.filterMap Stage.request? := by
    intro slot held
    obtain ⟨worker, _, stage⟩ := (joined.held slot).mpr held
    exact List.mem_filterMap.mpr ⟨_, List.mem_of_getElem? stage, rfl⟩
  have fewer := (List.subperm_of_subset once inside).length_le
  have idle : (web.workers.requests.stages.filterMap Stage.request?).length < web.workers.requests.stages.length :=
    List.length_filterMap_lt_length_iff_exists.mpr ⟨.woken, List.mem_of_getElem? woken, rfl⟩
  have threads : web.workers.requests.stages.length = threadNumber := joined.tied.accounted.threads
  rw [List.length_map] at fewer
  omega

/-- The server holds the object that a worker gives back. -/
theorem Joined.exists_finished (joined : Joined maxConn web) (serves : web.workers.Serves worker slot)
    (interest : Interest) : ∃ server, web.server.step (.finish slot interest) = some server := by
  obtain ⟨⟨_, phase⟩, member, rfl⟩ := List.mem_map.mp ((joined.held slot).mp ⟨worker, serves⟩)
  obtain rfl := joined.exclusive.processing _ member
  exact ⟨_, if_pos member⟩

/-- A worker that can go on can do so together with the server. -/
theorem Joined.enabled_of_proceeds (joined : Joined maxConn web)
    (enabled : Enabled (Workers.step .default) web.workers (Workers.Proceeds worker)) :
    Enabled WebServer.step web (Proceeds worker) := by
  obtain ⟨event, proceeds, enabled⟩ := enabled
  cases event with
  | pool => cases proceeds
  | connection | assign | construct | finish =>
    refine ⟨.worker _, ⟨_, rfl, proceeds⟩, ?_⟩
    simpa [WebServer.step, shares] using enabled
  | process actor =>
    obtain ⟨next, moved⟩ := Option.isSome_iff_exists.mp enabled
    cases Workers.acts_of_step moved with
    | process place =>
      obtain ⟨slot, con, rfl, _, stands⟩ := joined.tied.exists_con place
      have holds : web.slot? actor = some slot := by
        rw [slot?, place, stands.stage]
      obtain ⟨server, ended⟩ := joined.exists_finished (serves_of_slot? holds) .input
      refine ⟨.process actor (some .input), ⟨_, rfl, proceeds⟩, ?_⟩
      simp [WebServer.step, holds, both, endOfProcess, ended, moved]

/-- So can a woken worker. -/
theorem Joined.enabled_of_popFront (joined : Joined maxConn web)
    (enabled : (web.workers.step .default (.pool (.popFront worker))).isSome) :
    Enabled WebServer.step web (PopsFront worker) := by
  obtain ⟨next, moved⟩ := Option.isSome_iff_exists.mp enabled
  rcases queue : web.workers.requests.workqueue with _ | ⟨slot, rest⟩
  · refine ⟨_, Or.inr rfl, ?_⟩
    simp [WebServer.step, shares, queue, moved]
  · have woken : web.workers.requests.stages[worker]? = some .woken := by
      cases Workers.acts_of_step moved with
      | pool other => exact absurd rfl (other _).1
      | findsNone _ popped | takes _ popped =>
        cases ThreadPool.taken_of_step popped with
        | foundEmpty stage | popFront _ _ stage => exact stage
    have taken : (web.server.step .take).isSome := by
      simp [Server.step, ← joined.queue, queue, joined.held_lt woken]
    obtain ⟨server, taken⟩ := Option.isSome_iff_exists.mp taken
    refine ⟨_, Or.inl rfl, ?_⟩
    simp [WebServer.step, shares, queue, both, taken, moved]

variable {exec : Execution WebServer.step (initial clock connections mysql)}

/-- The workers keep to what they are promised. -/
theorem regular_of_spares (enough : Size.default.threadNumber ≤ maxConn)
    (begins : maxConn ≤ semValueMax ∧ Joined maxConn (initial clock connections mysql))
    (spares : ∀ time event, exec.event time = some event → (exec.state time).SparesBusy event) :
    (∀ time, Joined maxConn (exec.state time)) ∧ Workers.Regular (exec.project projects) maxConn := by
  obtain ⟨small, begins⟩ := begins
  have joined : ∀ time, Joined maxConn (exec.state time) := by
    intro time
    refine exec.persists (Joined maxConn) (fun time event _ taken joined => ?_) ?_ (Nat.zero_le time)
    · exact joined.step enough small (spares time event taken) (exec.steps time event taken)
    · rw [exec.starts]
      exact begins
  exact ⟨joined, enough, small, begins.tied, fun time event _ => (joined time).apartOf event⟩

/-- And they are scheduled fairly. -/
theorem Fair.workers (fair : Fair exec) (joined : ∀ time, Joined maxConn (exec.state time)) :
    Workers.Fair (exec.project projects) where
  post := by
    refine fair.post.project projects ?_ ?_
    · rintro time ⟨_, rfl, enabled⟩
      exact ⟨_, rfl, by simpa [step, shares] using enabled⟩
    · rintro _ rfl
      exact ⟨_, rfl, rfl⟩
  wait := by
    refine fair.wait.project projects ?_ ?_
    · rintro time ⟨_, ⟨worker, rfl⟩, enabled⟩
      exact ⟨_, ⟨worker, rfl⟩, by simpa [step, shares] using enabled⟩
    · rintro _ ⟨worker, rfl⟩
      exact ⟨_, ⟨worker, rfl⟩, rfl⟩
  popFront worker := by
    refine (fair.popFront worker).project projects ?_ ?_
    · rintro time ⟨_, rfl, enabled⟩
      exact (joined time).enabled_of_popFront enabled
    · rintro _ (rfl | rfl) <;> exact ⟨_, rfl, rfl⟩
  proceeds worker := by
    refine (fair.proceeds worker).project projects ?_ ?_
    · exact fun time enabled => (joined time).enabled_of_proceeds enabled
    · rintro label ⟨own, shows, proceeds⟩
      exact ⟨own, proceeds, shows⟩

/-- The `modfd` at the end of `process` arms the descriptor. -/
theorem Joined.armed_of_process (joined : Joined maxConn web) {interest : Option Interest}
    (serves : web.workers.Serves worker slot) (stepped : web.step (.process worker interest) = some next) :
    ∃ descriptor ∈ next.server.descriptors, descriptor.fd = slot ∧ descriptor.armed ≠ none ∧
      descriptor.armed = interest := by
  cases acts_of_step stepped with
  | process holds ended =>
    obtain rfl := Stage.processing.inj (Option.some.inj (serves.2.symm.trans (serves_of_slot? holds).2))
    cases interest with
    | none =>
      cases Server.taken_of_step ended with
      | close _ event_eq => simp [endOfProcess] at event_eq
      | finishClosed holds => cases joined.exclusive.processing _ holds
    | some interest =>
      cases Server.taken_of_step ended with
      | close _ event_eq => simp [endOfProcess] at event_eq
      | finish _ member =>
        have busy : slot ∈ web.server.busy := List.mem_append_right _ (List.mem_map_of_mem member)
        obtain ⟨descriptor, present, rfl⟩ := Server.descriptor_of_open (joined.exclusive.isOpen _ busy)
        rw [joined.consistent.sockfd descriptor present]
        refine ⟨{ descriptor with armed := some interest }, ?_, rfl, Option.some_ne_none _, rfl⟩
        exact List.mem_map.mpr ⟨descriptor, present, if_pos rfl⟩

/-- In every fair execution of `main` and eight workers with at least as many connections, with any waits
interrupted, in which no tick expires a connection that is queued or held by a worker and no worker calls
`close_conn`: an object that is appended to a queue with room is processed later, with a connection, by the
worker that has dequeued it, and then its descriptor is armed again. -/
theorem appended_object_processed (clock : ℕ) (connects : ℕ → Bool) (maxConn : UInt32)
    (mysql : ℕ → Option ℕ) (connections : ConnectionPool) (enough : Size.default.threadNumber ≤ maxConn.toNat)
    (made : ConnectionPool.init connects maxConn Size.default.threadNumber = some connections)
    (exec : Execution step (initial clock connections mysql)) (fair : Fair exec)
    (spares : ∀ time event, exec.event time = some event → (exec.state time).SparesBusy event)
    (time slot : ℕ) (appended : exec.event time = some (.append slot))
    (room : (exec.state time).server.workqueue.length < maxRequests) :
    ∃ later worker con interest, time < later ∧ exec.event later = some (.process worker interest) ∧
      (exec.state later).workers.requests.stages[worker]? = some (.processing slot) ∧
      (exec.state later).workers.places worker = .processing (some con) ∧
      ∃ descriptor ∈ (exec.state (later + 1)).server.descriptors, descriptor.fd = slot ∧
        descriptor.armed ≠ none ∧ descriptor.armed = interest := by
  obtain ⟨joined, regular⟩ := regular_of_spares enough (joined_initial clock mysql made) spares
  have stepped := exec.steps time _ appended
  have accepted : (exec.state (time + 1)).workers.requests.accepted =
      (exec.state time).workers.requests.accepted ++ [slot] := by
    have same := (joined time).queue
    generalize exec.state (time + 1) = next at stepped
    cases acts_of_step stepped with
    | append _ _ moved =>
      cases Workers.acts_of_step moved with
      | pool _ pushed =>
        cases ThreadPool.taken_of_step pushed with
        | refused full =>
          rw [same] at full
          exact absurd full (Nat.not_le.mpr room)
        | append => rfl
  have called : (exec.state (time + 1)).workers.requests.accepted[
      (exec.state time).workers.requests.accepted.length]? = some slot := by
    rw [accepted, List.getElem?_concat_length]
  obtain ⟨later, worker, con, processes, place, ⟨inRequest, stage⟩, here, _⟩ :=
    regular.serves_accepted (fair.workers joined) called
  obtain ⟨event, taken, shows⟩ := Option.bind_eq_some_iff.mp processes
  cases event with
  | main | append | take | closeConn => cases shows
  | worker own =>
    cases shows
    have refused := exec.steps later _ taken
    simp [step, shares] at refused
  | process actor interest =>
    cases shows
    obtain ⟨descriptor, member, own, armed, isInterest⟩ :=
      (joined later).armed_of_process ⟨inRequest, stage⟩ (exec.steps later _ taken)
    refine ⟨later, worker, con, interest, ?_, taken, stage, place, descriptor, member, own, armed, isInterest⟩
    -- until then no call of `push_back` has that number
    by_contra early
    let requests := (exec.project projects).project Workers.projects
    have before := List.getElem?_eq_some_iff.mp (ThreadPool.accepted_of_dequeued requests here)
    have grows := (ThreadPool.accepted_grows requests (Nat.le_of_not_lt early)).length_le
    exact absurd (before.1.trans_le grows) (Nat.lt_irrefl _)

/-- A run that ends with all workers at `wait`, no token and no post to come is fair. -/
theorem fair_of_idle {events : List WebServerEvent}
    (ran : run step (initial clock connections mysql) events = some web) (idle : web.workers.Idle) :
    Fair (Execution.ofRun ran) := by
  have stuck : ∀ {event own}, workersEvent? event = some own → Workers.step .default web.workers own = none →
      ¬(web.step event).isSome := by
    intro event own shows refused taken
    obtain ⟨next, stepped⟩ := Option.isSome_iff_exists.mp taken
    have moved := projects _ _ _ stepped
    rw [shows, Option.toList_some, run_cons_eq_some] at moved
    obtain ⟨_, moved, _⟩ := moved
    rw [refused] at moved
    cases moved
  constructor
  · apply Execution.ofRun_weaklyFair
    rintro ⟨_, rfl, taken⟩
    exact stuck rfl (idle.stuck (Or.inl rfl)) taken
  · apply Execution.ofRun_weaklyFair
    rintro ⟨_, ⟨worker, rfl⟩, taken⟩
    exact stuck rfl (idle.stuck (Or.inr (Or.inl ⟨worker, rfl⟩))) taken
  · intro worker
    apply Execution.ofRun_weaklyFair
    rintro ⟨_, rfl | rfl, taken⟩ <;>
      exact stuck rfl (idle.stuck (Or.inr (Or.inr (Or.inl ⟨worker, rfl⟩)))) taken
  · intro worker
    apply Execution.ofRun_weaklyFair
    rintro ⟨event, ⟨own, shows, proceeds⟩, taken⟩
    exact stuck shows (idle.stuck (Or.inr (Or.inr (Or.inr ⟨worker, proceeds⟩)))) taken

end Runs

section Example

/-- Two connections send requests at once; the second worker's wait for a connection is interrupted. -/
private def twoClients : List WebServerEvent :=
  [.main (.epollWait [.listen]), .main (.accept 5), .main .endBatch, .main (.epollWait [.listen]),
    .main (.accept 6), .main .endBatch, .main (.epollWait [.client 5 .readable, .client 6 .readable]),
    .append 5, .worker (.pool .post), .worker (.pool (.wait 0)), .append 6, .take 0,
    .worker (.pool .post), .worker (.pool (.wait 1)), .take 1, .worker (.connection (.check 0)),
    .worker (.connection (.check 1)), .worker (.connection (.wait 0)), .worker (.connection (.interrupted 1)),
    .worker (.connection (.takeFront 1)), .worker (.connection (.takeFront 0)), .worker (.assign 0),
    .worker (.assign 1), .worker (.construct 1), .worker (.construct 0), .main .endBatch,
    .process 1 (some .output), .main (.epollWait [.client 6 .writable]), .process 0 (some .input),
    .main (.write (some .input)), .main .endBatch, .worker (.connection (.release 0 (some 1))),
    .worker (.connection (.post 0)), .worker (.finish 0), .worker (.connection (.release 1 (some 0))),
    .worker (.connection (.post 1)), .worker (.finish 1)]

private theorem eightConnections_made : (ConnectionPool.init (fun _ => true) 8 8).isSome := by decide

private abbrev eightStart : WebServer :=
  initial 0 ((ConnectionPool.init (fun _ => true) 8 8).get eightConnections_made) fun _ => none

private theorem twoClients_runs : (run step eightStart twoClients).isSome := by decide +kernel

private theorem twoClients_spares : Guarded step SparesBusy eightStart twoClients := by decide +kernel

private abbrev twoClientsExecution : Execution step eightStart := .ofRun (Option.some_get twoClients_runs).symm

private theorem twoClients_fair : Fair twoClientsExecution := by
  refine fair_of_idle _ ⟨by decide +kernel, by decide +kernel, by decide +kernel, fun worker => ?_⟩
  have joined := joined_of_run (by decide) (Option.some_get eightConnections_made).symm twoClients_spares
    (Option.some_get twoClients_runs).symm
  by_contra busy
  have bound := joined.tied.inside worker busy
  have all : ∀ worker < 8, ((run step eightStart twoClients).get twoClients_runs).workers.places worker =
      .outside := by decide +kernel
  exact busy (all worker bound)

private theorem bothProcessed_runs : (run step eightStart (twoClients.take 25)).isSome := by decide +kernel

/-- Both objects are in the hands of their workers. -/
theorem objects_and_connections_apart_two : ∃ web : WebServer, web.workers.places 0 = .processing (some 1) ∧
    ∃ slot con, web.workers.requests.stages[0]? = some (.processing slot) ∧ some 1 = some con ∧
      web.workers.mysql slot = some con ∧ slot ∉ web.server.reported ∧ slot ∉ web.server.workqueue ∧
      ∃ descriptor ∈ web.server.descriptors, descriptor.fd = slot ∧ descriptor.armed = none :=
  have first : ((run step eightStart (twoClients.take 25)).get bothProcessed_runs).workers.places 0 =
    .processing (some 1) := by decide +kernel
  ⟨_, first, (objects_and_connections_apart 0 (fun _ => true) 8 (fun _ => none) _ (twoClients.take 25) _
    (by decide) (Option.some_get eightConnections_made).symm (by decide +kernel)
    (Option.some_get bothProcessed_runs).symm).1 0 _ first⟩

/-- The object that is appended first. -/
theorem appended_object_processed_two : ∃ later worker con interest, 7 < later ∧
    twoClientsExecution.event later = some (.process worker interest) ∧
    (twoClientsExecution.state later).workers.requests.stages[worker]? = some (.processing 5) ∧
    (twoClientsExecution.state later).workers.places worker = .processing (some con) ∧
    ∃ descriptor ∈ (twoClientsExecution.state (later + 1)).server.descriptors, descriptor.fd = 5 ∧
      descriptor.armed ≠ none ∧ descriptor.armed = interest :=
  appended_object_processed 0 (fun _ => true) 8 (fun _ => none) _ (by decide)
    (Option.some_get eightConnections_made).symm twoClientsExecution twoClients_fair
    (fun _ _ taken => Execution.ofRun_guarded _ twoClients_spares taken) 7 5 rfl (by decide +kernel)

end Example

end WebServer

end WebServ.Http
