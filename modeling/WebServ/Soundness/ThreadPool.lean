import WebServ.Model.ThreadPool
import WebServ.Machine.Slots
import Mathlib.Data.Nat.Basic

/-! # The thread pool loses no request

The semaphore and the queue are updated in separate steps, and an interrupted wait lets a worker pass
without a token. What survives every interleaving is an inequality: the queue is no longer than the
tokens, the posts still to come and the workers between `wait` and `pop_front` together. It excludes a
stranded request in every state, and under weak fairness of the threads it makes some worker reach
`pop_front` while the queue is not empty, so that every accepted request is dequeued in turn.
-/

namespace WebServ.Pool

open WebServ.Machine

variable {α : Type*}

namespace ThreadPool

variable {size : Size} {pool next : ThreadPool α}

/-- What each step does, with the facts its guards establish. -/
inductive Taken (size : Size) (pool : ThreadPool α) : PoolEvent α → ThreadPool α → Prop where
  | refused {request : α} (full : size.maxRequests ≤ pool.workqueue.length) :
      Taken size pool (.append request) pool
  | append {request : α} (room : pool.workqueue.length < size.maxRequests) :
      Taken size pool (.append request) { pool with
        workqueue := pool.workqueue ++ [request]
        posting := pool.posting + 1
        accepted := pool.accepted ++ [request] }
  | post (pending : 0 < pool.posting) :
      Taken size pool .post
        { pool with queuestat := semPost pool.queuestat, posting := pool.posting - 1 }
  | wait {worker : ℕ} (stage : pool.stages[worker]? = some .waiting) (positive : 0 < pool.queuestat) :
      Taken size pool (.wait worker)
        { pool.setStage worker .woken with queuestat := pool.queuestat - 1 }
  | interrupted {worker : ℕ} (stage : pool.stages[worker]? = some .waiting) :
      Taken size pool (.interrupted worker) (pool.setStage worker .woken)
  | foundEmpty {worker : ℕ} (stage : pool.stages[worker]? = some .woken) (empty : pool.workqueue = []) :
      Taken size pool (.popFront worker) (pool.setStage worker .waiting)
  | popFront {worker : ℕ} (request : α) (rest : List α) (stage : pool.stages[worker]? = some .woken)
      (queue : pool.workqueue = request :: rest) :
      Taken size pool (.popFront worker) { pool.setStage worker (.processing request) with
        workqueue := rest
        dequeued := pool.dequeued ++ [(request, worker)] }
  | processed {worker : ℕ} {request : α} (stage : pool.stages[worker]? = some (.processing request)) :
      Taken size pool (.processed worker) (pool.setStage worker .waiting)

/-- Inversion of the step function. -/
theorem taken_of_step {event : PoolEvent α} (stepped : step size pool event = some next) :
    Taken size pool event next := by
  cases event with
  | append request =>
    simp only [step] at stepped
    split_ifs at stepped with full
    · cases stepped
      exact .refused full
    · cases stepped
      exact .append (by omega)
  | post =>
    simp only [step] at stepped
    split_ifs at stepped with pending
    cases stepped
    exact .post pending
  | wait worker =>
    simp only [step] at stepped
    split at stepped
    · next stage =>
      split_ifs at stepped with positive
      cases stepped
      exact .wait stage positive
    · cases stepped
  | interrupted worker =>
    simp only [step] at stepped
    split at stepped
    · next stage =>
      cases stepped
      exact .interrupted stage
    · cases stepped
  | popFront worker =>
    simp only [step] at stepped
    split at stepped
    · next stage =>
      rcases queue : pool.workqueue with _ | ⟨request, rest⟩
      · simp only [queue, List.isEmpty_nil, ↓reduceIte, Option.some.injEq] at stepped
        subst stepped
        exact .foundEmpty stage queue
      · simp only [queue, List.isEmpty_cons, Bool.false_eq_true, ↓reduceIte, Option.some.injEq] at stepped
        subst stepped
        rw [takeFront, queue]
        exact .popFront request rest stage queue
    · cases stepped
  | processed worker =>
    simp only [step] at stepped
    split at stepped
    · next stage =>
      cases stepped
      exact .processed stage
    · cases stepped

/-- The number of workers between `wait` and `pop_front`. -/
def wokenCount (pool : ThreadPool α) : ℕ := pool.stages.countP Stage.isWoken

/-- A worker's change of stage is counted at its place. -/
theorem wokenCount_setStage {worker : ℕ} {old : Stage α} (here : pool.stages[worker]? = some old)
    (stage : Stage α) : (pool.setStage worker stage).wokenCount + (if old.isWoken then 1 else 0) =
      pool.wokenCount + if stage.isWoken then 1 else 0 :=
  countP_set_add Stage.isWoken here stage

/-- Waking counts one more. -/
theorem wokenCount_wake {worker : ℕ} (waiting : pool.stages[worker]? = some .waiting) :
    (pool.setStage worker .woken).wokenCount = pool.wokenCount + 1 :=
  wokenCount_setStage waiting .woken

/-- Taking a request counts one less. -/
theorem wokenCount_take {worker : ℕ} (woken : pool.stages[worker]? = some .woken) (request : α) :
    (pool.setStage worker (.processing request)).wokenCount + 1 = pool.wokenCount :=
  wokenCount_setStage woken (.processing request)

/-- The end of a request changes nothing. -/
theorem wokenCount_processed {worker : ℕ} {request : α}
    (processing : pool.stages[worker]? = some (.processing request)) :
    (pool.setStage worker .waiting).wokenCount = pool.wokenCount :=
  wokenCount_setStage processing .waiting

/-- The invariant of the pool. -/
structure Accounted (size : Size) (pool : ThreadPool α) : Prop where
  history : pool.accepted = pool.dequeued.map Prod.fst ++ pool.workqueue
  bounded : pool.workqueue.length ≤ size.maxRequests
  defined : pool.undefined = false
  threads : pool.stages.length = size.threadNumber
  covered : pool.workqueue.length ≤ pool.queuestat + pool.posting + pool.wokenCount

theorem accounted_initial : Accounted size (initial size : ThreadPool α) where
  history := rfl
  bounded := Nat.zero_le _
  defined := rfl
  threads := List.length_replicate ..
  covered := Nat.zero_le _

theorem semPost_pos (value : ℕ) : 0 < semPost value := by
  rw [semPost]
  split_ifs with below
  · exact Nat.succ_pos value
  · exact Nat.lt_of_lt_of_le (by decide) (Nat.le_of_not_lt below)

/-- A post covers one more request, unless the semaphore already covers the longest queue. -/
theorem semPost_covers {length others value : ℕ} (bounded : length ≤ semValueMax)
    (covered : length ≤ value + 1 + others) : length ≤ semPost value + others := by
  rw [semPost]
  split_ifs
  · exact covered
  · omega

namespace Accounted

/-- A change of stage that leaves the queue alone. -/
theorem setStage (accounted : Accounted size pool) {worker : ℕ} {stage : Stage α} {value : ℕ}
    (covered : pool.workqueue.length ≤ value + pool.posting + (pool.setStage worker stage).wokenCount) :
    Accounted size { pool.setStage worker stage with queuestat := value } where
  history := accounted.history
  bounded := accounted.bounded
  defined := accounted.defined
  threads := (List.length_set ..).trans accounted.threads
  covered := covered

/-- Every step keeps the accounts. -/
theorem step {event : PoolEvent α} (accounted : Accounted size pool)
    (stepped : step size pool event = some next) : Accounted size next := by
  have covered := accounted.covered
  cases taken_of_step stepped with
  | refused full => exact accounted
  | append room =>
    refine { accounted with history := ?_, bounded := ?_, covered := ?_ }
    · simp only [accounted.history, List.append_assoc]
    · simpa using Nat.succ_le_of_lt room
    · simp only [List.length_append, List.length_singleton, wokenCount] at covered ⊢
      omega
  | post pending =>
    refine { accounted with covered := ?_ }
    rw [Nat.add_assoc]
    apply semPost_covers (Nat.le_trans accounted.bounded size.requests_le)
    simp only [wokenCount] at covered ⊢
    omega
  | wait stage positive =>
    apply accounted.setStage
    rw [wokenCount_wake stage]
    omega
  | interrupted stage =>
    apply accounted.setStage
    rw [wokenCount_wake stage]
    omega
  | foundEmpty stage empty =>
    apply accounted.setStage
    simp only [empty, List.length_nil, Nat.zero_le]
  | popFront request rest stage queue =>
    have counted := wokenCount_take stage request
    refine ⟨?_, ?_, accounted.defined, (List.length_set ..).trans accounted.threads, ?_⟩
    · simp only [ThreadPool.setStage, accounted.history, queue, List.map_append, List.map_singleton,
        List.append_assoc, List.singleton_append]
    · have bounded := accounted.bounded
      rw [queue, List.length_cons] at bounded
      exact Nat.le_of_succ_le bounded
    · rw [queue, List.length_cons] at covered
      simp only [wokenCount, ThreadPool.setStage] at counted covered ⊢
      omega
  | processed stage =>
    apply accounted.setStage
    rw [wokenCount_processed stage]
    exact covered

/-- No request is stranded. -/
theorem notStranded (accounted : Accounted size pool) (queued : pool.workqueue ≠ []) :
    0 < pool.queuestat ∨ (∃ worker : ℕ, pool.stages[worker]? = some .woken) ∨ 0 < pool.posting := by
  have covered := accounted.covered
  have nonempty := List.length_pos_iff.mpr queued
  by_cases counted : 0 < pool.wokenCount
  · obtain ⟨stage, member, isWoken⟩ := List.countP_pos_iff.mp counted
    obtain ⟨worker, here⟩ := List.mem_iff_getElem?.mp member
    cases stage with
    | woken => exact Or.inr (Or.inl ⟨worker, here⟩)
    | waiting => cases isWoken
    | processing => cases isWoken
  · omega

end Accounted

theorem accounted_of_run {events : List (PoolEvent α)}
    (ran : run (step size) (initial size) events = some pool) : Accounted size pool :=
  invariant (fun _ _ _ accounted stepped => accounted.step stepped) accounted_initial ran

/-! ## Progress -/

private theorem unique_of_grown {β : Type*} {early late : List β} {index : ℕ} {one other : β}
    (grown : early <+: late) (first : early[index]? = some one) (second : late[index]? = some other) :
    one = other := by
  obtain ⟨rest, rfl⟩ := grown
  rw [List.getElem?_append_left (List.getElem?_eq_some_iff.mp first).1, first] at second
  exact Option.some.inj second

/-- The threads are scheduled weakly fairly: an appender posts, some worker gets a token as long as there
is one, a woken worker gets the mutex, and `process` returns. -/
structure Fair (exec : Execution (step size) (initial size : ThreadPool α)) : Prop where
  post : exec.WeaklyFair fun event => event = .post
  wait : exec.WeaklyFair fun event => ∃ worker, event = .wait worker
  popFront : ∀ worker, exec.WeaklyFair fun event => event = .popFront worker
  processed : ∀ worker, exec.WeaklyFair fun event => event = .processed worker

/-- A step leaves the other workers alone. -/
theorem stage_of_other {event : PoolEvent α} {worker : ℕ} (stepped : step size pool event = some next)
    (other : event.worker? ≠ some worker) : next.stages[worker]? = pool.stages[worker]? := by
  have elsewhere : ∀ {actor : ℕ} {stage : Stage α}, some actor ≠ some worker →
      (pool.setStage actor stage).stages[worker]? = pool.stages[worker]? := by
    intro actor stage differ
    exact List.getElem?_set_ne (fun same => differ (congrArg some same))
  cases taken_of_step stepped with
  | refused | append | post => rfl
  | wait | interrupted | foundEmpty | popFront | processed => exact elsewhere other

/-- The stage of the acting worker before and after its step. -/
theorem stage_of_own {event : PoolEvent α} {worker : ℕ} (stepped : step size pool event = some next)
    (own : event.worker? = some worker) :
    (pool.stages[worker]? = some .waiting ∧ next.stages[worker]? = some .woken) ∨
    (event = .popFront worker ∧ pool.stages[worker]? = some .woken) ∨
    (event = .processed worker ∧ (∃ request, pool.stages[worker]? = some (.processing request)) ∧
      next.stages[worker]? = some .waiting) := by
  have arrives : ∀ {old stage : Stage α}, pool.stages[worker]? = some old →
      (pool.setStage worker stage).stages[worker]? = some stage :=
    fun here => List.getElem?_set_self (List.getElem?_eq_some_iff.mp here).1
  cases taken_of_step stepped with
  | refused | append | post => cases own
  | wait stage | interrupted stage =>
    cases own
    exact Or.inl ⟨stage, arrives stage⟩
  | foundEmpty stage | popFront _ _ stage =>
    cases own
    exact Or.inr (Or.inl ⟨rfl, stage⟩)
  | processed stage =>
    cases own
    exact Or.inr (Or.inr ⟨rfl, ⟨_, stage⟩, arrives stage⟩)

/-- A woken worker stays so until it has the mutex. -/
theorem woken_kept {event : PoolEvent α} {worker : ℕ} (stepped : step size pool event = some next)
    (other : event ≠ .popFront worker) (woken : pool.stages[worker]? = some .woken) :
    next.stages[worker]? = some .woken := by
  by_cases own : event.worker? = some worker
  · rcases stage_of_own stepped own with ⟨waiting, _⟩ | ⟨isPop, _⟩ | ⟨_, ⟨request, processing⟩, _⟩
    · simp [woken] at waiting
    · exact absurd isPop other
    · simp [woken] at processing
  · rw [stage_of_other stepped own, woken]

/-- A worker processes its request until `process` returns. -/
theorem processing_kept {event : PoolEvent α} {worker : ℕ} (stepped : step size pool event = some next)
    (other : event ≠ .processed worker) {request : α}
    (processing : pool.stages[worker]? = some (.processing request)) :
    next.stages[worker]? = some (.processing request) := by
  by_cases own : event.worker? = some worker
  · rcases stage_of_own stepped own with ⟨waiting, _⟩ | ⟨_, woken⟩ | ⟨isProcessed, _, _⟩
    · simp [processing] at waiting
    · simp [processing] at woken
    · exact absurd isProcessed other
  · rw [stage_of_other stepped own, processing]

/-- A waiting worker waits until it is woken. -/
theorem waiting_kept {event : PoolEvent α} {worker : ℕ} (stepped : step size pool event = some next)
    (waiting : pool.stages[worker]? = some .waiting) :
    next.stages[worker]? = some .waiting ∨ next.stages[worker]? = some .woken := by
  by_cases own : event.worker? = some worker
  · rcases stage_of_own stepped own with ⟨_, woken⟩ | ⟨_, woken⟩ | ⟨_, _, waits⟩
    · exact Or.inr woken
    · simp [waiting] at woken
    · exact Or.inl waits
  · rw [stage_of_other stepped own]
    exact Or.inl waiting

/-- The records of the calls only grow. -/
theorem records_of_step {event : PoolEvent α} (stepped : step size pool event = some next) :
    pool.accepted <+: next.accepted ∧ pool.dequeued <+: next.dequeued := by
  cases taken_of_step stepped with
  | append => exact ⟨List.prefix_append .., List.prefix_rfl⟩
  | popFront => exact ⟨List.prefix_rfl, List.prefix_append ..⟩
  | refused | post | wait | interrupted | foundEmpty | processed =>
    exact ⟨List.prefix_rfl, List.prefix_rfl⟩

section Progress

variable (exec : Execution (step size) (initial size : ThreadPool α)) {start time : ℕ}

theorem accounted_at (time : ℕ) : Accounted size (exec.state time) := by
  obtain ⟨events, ran⟩ := exec.reachable time
  exact accounted_of_run ran

/-- At every time the accepted requests are those dequeued and those in the queue. -/
theorem accepted_length (time : ℕ) : (exec.state time).accepted.length =
    (exec.state time).dequeued.length + (exec.state time).workqueue.length := by
  rw [(accounted_at exec time).history, List.length_append, List.length_map]

theorem accepted_grows (later : start ≤ time) :
    (exec.state start).accepted <+: (exec.state time).accepted :=
  exec.related (fun pool next => pool.accepted <+: next.accepted) (fun _ => List.prefix_rfl)
    List.IsPrefix.trans (fun _ _ _ stepped => (records_of_step stepped).1) later

theorem dequeued_grows (later : start ≤ time) :
    (exec.state start).dequeued <+: (exec.state time).dequeued :=
  exec.related (fun pool next => pool.dequeued <+: next.dequeued) (fun _ => List.prefix_rfl)
    List.IsPrefix.trans (fun _ _ _ stepped => (records_of_step stepped).2) later

/-- No request is dequeued from `start` on, although one is queued then. -/
structure Stalled (start : ℕ) : Prop where
  queued : (exec.state start).workqueue ≠ []
  stuck : ∀ time, start ≤ time → (exec.state time).dequeued.length ≤ (exec.state start).dequeued.length

namespace Stalled

variable {exec}

/-- The queue of a stalled pool stays nonempty. -/
theorem stays (stalled : Stalled exec start) (later : start ≤ time) :
    (exec.state time).workqueue ≠ [] := by
  have before := accepted_length exec start
  have after := accepted_length exec time
  have accepted := (accepted_grows exec later).length_le
  have dequeued := stalled.stuck time later
  have nonempty := List.length_pos_iff.mpr stalled.queued
  apply List.length_pos_iff.mp
  omega

/-- A worker with the mutex would take a request, so no worker is ever woken. -/
theorem not_woken (stalled : Stalled exec start) (fair : Fair exec) (later : start ≤ time)
    (worker : ℕ) : (exec.state time).stages[worker]? ≠ some .woken := by
  intro woken
  have enabled : ∀ moment, time ≤ moment → (exec.state moment).stages[worker]? = some .woken →
      Enabled (step size) (exec.state moment) fun event => event = .popFront worker := by
    intro moment _ stage
    refine ⟨_, rfl, ?_⟩
    simp only [step, stage]
    split_ifs <;> rfl
  obtain ⟨moment, past, _, label, rfl, taken⟩ := (fair.popFront worker).occurs
    (fun pool : ThreadPool α => pool.stages[worker]? = some .woken) enabled
    (fun moment label _ taken other => woken_kept (exec.steps moment label taken) other) woken
  have stepped := exec.steps moment _ taken
  have nonempty := stalled.stays (Nat.le_trans later past)
  have stuck := stalled.stuck (moment + 1) (by omega)
  have grown := (dequeued_grows exec (Nat.le_trans later past)).length_le
  generalize exec.state (moment + 1) = next at stepped stuck
  cases taken_of_step stepped with
  | foundEmpty _ empty => exact nonempty empty
  | popFront request rest =>
    rw [List.length_append, List.length_singleton] at stuck
    omega

/-- From some time on, the first worker waits for ever. -/
theorem waits (stalled : Stalled exec start) (fair : Fair exec) :
    ∃ idle, start ≤ idle ∧ ∀ time, idle ≤ time → (exec.state time).stages[0]? = some .waiting := by
  have stays : ∀ idle, start ≤ idle → (exec.state idle).stages[0]? = some .waiting →
      ∀ time, idle ≤ time → (exec.state time).stages[0]? = some .waiting := by
    intro idle after waiting time later
    refine exec.persists (fun pool => pool.stages[0]? = some .waiting) ?_ waiting later
    intro time label later taken waiting
    have kept := waiting_kept (exec.steps time label taken) waiting
    exact kept.resolve_right (stalled.not_woken fair (by omega) 0)
  have threads : 0 < (exec.state start).stages.length := by
    rw [(accounted_at exec start).threads]
    exact size.threads_pos
  have first := List.getElem?_eq_getElem threads
  generalize (exec.state start).stages[0] = stage at first
  cases stage with
  | waiting => exact ⟨start, le_rfl, stays start le_rfl first⟩
  | woken => exact absurd first (stalled.not_woken fair le_rfl 0)
  | processing request =>
    have enabled : ∀ moment, start ≤ moment →
        (exec.state moment).stages[0]? = some (.processing request) →
        Enabled (step size) (exec.state moment) fun event => event = .processed 0 := by
      intro moment _ stage
      refine ⟨_, rfl, ?_⟩
      simp only [step, stage]
      rfl
    obtain ⟨moment, past, processing, label, rfl, taken⟩ := (fair.processed 0).occurs
      (fun pool : ThreadPool α => pool.stages[0]? = some (.processing request)) enabled
      (fun moment label _ taken other => processing_kept (exec.steps moment label taken) other) first
    refine ⟨moment + 1, by omega, stays (moment + 1) (by omega) ?_⟩
    rcases stage_of_own (exec.steps moment _ taken) rfl with ⟨waiting, _⟩ | ⟨isPop, _⟩ | ⟨_, _, waits⟩
    · simp [processing] at waiting
    · cases isPop
    · exact waits

/-- From some time on there is a token for ever. -/
theorem token (stalled : Stalled exec start) (fair : Fair exec) (later : start ≤ time) :
    ∃ moment, time ≤ moment ∧ 0 < (exec.state moment).queuestat := by
  rcases (accounted_at exec time).notStranded (stalled.stays later) with token | woken | posting
  · exact ⟨time, le_rfl, token⟩
  · obtain ⟨worker, woken⟩ := woken
    exact absurd woken (stalled.not_woken fair later worker)
  · have enabled : ∀ moment, time ≤ moment → 0 < (exec.state moment).posting →
        Enabled (step size) (exec.state moment) fun event => event = .post := by
      intro moment _ pending
      refine ⟨_, rfl, ?_⟩
      simp only [step, pending, ↓reduceIte]
      rfl
    obtain ⟨moment, past, _, label, rfl, taken⟩ := fair.post.occurs (fun pool : ThreadPool α => 0 < pool.posting)
      enabled (fun moment label _ taken other pending => by
        have stepped := exec.steps moment label taken
        generalize exec.state (moment + 1) = next at stepped
        cases taken_of_step stepped with
        | append => exact Nat.succ_pos _
        | post => exact absurd rfl other
        | refused | wait | interrupted | foundEmpty | popFront | processed => exact pending) posting
    refine ⟨moment + 1, by omega, ?_⟩
    have stepped := exec.steps moment _ taken
    generalize exec.state (moment + 1) = next at stepped
    cases taken_of_step stepped with
    | post =>
      exact semPost_pos _

end Stalled

/-- While a request is queued, one more is dequeued eventually. -/
theorem dequeues (fair : Fair exec) (queued : (exec.state start).workqueue ≠ []) :
    ∃ time, start ≤ time ∧ (exec.state start).dequeued.length < (exec.state time).dequeued.length := by
  by_contra never
  have stalled : Stalled exec start := by
    refine ⟨queued, fun time later => ?_⟩
    by_contra more
    exact never ⟨time, later, by omega⟩
  obtain ⟨idle, after, waiting⟩ := stalled.waits fair
  obtain ⟨time, later, token⟩ := stalled.token fair after
  have enabled : ∀ moment, time ≤ moment → 0 < (exec.state moment).queuestat →
      Enabled (step size) (exec.state moment) fun event => ∃ worker, event = .wait worker := by
    intro moment past positive
    refine ⟨_, ⟨0, rfl⟩, ?_⟩
    simp only [step, waiting moment (by omega), positive, ↓reduceIte]
    rfl
  obtain ⟨moment, past, _, label, ⟨worker, rfl⟩, taken⟩ := fair.wait.occurs
    (fun pool : ThreadPool α => 0 < pool.queuestat) enabled (fun moment label _ taken other positive => by
      have stepped := exec.steps moment label taken
      generalize exec.state (moment + 1) = next at stepped
      cases taken_of_step stepped with
      | wait => exact absurd ⟨_, rfl⟩ other
      | post => exact semPost_pos _
      | refused | append | interrupted | foundEmpty | popFront | processed => exact positive) token
  apply stalled.not_woken fair (show start ≤ moment + 1 by omega) worker
  rcases stage_of_own (exec.steps moment _ taken) rfl with ⟨_, woken⟩ | ⟨isPop, _⟩ | ⟨isProcessed, _⟩
  · exact woken
  · cases isPop
  · cases isProcessed

/-- Every accepted request is dequeued eventually. -/
theorem dequeues_all (fair : Fair exec) (count start : ℕ)
    (accepted : count ≤ (exec.state start).accepted.length) :
    ∃ time, count ≤ (exec.state time).dequeued.length := by
  suffices ∃ time, start ≤ time ∧ count ≤ (exec.state time).dequeued.length by
    obtain ⟨time, _, reached⟩ := this
    exact ⟨time, reached⟩
  induction count with
  | zero => exact ⟨start, le_rfl, Nat.zero_le _⟩
  | succ count ih =>
    obtain ⟨middle, after, reached⟩ := ih (by omega)
    by_cases enough : count + 1 ≤ (exec.state middle).dequeued.length
    · exact ⟨middle, after, enough⟩
    · have queued : (exec.state middle).workqueue ≠ [] := by
        have split := accepted_length exec middle
        have grown := (accepted_grows exec after).length_le
        apply List.length_pos_iff.mp
        omega
      obtain ⟨time, later, more⟩ := dequeues exec fair queued
      exact ⟨time, by omega, by omega⟩

/-- The number of a call of `pop_front` is that of the request it takes. -/
theorem accepted_of_dequeued {index worker : ℕ} {request : α}
    (dequeued : (exec.state time).dequeued[index]? = some (request, worker)) :
    (exec.state time).accepted[index]? = some request := by
  have bound := (List.getElem?_eq_some_iff.mp dequeued).1
  rw [(accounted_at exec time).history, List.getElem?_append_left (by rwa [List.length_map]),
    List.getElem?_map, dequeued, Option.map_some]

/-- The calls of `push_back` have the same numbers at all times. -/
theorem accepted_unique {other index : ℕ} {request again : α}
    (first : (exec.state time).accepted[index]? = some request)
    (second : (exec.state other).accepted[index]? = some again) : request = again := by
  rcases Nat.le_total time other with order | order
  · exact unique_of_grown (accepted_grows exec order) first second
  · exact (unique_of_grown (accepted_grows exec order) second first).symm

/-- So have the calls of `pop_front`. -/
theorem dequeued_unique {other index : ℕ} {taken again : α × ℕ}
    (first : (exec.state time).dequeued[index]? = some taken)
    (second : (exec.state other).dequeued[index]? = some again) : taken = again := by
  rcases Nat.le_total time other with order | order
  · exact unique_of_grown (dequeued_grows exec order) first second
  · exact (unique_of_grown (dequeued_grows exec order) second first).symm

end Progress

/-- In every run of a pool of any size, the requests accepted are those dequeued so far, in the same
order, and those in the queue; the queue is bounded, nothing is popped from an empty one, and no request
is stranded. In every weakly fair execution every accepted request is dequeued, by one worker. -/
theorem requests_dequeued_in_order (size : Size) :
    (∀ (events : List (PoolEvent α)) (pool : ThreadPool α),
      run (step size) (initial size) events = some pool →
      pool.accepted = pool.dequeued.map Prod.fst ++ pool.workqueue ∧
      pool.workqueue.length ≤ size.maxRequests ∧ pool.undefined = false ∧
      (pool.workqueue ≠ [] → 0 < pool.queuestat ∨
        (∃ worker : ℕ, pool.stages[worker]? = some .woken) ∨ 0 < pool.posting)) ∧
    ∀ exec : Execution (step size) (initial size : ThreadPool α), Fair exec →
      ∀ (time index : ℕ) (request : α), (exec.state time).accepted[index]? = some request →
        ∃! worker, ∃ later, (exec.state later).dequeued[index]? = some (request, worker) := by
  refine ⟨fun events pool ran => ?_, fun exec fair time index request accepted => ?_⟩
  · have accounted := accounted_of_run ran
    exact ⟨accounted.history, accounted.bounded, accounted.defined, accounted.notStranded⟩
  · have bound := (List.getElem?_eq_some_iff.mp accepted).1
    obtain ⟨later, reached⟩ := dequeues_all exec fair (index + 1) time (by omega)
    obtain ⟨⟨other, worker⟩, dequeued⟩ : ∃ entry, (exec.state later).dequeued[index]? = some entry :=
      ⟨_, List.getElem?_eq_getElem (by omega)⟩
    obtain rfl := accepted_unique exec accepted (accepted_of_dequeued exec dequeued)
    refine ⟨worker, ⟨later, dequeued⟩, ?_⟩
    rintro again ⟨moment, taken⟩
    exact (Prod.mk.inj (dequeued_unique exec taken dequeued)).2

/-- A run that ends with all workers at `wait`, no token and no post to come is fair. -/
theorem fair_of_idle {events : List (PoolEvent α)}
    (ran : run (step size) (initial size) events = some pool) (noToken : pool.queuestat = 0)
    (noPost : pool.posting = 0) (waiting : ∀ stage ∈ pool.stages, stage = .waiting) :
    Fair (Execution.ofRun ran) := by
  have idle : ∀ (worker : ℕ) (stage : Stage α), pool.stages[worker]? = some stage → stage = .waiting :=
    fun worker stage here => waiting stage (List.mem_of_getElem? here)
  constructor
  · apply Execution.ofRun_weaklyFair
    rintro ⟨_, rfl, taken⟩
    simp [step, noPost] at taken
  · apply Execution.ofRun_weaklyFair
    rintro ⟨_, ⟨worker, rfl⟩, taken⟩
    simp only [step, noToken] at taken
    split at taken <;> simp at taken
  · intro worker
    apply Execution.ofRun_weaklyFair
    rintro ⟨_, rfl, taken⟩
    simp only [step] at taken
    split at taken
    · next here => cases idle worker _ here
    · cases taken
  · intro worker
    apply Execution.ofRun_weaklyFair
    rintro ⟨_, rfl, taken⟩
    simp only [step] at taken
    split at taken
    · next here => cases idle worker _ here
    · cases taken

/-- Two requests, an interrupted wait that finds the second one, and a token that finds nothing. -/
private def twoRequests : List (PoolEvent ℕ) :=
  [.append 10, .append 20, .post, .wait 0, .popFront 0, .interrupted 3, .popFront 3, .post, .wait 1,
    .popFront 1, .processed 0, .processed 3]

private theorem twoRequests_runs : (run (step .default) (initial .default) twoRequests).isSome := by
  decide +kernel

private theorem twoRequests_fair : Fair (Execution.ofRun (Option.some_get twoRequests_runs).symm) :=
  fair_of_idle _ (by decide +kernel) (by decide +kernel) (by decide +kernel)

theorem requests_dequeued_in_order_two :
    ∃! worker, ∃ later,
      ((Execution.ofRun (Option.some_get twoRequests_runs).symm).state later).dequeued[1]? =
        some (20, worker) :=
  (requests_dequeued_in_order .default).2 _ twoRequests_fair 2 1 20 (by decide +kernel)

end ThreadPool

end WebServ.Pool
