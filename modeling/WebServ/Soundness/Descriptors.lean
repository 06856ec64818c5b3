import WebServ.Model.DescriptorTable
import WebServ.Soundness.OpenDescriptors

/-! # The check of `m_user_count` and the numbers it admits

The check bounds the number of connections, but `users` and `users_timer` are indexed by a descriptor, and the
descriptors below `MAX_FD` are shared with everything else the process has open. The number that is given out
is an index exactly if the numbers below `MAX_FD` are not all in use, which takes fewer connections than the
check allows for as soon as one other descriptor is open.
-/

namespace WebServ.Http

open WebServ.Machine

namespace DescriptorTable

variable {limit : ℕ} {table next : DescriptorTable} {event : TableEvent}

/-- What each step does. -/
inductive Taken (table : DescriptorTable) : TableEvent → DescriptorTable → Prop where
  | refuses {fd : ℕ} {server : Server} (full : (maxFd : ℤ) ≤ table.server.userCount)
      (taken : table.server.step (.accept fd) = some server) :
      Taken table (.server (.accept fd)) { table with server }
  | admits {server : Server} (notFull : table.server.userCount < maxFd)
      (isIndex : firstFree table.used < maxFd)
      (taken : table.server.step (.accept (firstFree table.used)) = some server) :
      Taken table (.server (.accept (firstFree table.used)))
        { table with server, admitted := table.admitted ++ [firstFree table.used] }
  | overruns (notFull : table.server.userCount < maxFd) (noIndex : maxFd ≤ firstFree table.used) :
      Taken table (.server (.accept (firstFree table.used)))
        { table with admitted := table.admitted ++ [firstFree table.used], undefined := true }
  | server {label : Event} {server : Server} (other : ∀ fd, label ≠ .accept fd)
      (taken : table.server.step label = some server) :
      Taken table (.server label)
        { table with server, others := table.others.filter (· ∉ table.server.closes label) }
  | opens : Taken table .openOther { table with others := firstFree table.used :: table.others }
  | closes (fd : ℕ) : Taken table (.closeOther fd) { table with others := table.others.erase fd }

theorem taken_of_accept {fd : ℕ} (lowest : fd = firstFree table.used) (accepted : table.accept fd = some next) :
    Taken table (.server (.accept fd)) next := by
  subst lowest
  rw [accept] at accepted
  split at accepted
  · split_ifs at accepted with full isIndex
    · obtain ⟨server, taken, rfl⟩ := Option.map_eq_some_iff.mp accepted
      exact .refuses full taken
    · obtain ⟨server, taken, rfl⟩ := Option.map_eq_some_iff.mp accepted
      exact .admits (Int.not_le.mp full) isIndex taken
    · cases accepted
      exact .overruns (Int.not_le.mp full) (Nat.le_of_not_lt isIndex)
  · cases accepted

theorem taken_of_step (stepped : table.step limit event = some next) : Taken table event next := by
  unfold step at stepped
  by_cases overrun : table.undefined = true
  · rw [if_pos overrun] at stepped
    cases stepped
  rw [if_neg overrun] at stepped
  split at stepped
  · next fd =>
    split_ifs at stepped with lowest
    exact taken_of_accept lowest.1 stepped
  · next label notAccept =>
    obtain ⟨server, taken, rfl⟩ := Option.map_eq_some_iff.mp stepped
    exact .server (fun fd same => notAccept fd same) taken
  · split_ifs at stepped
    cases stepped
    exact .opens
  · next fd =>
    split_ifs at stepped
    cases stepped
    exact .closes fd

/-- No number is in use twice. -/
def Distinct (table : DescriptorTable) : Prop := table.used.Nodup

theorem distinct_step (distinct : table.Distinct) (stepped : table.step limit event = some next) :
    next.Distinct := by
  have more : (firstFree table.used :: table.used).Nodup :=
    List.nodup_cons.mpr ⟨firstFree_notMem _, distinct⟩
  cases taken_of_step stepped with
  | refuses full taken =>
    have same := Server.openFds_accept taken
    rw [if_pos full] at same
    rwa [Distinct, used, same]
  | admits notFull _ taken =>
    have one := Server.openFds_accept taken
    rw [if_neg (Int.not_le.mpr notFull)] at one
    rwa [Distinct, used, one]
  | overruns _ _ => exact distinct
  | server other taken =>
    rw [Distinct, used, Server.openFds_step other taken]
    exact distinct.sublist (List.filter_sublist.append List.filter_sublist)
  | opens => exact List.perm_middle.nodup_iff.mpr more
  | closes fd => exact distinct.sublist (List.Sublist.append_left List.erase_sublist _)

/-- Every admitted number is an index of `users` and `users_timer`, and no other has been used as one. -/
def Inside (table : DescriptorTable) : Prop :=
  (∀ fd ∈ table.admitted, fd < maxFd) ∧ table.undefined = false

/-- When a connection passes the check, fewer than `MAX_FD` of the numbers below `MAX_FD` are in use. -/
def FindsRoom (table : DescriptorTable) : TableEvent → Prop
  | .server (.accept _) => table.server.userCount < maxFd → table.used.countP (· < maxFd) < maxFd
  | _ => True

instance (table : DescriptorTable) : DecidablePred table.FindsRoom
  | .server (.accept _) => inferInstanceAs (Decidable (_ → _))
  | .server (.advance _) | .server (.epollWait _) | .server .acceptFails | .server (.signals _)
  | .server .hangup | .server (.read _) | .server (.write _) | .server .endBatch | .server .take
  | .server (.finish _ _) | .server (.closeConn _) | .server (.finishClosed _) | .openOther
  | .closeOther _ => isTrue trivial

/-- The lowest free number is an index if the numbers below `MAX_FD` are not all in use. -/
theorem inside_step (distinct : table.Distinct) (inside : table.Inside)
    (stepped : table.step limit event = some next) : next.Inside ↔ table.FindsRoom event := by
  have room := firstFree_lt_iff distinct maxFd
  cases taken_of_step stepped with
  | refuses full _ => exact iff_of_true inside fun notFull => absurd full (Int.not_le.mpr notFull)
  | admits _ isIndex _ =>
    refine iff_of_true ⟨fun fd member => ?_, inside.2⟩ fun _ => room.mp isIndex
    rcases List.mem_append.mp member with before | last
    · exact inside.1 fd before
    · rw [List.mem_singleton.mp last]
      exact isIndex
  | overruns notFull noIndex =>
    refine iff_of_false (fun after => absurd after.2 (by simp)) fun condition => ?_
    exact absurd (room.mpr (condition notFull)) (Nat.not_lt.mpr noIndex)
  | @server label _ other _ =>
    refine iff_of_true inside ?_
    cases label with
    | accept fd => exact absurd rfl (other fd)
    | _ => trivial
  | opens => exact iff_of_true inside trivial
  | closes _ => exact iff_of_true inside trivial

/-- In every run, with any other descriptors that come and go and any limit: every number that passes the check
of `m_user_count` is an index of `users` and `users_timer`, exactly if at every such check fewer than `MAX_FD`
of the numbers below `MAX_FD` are in use, by clients and other descriptors together. -/
theorem inside_iff_findsRoom (limit clock : ℕ) (others : List ℕ) (distinct : others.Nodup)
    (events : List TableEvent) (final : DescriptorTable)
    (ran : run (step limit) (initial clock others) events = some final) :
    (∀ first rest table, events = first ++ rest → run (step limit) (initial clock others) first = some table →
      table.Inside) ↔
      Guarded (step limit) FindsRoom (initial clock others) events := by
  have start : (initial clock others).Distinct := distinct
  have inside : (initial clock others).Inside := ⟨nofun, rfl⟩
  exact forall_prefix_iff_guarded Distinct Inside (fun _ _ _ before stepped => distinct_step before stepped)
    (fun _ _ _ before holds stepped => inside_step before holds stepped) start inside ran

/-- A client gets the first number behind three other descriptors, another one that of a closed file. -/
theorem inside_iff_findsRoom_two : ∃ final,
    run (step 100000) (initial 0 [0, 1, 2]) [.openOther, .server (.epollWait [.listen]), .server (.accept 4),
      .closeOther 3, .server .endBatch, .server (.epollWait [.listen]), .server (.accept 3)] = some final ∧
    final.Inside := by
  have ran := Option.some_get (show (run (step 100000) (initial 0 [0, 1, 2])
    [.openOther, .server (.epollWait [.listen]), .server (.accept 4), .closeOther 3, .server .endBatch,
      .server (.epollWait [.listen]), .server (.accept 3)]).isSome from by decide +kernel)
  have guarded := (inside_iff_findsRoom 100000 0 [0, 1, 2] (by decide) _ _ ran.symm).mpr (by decide +kernel)
  exact ⟨_, ran.symm, guarded _ [] _ (List.append_nil _).symm ran.symm⟩

/-! ## A full table of numbers -/

/-- A connection is accepted in a round of the main loop of its own. -/
def acceptRound (fd : ℕ) : List TableEvent :=
  [.server (.epollWait [.listen]), .server (.accept fd), .server .endBatch]

/-- That many connections, with the numbers from 16 on. -/
def acceptRounds : ℕ → List TableEvent
  | 0 => []
  | count + 1 => acceptRounds count ++ acceptRound (16 + count)

/-- The connections behind sixteen other descriptors. -/
structure Filled (count : ℕ) (table : DescriptorTable) : Prop where
  waiting : table.server.waiting = true
  timeout : table.server.timeout = false
  userCount : table.server.userCount = count
  openFds : ∀ fd, fd ∈ table.server.openFds ↔ 16 ≤ fd ∧ fd < 16 + count
  others : table.others = List.range 16
  defined : table.undefined = false

variable {count : ℕ}

theorem Filled.lowest (filled : Filled count table) : firstFree table.used = 16 + count := by
  have inUse : ∀ fd, fd ∈ table.used ↔ fd < 16 + count := by
    intro fd
    rw [used, List.mem_append, filled.openFds, filled.others, List.mem_range]
    omega
  apply firstFree_eq
  · rw [inUse]
    exact Nat.lt_irrefl _
  · exact fun other below => (inUse other).mpr below

/-- The table when the listening socket has been reported. -/
def listening (table : DescriptorTable) : DescriptorTable :=
  { table with server := { table.server.disarm [] with batch := [.listen], waiting := false } }

theorem Filled.report (filled : Filled count table) :
    table.step limit (.server (.epollWait [.listen])) = some table.listening := by
  have reported : table.server.step (.epollWait [.listen]) =
      some { table.server.disarm [] with batch := [.listen], waiting := false } := by
    rw [Server.step, if_pos ⟨filled.waiting, by decide, by decide, by simp [Server.Reports]⟩]
    rfl
  simp [step, filled.defined, reported, Server.closes, listening]

theorem step_accept {fd : ℕ} (defined : table.undefined = false) (lowest : firstFree table.used = fd)
    (low : fd < limit) : table.step limit (.server (.accept fd)) = table.accept fd := by
  unfold step
  rw [if_neg (by simp [defined])]
  exact if_pos ⟨lowest.symm, low⟩

theorem accept_eq {fd : ℕ} {rest : List Ready} (batch : table.server.batch = .listen :: rest) :
    table.accept fd =
      if (maxFd : ℤ) ≤ table.server.userCount then
        (table.server.step (.accept fd)).map fun server => { table with server }
      else if fd < maxFd then
        (table.server.step (.accept fd)).map fun server =>
          { table with server, admitted := table.admitted ++ [fd] }
      else some { table with admitted := table.admitted ++ [fd], undefined := true } := by
  simp only [accept, batch]

theorem listening_used (table : DescriptorTable) : table.listening.used = table.used :=
  congrArg (· ++ table.others) (table.server.disarm_openFds [])

/-- The connection is accepted under the next number. -/
theorem Filled.round (filled : Filled count table) (limit : ℕ) (room : 16 + count < maxFd)
    (low : 16 + count < limit) :
    ∃ next, run (step limit) table (acceptRound (16 + count)) = some next ∧ Filled (count + 1) next := by
  have lowest : firstFree table.listening.used = 16 + count := by
    rw [listening_used, filled.lowest]
  have isNew : 16 + count ∉ table.listening.server.openFds := by
    intro member
    have inUse : 16 + count ∈ table.listening.used := List.mem_append_left _ member
    exact firstFree_notMem _ (lowest ▸ inUse)
  have defined : table.listening.undefined = false := filled.defined
  have count_eq : table.listening.server.userCount = count := filled.userCount
  have notFull : ¬(maxFd : ℤ) ≤ table.listening.server.userCount := by omega
  obtain ⟨server, accepted, waiting, batch, timeout, userCount, openFds⟩ :
      ∃ server, table.listening.server.step (.accept (16 + count)) = some server ∧
        server.waiting = false ∧ server.batch = [] ∧ server.timeout = false ∧
        server.userCount = (count + 1 : ℕ) ∧ server.openFds = (16 + count) :: table.listening.server.openFds := by
    have stepped : table.listening.server.step (.accept (16 + count)) =
        ({ table.listening.server with batch := [] } : Server).acceptConn (16 + count) := if_neg isNew
    rw [stepped, Server.acceptConn, if_neg notFull, if_neg (Nat.not_le.mpr room)]
    refine ⟨_, rfl, rfl, rfl, filled.timeout, ?_, rfl⟩
    dsimp only
    rw [count_eq, Nat.cast_succ]
  have ended : server.step .endBatch = some { server with timeout := false, waiting := true } := by
    rw [Server.step, if_neg (by simp [waiting, batch]), if_neg (by simp [timeout])]
  have admitted : table.listening.step limit (.server (.accept (16 + count))) =
      some { table.listening with server, admitted := table.listening.admitted ++ [16 + count] } := by
    rw [step_accept defined lowest low, accept_eq rfl, if_neg notFull, if_pos room, accepted]
    rfl
  have last : step limit { table.listening with server, admitted := table.listening.admitted ++ [16 + count] }
      (.server .endBatch) = some { table.listening with
        server := { server with timeout := false, waiting := true }
        admitted := table.listening.admitted ++ [16 + count] } := by
    simp [step, listening, filled.defined, ended, Server.closes, timeout]
  refine ⟨{ table.listening with
    server := { server with timeout := false, waiting := true }
    admitted := table.listening.admitted ++ [16 + count] }, ?_, ?_⟩
  · have ending := (run_cons_eq_some (step limit)).mpr ⟨_, last, run_nil (step limit) _⟩
    have accepting := (run_cons_eq_some (step limit)).mpr ⟨_, admitted, ending⟩
    exact (run_cons_eq_some (step limit)).mpr ⟨_, filled.report, accepting⟩
  · refine ⟨rfl, rfl, userCount, fun fd => ?_, filled.others, filled.defined⟩
    have before : fd ∈ table.listening.server.openFds ↔ 16 ≤ fd ∧ fd < 16 + count := by
      rw [← filled.openFds]
      exact iff_of_eq (congrArg (fd ∈ ·) (table.server.disarm_openFds []))
    change fd ∈ server.openFds ↔ _
    rw [openFds, List.mem_cons, before]
    omega

theorem filled_rounds (limit count : ℕ) (room : 16 + count ≤ maxFd) (low : maxFd < limit) :
    ∃ table, run (step limit) (initial 0 (List.range 16)) (acceptRounds count) = some table ∧
      Filled count table := by
  induction count with
  | zero =>
    refine ⟨_, rfl, rfl, rfl, rfl, fun fd => ?_, rfl, rfl⟩
    simp [initial, Server.initial, Server.openFds]
  | succ count ih =>
    obtain ⟨table, ran, filled⟩ := ih (by omega)
    obtain ⟨next, round, more⟩ := filled.round limit (by omega) (by omega)
    refine ⟨next, ?_, more⟩
    rw [acceptRounds, run_append, ran, Option.bind_some, round]

/-- With sixteen other descriptors the first 65520 clients take the numbers up to `MAX_FD`, and the next one
passes the check with the number `MAX_FD`. -/
theorem maxFd_admitted : ∃ events table, run (step 1048576) (initial 0 (List.range 16)) events = some table ∧
    table.server.userCount = 65520 ∧ maxFd ∈ table.admitted ∧ ¬ table.Inside := by
  obtain ⟨table, ran, filled⟩ := filled_rounds 1048576 65520 (by decide) (by decide)
  have lowest : firstFree table.listening.used = maxFd := by
    rw [listening_used, filled.lowest]
  have count : table.listening.server.userCount = 65520 := filled.userCount
  have defined : table.listening.undefined = false := filled.defined
  have overrun : table.listening.step 1048576 (.server (.accept maxFd)) =
      some { table.listening with admitted := table.listening.admitted ++ [maxFd], undefined := true } := by
    rw [step_accept defined lowest (by decide), accept_eq rfl, if_neg (by rw [count]; decide),
      if_neg (Nat.lt_irrefl _)]
  refine ⟨acceptRounds 65520 ++ [.server (.epollWait [.listen]), .server (.accept maxFd)],
    { table.listening with admitted := table.listening.admitted ++ [maxFd], undefined := true }, ?_, count,
    List.mem_append_right _ (List.mem_singleton_self _), fun inside => absurd inside.2 (by simp)⟩
  rw [run_append, ran, Option.bind_some]
  simp only [run, filled.report, overrun, Option.bind_some]

/-! ## Counting the other descriptors in -/

/-- No worker calls `close_conn`, and when a connection passes the check, `m_user_count` and the number of the
other descriptors together are below `MAX_FD`. -/
def CountsOthers (table : DescriptorTable) : TableEvent → Prop
  | .server (.accept _) => table.server.userCount < maxFd → table.server.userCount + table.others.length < maxFd
  | .server (.closeConn _) => False
  | _ => True

theorem consistent_step (consistent : Server.Consistent table.server) (counts : table.CountsOthers event)
    (stepped : table.step limit event = some next) : Server.Consistent next.server := by
  cases taken_of_step stepped with
  | refuses _ taken => exact consistent.step rfl taken
  | admits _ _ taken => exact consistent.step rfl taken
  | @server label _ _ taken =>
    cases label with
    | closeConn slot => exact counts.elim
    | _ => exact consistent.step rfl taken
  | overruns _ _ => exact consistent
  | opens => exact consistent
  | closes _ => exact consistent

/-- While the count is right, it is enough to count the other descriptors in. -/
theorem findsRoom_of_countsOthers (consistent : Server.Consistent table.server)
    (counts : table.CountsOthers event) : table.FindsRoom event := by
  unfold FindsRoom
  split
  · intro notFull
    have few := counts notFull
    have count := consistent.count
    have most : table.used.countP (· < maxFd) ≤ table.server.descriptors.length + table.others.length := by
      refine List.countP_le_length.trans_eq ?_
      rw [used, List.length_append, Server.openFds, List.length_map]
    omega
  · trivial

/-- While no worker takes a connection off the count, a check that counts the other descriptors in would admit
indexes only. -/
theorem inside_of_countsOthers (limit clock : ℕ) (others : List ℕ) (distinct : others.Nodup)
    (events : List TableEvent) (final : DescriptorTable)
    (counts : Guarded (step limit) CountsOthers (initial clock others) events)
    (ran : run (step limit) (initial clock others) events = some final) : final.Inside := by
  have kept : ∀ s e t, Distinct s ∧ Server.Consistent s.server ∧ Inside s → CountsOthers s e →
      step limit s e = some t → Distinct t ∧ Server.Consistent t.server ∧ Inside t := by
    rintro s e t ⟨distinct, consistent, inside⟩ counts stepped
    refine ⟨distinct_step distinct stepped, consistent_step consistent counts stepped, ?_⟩
    exact (inside_step distinct inside stepped).mpr (findsRoom_of_countsOthers consistent counts)
  have start : (initial clock others).Distinct := distinct
  have inside : (initial clock others).Inside := ⟨nofun, rfl⟩
  exact (invariant_of_guarded kept ⟨start, Server.consistent_initial clock, inside⟩ counts ran).2.2

end DescriptorTable

end WebServ.Http
