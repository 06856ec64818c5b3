import WebServ.Proofs.DoRequest
import WebServ.Machine.Path
import Mathlib.Tactic.SplitIfs

/-! # The users in memory and in the database

Two laws of the registration that fail because of one order of statements each. The map is changed
whatever the INSERT has returned: requests handled one at a time keep it equal to what a restart would
load exactly if no INSERT fails. The lookup is outside the lock: registrations that run at the same
time are each for a name of their own, with a password that opens it, exactly if every accepted INSERT
finds its name still unused. After each theorem stands a run that breaks its law.
-/

namespace WebServ.Http

open WebServ.Text WebServ.Machine

/-! ## One request at a time -/

/-- A request at the moment `do_request` is called, with its environment. -/
structure UserRequest where
  conn : HttpConn
  tree : FileTree
  query : Bytes → ℤ

namespace HttpConn

/-- The user the request registers, if it is a registration. -/
def registration (conn : HttpConn) : Option Credentials := do
  let behind ← conn.behindSlash
  let action ← conn.readBuf.load? behind
  if conn.cgi = 1 ∧ action = '3'.toUInt8 then conn.credentials else none

/-- A request changes the users by the registration it asks for. -/
theorem doRequest_registry {conn : HttpConn} {tree : FileTree} {query : Bytes → ℤ} {registry : Registry}
    {outcome : Outcome} (ran : conn.doRequest tree query registry = some outcome) :
    match conn.registration with
    | none => outcome.registry = registry
    | some user => ∃ sql, sqlInsert user = some sql ∧
        outcome.registry = (registry.register user (query sql)).1 := by
  obtain ⟨realFile, url, behind, action, after, again, routed, _, _, found, first, answered, _, _, served⟩ :=
    doRequest_eq_some ran
  obtain ⟨_, _, unchanged, _⟩ := serveFile_eq_some served
  have asked : conn.registration =
      if conn.cgi = 1 ∧ action = '3'.toUInt8 then conn.credentials else none := by
    simp only [registration, found, first, bind, Option.bind_some]
  rw [asked, unchanged]
  rw [cgiPart] at answered
  split_ifs at answered with isCgi
  · obtain ⟨_, user, _, _, has, _, registers | logsIn⟩ := cgiRequest_eq_some answered
    · obtain ⟨isRegistration, sql, built, registered, _⟩ := registers
      rw [if_pos ⟨isCgi.1, isRegistration⟩, show conn.credentials = some user from has]
      exact ⟨sql, built, registered⟩
    · rw [if_neg fun both => logsIn.1 both.2]
      exact logsIn.2.1
  · cases answered
    rw [if_neg fun both => isCgi ⟨both.1, Or.inr both.2⟩]

end HttpConn

/-- The users after a request. -/
def handle (registry : Registry) (request : UserRequest) : Option Registry :=
  (request.conn.doRequest request.tree request.query registry).map Outcome.registry

/-- The request executes an INSERT, and it fails. -/
def InsertFails (registry : Registry) (request : UserRequest) : Prop :=
  ∃ user, request.conn.registration = some user ∧ registry.users user.name = none ∧
    ∃ sql, sqlInsert user = some sql ∧ request.query sql ≠ 0

/-- The user of a registration is a pair of C strings. -/
theorem HttpConn.registration_visible {conn : HttpConn} {user : Credentials}
    (found : conn.registration = some user) :
    visible user.name = user.name ∧ visible user.password = user.password := by
  simp only [registration, bind, Option.bind_eq_some_iff] at found
  obtain ⟨_, _, _, _, found⟩ := found
  split_ifs at found
  exact credentials_visible found

/-- The map is what a restart would load. -/
def UpToDate (registry : Registry) : Prop := registry.users = initmysqlResult registry.table

theorem initmysqlResult_append (rows : List Credentials) (row : Credentials) :
    initmysqlResult (rows ++ [row]) =
      Function.update (initmysqlResult rows) (visible row.name) (some (visible row.password)) := by
  simp only [initmysqlResult, List.foldl_append, List.foldl_cons, List.foldl_nil]

/-- The locked section keeps the map up to date exactly if the INSERT succeeds. -/
theorem upToDate_insertUser {registry : Registry} (upToDate : UpToDate registry) {user : Credentials}
    (absent : registry.users user.name = none) (name : visible user.name = user.name)
    (password : visible user.password = user.password) (res : ℤ) :
    UpToDate (registry.insertUser user res).1 ↔ res = 0 := by
  have inserted : (registry.insertUser user res).1.users =
      Function.update registry.users user.name (some user.password) := by
    simp only [Registry.insertUser, Registry.insert, absent]
  rw [UpToDate, inserted]
  by_cases accepted : res = 0
  · have rows : (registry.insertUser user res).1.table = registry.table ++ [user] := if_pos accepted
    rw [rows, initmysqlResult_append, name, password, ← upToDate]
    exact ⟨fun _ => accepted, fun _ => rfl⟩
  · have rows : (registry.insertUser user res).1.table = registry.table := if_neg accepted
    rw [rows, ← upToDate]
    refine ⟨fun same => ?_, fun zero => absurd zero accepted⟩
    have present := congrFun same user.name
    rw [Function.update_self, absent] at present
    cases present

/-- A request keeps the map up to date exactly if it executes no INSERT that fails. -/
theorem upToDate_step {registry next : Registry} {request : UserRequest} (upToDate : UpToDate registry)
    (handled : handle registry request = some next) :
    UpToDate next ↔ ¬ InsertFails registry request := by
  obtain ⟨outcome, ran, rfl⟩ := Option.map_eq_some_iff.mp handled
  have changed := HttpConn.doRequest_registry ran
  rcases asked : request.conn.registration with _ | user
  · rw [asked] at changed
    rw [show outcome.registry = registry from changed]
    refine ⟨fun _ => ?_, fun _ => upToDate⟩
    rintro ⟨_, registers, _⟩
    cases asked.symm.trans registers
  · rw [asked] at changed
    obtain ⟨sql, built, changed⟩ := changed
    rw [changed, Registry.register]
    rcases present : registry.users user.name with _ | password
    · obtain ⟨name, secret⟩ := HttpConn.registration_visible asked
      refine (upToDate_insertUser upToDate present name secret _).trans ⟨fun succeeds => ?_, fun kept => ?_⟩
      · rintro ⟨other, registers, _, text, same, fails⟩
        cases asked.symm.trans registers
        cases built.symm.trans same
        exact fails succeeds
      · by_contra fails
        exact kept ⟨user, asked, present, sql, built, fails⟩
    · refine ⟨fun _ => ?_, fun _ => upToDate⟩
      rintro ⟨other, registers, absent, _⟩
      cases asked.symm.trans registers
      rw [present] at absent
      cases absent

/-- In every sequence of requests that starts from the users loaded by `initmysql_result`, the map is
after each request what `initmysql_result` would load, exactly if no executed INSERT fails. -/
theorem upToDate_iff_insertsSucceed (table : List Credentials) (requests : List UserRequest)
    (final : Registry) (ran : run handle (.loaded table) requests = some final) :
    (∀ first rest registry, requests = first ++ rest → run handle (.loaded table) first = some registry →
      registry.users = initmysqlResult registry.table) ↔
    Guarded handle (fun registry request => ¬ InsertFails registry request) (.loaded table) requests :=
  forall_prefix_iff_guarded (fun _ => True) UpToDate (fun _ _ _ _ _ => trivial)
    (fun _ _ _ _ upToDate handled => upToDate_step upToDate handled) trivial rfl ran

/-- The object after the delivery of a whole request. -/
private def received (request : Bytes) : HttpConn :=
  ((HttpConn.blank.init.deliver request).map Prod.snd).getD HttpConn.blank

private def registerBob : HttpConn :=
  received (ascii "POST /3 HTTP/1.1\r\nContent-length: 20\r\n\r\nuser=bob&password=pw")

private def emptyTree : FileTree := ⟨fun _ => none, fun _ => .failed⟩

/-- A registration the database accepts, next to a user loaded from the table. -/
theorem upToDate_iff_insertsSucceed_bob :
    ∃ table requests,
      (∀ first rest registry, requests = first ++ rest →
        run handle (.loaded table) first = some registry →
        registry.users = initmysqlResult registry.table) ↔
      Guarded handle (fun registry request => ¬ InsertFails registry request) (.loaded table) requests :=
  ⟨_, _, upToDate_iff_insertsSucceed [⟨ascii "alice", ascii "secret"⟩]
    [⟨registerBob, emptyTree, fun _ => 0⟩]
    _ (Option.some_get (by decide +kernel)).symm⟩

/-- A registration whose INSERT fails leaves the user in the map and not in the table. -/
theorem users_after_failed_insert :
    ∃ registry, handle (.loaded []) ⟨registerBob, emptyTree, fun _ => 1⟩ = some registry ∧
      registry.users (ascii "bob") = some (ascii "pw") ∧
      initmysqlResult registry.table (ascii "bob") = none :=
  ⟨_, (Option.some_get (by decide +kernel)).symm, by decide +kernel, by decide +kernel⟩

/-! ## Requests at the same time -/

/-- Registrations in progress: those between the lookup and the lock, and those answered, with the page
that answers them. -/
structure Registering where
  registry : Registry
  inserting : List Credentials
  answers : List (Credentials × Bytes)

/-- The steps of a registration. -/
inductive RegisterEvent where
  | lookup (user : Credentials)
  | insert (user : Credentials)
deriving DecidableEq, Repr

namespace Registering

/-- No registration yet. -/
def initial (registry : Registry) : Registering := ⟨registry, [], []⟩

/-- `mysql_query` on the INSERT of a user: zero if the database accepts it. -/
def mysqlQuery (accepts : Credentials → Bool) (user : Credentials) : ℤ := if accepts user then 0 else 1

/-- One step of some registration: `users.find`, or the section under `m_lock`. -/
def step (accepts : Credentials → Bool) (state : Registering) : RegisterEvent → Option Registering
  | .lookup user =>
      match state.registry.users user.name with
      | none => some { state with inserting := user :: state.inserting }
      | some _ => some { state with answers := (user, registerErrorPage) :: state.answers }
  | .insert user =>
      if user ∈ state.inserting then
        let (registry, page) := state.registry.insertUser user (mysqlQuery accepts user)
        some { registry, inserting := state.inserting.erase user, answers := (user, page) :: state.answers }
      else none

/-- The registrations of a name answered with the page for success. -/
def successes (state : Registering) (name : Bytes) : ℕ :=
  state.answers.countP fun answer => answer.1.name = name ∧ answer.2 = logPage

/-- The law of registrations: one success for a name, and its password opens it. -/
structure Lawful (state : Registering) : Prop where
  once : ∀ name, state.successes name ≤ 1
  opens : ∀ answer ∈ state.answers, answer.2 = logPage → state.registry.login answer.1 = welcomePage

/-- A registration in the locked section, with an INSERT the database accepts, finds its name unused. -/
def InsertsFresh (accepts : Credentials → Bool) (state : Registering) (event : RegisterEvent) : Prop :=
  ∀ user, event = .insert user → accepts user = true → state.registry.users user.name = none

/-- Who is between lookup and lock, and has since become known, was answered according to the
database's result. -/
def Recorded (accepts : Credentials → Bool) (state : Registering) : Prop :=
  ∀ user ∈ state.inserting, ∀ password, state.registry.users user.name = some password →
    (⟨user.name, password⟩, if accepts ⟨user.name, password⟩ then logPage else registerErrorPage) ∈
      state.answers

variable {accepts : Credentials → Bool} {state next : Registering}

/-- What each step does, with the facts its guards establish. -/
inductive Taken (accepts : Credentials → Bool) (state : Registering) :
    RegisterEvent → Registering → Prop where
  | absent {user : Credentials} (unused : state.registry.users user.name = none) :
      Taken accepts state (.lookup user) { state with inserting := user :: state.inserting }
  | present {user : Credentials} :
      Taken accepts state (.lookup user)
        { state with answers := (user, registerErrorPage) :: state.answers }
  | insert {user : Credentials} (waiting : user ∈ state.inserting) :
      Taken accepts state (.insert user)
        { registry := (state.registry.insertUser user (mysqlQuery accepts user)).1
          inserting := state.inserting.erase user
          answers := (user, (state.registry.insertUser user (mysqlQuery accepts user)).2) :: state.answers }

/-- Inversion of the step function. -/
theorem taken_of_step {event : RegisterEvent} (stepped : step accepts state event = some next) :
    Taken accepts state event next := by
  cases event with
  | lookup user =>
    rw [step] at stepped
    split at stepped
    · next unused =>
      cases stepped
      exact .absent unused
    · cases stepped
      exact .present
  | insert user =>
    rw [step] at stepped
    split_ifs at stepped with waiting
    cases stepped
    exact .insert waiting

/-- The page after the locked section. -/
theorem page_insertUser (registry : Registry) (user : Credentials) :
    (registry.insertUser user (mysqlQuery accepts user)).2 =
      if accepts user then logPage else registerErrorPage := by
  cases accepted : accepts user <;> simp [Registry.insertUser, mysqlQuery, accepted]

/-- The users after the locked section. -/
theorem users_insertUser (registry : Registry) (user : Credentials) (res : ℤ) (name : Bytes) :
    (registry.insertUser user res).1.users name =
      (registry.users name).or (if name = user.name then some user.password else none) := by
  simp only [Registry.insertUser, Registry.insert]
  rcases known : registry.users user.name with _ | password
  · simp only [Function.update_apply]
    split_ifs with same
    · rw [same, known, Option.none_or]
    · rw [Option.or_none]
  · split_ifs with same
    · simp only [same, known, Option.some_or]
    · rw [Option.or_none]

/-- Every step keeps the records. -/
theorem Recorded.step {event : RegisterEvent} (recorded : Recorded accepts state)
    (stepped : step accepts state event = some next) : Recorded accepts next := by
  cases taken_of_step stepped with
  | absent unused =>
    intro user member password known
    rcases List.mem_cons.mp member with rfl | member
    · rw [unused] at known
      cases known
    · exact recorded user member password known
  | present =>
    intro user member password known
    exact List.mem_cons_of_mem _ (recorded user member password known)
  | @insert inserted waiting =>
    intro user member password known
    have member := List.mem_of_mem_erase member
    simp only [users_insertUser] at known
    rcases before : state.registry.users user.name with _ | old
    · rw [before, Option.none_or] at known
      split_ifs at known with same
      cases known
      rw [same, page_insertUser]
      exact List.mem_cons_self ..
    · rw [before, Option.some_or] at known
      cases known
      exact List.mem_cons_of_mem _ (recorded user member _ before)

/-- A login succeeds exactly with the password in the map. -/
theorem login_eq_welcomePage {registry : Registry} {user : Credentials} :
    registry.login user = welcomePage ↔ registry.users user.name = some user.password := by
  rw [Registry.login]
  split_ifs with known
  · exact iff_of_true rfl known
  · exact iff_of_false (by decide) known

/-- The steps of a registration that nothing interrupts. -/
def uninterrupted (state : Registering) (user : Credentials) : List RegisterEvent :=
  match state.registry.users user.name with
  | none => [.lookup user, .insert user]
  | some _ => [.lookup user]

/-- They are the registration of `do_request`. -/
theorem run_uninterrupted (state : Registering) (user : Credentials) :
    run (step accepts) state (state.uninterrupted user) = some
      { registry := (state.registry.register user (mysqlQuery accepts user)).1
        inserting := state.inserting
        answers := (user, (state.registry.register user (mysqlQuery accepts user)).2) :: state.answers } := by
  rw [uninterrupted, Registry.register]
  rcases used : state.registry.users user.name with _ | password
  · simp only [run, step, used, Option.bind_some, List.mem_cons_self, ↓reduceIte, List.erase_cons_head]
  · simp only [run, step, used, Option.bind_some]

/-- A known user stays known, with the same password. -/
theorem users_insertUser_known {registry : Registry} {name password : Bytes}
    (known : registry.users name = some password) (user : Credentials) (res : ℤ) :
    (registry.insertUser user res).1.users name = some password := by
  rw [users_insertUser, known, Option.some_or]

/-- One more answer. -/
theorem successes_cons (registry : Registry) (inserting : List Credentials) (user : Credentials)
    (page name : Bytes) :
    successes ⟨registry, inserting, (user, page) :: state.answers⟩ name =
      state.successes name + if user.name = name ∧ page = logPage then 1 else 0 := by
  simp only [successes, List.countP_cons, decide_eq_true_eq]

/-- An unused name has had no success. -/
theorem Lawful.successes_eq_zero (lawful : Lawful state) {name : Bytes}
    (unused : state.registry.users name = none) : state.successes name = 0 := by
  apply List.countP_eq_zero.mpr
  intro answer member success
  obtain ⟨rfl, page⟩ := of_decide_eq_true success
  have known := login_eq_welcomePage.mp (lawful.opens answer member page)
  rw [unused] at known
  cases known

/-- Successful answers keep opening while the map only grows. -/
theorem Lawful.opens_grown (lawful : Lawful state) {registry : Registry}
    (grown : ∀ name password, state.registry.users name = some password →
      registry.users name = some password) :
    ∀ answer ∈ state.answers, answer.2 = logPage → registry.login answer.1 = welcomePage :=
  fun answer member page => login_eq_welcomePage.mpr
    (grown _ _ (login_eq_welcomePage.mp (lawful.opens answer member page)))

/-- An answer with the error page breaks nothing. -/
theorem Lawful.cons_error (lawful : Lawful state) {registry : Registry}
    (grown : ∀ name password, state.registry.users name = some password →
      registry.users name = some password) (inserting : List Credentials) (user : Credentials) :
    Lawful ⟨registry, inserting, (user, registerErrorPage) :: state.answers⟩ where
  once name := by
    have other : registerErrorPage ≠ logPage := by decide
    rw [successes_cons, if_neg fun both => other both.2]
    exact lawful.once name
  opens := by
    refine List.forall_mem_cons.mpr ⟨fun page => ?_, lawful.opens_grown grown⟩
    exact absurd page (show registerErrorPage ≠ logPage by decide)

/-- An accepted INSERT of an unused name breaks nothing. -/
theorem Lawful.cons_success (lawful : Lawful state) {user : Credentials}
    (unused : state.registry.users user.name = none) (inserting : List Credentials) (res : ℤ) :
    Lawful ⟨(state.registry.insertUser user res).1, inserting, (user, logPage) :: state.answers⟩ where
  once name := by
    rw [successes_cons]
    split_ifs with same
    · rw [← same.1, lawful.successes_eq_zero unused]
    · exact lawful.once name
  opens := by
    refine List.forall_mem_cons.mpr ⟨fun _ => ?_, lawful.opens_grown fun name password known =>
      users_insertUser_known known user res⟩
    rw [login_eq_welcomePage, users_insertUser, unused, Option.none_or, if_pos rfl]

/-- An accepted INSERT of a name in use is a second success, or one whose password does not open. -/
theorem not_lawful_cons_success (recorded : Recorded accepts state) {user : Credentials}
    (waiting : user ∈ state.inserting) (accepted : accepts user = true) {password : Bytes}
    (known : state.registry.users user.name = some password) (inserting : List Credentials) (res : ℤ) :
    ¬ Lawful ⟨(state.registry.insertUser user res).1, inserting, (user, logPage) :: state.answers⟩ := by
  intro lawful
  have opens := lawful.opens (user, logPage) (List.mem_cons_self ..) rfl
  rw [login_eq_welcomePage, users_insertUser_known known, Option.some.injEq] at opens
  subst opens
  have earlier := recorded user waiting _ known
  rw [if_pos accepted] at earlier
  have before : 0 < state.successes user.name :=
    List.countP_pos_iff.mpr ⟨_, earlier, decide_eq_true ⟨rfl, rfl⟩⟩
  have twice := lawful.once user.name
  rw [successes_cons, if_pos ⟨rfl, rfl⟩] at twice
  omega

/-- A lawful state stays lawful exactly if the step is no accepted INSERT of a name in use. -/
theorem lawful_step {event : RegisterEvent} (recorded : Recorded accepts state) (lawful : Lawful state)
    (stepped : step accepts state event = some next) :
    Lawful next ↔ InsertsFresh accepts state event := by
  cases taken_of_step stepped with
  | absent =>
    refine iff_of_true ⟨lawful.once, lawful.opens⟩ ?_
    rintro _ ⟨⟩
  | present =>
    refine iff_of_true (lawful.cons_error (fun _ _ known => known) _ _) ?_
    rintro _ ⟨⟩
  | @insert user waiting =>
    rw [page_insertUser]
    by_cases accepted : accepts user = true
    · rw [if_pos accepted]
      rcases used : state.registry.users user.name with _ | password
      · refine iff_of_true (lawful.cons_success used _ _) ?_
        rintro _ ⟨⟩ _
        exact used
      · refine iff_of_false (not_lawful_cons_success recorded waiting accepted used _ _) ?_
        intro fresh
        have unused := fresh user rfl accepted
        rw [used] at unused
        cases unused
    · rw [if_neg accepted]
      refine iff_of_true (lawful.cons_error (fun _ _ known => users_insertUser_known known _ _) _ _) ?_
      rintro _ ⟨⟩ refused
      exact absurd refused accepted

/-- In every run of concurrent registrations, whatever the database accepts, for each name at most one is
answered with the page for success and its password is accepted by the login in every state reached,
exactly if every accepted INSERT finds its name unused. -/
theorem lawful_iff_insertsFresh (accepts : Credentials → Bool) (registry : Registry)
    (events : List RegisterEvent) (final : Registering)
    (ran : run (step accepts) (initial registry) events = some final) :
    (∀ first rest state, events = first ++ rest →
      run (step accepts) (initial registry) first = some state → Lawful state) ↔
    Guarded (step accepts) (InsertsFresh accepts) (initial registry) events := by
  apply forall_prefix_iff_guarded (Recorded accepts) Lawful _ _ _ _ ran
  · exact fun _ _ _ recorded stepped => recorded.step stepped
  · exact fun _ _ _ recorded lawful stepped => lawful_step recorded lawful stepped
  · exact fun _ member => absurd member List.not_mem_nil
  · exact ⟨fun _ => Nat.zero_le _, fun _ member => absurd member List.not_mem_nil⟩

/-- Two users register at the same time, and one of the names is asked for once more. -/
theorem lawful_iff_insertsFresh_two :
    ∃ events : List RegisterEvent,
      (∀ first rest state, events = first ++ rest →
        run (step fun _ => true) (initial (.loaded [])) first = some state → Lawful state) ↔
      Guarded (step fun _ => true) (InsertsFresh fun _ => true) (initial (.loaded [])) events :=
  ⟨_, lawful_iff_insertsFresh (fun _ => true) (.loaded [])
    [.lookup ⟨ascii "bob", ascii "one"⟩, .lookup ⟨ascii "eve", ascii "two"⟩,
      .insert ⟨ascii "bob", ascii "one"⟩, .insert ⟨ascii "eve", ascii "two"⟩,
      .lookup ⟨ascii "bob", ascii "three"⟩]
    _ (Option.some_get (by decide +kernel)).symm⟩

/-- Two registrations of one name, both looked up before the first INSERT, both succeed, and the second
password does not open. -/
theorem two_successes :
    ∃ state, run (step fun _ => true) (initial (.loaded []))
        [.lookup ⟨ascii "bob", ascii "one"⟩, .lookup ⟨ascii "bob", ascii "two"⟩,
          .insert ⟨ascii "bob", ascii "one"⟩, .insert ⟨ascii "bob", ascii "two"⟩] = some state ∧
      state.successes (ascii "bob") = 2 ∧
      (⟨ascii "bob", ascii "two"⟩, logPage) ∈ state.answers ∧
      state.registry.login ⟨ascii "bob", ascii "two"⟩ = logErrorPage :=
  ⟨_, (Option.some_get (by decide +kernel)).symm, by decide +kernel, by decide +kernel, by decide +kernel⟩

end Registering

end WebServ.Http
