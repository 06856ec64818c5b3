import WebServ.Model.Program
import WebServ.Soundness.FormRequest
import WebServ.Soundness.Login
import WebServ.Soundness.Users

/-! # Accounts

Who has registered can log in: `do_request` enters the user into the map that every worker looks names up in,
and nothing the server does takes a user out of it or changes a password. Both requests are forms, and the
objects that serve them may have been used for anything before.
-/

namespace WebServ.Http

open WebServ.Text WebServ.Machine

/-- The pieces are a POST of the form to a URL whose last segment begins with the action. The name and the
password fit in the arrays of `do_request`, those of a registration in the INSERT too. -/
structure Submits (action : UInt8) (name password : Bytes) (pieces : List Bytes) : Prop where
  request : ∃ header url earlier last, pieces = earlier ++ [last] ∧
    Posts header url (loginForm name password) ∧ FormCut header (loginForm name password) earlier last ∧
    urlAction url = some action ∧ url.length ≤ 200
  isUser : action = '2'.toUInt8 ∨ action = '3'.toUInt8
  present : name ≠ []
  absent : '&'.toUInt8 ∉ name
  nameNonzero : ∀ value ∈ name, value ≠ 0
  passwordNonzero : ∀ value ∈ password, value ≠ 0
  nameShort : name.length ≤ 99
  passwordShort : password.length ≤ 99
  insertShort : action = '3'.toUInt8 → name.length + password.length ≤ 150

/-- Whatever object the pieces are delivered to, the request is answered from the page, with these users behind
it. -/
def AnsweredFrom (tree : FileTree) (query : Bytes → ℤ) (registry : Registry) (pieces : List Bytes)
    (page : Bytes) (after : Registry) : Prop :=
  ∀ start : HttpConn, ∃ called outcome, start.init.deliverAll pieces = some (.callDoRequest, called) ∧
    called.doRequest tree query registry = some outcome ∧ outcome.registry = after ∧
    (outcome.paths = [docRoot ++ page] ∨ outcome.paths = [docRoot ++ page, docRoot ++ page])

/-! ## One form -/

section Submits

variable {action : UInt8} {name password page : Bytes} {pieces : List Bytes} {query : Bytes → ℤ}
  {registry after : Registry}

theorem loginForm_length (name password : Bytes) :
    (loginForm name password).length = name.length + password.length + 15 := by
  have five : (ascii "user=").length = 5 := by decide
  have ten : (ascii "&password=").length = 10 := by decide
  rw [loginForm, List.length_append, List.length_append, List.length_append, five, ten]
  omega

theorem loginForm_nonzero (nameNonzero : ∀ value ∈ name, value ≠ 0)
    (passwordNonzero : ∀ value ∈ password, value ≠ 0) : ∀ value ∈ loginForm name password, value ≠ 0 := by
  have fixed : (∀ value ∈ ascii "user=", value ≠ 0) ∧ ∀ value ∈ ascii "&password=", value ≠ 0 := by
    decide +kernel
  rw [loginForm]
  apply List.forall_mem_append.mpr ⟨fixed.1, _⟩
  apply List.forall_mem_append.mpr ⟨nameNonzero, _⟩
  exact List.forall_mem_append.mpr ⟨fixed.2, passwordNonzero⟩

/-- The credentials that `do_request` finds in the form. -/
theorem HoldsForm.credentials {called : HttpConn} {url : Bytes}
    (holds : HoldsForm called url (loginForm name password)) (absent : '&'.toUInt8 ∉ name)
    (nameShort : name.length ≤ 99) (passwordShort : password.length ≤ 99) :
    called.credentials = some ⟨name, password⟩ := by
  obtain ⟨_, string, _, _, points, read, _⟩ := holds.strings
  obtain ⟨isName, _, isPassword⟩ := loginForm_fields absent password
  rw [HttpConn.credentials_eq, points, Option.bind_some,
    credentialsAt_of_fits read (loginForm_fits absent nameShort passwordShort), isName, isPassword]

/-- A form is answered as the map and the database say. -/
theorem Submits.answered (submits : Submits action name password pieces)
    (answers : HttpConn.userAnswer query registry action ⟨name, password⟩ = some (after, page))
    (tree : FileTree) : AnsweredFrom tree query registry pieces page after := by
  intro start
  obtain ⟨header, url, earlier, last, rfl, posts, cut, acts, short⟩ := submits.request
  obtain ⟨called, delivered, holds⟩ :=
    form_called start posts cut (loginForm_nonzero submits.nameNonzero submits.passwordNonzero)
  have found := holds.credentials submits.absent submits.nameShort submits.passwordShort
  obtain ⟨pointer, string, points, read, _, readForm, apart⟩ := holds.strings
  have zero : called.realFile = .zero := HttpConn.deliverAll_realFile delivered
  have text : called.urlText = some url := by rw [HttpConn.urlText, points, Option.bind_some, read]
  have enters : called.EntersCgi action :=
    ⟨holds.cgi, (HttpConn.action_eq text).trans acts, submits.isUser⟩
  have long : 2 ≤ url.length := by
    apply two_le_of_urlAction acts
    rcases submits.isUser with same | same <;> rw [same] <;> decide
  -- the page is written over the URL, and the form lies behind both
  have room : pointer + page.length < readBufferSize := by
    have inside := Buffer.cstr_bound readForm
    have length := loginForm_length name password
    have positive := List.length_pos_iff.mpr submits.present
    have pages : ∀ page ∈ answerPages, page.length ≤ 19 := by decide
    have nineteen := pages page (HttpConn.userAnswer_mem_answerPages answers)
    omega
  obtain ⟨outcome, ran⟩ :=
    HttpConn.userRequest_defined zero enters points read long short found answers tree room
  obtain ⟨users, paths⟩ := HttpConn.userRequest_paths zero enters found answers ran
  exact ⟨called, outcome, delivered, ran, users, paths⟩

/-- A registration is answered from the page the map and the INSERT lead to. -/
theorem Submits.registers (submits : Submits '3'.toUInt8 name password pieces) (tree : FileTree)
    (query : Bytes → ℤ) (registry : Registry) :
    AnsweredFrom tree query registry pieces
      (registry.register ⟨name, password⟩ (query (insertText name password))).2
      (registry.register ⟨name, password⟩ (query (insertText name password))).1 := by
  apply submits.answered _ tree
  rw [HttpConn.userAnswer, if_pos rfl, sqlInsert_eq submits.nameNonzero submits.passwordNonzero,
    if_pos (submits.insertShort rfl), Option.map_some]

/-- A login is answered from the page the map leads to. -/
theorem Submits.logsIn (submits : Submits '2'.toUInt8 name password pieces) (tree : FileTree)
    (query : Bytes → ℤ) (registry : Registry) :
    AnsweredFrom tree query registry pieces (registry.login ⟨name, password⟩) registry :=
  submits.answered (if_neg (by decide)) tree

end Submits

/-! ## The users of the server -/

section Known

variable {program next : Program} {name password : Bytes}

/-- A known user stays known through a registration. -/
theorem Registry.register_known {registry : Registry} (known : registry.users name = some password)
    (user : Credentials) (res : ℤ) : (registry.register user res).1.users name = some password := by
  rw [Registry.register]
  split
  · exact Registering.users_insertUser_known known user res
  · exact known

theorem HttpConn.answerRead_known {tree : FileTree} {query : Bytes → ℤ} {registry after : Registry}
    {read : ReadResult × HttpConn} {code : HttpCode} {conn : HttpConn}
    (known : registry.users name = some password)
    (answered : answerRead tree query registry read = some (code, conn, after)) :
    after.users name = some password := by
  obtain ⟨result, called⟩ := read
  cases result with
  | code _ =>
    cases answered
    exact known
  | unfinished => cases answered
  | callDoRequest =>
    obtain ⟨outcome, ran, same⟩ := Option.map_eq_some_iff.mp answered
    cases same
    have users := doRequest_registry ran
    split at users
    · rw [users]
      exact known
    · obtain ⟨sql, _, registered⟩ := users
      rw [registered]
      exact Registry.register_known known _ _

namespace Program

theorem munmap_registry (program : Program) (conn : HttpConn) :
    (program.munmap conn).registry = program.registry := by
  rw [munmap]
  split_ifs
  · rfl
  · split <;> rfl

theorem writeUser_registry {fd : ℕ} {results : List WritevResult}
    (taken : program.writeUser fd results = some next) : next.registry = program.registry := by
  rw [writeUser] at taken
  by_cases nothing : (program.users fd).bytesToSend = 0
  · simp only [if_pos nothing] at taken
    split_ifs at taken
    obtain ⟨server, _, rfl⟩ := Option.map_eq_some_iff.mp taken
    rfl
  · simp only [if_neg nothing, bind, Option.bind_eq_some_iff] at taken
    obtain ⟨⟨ended, after⟩, _, server, _, taken⟩ := taken
    dsimp only at taken
    split_ifs at taken with again
    · cases taken
      rfl
    · cases taken
      exact munmap_registry _ _

/-- No action of the server takes a user out or changes a password. -/
theorem known_of_step {event : ProgramEvent} (known : program.registry.users name = some password)
    (taken : program.step event = some next) : next.registry.users name = some password := by
  cases event with
  | server event =>
    rw [step] at taken
    split_ifs at taken
    obtain ⟨server, _, rfl⟩ := Option.map_eq_some_iff.mp taken
    exact known
  | accept fd =>
    obtain ⟨server, _, rfl⟩ := Option.map_eq_some_iff.mp taken
    split_ifs
    · exact known
    · exact known
  | read available =>
    rw [step] at taken
    split at taken
    · obtain ⟨server, _, rfl⟩ := Option.map_eq_some_iff.mp taken
      exact known
    · cases taken
  | write results =>
    rw [step] at taken
    split at taken
    · rw [writeUser_registry taken]
      exact known
    · cases taken
  | processRead slot disk =>
    rw [step] at taken
    split_ifs at taken
    simp only [bind, Option.bind_eq_some_iff] at taken
    obtain ⟨read, _, ⟨code, conn, registry⟩, answered, taken⟩ := taken
    cases taken
    exact HttpConn.answerRead_known known answered
  | respond slot code =>
    rw [step] at taken
    split_ifs at taken
    obtain ⟨server, _, rfl⟩ := Option.map_eq_some_iff.mp taken
    exact known

theorem known_of_run {events : List ProgramEvent} (known : program.registry.users name = some password)
    (ran : run Program.step program events = some next) : next.registry.users name = some password := by
  have keeps : ∀ (program : Program) (event : ProgramEvent) (next : Program),
      program.registry.users name = some password → program.step event = some next →
        next.registry.users name = some password :=
    fun _ _ _ known taken => known_of_step known taken
  exact invariant keeps known ran

end Program

end Known

/-! ## From a registration on -/

/-- A registration of a new name that the database accepts is answered from the login page, with the user in the
map. In every state that the whole server comes to from there, by whatever events: a login with the name is
answered from the welcome page if it has the password of the registration and from the error page if not, and
another registration of the name is turned away; neither changes the users. All forms fit (`Submits`): the request
in the read buffer, the name and the password in the arrays of `do_request` with 99 bytes each, those of a
registration in the INSERT with 150 together, and the URL has 200 bytes at most. -/
theorem registered_user_logs_in {name password : Bytes} {pieces : List Bytes}
    (submits : Submits '3'.toUInt8 name password pieces) (tree : FileTree) (query : Bytes → ℤ)
    (registry : Registry) (new : registry.users name = none) (accepted : query (insertText name password) = 0) :
    AnsweredFrom tree query registry pieces logPage (registry.insertUser ⟨name, password⟩ 0).1 ∧
      ∀ (program later : Program) (events : List ProgramEvent),
        program.registry = (registry.insertUser ⟨name, password⟩ 0).1 →
        run Program.step program events = some later →
        (∀ (entered : Bytes) (pieces : List Bytes) (tree : FileTree) (query : Bytes → ℤ),
          Submits '2'.toUInt8 name entered pieces →
          AnsweredFrom tree query later.registry pieces
            (if entered = password then welcomePage else logErrorPage) later.registry) ∧
        ∀ (other : Bytes) (pieces : List Bytes) (tree : FileTree) (query : Bytes → ℤ),
          Submits '3'.toUInt8 name other pieces →
          AnsweredFrom tree query later.registry pieces registerErrorPage later.registry := by
  constructor
  · have answered := submits.registers tree query registry
    rw [Registry.register, new] at answered
    dsimp only at answered
    rwa [accepted] at answered
  · intro program later events start ran
    have enters : (registry.insertUser ⟨name, password⟩ 0).1.users name = some password := by
      rw [Registering.users_insertUser, new, Option.none_or, if_pos rfl]
    have known : later.registry.users name = some password := by
      rw [← start] at enters
      exact Program.known_of_run enters ran
    constructor
    · intro entered pieces tree query submits
      have page : later.registry.login ⟨name, entered⟩ =
          if entered = password then welcomePage else logErrorPage := by
        rw [Registry.login, known]
        exact if_congr (by rw [Option.some.injEq, eq_comm]) rfl rfl
      rw [← page]
      exact submits.logsIn tree query later.registry
    · intro other pieces tree query submits
      have answered := submits.registers tree query later.registry
      rw [Registry.register, known] at answered
      exact answered

private def emptySite : FileTree := ⟨fun _ => none, fun _ => .failed⟩

/-- A form in two pieces, the first of which ends inside the request line. -/
private def bobsPieces (action : UInt8) : List Bytes :=
  [ascii "POST /", action :: ascii " HTTP/1.1\r\nContent-length: 20\r\n\r\nuser=bob&password=pw"]

private theorem submits_bob {action : UInt8} (isUser : action = '2'.toUInt8 ∨ action = '3'.toUInt8) :
    Submits action (ascii "bob") (ascii "pw") (bobsPieces action) := by
  have posts : Posts (ascii "POST /" ++ action :: ascii " HTTP/1.1" ++
      cr :: lf :: headerBlock [ascii "Content-length: 20"]) [slash, action]
      (loginForm (ascii "bob") (ascii "pw")) := by
    rcases isUser with rfl | rfl
    · exact posts_of_lines (by decide +kernel) (by decide +kernel) (by decide +kernel) (by decide +kernel)
        (by decide +kernel)
    · exact posts_of_lines (by decide +kernel) (by decide +kernel) (by decide +kernel) (by decide +kernel)
        (by decide +kernel)
  have cut : FormCut (ascii "POST /" ++ action :: ascii " HTTP/1.1" ++
      cr :: lf :: headerBlock [ascii "Content-length: 20"]) (loginForm (ascii "bob") (ascii "pw"))
      [ascii "POST /"]
      (action :: ascii " HTTP/1.1\r\nContent-length: 20\r\n\r\nuser=bob&password=pw") := by
    rcases isUser with rfl | rfl
    · exact ⟨by decide +kernel, by decide +kernel, by decide +kernel, by decide +kernel⟩
    · exact ⟨by decide +kernel, by decide +kernel, by decide +kernel, by decide +kernel⟩
  have acts : urlAction [slash, action] = some action := by
    rcases isUser with rfl | rfl
    · decide +kernel
    · decide +kernel
  have short : [slash, action].length ≤ 200 := by rw [List.length_cons, List.length_singleton]; decide
  constructor
  · exact ⟨_, _, [ascii "POST /"], _, rfl, posts, cut, acts, short⟩
  · exact isUser
  · decide +kernel
  · decide +kernel
  · decide +kernel
  · decide +kernel
  · decide +kernel
  · decide +kernel
  · intro _
    decide +kernel

private def bobRegistered : Registry := (Registry.insertUser (.loaded []) ⟨ascii "bob", ascii "pw"⟩ 0).1

/-- Another client registers. -/
private def amyRegisters : List ProgramEvent :=
  [.server (.epollWait [.listen]), .accept 5, .server .endBatch, .server (.epollWait [.client 5 .readable]),
    .read (ascii "POST /3 HTTP/1.1\r\nContent-length: 19\r\n\r\nuser=amy&password=x"), .server .endBatch,
    .server .take, .processRead 5 ⟨fun _ => none, fun _ => 0, true⟩]

/-- Bob registers, then Amy, then Bob logs in. -/
theorem registered_user_logs_in_bob :
    AnsweredFrom emptySite (fun _ => 0) (.loaded []) (bobsPieces '3'.toUInt8) logPage bobRegistered ∧
      ∃ later, run Program.step (.initial 0 bobRegistered) amyRegisters = some later ∧
        AnsweredFrom emptySite (fun _ => 0) later.registry (bobsPieces '2'.toUInt8) welcomePage
          later.registry := by
  obtain ⟨answered, later⟩ := registered_user_logs_in (submits_bob (Or.inr rfl)) emptySite (fun _ => 0)
    (.loaded []) rfl rfl
  obtain ⟨last, ran⟩ := Option.isSome_iff_exists.mp
    (show (run Program.step (.initial 0 bobRegistered) amyRegisters).isSome by decide +kernel)
  obtain ⟨logsIn, _⟩ := later (.initial 0 bobRegistered) last amyRegisters rfl ran
  exact ⟨answered, last, ran, logsIn (ascii "pw") _ emptySite (fun _ => 0) (submits_bob (Or.inl rfl))⟩

end WebServ.Http
