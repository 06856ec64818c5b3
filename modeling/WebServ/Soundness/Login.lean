import WebServ.Proofs.UrlPlace
import WebServ.Soundness.CgiBounds

/-! # Logins

A login is answered in place: name and password are cut out of the body, the page they lead to overwrites
the URL, and the byte behind the URL's last slash is read again where the page may now be. None of this
matters: no page has a byte that is a route, so the page is what `stat` is asked about.
-/

namespace WebServ.Http

open WebServ.Text

/-- The body a browser sends for the form of `log.html`. -/
def loginForm (name password : Bytes) : Bytes :=
  ascii "user=" ++ (name ++ (ascii "&password=" ++ password))

/-- The page a login leads to. -/
def loginPage (registry : Registry) (name password : Bytes) : Bytes :=
  if registry.users name = some password then ascii "/welcome.html" else ascii "/logError.html"

/-- The two loops cut the form where it was put together. -/
theorem loginForm_fields {name : Bytes} (absent : '&'.toUInt8 ∉ name) (password : Bytes) :
    formName (loginForm name password) = name ∧
      formRest (loginForm name password) = ascii "&password=" ++ password ∧
      formPassword (loginForm name password) = password := by
  have split : (loginForm name password).drop 5 =
      name ++ '&'.toUInt8 :: (ascii "password=" ++ password) := by
    rw [loginForm]
    exact List.drop_left' (by decide)
  obtain ⟨isName, isRest⟩ := form_of_split split absent
  refine ⟨isName, isRest, ?_⟩
  rw [formPassword, isRest]
  exact List.drop_left' (by decide)

/-- It fits the arrays if name and password do. -/
theorem loginForm_fits {name password : Bytes} (absent : '&'.toUInt8 ∉ name)
    (shortName : name.length ≤ 99) (shortPassword : password.length ≤ 99) :
    FormFits (loginForm name password) := by
  obtain ⟨isName, isRest, isPassword⟩ := loginForm_fields absent password
  have ten : (ascii "&password=").length = 10 := by decide
  rw [FormFits, isName, isRest, isPassword, List.length_append, ten]
  omega

namespace HttpConn

/-- The users and the page a registration or a login leads to; the INSERT may not fit. -/
def userAnswer (query : Bytes → ℤ) (registry : Registry) (action : UInt8) (user : Credentials) :
    Option (Registry × Bytes) :=
  if action = '3'.toUInt8 then (sqlInsert user).map fun sql => registry.register user (query sql)
  else some (registry, registry.login user)

theorem userAnswer_mem_answerPages {query : Bytes → ℤ} {registry after : Registry} {action : UInt8}
    {user : Credentials} {page : Bytes}
    (answers : userAnswer query registry action user = some (after, page)) : page ∈ answerPages := by
  rw [userAnswer] at answers
  split_ifs at answers
  · obtain ⟨sql, _, same⟩ := Option.map_eq_some_iff.mp answers
    have pages := register_mem_answerPages registry user (query sql)
    rwa [same] at pages
  · cases answers
    exact login_mem_answerPages registry user

/-- The branch for users, where every part of it is defined. -/
theorem cgiRequest_of_userAnswer {conn : HttpConn} {query : Bytes → ℤ} {registry after : Registry}
    {pointer : ℕ} {action : UInt8} {user : Credentials} {page : Bytes} {realFile : Buffer filenameLen}
    {readBuf : Buffer readBufferSize} (copied : conn.copyAction pointer = some realFile)
    (found : conn.credentials = some user)
    (answers : userAnswer query registry action user = some (after, page))
    (stored : conn.readBuf.strcpy pointer page = some readBuf) :
    cgiRequest query registry pointer action conn = some (after, { conn with realFile, readBuf }) := by
  rw [userAnswer] at answers
  simp only [cgiRequest, bind, copied, found, Option.bind_some]
  split_ifs at answers ⊢
  · obtain ⟨sql, built, same⟩ := Option.map_eq_some_iff.mp answers
    rw [built, Option.bind_some, same, stored]
    rfl
  · cases answers
    rw [stored]
    rfl

/-- A registration or login whose copies stay inside is answered, if its page fits in the buffer from the URL
on. -/
theorem userRequest_defined {conn : HttpConn} {pointer : ℕ} {url : Bytes} {action : UInt8} {user : Credentials}
    {query : Bytes → ℤ} {registry after : Registry} {page : Bytes}
    (zero : conn.realFile = .zero) (enters : conn.EntersCgi action)
    (points : conn.url = some pointer) (read : conn.readBuf.cstr pointer = some url)
    (long : 2 ≤ url.length) (short : url.length ≤ 200) (found : conn.credentials = some user)
    (answers : userAnswer query registry action user = some (after, page)) (tree : FileTree)
    (room : pointer + page.length < readBufferSize) :
    ∃ outcome, conn.doRequest tree query registry = some outcome := by
  obtain ⟨posts, acts, isCgi⟩ := enters
  obtain ⟨behind, place, loaded⟩ := Option.bind_eq_some_iff.mp acts
  obtain ⟨file, copied⟩ : ∃ file, (Buffer.zero : Buffer filenameLen).strcpy 0 docRoot = some file :=
    ⟨_, Buffer.write?_eq_some (by decide)⟩
  obtain ⟨rooted, _⟩ := strcpy_docRoot copied
  have answer := userAnswer_mem_answerPages answers
  obtain ⟨_, nonzero, _⟩ := answerPages_text _ answer
  -- the URL's copy, and the page over the URL
  have stripping : (copyAction { conn with realFile := file } pointer).isSome :=
    (copyAction_isSome_iff { conn with realFile := file } read long).mpr short
  obtain ⟨first, stripped⟩ := Option.isSome_iff_exists.mp stripping
  obtain ⟨_, copiedAction⟩ := copyAction_eq_some stripped
  obtain ⟨readBuf, stored⟩ : ∃ readBuf, conn.readBuf.strcpy pointer page = some readBuf := by
    refine ⟨_, Buffer.write?_eq_some ?_⟩
    rw [List.length_append, List.length_singleton]
    omega
  have asked : HttpConn.credentials { conn with realFile := file } = some user := found
  have cgi : cgiPart query registry pointer action { conn with realFile := file } =
      some (after, { conn with realFile := first, readBuf }) := by
    rw [cgiPart, if_pos ⟨posts, isCgi⟩]
    exact cgiRequest_of_userAnswer stripped asked answers stored
  -- the byte behind the last slash once more, and the page as the URL
  obtain ⟨again, second⟩ : ∃ again, readBuf.load? behind = some again := by
    rw [Buffer.load?, Option.ite_none_right_eq_some] at loaded
    exact ⟨_, if_pos loaded.1⟩
  have noRoute := routePage_again isCgi answer loaded stored second
  have wrote : readBuf.cstr pointer = some page := by
    obtain ⟨_, rfl⟩ := Buffer.write?_eq_some_iff.mp stored
    exact Buffer.cstr_write _ _ _ room nonzero
  obtain ⟨last, copiedPage⟩ : ∃ last,
      first.strncpy docRoot.length page (filenameLen - docRoot.length - 1) = some last := by
    refine ⟨_, Buffer.write?_eq_some ?_⟩
    have root := docRoot_length
    have size : filenameLen = 200 := rfl
    rw [List.length_append, List.length_take, List.length_replicate]
    omega
  have routes : routeFile { conn with realFile := first, readBuf } pointer again =
      some { conn with realFile := last, readBuf } := by
    simp only [routeFile, noRoute, bind, wrote, Option.bind_some, copiedPage]
  obtain ⟨outcome, served⟩ := serveFile_defined { conn with realFile := last, readBuf }
    (((rooted.strncpy copiedAction).1.strncpy copiedPage).2 nonzero) tree after
  refine ⟨outcome, ?_⟩
  simp only [doRequest, bind, Option.bind_eq_some_iff]
  exact ⟨file, by rw [zero, copied], pointer, points, behind, place, action, loaded, _, cgi, again, second,
    _, routes, served⟩

/-- A login whose copies stay inside is answered, if its page fits in the buffer from the URL on. -/
theorem login_defined {conn : HttpConn} {pointer : ℕ} {url : Bytes} {user : Credentials}
    (zero : conn.realFile = .zero) (enters : conn.EntersCgi '2'.toUInt8)
    (points : conn.url = some pointer) (read : conn.readBuf.cstr pointer = some url)
    (long : 2 ≤ url.length) (short : url.length ≤ 200) (found : conn.credentials = some user)
    (tree : FileTree) (query : Bytes → ℤ) (registry : Registry)
    (room : pointer + (registry.login user).length < readBufferSize) :
    ∃ outcome, conn.doRequest tree query registry = some outcome := by
  have answers : userAnswer query registry '2'.toUInt8 user = some (registry, registry.login user) :=
    if_neg (by decide)
  exact userRequest_defined zero enters points read long short found answers tree room

/-- A registration or login that is answered is answered with its users and its page. -/
theorem userRequest_paths {conn : HttpConn} {action : UInt8} {user : Credentials} {tree : FileTree}
    {query : Bytes → ℤ} {registry after : Registry} {page : Bytes} {outcome : Outcome}
    (zero : conn.realFile = .zero) (enters : conn.EntersCgi action) (found : conn.credentials = some user)
    (answers : userAnswer query registry action user = some (after, page))
    (ran : conn.doRequest tree query registry = some outcome) :
    outcome.registry = after ∧
      (outcome.paths = [docRoot ++ page] ∨ outcome.paths = [docRoot ++ page, docRoot ++ page]) := by
  obtain ⟨posts, acts, isCgi⟩ := enters
  obtain ⟨served, asked, paths⟩ := doRequest_paths zero ran
  simp only [target, bind, Option.bind_eq_some_iff] at asked
  obtain ⟨_, _, action, same, asked⟩ := asked
  obtain rfl := Option.some.inj (acts.symm.trans same)
  have both : userAnswer query registry action user = some (outcome.registry, served) := by
    rw [if_pos ⟨posts, isCgi⟩, found, Option.bind_some] at asked
    rw [userAnswer]
    split_ifs at asked ⊢
    · obtain ⟨sql, built, same⟩ := Option.bind_eq_some_iff.mp asked
      rw [built, Option.map_some, Option.some.inj same]
    · exact asked
  cases answers.symm.trans both
  exact ⟨rfl, paths⟩

/-- A login that is answered is answered with its page and leaves the users alone. -/
theorem login_paths {conn : HttpConn} {user : Credentials} {tree : FileTree} {query : Bytes → ℤ}
    {registry : Registry} {outcome : Outcome} (zero : conn.realFile = .zero)
    (enters : conn.EntersCgi '2'.toUInt8) (found : conn.credentials = some user)
    (ran : conn.doRequest tree query registry = some outcome) :
    outcome.registry = registry ∧ (outcome.paths = [docRoot ++ registry.login user] ∨
      outcome.paths = [docRoot ++ registry.login user, docRoot ++ registry.login user]) :=
  userRequest_paths zero enters found (if_neg (by decide)) ran

end HttpConn

/-- Whatever has happened on the object before `init`, whatever is delivered then, and whoever the users are:
when `do_request` is called on a POST with a URL of at most 190 bytes whose last segment begins with 2 and
with a login form as its body, it extracts the name and the password of the form, every path it gives to
`stat` and `open` is the root with the page of the login behind it, and the users are unchanged. -/
theorem login_answered (start conn : HttpConn) (pieces : List Bytes) (url name password : Bytes)
    (tree : FileTree) (query : Bytes → ℤ) (registry : Registry)
    (called : start.init.deliverAll pieces = some (.callDoRequest, conn))
    (content : conn.checkState = .content) (posts : conn.cgi = 1) (points : conn.urlText = some url)
    (short : url.length ≤ 190) (acts : urlAction url = some '2'.toUInt8)
    (form : conn.bodyText = some (loginForm name password)) (absent : '&'.toUInt8 ∉ name)
    (shortName : name.length ≤ 99) (shortPassword : password.length ≤ 99) :
    conn.credentials = some ⟨name, password⟩ ∧
      ∃ outcome, conn.doRequest tree query registry = some outcome ∧ outcome.registry = registry ∧
        (outcome.paths = [docRoot ++ loginPage registry name password] ∨
          outcome.paths = [docRoot ++ loginPage registry name password,
            docRoot ++ loginPage registry name password]) := by
  have zero : conn.realFile = .zero := HttpConn.deliverAll_realFile called
  have enters : conn.EntersCgi '2'.toUInt8 := ⟨posts, (HttpConn.action_eq points).trans acts, Or.inl rfl⟩
  obtain ⟨isName, _, isPassword⟩ := loginForm_fields absent password
  obtain ⟨string, pointsString, readForm⟩ := Option.bind_eq_some_iff.mp form
  have found : conn.credentials = some ⟨name, password⟩ := by
    rw [HttpConn.credentials_eq, pointsString, Option.bind_some,
      credentialsAt_of_fits readForm (loginForm_fits absent shortName shortPassword), isName, isPassword]
  -- the page fits because the body, behind the URL, is longer
  obtain ⟨pointer, pointsUrl, readUrl⟩ := Option.bind_eq_some_iff.mp points
  obtain ⟨place, same, before⟩ := HttpConn.urlBeforeString_of_called called content
  obtain rfl := Option.some.inj (pointsString.symm.trans same)
  have early := before pointer pointsUrl
  have inside := Buffer.cstr_bound readForm
  have fifteen : 15 ≤ (loginForm name password).length := by
    have five : (ascii "user=").length = 5 := by decide
    have ten : (ascii "&password=").length = 10 := by decide
    rw [loginForm, List.length_append, List.length_append, List.length_append, five, ten]
    omega
  have page : (registry.login ⟨name, password⟩).length ≤ 14 := by
    rw [Registry.login]
    split_ifs <;> decide
  have long := two_le_of_urlAction acts (by decide)
  obtain ⟨outcome, ran⟩ := HttpConn.login_defined zero enters pointsUrl readUrl long (by omega) found tree
    query registry (by omega)
  exact ⟨found, outcome, ran, HttpConn.login_paths zero enters found ran⟩

private def oneUser : Registry := .loaded [⟨ascii "bob", ascii "pw"⟩]

private def noPages : FileTree := ⟨fun _ => none, fun _ => .failed⟩

private def bobsRequest : Bytes :=
  ascii "POST /a/b/2log HTTP/1.1\r\nContent-length: 20\r\n\r\nuser=bob&password=pw"

/-- A login two directories deep. -/
theorem login_answered_bob :
    (visit bobsRequest).credentials = some ⟨ascii "bob", ascii "pw"⟩ ∧
      ∃ outcome, (visit bobsRequest).doRequest noPages (fun _ => 0) oneUser = some outcome ∧
        outcome.registry = oneUser ∧
        (outcome.paths = [docRoot ++ ascii "/welcome.html"] ∨
          outcome.paths = [docRoot ++ ascii "/welcome.html", docRoot ++ ascii "/welcome.html"]) := by
  have answered := login_answered HttpConn.blank _ [bobsRequest] (ascii "/a/b/2log") (ascii "bob")
    (ascii "pw") noPages (fun _ => 0) oneUser (deliverAll_visit (by decide +kernel)) (by decide +kernel)
    (by decide +kernel) (by decide +kernel) (by decide) (by decide) (by decide +kernel) (by decide)
    (by decide) (by decide)
  have page : loginPage oneUser (ascii "bob") (ascii "pw") = ascii "/welcome.html" := by decide +kernel
  rwa [page] at answered

end WebServ.Http
