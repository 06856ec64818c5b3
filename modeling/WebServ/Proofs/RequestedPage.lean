import WebServ.Proofs.DoRequest
import WebServ.Proofs.RequestPath

/-! # The page a request is answered from

`do_request` computes in place; what it computes is a function of the request and the users. A login or a
registration is answered with one of four pages, a URL whose last segment begins with a route with the
page of the route, any other with what fits of the URL. `target` says so without buffers, together with
the users the request leaves; `do_request` looks for the target behind the root.
-/

namespace WebServ.Http

open WebServ.Text

/-! ## The pages of the server -/

/-- The pages that answer a login or a registration. -/
def answerPages : List Bytes := [logPage, registerErrorPage, welcomePage, logErrorPage]

theorem register_mem_answerPages (registry : Registry) (user : Credentials) (res : ℤ) :
    (registry.register user res).2 ∈ answerPages := by
  rw [Registry.register]
  split
  · rw [Registry.insertUser]
    dsimp only
    split_ifs <;> decide
  · exact (by decide : registerErrorPage ∈ answerPages)

theorem login_mem_answerPages (registry : Registry) (user : Credentials) :
    registry.login user ∈ answerPages := by
  rw [Registry.login]
  split_ifs <;> decide

/-- An answer is a C string that fits, with no byte that is a route. -/
theorem answerPages_text : ∀ page ∈ answerPages, page.length < urlRoom ∧ (∀ value ∈ page, value ≠ 0) ∧
    ∀ value ∈ page ++ [0], routePage value = none := by
  decide +kernel

/-- The page of a route is a C string that fits. -/
theorem routePage_text {action : UInt8} {page : Bytes} (isPage : routePage action = some page) :
    page.length < urlRoom ∧ ∀ value ∈ page, value ≠ 0 := by
  rw [routePage] at isPage
  split_ifs at isPage <;> cases isPage <;> decide +kernel

/-- The byte behind the last slash of a URL. -/
def urlAction (url : Bytes) : Option UInt8 :=
  (Buffer.lastIdx? slash url).map fun index => url.getD (index + 1) 0

theorem urlAction_of_absolute {url : Bytes} (absolute : url.head? = some slash) :
    ∃ action, urlAction url = some action := by
  obtain ⟨index, found⟩ := Buffer.lastIdx?_of_mem (List.mem_of_head? absolute)
  exact ⟨_, congrArg (Option.map _) found⟩

/-- A URL with a byte behind its last slash has two bytes at least. -/
theorem two_le_of_urlAction {url : Bytes} {action : UInt8} (acts : urlAction url = some action)
    (nonzero : action ≠ 0) : 2 ≤ url.length := by
  obtain ⟨index, found, rfl⟩ := Option.map_eq_some_iff.mp acts
  have inside := Buffer.lastIdx?_lt found
  by_contra short
  apply nonzero
  rw [List.getD_eq_getElem?_getD, List.getElem?_eq_none (by omega), Option.getD_none]

namespace HttpConn

/-- The byte behind the last slash of the URL. -/
def action (conn : HttpConn) : Option UInt8 := conn.behindSlash.bind conn.readBuf.load?

/-- The byte `do_request` decides by, from the string of the URL. -/
theorem action_eq {conn : HttpConn} {url : Bytes} (found : conn.urlText = some url) :
    conn.action = urlAction url := by
  obtain ⟨pointer, points, text⟩ := Option.bind_eq_some_iff.mp found
  have place : conn.behindSlash = (Buffer.lastIdx? slash url).map fun index => pointer + index + 1 := by
    simp only [behindSlash, points, Buffer.strrchr, text, bind, Option.bind_some, Option.map_some,
      Option.map_map]
    rfl
  rw [action, place, urlAction]
  cases last : Buffer.lastIdx? slash url with
  | none => rfl
  | some index =>
    simp only [Option.map_some, Option.bind_some, Nat.add_assoc]
    exact Buffer.load?_of_cstr text (Buffer.lastIdx?_lt last)

theorem urlText_of_behindSlash {conn : HttpConn} {behind : ℕ} (place : conn.behindSlash = some behind) :
    ∃ text, conn.urlText = some text := by
  simp only [behindSlash, bind, Option.bind_eq_some_iff] at place
  obtain ⟨url, points, _, searched, _⟩ := place
  obtain ⟨text, read, _⟩ := Option.map_eq_some_iff.mp searched
  exact ⟨text, by rw [urlText, points, Option.bind_some, read]⟩

/-- The users after the request and the page it is answered from. -/
def target (query : Bytes → ℤ) (registry : Registry) (conn : HttpConn) : Option (Registry × Bytes) := do
  let url ← conn.urlText
  let action ← conn.action
  if conn.cgi = 1 ∧ (action = '2'.toUInt8 ∨ action = '3'.toUInt8) then do
    let user ← conn.credentials
    if action = '3'.toUInt8 then do
      let sql ← sqlInsert user
      some (registry.register user (query sql))
    else some (registry, registry.login user)
  else some (registry, (routePage action).getD (url.take urlRoom))

/-- After a login or registration the byte behind the last slash is no route. -/
theorem routePage_again {before after : Buffer readBufferSize} {url behind : ℕ} {action again : UInt8}
    {page : Bytes} (isCgi : action = '2'.toUInt8 ∨ action = '3'.toUInt8) (answer : page ∈ answerPages)
    (first : before.load? behind = some action) (stored : before.strcpy url page = some after)
    (second : after.load? behind = some again) : routePage again = none := by
  rw [Buffer.load?, Option.ite_none_right_eq_some, Option.some.injEq] at first second
  obtain ⟨_, rfl⟩ := Buffer.write?_eq_some_iff.mp stored
  rcases Buffer.write_byte_mem before url behind (page ++ [0]) with written | kept
  · rw [second.2] at written
    exact (answerPages_text page answer).2.2 again written
  · rw [← second.2, kept, first.2]
    rcases isCgi with rfl | rfl <;> decide

/-- The page copied over the URL is copied on behind the root. -/
theorem answer_path (conn : HttpConn) {routed : HttpConn} {readBuf : Buffer readBufferSize} {url behind : ℕ}
    {first again : UInt8} {page : Bytes} (isCgi : first = '2'.toUInt8 ∨ first = '3'.toUInt8)
    (rooted : Rooted conn.realFile) (answer : page ∈ answerPages)
    (loaded : conn.readBuf.load? behind = some first) (stored : conn.readBuf.strcpy url page = some readBuf)
    (second : readBuf.load? behind = some again)
    (routes : { conn with readBuf }.routeFile url again = some routed) :
    routed.realFile.cstr 0 = some (docRoot ++ page) := by
  obtain ⟨short, nonzero, _⟩ := answerPages_text page answer
  rcases routeFile_eq_some routes with ⟨_, isPage, _⟩ | ⟨_, text, read, copied⟩
  · rw [routePage_again isCgi answer loaded stored second] at isPage
    cases isPage
  · obtain ⟨bound, rfl⟩ := Buffer.write?_eq_some_iff.mp stored
    rw [List.length_append, List.length_singleton] at bound
    have wrote := Buffer.cstr_write conn.readBuf url page (by omega) nonzero
    cases wrote.symm.trans read
    rw [(rooted.strncpy copied).2 nonzero, List.take_of_length_le short.le]

/-- A login or registration looks for the page of its answer. -/
theorem cgiRequest_target (conn : HttpConn) {routed : HttpConn} {query : Bytes → ℤ} {registry : Registry}
    {url behind : ℕ} {first again : UInt8} {after : Registry × HttpConn}
    (isCgi : first = '2'.toUInt8 ∨ first = '3'.toUInt8) (rooted : Rooted conn.realFile)
    (loaded : conn.readBuf.load? behind = some first)
    (answered : cgiRequest query registry url first conn = some after)
    (second : after.2.readBuf.load? behind = some again)
    (routes : after.2.routeFile url again = some routed) :
    ∃ user page realFile readBuf, conn.credentials = some user ∧
      routed = { conn with realFile, readBuf } ∧ realFile.cstr 0 = some (docRoot ++ page) ∧
      ((first = '3'.toUInt8 ∧ ∃ sql, sqlInsert user = some sql ∧
          (after.1, page) = registry.register user (query sql)) ∨
        (first ≠ '3'.toUInt8 ∧ (after.1, page) = (registry, registry.login user))) := by
  obtain ⟨file, user, readBuf, stripped, found, same, kind⟩ := cgiRequest_eq_some answered
  obtain ⟨text, copied⟩ := copyAction_eq_some stripped
  rw [same] at second routes
  have moved : routed = { conn with realFile := routed.realFile, readBuf } := routeFile_frame routes
  have path : ∀ page ∈ answerPages, conn.readBuf.strcpy url page = some readBuf →
      routed.realFile.cstr 0 = some (docRoot ++ page) := by
    intro page answer stored
    exact answer_path { conn with realFile := file } isCgi (rooted.strncpy copied).1 answer loaded
      stored second routes
  rcases kind with ⟨isRegistration, sql, built, registered, stored⟩ | ⟨isLogin, same, stored⟩
  · exact ⟨user, _, _, _, found, moved, path _ (register_mem_answerPages _ _ _) stored,
      Or.inl ⟨isRegistration, sql, built, Prod.ext registered rfl⟩⟩
  · exact ⟨user, _, _, _, found, moved, path _ (login_mem_answerPages _ _) stored,
      Or.inr ⟨isLogin, Prod.ext same rfl⟩⟩

/-- `do_request` looks for the target behind the root. -/
theorem doRequest_target {conn : HttpConn} {tree : FileTree} {query : Bytes → ℤ} {registry : Registry}
    {outcome : Outcome} (zero : conn.realFile = .zero)
    (ran : conn.doRequest tree query registry = some outcome) :
    ∃ page realFile readBuf, conn.target query registry = some (outcome.registry, page) ∧
      realFile.cstr 0 = some (docRoot ++ page) ∧
      { conn with realFile, readBuf }.serveFile tree outcome.registry = some outcome := by
  obtain ⟨file, pointer, behind, first, after, again, routed, copied, points, place, loaded, answered,
    second, routes, served⟩ := doRequest_eq_some ran
  obtain ⟨_, _, unchanged, _⟩ := serveFile_eq_some served
  rw [zero] at copied
  obtain ⟨rooted, zeros⟩ := strcpy_docRoot copied
  obtain ⟨text, url⟩ := urlText_of_behindSlash place
  have action : conn.action = some first := by rw [HttpConn.action, place, Option.bind_some, loaded]
  rw [cgiPart] at answered
  simp only [target, url, action, bind, Option.bind_some]
  split_ifs at answered with isCgi
  · obtain ⟨user, page, realFile, readBuf, found, moved, path, kind⟩ :=
      cgiRequest_target { conn with realFile := file } isCgi.2 rooted loaded answered second routes
    have credentials : conn.credentials = some user := found
    rw [moved, ← unchanged] at served
    refine ⟨page, realFile, readBuf, ?_, path, served⟩
    rw [if_pos isCgi, credentials, unchanged]
    rcases kind with ⟨isRegistration, sql, built, registered⟩ | ⟨isLogin, registered⟩
    · simp only [Option.bind_some, if_pos isRegistration, built, registered]
    · simp only [Option.bind_some, if_neg isLogin, registered]
  · cases answered
    cases loaded.symm.trans second
    rw [routeFile_frame routes, ← unchanged] at served
    refine ⟨(routePage first).getD (text.take urlRoom), routed.realFile, conn.readBuf, ?_, ?_, served⟩
    · rw [if_neg isCgi, unchanged]
    · rcases routeFile_eq_some routes with ⟨page, isPage, stored⟩ | ⟨noPage, read, at', stored⟩
      · obtain ⟨short, nonzero⟩ := routePage_text isPage
        rw [isPage, Option.getD_some]
        exact rooted.strncpy_page zeros short nonzero stored
      · have same : conn.urlText = some read := by rw [urlText, points, Option.bind_some]; exact at'
        cases url.symm.trans same
        rw [noPage, Option.getD_none]
        exact (rooted.strncpy stored).2 (Buffer.cstr_nonzero at')

/-- Every path given to a system call is the root with the target behind it. -/
theorem doRequest_paths {conn : HttpConn} {tree : FileTree} {query : Bytes → ℤ} {registry : Registry}
    {outcome : Outcome} (zero : conn.realFile = .zero)
    (ran : conn.doRequest tree query registry = some outcome) :
    ∃ page, conn.target query registry = some (outcome.registry, page) ∧
      (outcome.paths = [docRoot ++ page] ∨ outcome.paths = [docRoot ++ page, docRoot ++ page]) := by
  obtain ⟨page, realFile, readBuf, asked, behindRoot, served⟩ := doRequest_target zero ran
  obtain ⟨path, found, _, paths⟩ := serveFile_eq_some served
  cases behindRoot.symm.trans found
  exact ⟨page, asked, paths⟩

/-! ## Requests for a page or a file are always answered -/

theorem serveFile_defined (conn : HttpConn) {path : Bytes} (found : conn.realFile.cstr 0 = some path)
    (tree : FileTree) (registry : Registry) : ∃ outcome, conn.serveFile tree registry = some outcome := by
  simp only [serveFile, found, bind, Option.bind_some]
  split
  · exact ⟨_, rfl⟩
  · split_ifs <;> exact ⟨_, rfl⟩

/-- Without a login or registration nothing `do_request` does is undefined, and only the members outside the
parser change. -/
theorem doRequest_defined {conn : HttpConn} {text : Bytes} {action : UInt8} (zero : conn.realFile = .zero)
    (url : conn.urlText = some text) (here : conn.action = some action)
    (noUser : ¬(conn.cgi = 1 ∧ (action = '2'.toUInt8 ∨ action = '3'.toUInt8))) (tree : FileTree)
    (query : Bytes → ℤ) (registry : Registry) :
    ∃ realFile outcome, realFile.cstr 0 = some (docRoot ++ (routePage action).getD (text.take urlRoom)) ∧
      conn.doRequest tree query registry = some outcome ∧
      { conn with realFile }.serveFile tree registry = some outcome := by
  obtain ⟨pointer, points, read⟩ := Option.bind_eq_some_iff.mp url
  obtain ⟨behind, place, loaded⟩ := Option.bind_eq_some_iff.mp here
  obtain ⟨file, copied⟩ : ∃ file, (Buffer.zero : Buffer filenameLen).strcpy 0 docRoot = some file :=
    ⟨_, Buffer.write?_eq_some (by decide)⟩
  obtain ⟨rooted, zeros⟩ := strcpy_docRoot copied
  have root := docRoot_length
  have room : urlRoom = 171 := by decide
  have size : filenameLen = 200 := rfl
  obtain ⟨realFile, path, routes⟩ : ∃ realFile : Buffer filenameLen,
      realFile.cstr 0 = some (docRoot ++ (routePage action).getD (text.take urlRoom)) ∧
      { conn with realFile := file }.routeFile pointer action = some { conn with realFile } := by
    cases isPage : routePage action with
    | some page =>
      obtain ⟨short, nonzero⟩ := routePage_text isPage
      obtain ⟨realFile, stored⟩ : ∃ realFile, file.strncpy docRoot.length page page.length = some realFile := by
        refine ⟨_, Buffer.write?_eq_some ?_⟩
        rw [List.length_append, List.length_take, List.length_replicate]
        omega
      refine ⟨realFile, rooted.strncpy_page zeros short nonzero stored, ?_⟩
      simp only [routeFile, isPage, stored, bind, Option.bind_some]
    | none =>
      obtain ⟨realFile, stored⟩ : ∃ realFile, file.strncpy docRoot.length text urlRoom = some realFile := by
        refine ⟨_, Buffer.write?_eq_some ?_⟩
        rw [List.length_append, List.length_take, List.length_replicate]
        omega
      refine ⟨realFile, (rooted.strncpy stored).2 (Buffer.cstr_nonzero read), ?_⟩
      simp only [routeFile, isPage, read, stored, bind, Option.bind_some]
  obtain ⟨outcome, served⟩ := serveFile_defined { conn with realFile } path tree registry
  refine ⟨realFile, outcome, path, ?_, served⟩
  simp only [doRequest, bind, Option.bind_eq_some_iff]
  exact ⟨file, by rw [zero, copied], pointer, points, behind, place, action, loaded,
    (registry, { conn with realFile := file }), if_neg noUser, action, loaded, { conn with realFile }, routes,
    served⟩

end HttpConn

end WebServ.Http
