import WebServ.Proofs.RequestedPage
import WebServ.Text.LexicalPath

/-! # Which files the server serves

`do_request` appends the URL to the root without looking at its segments. A page the server chooses
itself is below the root. Any other request is answered from the root followed by what fits of the URL,
and that path is below the root exactly if the walk the URL describes, having climbed out of the root,
enters the same directories again. A URL that climbs without returning leaves the site.
-/

namespace WebServ.Http

open WebServ.Text

/-- The dot of `.` and `..`. -/
abbrev dot : UInt8 := 46

/-- The directory names a path leads through. -/
abbrev lexicalPath (path : Bytes) : List Bytes := lexical slash dot path

/-- The path names the root or something below it. -/
def InsideRoot (path : Bytes) : Prop := lexicalPath docRoot <+: lexicalPath path

instance (path : Bytes) : Decidable (InsideRoot path) := inferInstanceAs (Decidable (_ <+: _))

/-- Read as a walk, what fits of the URL enters again the directories of the root it has climbed out
of. -/
def Reenters (url : Bytes) : Prop :=
  let walk := climb (segments slash dot (url.take urlRoom))
  (lexicalPath docRoot).drop ((lexicalPath docRoot).length - walk.up) <+: walk.names

instance (url : Bytes) : Decidable (Reenters url) := inferInstanceAs (Decidable (_ <+: _))

/-- A URL behind the root is below it exactly if it enters again what it has climbed out of. -/
theorem insideRoot_append_iff {url : Bytes} (absolute : url.head? = some slash) :
    InsideRoot (docRoot ++ url.take urlRoom) ↔ Reenters url := by
  obtain ⟨rest, rfl⟩ : ∃ rest, url = slash :: rest := by
    cases url with
    | nil => cases absolute
    | cons first rest => exact ⟨rest, by rw [Option.some.inj absolute]⟩
  have room : urlRoom = 170 + 1 := by decide
  have walk : segments slash dot (slash :: rest.take 170) =
      .here :: segments slash dot (rest.take 170) := segments_append slash dot [] _
  rw [InsideRoot, Reenters, room, List.take_succ_cons, lexicalPath, lexicalPath, lexical_append,
    prefix_resolve_iff, walk]
  rfl

/-! ## The pages of the server -/

/-- The page of an answer lies below the root. -/
theorem answerPages_inside : ∀ page ∈ answerPages, InsideRoot (docRoot ++ page) := by decide +kernel

/-- So does the page of a route. -/
theorem routePage_inside {action : UInt8} {page : Bytes} (isPage : routePage action = some page) :
    InsideRoot (docRoot ++ page) := by
  rw [routePage] at isPage
  split_ifs at isPage <;> cases isPage <;> decide +kernel

namespace HttpConn

/-- The request is a login or a registration, or asks for a page with a one-character URL. -/
def FixedPage (conn : HttpConn) : Prop :=
  ∃ behind action, conn.behindSlash = some behind ∧ conn.readBuf.load? behind = some action ∧
    ((conn.cgi = 1 ∧ (action = '2'.toUInt8 ∨ action = '3'.toUInt8)) ∨ (routePage action).isSome)

/-- A target is a page of the server, or what fits of the URL. -/
theorem target_kind {conn : HttpConn} {query : Bytes → ℤ} {registry after : Registry} {text page : Bytes}
    (url : conn.urlText = some text) (found : conn.target query registry = some (after, page)) :
    (conn.FixedPage ∧ InsideRoot (docRoot ++ page)) ∨ (¬conn.FixedPage ∧ page = text.take urlRoom) := by
  simp only [target, url, bind, Option.bind_some, Option.bind_eq_some_iff] at found
  obtain ⟨action, here, found⟩ := found
  obtain ⟨behind, place, loaded⟩ := Option.bind_eq_some_iff.mp here
  split_ifs at found with isCgi isRegistration
  · simp only [Option.bind_eq_some_iff] at found
    obtain ⟨user, _, sql, _, same⟩ := found
    have answer := register_mem_answerPages registry user (query sql)
    rw [Option.some.inj same] at answer
    exact Or.inl ⟨⟨behind, action, place, loaded, Or.inl isCgi⟩, answerPages_inside page answer⟩
  · obtain ⟨user, _, same⟩ := Option.bind_eq_some_iff.mp found
    obtain ⟨_, rfl⟩ := Prod.mk.inj (Option.some.inj same)
    exact Or.inl ⟨⟨behind, action, place, loaded, Or.inl isCgi⟩,
      answerPages_inside _ (login_mem_answerPages registry user)⟩
  · obtain ⟨_, rfl⟩ := Prod.mk.inj (Option.some.inj found)
    cases isPage : routePage action with
    | some page =>
      exact Or.inl ⟨⟨behind, action, place, loaded, Or.inr (by rw [isPage]; rfl)⟩, routePage_inside isPage⟩
    | none =>
      refine Or.inr ⟨?_, rfl⟩
      rintro ⟨other, byte, there, again, either⟩
      cases place.symm.trans there
      cases loaded.symm.trans again
      rcases either with cgi | isRoute
      · exact isCgi cgi
      · rw [isPage] at isRoute
        cases isRoute

/-- The path `do_request` gives to the system calls: a page of the server, or the URL behind the root. -/
theorem doRequest_path {conn : HttpConn} {tree : FileTree} {query : Bytes → ℤ} {registry : Registry}
    {outcome : Outcome} {text : Bytes} (zero : conn.realFile = .zero) (url : conn.urlText = some text)
    (ran : conn.doRequest tree query registry = some outcome) :
    ∃ path, (outcome.paths = [path] ∨ outcome.paths = [path, path]) ∧
      ((conn.FixedPage ∧ InsideRoot path) ∨
        (¬ conn.FixedPage ∧ path = docRoot ++ text.take urlRoom)) := by
  obtain ⟨page, asked, paths⟩ := doRequest_paths zero ran
  refine ⟨_, paths, ?_⟩
  rcases target_kind url asked with fixed | ⟨notFixed, rfl⟩
  · exact Or.inl fixed
  · exact Or.inr ⟨notFixed, rfl⟩

end HttpConn

/-- Whatever is delivered to an initialised connection: when the parser calls `do_request` on a URL that
`parse_request_line` accepts, every path passed to a system call is below the root exactly if the file is
a page of the server or the URL enters again the directories it climbs out of. -/
theorem insideRoot_iff_fixedPage_or_reenters (start conn : HttpConn) (pieces : List Bytes) (url : Bytes)
    (tree : FileTree) (query : Bytes → ℤ) (registry : Registry) (outcome : Outcome)
    (called : start.init.deliverAll pieces = some (.callDoRequest, conn))
    (points : conn.urlText = some url) (accepted : HttpConn.AcceptsUrl url)
    (ran : conn.doRequest tree query registry = some outcome) :
    (∀ path ∈ outcome.paths, InsideRoot path) ↔ conn.FixedPage ∨ Reenters url := by
  have zero : conn.realFile = .zero := HttpConn.deliverAll_realFile called
  obtain ⟨path, paths, kind⟩ := HttpConn.doRequest_path zero points ran
  have all : (∀ given ∈ outcome.paths, InsideRoot given) ↔ InsideRoot path := by
    rcases paths with one | two
    · rw [one]
      exact List.forall_mem_singleton
    · rw [two, List.forall_mem_cons, List.forall_mem_singleton, and_self_iff]
  rw [all]
  rcases kind with ⟨fixed, inside⟩ | ⟨notFixed, rfl⟩
  · exact iff_of_true inside (Or.inl fixed)
  · rw [insideRoot_append_iff accepted.absolute, or_iff_right notFixed]

/-! ## Two requests -/

/-- A file tree with one readable file. -/
private def oneFile (path : Bytes) : FileTree where
  stat query := if query = path then some ⟨5, true, false⟩ else none
  mmap _ := .mapped 0

/-- A URL that climbs inside the site. -/
theorem insideRoot_iff_fixedPage_or_reenters_up :
    ∃ outcome : Outcome, (∀ path ∈ outcome.paths, InsideRoot path) ↔
      (visit (ascii "GET /a/../b.html HTTP/1.1\r\n\r\n")).FixedPage ∨ Reenters (ascii "/a/../b.html") :=
  ⟨_, insideRoot_iff_fixedPage_or_reenters HttpConn.blank _ [ascii "GET /a/../b.html HTTP/1.1\r\n\r\n"]
    (ascii "/a/../b.html") (oneFile (docRoot ++ ascii "/a/../b.html")) (fun _ => 0) (.loaded []) _
    (deliverAll_visit (by decide +kernel)) (by decide +kernel)
    (acceptsUrl_of_line (ascii "GET /a/../b.html HTTP/1.1") (by decide +kernel))
    (Option.some_get (by decide +kernel)).symm⟩

/-- A URL that climbs out of the site is answered with a file outside. -/
theorem served_outside_root :
    ∃ conn outcome, HttpConn.blank.init.deliverAll [ascii "GET /../../../../etc/passwd HTTP/1.1\r\n\r\n"] =
        some (.callDoRequest, conn) ∧
      conn.doRequest (oneFile (docRoot ++ ascii "/../../../../etc/passwd")) (fun _ => 0) (.loaded []) =
        some outcome ∧
      outcome.code = .fileRequest ∧
      outcome.paths = [docRoot ++ ascii "/../../../../etc/passwd", docRoot ++ ascii "/../../../../etc/passwd"] ∧
      lexicalPath (docRoot ++ ascii "/../../../../etc/passwd") = [ascii "etc", ascii "passwd"] ∧
      ¬ InsideRoot (docRoot ++ ascii "/../../../../etc/passwd") :=
  ⟨_, _, deliverAll_visit (by decide +kernel), (Option.some_get (by decide +kernel)).symm,
    by decide +kernel, by decide +kernel, by decide +kernel, by decide +kernel⟩

end WebServ.Http
