import WebServ.Soundness.Containment

/-! # The path of a request

What `stat` is asked about is meant to be the root with the name the request is routed to behind it: the
page of a route, the page that answers a login or registration, or the URL. `do_request` builds it in 200
bytes that `init` has zeroed, so nothing of an earlier path is left in it; but a URL is cut to the 171 bytes
there are behind the root, and then another file is looked for than the one that is asked for.
-/

namespace WebServ.Http

open WebServ.Text

namespace HttpConn

/-- The name a request is routed to. -/
def routedName (query : Bytes → ℤ) (registry : Registry) (conn : HttpConn) : Option Bytes := do
  let url ← conn.urlText
  let action ← conn.action
  if conn.cgi = 1 ∧ (action = '2'.toUInt8 ∨ action = '3'.toUInt8) then do
    let user ← conn.credentials
    if action = '3'.toUInt8 then do
      let sql ← sqlInsert user
      some (registry.register user (query sql)).2
    else some (registry.login user)
  else some ((routePage action).getD url)

/-- Every path `do_request` gives to a system call is the root with that name behind it. -/
def StatsRouted (tree : FileTree) (query : Bytes → ℤ) (registry : Registry) (conn : HttpConn) : Prop :=
  ∀ outcome, conn.doRequest tree query registry = some outcome → ∀ path ∈ outcome.paths,
    some path = (conn.routedName query registry).map (docRoot ++ ·)

/-- Whether the page is fixed is decided by the byte behind the last slash. -/
theorem fixedPage_iff {conn : HttpConn} {action : UInt8} (acts : conn.action = some action) :
    conn.FixedPage ↔
      (conn.cgi = 1 ∧ (action = '2'.toUInt8 ∨ action = '3'.toUInt8)) ∨ (routePage action).isSome := by
  obtain ⟨behind, place, loaded⟩ := Option.bind_eq_some_iff.mp acts
  constructor
  · rintro ⟨other, byte, there, again, fixed⟩
    cases place.symm.trans there
    cases loaded.symm.trans again
    exact fixed
  · intro fixed
    exact ⟨behind, action, place, loaded, fixed⟩

/-- The target is the name, or what fits of it where it is the URL. -/
theorem routedName_of_target {conn : HttpConn} {query : Bytes → ℤ} {registry after : Registry}
    {url page : Bytes} {action : UInt8} (points : conn.urlText = some url)
    (acts : conn.action = some action) (found : conn.target query registry = some (after, page)) :
    ∃ name, conn.routedName query registry = some name ∧
      (page = name ∧ conn.FixedPage ∨ page = url.take urlRoom ∧ name = url ∧ ¬conn.FixedPage) := by
  rw [fixedPage_iff acts]
  simp only [target, points, acts, bind, Option.bind_some] at found
  simp only [routedName, points, acts, bind, Option.bind_some]
  by_cases isCgi : conn.cgi = 1 ∧ (action = '2'.toUInt8 ∨ action = '3'.toUInt8)
  · rw [if_pos isCgi] at found ⊢
    obtain ⟨user, asked, found⟩ := Option.bind_eq_some_iff.mp found
    rw [asked, Option.bind_some]
    split_ifs at found ⊢ with isRegistration
    · obtain ⟨sql, built, found⟩ := Option.bind_eq_some_iff.mp found
      rw [built, Option.bind_some]
      rw [Option.some.inj found]
      exact ⟨page, rfl, Or.inl ⟨rfl, Or.inl isCgi⟩⟩
    · obtain ⟨_, rfl⟩ := Prod.mk.inj (Option.some.inj found)
      exact ⟨_, rfl, Or.inl ⟨rfl, Or.inl isCgi⟩⟩
  · rw [if_neg isCgi] at found ⊢
    obtain ⟨_, rfl⟩ := Prod.mk.inj (Option.some.inj found)
    refine ⟨_, rfl, ?_⟩
    cases isPage : routePage action with
    | some name => exact Or.inl ⟨rfl, Or.inr rfl⟩
    | none => exact Or.inr ⟨rfl, rfl, fun fixed => fixed.elim isCgi fun isRoute => by cases isRoute⟩

/-- From a zeroed path: the file is looked for under the name, or under what fits of the URL. -/
theorem doRequest_names {conn : HttpConn} {tree : FileTree} {query : Bytes → ℤ} {registry : Registry}
    {outcome : Outcome} {url : Bytes} {action : UInt8} (zero : conn.realFile = .zero)
    (points : conn.urlText = some url) (acts : conn.action = some action)
    (ran : conn.doRequest tree query registry = some outcome) :
    ∃ page name, conn.routedName query registry = some name ∧ docRoot ++ page ∈ outcome.paths ∧
      (∀ path ∈ outcome.paths, path = docRoot ++ page) ∧
      (page = name ∧ conn.FixedPage ∨ page = url.take urlRoom ∧ name = url ∧ ¬conn.FixedPage) := by
  obtain ⟨page, asked, paths⟩ := doRequest_paths zero ran
  obtain ⟨name, routed, kind⟩ := routedName_of_target points acts asked
  refine ⟨page, name, routed, ?_, ?_, kind⟩
  · rcases paths with one | two
    · rw [one]
      exact List.mem_singleton_self _
    · rw [two]
      exact List.mem_cons_self
  · rcases paths with one | two
    · rw [one]
      exact List.forall_mem_singleton.mpr rfl
    · rw [two]
      exact List.forall_mem_cons.mpr ⟨rfl, List.forall_mem_singleton.mpr rfl⟩

/-- A fixed page, or a URL that fits, is looked for under its name. -/
theorem statsRouted_of_fits {conn : HttpConn} {tree : FileTree} {query : Bytes → ℤ} {registry : Registry}
    {url : Bytes} {action : UInt8} (zero : conn.realFile = .zero) (points : conn.urlText = some url)
    (acts : conn.action = some action) (fits : conn.FixedPage ∨ url.length ≤ urlRoom) :
    conn.StatsRouted tree query registry := by
  intro outcome ran path member
  obtain ⟨page, name, routed, _, paths, kind⟩ := doRequest_names zero points acts ran
  rw [routed, paths path member, Option.map_some]
  rcases kind with ⟨rfl, _⟩ | ⟨rfl, rfl, notFixed⟩
  · rfl
  · rw [List.take_of_length_le (fits.resolve_left notFixed)]

/-- A longer URL is looked for under another name. -/
theorem not_statsRouted_of_long {conn : HttpConn} {tree : FileTree} {query : Bytes → ℤ}
    {registry : Registry} {url : Bytes} {action : UInt8} (zero : conn.realFile = .zero)
    (points : conn.urlText = some url) (acts : conn.action = some action) (notFixed : ¬conn.FixedPage)
    (long : urlRoom < url.length) : ¬conn.StatsRouted tree query registry := by
  have noUser : ¬(conn.cgi = 1 ∧ (action = '2'.toUInt8 ∨ action = '3'.toUInt8)) :=
    fun isCgi => notFixed ((fixedPage_iff acts).mpr (Or.inl isCgi))
  obtain ⟨_, outcome, _, ran, _⟩ := doRequest_defined zero points acts noUser tree query registry
  obtain ⟨page, name, routed, member, _, kind⟩ := doRequest_names zero points acts ran
  intro same
  have equal := same outcome ran _ member
  rw [routed, Option.map_some, Option.some.injEq, List.append_cancel_left_eq] at equal
  rcases kind with ⟨_, fixed⟩ | ⟨rfl, rfl, _⟩
  · exact notFixed fixed
  · have lengths := congrArg List.length equal
    rw [List.length_take] at lengths
    omega

end HttpConn

/-- Whatever has happened on the object before `init` and whatever is delivered then: when the parser calls
`do_request` on a URL that `parse_request_line` accepts, every path passed to a system call is the root with
the routed name behind it, exactly if the page is fixed by the last segment or the URL has at most the 171
bytes behind the root. -/
theorem statsRouted_iff_fits (start conn : HttpConn) (pieces : List Bytes) (url : Bytes) (tree : FileTree)
    (query : Bytes → ℤ) (registry : Registry)
    (called : start.init.deliverAll pieces = some (.callDoRequest, conn))
    (points : conn.urlText = some url) (accepted : HttpConn.AcceptsUrl url) :
    conn.StatsRouted tree query registry ↔ conn.FixedPage ∨ url.length ≤ urlRoom := by
  have zero : conn.realFile = .zero := HttpConn.deliverAll_realFile called
  obtain ⟨action, decides⟩ := urlAction_of_absolute accepted.absolute
  have acts : conn.action = some action := (HttpConn.action_eq points).trans decides
  constructor
  · intro routed
    by_contra neither
    rw [not_or, Nat.not_le] at neither
    exact HttpConn.not_statsRouted_of_long zero points acts neither.1 neither.2 routed
  · exact HttpConn.statsRouted_of_fits zero points acts

private def noFiles : FileTree := ⟨fun _ => none, fun _ => .failed⟩

/-- A URL that fits. -/
theorem statsRouted_iff_fits_page :
    (visit (ascii "GET /notes/a.html HTTP/1.1\r\n\r\n")).StatsRouted noFiles (fun _ => 0) (.loaded []) :=
  (statsRouted_iff_fits HttpConn.blank _ [ascii "GET /notes/a.html HTTP/1.1\r\n\r\n"]
    (ascii "/notes/a.html") noFiles (fun _ => 0) (.loaded []) (deliverAll_visit (by decide +kernel))
    (by decide +kernel) (acceptsUrl_of_line (ascii "GET /notes/a.html HTTP/1.1") (by decide +kernel))).mpr
    (Or.inr (by decide))

/-- A URL of 180 bytes. -/
private def longUrl : Bytes := slash :: List.replicate 170 97 ++ ascii "/notes.md"

/-- It is looked for under its first 171 bytes, the name of another file. -/
theorem longUrl_cut :
    ∃ conn outcome, HttpConn.blank.init.deliverAll
        [ascii "GET " ++ longUrl ++ ascii " HTTP/1.1\r\n\r\n"] = some (.callDoRequest, conn) ∧
      conn.urlText = some longUrl ∧ conn.routedName (fun _ => 0) (.loaded []) = some longUrl ∧
      conn.doRequest noFiles (fun _ => 0) (.loaded []) = some outcome ∧
      outcome.paths = [docRoot ++ slash :: List.replicate 170 97] ∧
      ¬conn.StatsRouted noFiles (fun _ => 0) (.loaded []) := by
  have called : HttpConn.blank.init.deliverAll [ascii "GET " ++ longUrl ++ ascii " HTTP/1.1\r\n\r\n"] =
      some (.callDoRequest, visit _) := deliverAll_visit (by decide +kernel)
  have points : (visit (ascii "GET " ++ longUrl ++ ascii " HTTP/1.1\r\n\r\n")).urlText = some longUrl := by
    decide +kernel
  generalize visit (ascii "GET " ++ longUrl ++ ascii " HTTP/1.1\r\n\r\n") = conn at called points
  have zero : conn.realFile = .zero := HttpConn.deliverAll_realFile called
  have acts : conn.action = some 'n'.toUInt8 := (HttpConn.action_eq points).trans (by decide +kernel)
  have noUser : ¬(conn.cgi = 1 ∧ ('n'.toUInt8 = '2'.toUInt8 ∨ 'n'.toUInt8 = '3'.toUInt8)) :=
    fun isCgi => absurd isCgi.2 (by decide)
  have noPage : routePage 'n'.toUInt8 = none := by decide
  have routed : conn.routedName (fun _ => 0) (.loaded []) = some longUrl := by
    simp only [HttpConn.routedName, points, acts, bind, Option.bind_some, if_neg noUser, noPage,
      Option.getD_none]
  obtain ⟨_, outcome, path, ran, served⟩ :=
    HttpConn.doRequest_defined zero points acts noUser noFiles (fun _ => 0) (.loaded [])
  have paths : outcome.paths = [docRoot ++ slash :: List.replicate 170 97] := by
    have cut : longUrl.take urlRoom = slash :: List.replicate 170 97 := by decide +kernel
    rw [noPage, Option.getD_none, cut] at path
    simp only [HttpConn.serveFile, path, bind, Option.bind_some] at served
    exact (congrArg Outcome.paths (Option.some.inj served)).symm
  refine ⟨conn, outcome, called, points, routed, ran, paths, ?_⟩
  apply HttpConn.not_statsRouted_of_long zero points acts
  · rw [HttpConn.fixedPage_iff acts, noPage]
    rintro (isCgi | isRoute)
    · exact noUser isCgi
    · cases isRoute
  · decide +kernel

end WebServ.Http
