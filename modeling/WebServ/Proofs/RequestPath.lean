import WebServ.Proofs.RequestFrame

/-! # What `do_request` is called with

Two facts about the connection when the parser calls `do_request`: the URL it has accepted starts with
a slash, and no parser function has written to `m_real_file` since `init` has zeroed it.
-/

namespace WebServ.Http

open WebServ.Text

namespace HttpConn

/-- The string `m_url` points to. -/
def urlText (conn : HttpConn) : Option Bytes := conn.url.bind conn.readBuf.cstr

/-- `parse_request_line` accepts the URL: some call of it leaves the URL in `m_url`. -/
def AcceptsUrl (url : Bytes) : Prop :=
  ∃ before text after, parseRequestLine before text = some (.noRequest, after) ∧
    after.urlText = some url

/-- A stage of `parse_request_line` leaves the path alone and accepts only a URL that starts with a
slash. -/
def Absolute (conn : HttpConn) (result : HttpCode × HttpConn) : Prop :=
  result.2.realFile = conn.realFile ∧ (result.1 = .noRequest →
    ∃ pointer, result.2.url = some pointer ∧ result.2.readBuf.byte pointer = slash)

theorem parseUrl_absolute {conn : HttpConn} {url : ℕ} {result : HttpCode × HttpConn}
    (parsed : conn.parseUrl url = some result) : conn.Absolute result := by
  simp only [HttpConn.parseUrl, bind, Option.bind_eq_some_iff] at parsed
  obtain ⟨_, _, _, _, parsed⟩ := parsed
  split at parsed
  · cases parsed
    exact ⟨rfl, fun accepted => by cases accepted⟩
  · next pointer _ =>
    simp only [Option.bind_eq_some_iff] at parsed
    obtain ⟨first, loaded, parsed⟩ := parsed
    rw [Buffer.load?, Option.ite_none_right_eq_some, Option.some.injEq] at loaded
    split_ifs at parsed with relative
    · cases parsed
      exact ⟨rfl, fun accepted => by cases accepted⟩
    · obtain ⟨length, measured, parsed⟩ := Option.bind_eq_some_iff.mp parsed
      have isSlash : conn.readBuf.byte pointer = slash := loaded.2.trans (not_not.mp relative)
      split_ifs at parsed with isRoot
      · obtain ⟨readBuf, appended, same⟩ := Option.bind_eq_some_iff.mp parsed
        cases same
        exact ⟨rfl, fun _ =>
          ⟨pointer, rfl, (Buffer.strcat_byte measured appended (by omega)).trans isSlash⟩⟩
      · cases parsed
        exact ⟨rfl, fun _ => ⟨pointer, rfl, isSlash⟩⟩

theorem parseVersion_absolute {conn : HttpConn} {url : ℕ} {result : HttpCode × HttpConn}
    (parsed : conn.parseVersion url = some result) : conn.Absolute result := by
  simp only [HttpConn.parseVersion, bind, Option.bind_eq_some_iff] at parsed
  obtain ⟨_, _, _, _, parsed⟩ := parsed
  split at parsed
  · cases parsed
    exact ⟨rfl, fun accepted => by cases accepted⟩
  · simp only [Option.bind_eq_some_iff] at parsed
    obtain ⟨_, _, _, _, _, _, parsed⟩ := parsed
    split_ifs at parsed
    · have absolute := parseUrl_absolute parsed
      exact absolute
    · cases parsed
      exact ⟨rfl, fun accepted => by cases accepted⟩

theorem parseRequestLine_absolute {conn : HttpConn} {text : ℕ} {result : HttpCode × HttpConn}
    (parsed : conn.parseRequestLine text = some result) : conn.Absolute result := by
  simp only [HttpConn.parseRequestLine, bind, Option.bind_eq_some_iff] at parsed
  obtain ⟨_, _, parsed⟩ := parsed
  split at parsed
  · cases parsed
    exact ⟨rfl, fun accepted => by cases accepted⟩
  · simp only [Option.bind_eq_some_iff] at parsed
    obtain ⟨_, _, _, _, _, _, parsed⟩ := parsed
    split_ifs at parsed
    · have absolute := parseVersion_absolute parsed
      exact absolute
    · have absolute := parseVersion_absolute parsed
      exact absolute
    · cases parsed
      exact ⟨rfl, fun accepted => by cases accepted⟩

/-- An accepted URL starts with a slash. -/
theorem AcceptsUrl.absolute {url : Bytes} (accepted : AcceptsUrl url) : url.head? = some slash := by
  obtain ⟨before, text, after, parsed, found⟩ := accepted
  obtain ⟨pointer, points, isSlash⟩ := (parseRequestLine_absolute parsed).2 rfl
  rw [urlText, points, Option.bind_some] at found
  rw [Buffer.cstr_byte found] at isSlash
  cases url with
  | nil => cases isSlash
  | cons first rest => exact congrArg some isSlash

/-- No delivery writes to the path. -/
theorem deliverAll_realFile {conn after : HttpConn} {pieces : List Bytes} {result : ReadResult}
    (ran : conn.deliverAll pieces = some (result, after)) : after.realFile = conn.realFile := by
  have kept := congrArg Outside.realFile (outside_of_deliverAll ran)
  split_ifs at kept
  · exact kept
  · exact kept

end HttpConn

/-! ## One delivery -/

/-- A result whose first part is known. -/
theorem eq_some_of_fst {α β : Type} {result : Option (α × β)} {first : α} (other : β)
    (same : result.map Prod.fst = some first) :
    result = some (first, (result.map Prod.snd).getD other) := by
  obtain ⟨⟨_, second⟩, rfl, rfl⟩ := Option.map_eq_some_iff.mp same
  rfl

/-- The connection after the delivery of a whole request. -/
def visit (request : Bytes) : HttpConn :=
  ((HttpConn.blank.init.deliverAll [request]).map Prod.snd).getD .blank

theorem deliverAll_visit {request : Bytes}
    (calls : (HttpConn.blank.init.deliverAll [request]).map Prod.fst = some .callDoRequest) :
    HttpConn.blank.init.deliverAll [request] = some (.callDoRequest, visit request) := by
  rw [visit]
  exact eq_some_of_fst .blank calls

/-- A line whose URL is left in `m_url`. -/
theorem acceptsUrl_of_line (line : Bytes) {url : Bytes}
    (accepts : ({ HttpConn.blank with readBuf := Buffer.zero.write 0 line }.parseRequestLine 0).map
      (fun result : HttpCode × HttpConn => (result.1, result.2.urlText)) =
        some (HttpCode.noRequest, some url)) : HttpConn.AcceptsUrl url := by
  obtain ⟨⟨code, after⟩, parsed, same⟩ := Option.map_eq_some_iff.mp accepts
  obtain ⟨rfl, text⟩ := Prod.mk.inj same
  exact ⟨_, 0, after, parsed, text⟩

end WebServ.Http
