import WebServ.Proofs.RequestLine
import WebServ.Proofs.RequestLoop

/-! # Where the URL lies

The lines are handed over in the order of the buffer, and what `parse_request_line` leaves in `m_url` points
into its own line. So the URL lies before every later line, and before the body that `parse_content` leaves
in `m_string`.
-/

namespace WebServ.Http

open WebServ.Text

namespace HttpConn

theorem parseLine_url (conn : HttpConn) : conn.parseLine.2.url = conn.url := by
  rw [parseLine]
  generalize conn.readIdx - conn.checkedIdx = fuel
  fun_induction parseLineLoop fuel conn with
  | case7 fuel conn temp notCr notLf ih => exact ih
  | _ => rfl

/-- A line the scanner has found ends with two NULs. -/
theorem parseLine_nul {conn : HttpConn} (found : conn.parseLine.1 = .ok) :
    2 ≤ conn.parseLine.2.checkedIdx ∧
      conn.parseLine.2.readBuf.byte (conn.parseLine.2.checkedIdx - 2) = 0 ∧
      conn.parseLine.2.readBuf.byte (conn.parseLine.2.checkedIdx - 1) = 0 := by
  rw [parseLine] at found ⊢
  generalize conn.readIdx - conn.checkedIdx = fuel at found ⊢
  fun_induction parseLineLoop fuel conn with
  | case3 fuel conn temp isCr more isLf =>
    dsimp only
    rw [Nat.add_sub_cancel, Nat.add_sub_assoc (by decide), Buffer.set_byte_self,
      Buffer.set_byte_ne _ _ (by omega), Buffer.set_byte_self]
    exact ⟨Nat.le_add_left .., rfl, rfl⟩
  | case5 fuel conn temp notCr isLf isCr =>
    dsimp only
    have before : conn.checkedIdx + 1 - 2 = conn.checkedIdx - 1 := by omega
    rw [Nat.add_sub_cancel, before, Buffer.set_byte_self, Buffer.set_byte_ne _ _ (by omega),
      Buffer.set_byte_self]
    exact ⟨by omega, rfl, rfl⟩
  | case7 fuel conn temp notCr notLf ih => exact ih found
  | _ => cases found

/-- In a line that ends with two NULs below `limit`, the URL that is accepted lies in the line. -/
theorem parseRequestLine_url {conn after : HttpConn} {start limit : ℕ} {ret : HttpCode}
    (parsed : conn.parseRequestLine start = some (ret, after)) (ok : ret ≠ .badRequest)
    (before : start < limit) (inside : limit ≤ readBufferSize)
    (first : conn.readBuf.byte (limit - 2) = 0) (second : conn.readBuf.byte (limit - 1) = 0) :
    ∃ pointer, after.url = some pointer ∧ pointer < limit := by
  obtain ⟨text, found, rfl | room⟩ := Buffer.cstr_of_nuls before inside first second
  · have searched : conn.readBuf.strpbrk start blanks = some none := Buffer.strpbrk_eq_null found rfl
    simp only [parseRequestLine, searched, bind, Option.bind_some, Option.some.injEq, Prod.mk.injEq] at parsed
    exact absurd parsed.1.symm ok
  · have result := parseRequestLine_result found room inside
    split at result
    · rw [result] at parsed
      cases parsed
    · obtain ⟨other, bad⟩ := result
      cases bad.symm.trans parsed
      exact absurd rfl ok
    · obtain ⟨readBuf, pointer, version, same, _, bound, _⟩ := result
      cases same.symm.trans parsed
      exact ⟨pointer, rfl, by omega⟩

/-- What the scanner has not handed over begins at the line, and an accepted URL lies before it. -/
structure UrlBefore (conn : HttpConn) : Prop where
  checked : conn.checkedIdx ≤ conn.readIdx
  inside : conn.readIdx ≤ readBufferSize
  line : conn.startLine ≤ conn.checkedIdx
  url : conn.checkState ≠ .requestLine → ∀ pointer, conn.url = some pointer → pointer < conn.startLine

theorem UrlBefore.init (conn : HttpConn) : UrlBefore conn.init where
  checked := le_rfl
  inside := Nat.zero_le _
  line := le_rfl
  url reading := absurd rfl reading

theorem UrlBefore.readOnce {conn : HttpConn} (placed : UrlBefore conn) (piece : Bytes) :
    UrlBefore (conn.readOnce piece).2 := by
  obtain ⟨_, _, same, grown, _, inside⟩ := readOnce_frame conn piece
  rw [same]
  exact ⟨placed.checked.trans grown, inside placed.inside, placed.line, placed.url⟩

theorem UrlBefore.parseLine {conn : HttpConn} (placed : UrlBefore conn) : UrlBefore conn.parseLine.2 := by
  obtain ⟨checkState, _, readIdx, forward⟩ := parseLine_frame conn
  obtain ⟨startLine, checked⟩ := parseLine_inside placed.checked
  refine ⟨by rwa [readIdx], readIdx ▸ placed.inside, startLine ▸ placed.line.trans forward, ?_⟩
  rw [checkState, parseLine_url, startLine]
  exact placed.url

theorem UrlBefore.loopCondition {conn : HttpConn} (placed : UrlBefore conn) (lineStatus : LineStatus) :
    UrlBefore (conn.loopCondition lineStatus).2 := by
  rw [HttpConn.loopCondition]
  split_ifs
  · exact placed
  · exact placed.parseLine

/-- The pass for the request line. -/
theorem UrlBefore.requestLine {conn after : HttpConn} (placed : UrlBefore conn) {next : LineStatus}
    (found : conn.parseLine.1 = .ok) (state : conn.parseLine.2.checkState = .requestLine)
    (processed : conn.parseLine.2.processLine = some (.next next, after)) : UrlBefore after := by
  have scanned := placed.parseLine
  obtain ⟨startLine, _⟩ := parseLine_inside placed.checked
  obtain ⟨_, first, second⟩ := parseLine_nul found
  have further := (parseLine_ok found).2
  have line := placed.line
  rw [processLine_requestLine _ state] at processed
  obtain ⟨⟨ret, last⟩, parsed, same⟩ := Option.map_eq_some_iff.mp processed
  obtain ⟨goesOn, rfl⟩ := Prod.mk.inj same
  have ok : ret ≠ .badRequest := by
    rintro rfl
    cases goesOn
  obtain ⟨pointer, points, before⟩ := parseRequestLine_url parsed ok
    (show conn.parseLine.2.startLine < conn.parseLine.2.checkedIdx by omega)
    (scanned.checked.trans scanned.inside) first second
  obtain ⟨_, _, _, _, _, _, frame, _⟩ := parseRequestLine_frame parsed
  dsimp only at frame points
  subst frame
  refine ⟨scanned.checked, scanned.inside, le_rfl, fun _ other same => ?_⟩
  obtain rfl := Option.some.inj (points.symm.trans same)
  exact before

/-- A pass at the request line has called `parse_line`. -/
theorem loopCondition_requestLine {conn : HttpConn} {lineStatus : LineStatus}
    (state : (conn.loopCondition lineStatus).2.checkState = .requestLine) :
    conn.loopCondition lineStatus = conn.parseLine := by
  rw [HttpConn.loopCondition, if_neg]
  rintro ⟨content, rfl⟩
  rw [HttpConn.loopCondition, if_pos ⟨content, rfl⟩] at state
  exact absurd (content.symm.trans state) (by decide)

/-- A pass that goes on leaves the URL before the next line. -/
theorem UrlBefore.pass {conn after : HttpConn} (placed : UrlBefore conn) {lineStatus next : LineStatus}
    (goesOn : (conn.loopCondition lineStatus).1 = .ok)
    (processed : (conn.loopCondition lineStatus).2.processLine = some (.next next, after)) :
    UrlBefore after := by
  have scanned := placed.loopCondition lineStatus
  cases state : (conn.loopCondition lineStatus).2.checkState with
  | requestLine =>
    rw [loopCondition_requestLine state] at goesOn processed scanned state
    exact placed.requestLine goesOn state processed
  | header =>
    rw [processLine_header _ state] at processed
    obtain ⟨⟨ret, last⟩, parsed, same⟩ := Option.map_eq_some_iff.mp processed
    obtain ⟨_, rfl⟩ := Prod.mk.inj same
    obtain ⟨_, _, _, _, frame⟩ := parseHeaders_frame parsed
    dsimp only at frame
    subst frame
    refine ⟨scanned.checked, scanned.inside, le_rfl, fun _ pointer points => ?_⟩
    exact (scanned.url (by rw [state]; decide) pointer points).trans_le scanned.line
  | content =>
    rw [processLine_ofContent _ state] at processed
    obtain ⟨⟨ret, last⟩, parsed, same⟩ := Option.map_eq_some_iff.mp processed
    obtain ⟨goesOn, rfl⟩ := Prod.mk.inj same
    simp only [parseContent] at parsed
    split_ifs at parsed
    · obtain ⟨_, _, finished⟩ := Option.map_eq_some_iff.mp parsed
      cases finished
      cases goesOn
    · cases parsed
      refine ⟨scanned.checked, scanned.inside, le_rfl, fun _ pointer points => ?_⟩
      exact (scanned.url (by rw [state]; decide) pointer points).trans_le scanned.line

/-- The body that `parse_content` leaves in `m_string` lies behind the URL. -/
def UrlBeforeString (conn : HttpConn) : Prop :=
  ∃ string, conn.string = some string ∧ ∀ pointer, conn.url = some pointer → pointer < string

/-- A pass that reads the whole content. -/
theorem UrlBefore.called {conn after : HttpConn} (placed : UrlBefore conn)
    (processed : conn.processLine = some (.finish .callDoRequest, after))
    (content : after.checkState = .content) : after.UrlBeforeString := by
  have state := processLine_called processed content
  rw [processLine_ofContent _ state] at processed
  obtain ⟨⟨ret, last⟩, parsed, same⟩ := Option.map_eq_some_iff.mp processed
  obtain ⟨finishes, rfl⟩ := Prod.mk.inj same
  simp only [parseContent] at parsed
  split_ifs at parsed
  · obtain ⟨_, _, finished⟩ := Option.map_eq_some_iff.mp parsed
    cases finished
    exact ⟨conn.startLine, rfl, placed.url (by rw [state]; decide)⟩
  · cases parsed
    cases finishes

/-- A call of `process_read` waits with the URL before its line, or has found the body behind it. -/
theorem UrlBefore.processReadLoop {fuel : ℕ} {lineStatus : LineStatus} {conn after : HttpConn}
    {result : ReadResult} (placed : UrlBefore conn)
    (ran : HttpConn.processReadLoop fuel lineStatus conn = some (result, after)) :
    (result = .code .noRequest → UrlBefore after) ∧
      (result = .callDoRequest → after.checkState = .content → after.UrlBeforeString) := by
  induction fuel generalizing conn lineStatus with
  | zero =>
    cases ran
    exact ⟨fun waits => (by cases waits), fun calls => (by cases calls)⟩
  | succ fuel ih =>
    rw [HttpConn.processReadLoop] at ran
    dsimp only at ran
    split_ifs at ran with goesOn
    · obtain ⟨⟨taken, next⟩, processed, ran⟩ := Option.bind_eq_some_iff.mp ran
      cases taken with
      | next status => exact ih (placed.pass goesOn processed) ran
      | finish code =>
        cases ran
        refine ⟨?_, ?_⟩
        · rintro rfl
          have ended := processLine_eq_some processed
          simp at ended
        · rintro rfl
          exact (placed.loopCondition lineStatus).called processed
    · cases ran
      exact ⟨fun _ => placed.loopCondition lineStatus, fun calls => (by cases calls)⟩

/-- Whatever is delivered to an initialised connection: when `do_request` is called behind a body, the body
lies behind the URL. -/
theorem urlBeforeString_of_called {start conn : HttpConn} {pieces : List Bytes}
    (called : start.init.deliverAll pieces = some (.callDoRequest, conn))
    (content : conn.checkState = .content) : conn.UrlBeforeString := by
  have each : ∀ (pieces : List Bytes) (before : HttpConn), UrlBefore before →
      before.deliverAll pieces = some (.callDoRequest, conn) → conn.UrlBeforeString := by
    intro pieces
    induction pieces with
    | nil =>
      intro before _ ran
      cases ran
    | cons piece pieces ih =>
      intro before placed ran
      simp only [deliverAll, bind] at ran
      obtain ⟨⟨result, next⟩, delivered, ran⟩ := Option.bind_eq_some_iff.mp ran
      obtain ⟨waits, calls⟩ := (placed.readOnce piece).processReadLoop delivered
      split_ifs at ran with waiting
      · exact ih next (waits waiting) ran
      · cases ran
        exact calls rfl content
  exact each pieces start.init (.init start) called

end HttpConn

end WebServ.Http
