import WebServ.Proofs.LineScanner
import WebServ.Proofs.RequestFrame

/-! # The loop of `process_read` ends

A pass that gets a line from the scanner consumes a byte at least, and only one pass does without the
scanner: the first one at the content. The parser functions move neither end of the unchecked bytes, so
their number bounds the passes, and the fuel of `process_read` is enough. A call that ends by itself waits
for more bytes or rejects the request.
-/

namespace WebServ.Http

open WebServ.Text

namespace HttpConn

/-- The bounds of the unchecked bytes are the same. -/
def SameUnchecked (conn after : HttpConn) : Prop :=
  after.readIdx = conn.readIdx ∧ after.checkedIdx = conn.checkedIdx

/-- What a stage of `parse_request_line` may change. -/
def ReadsLine (conn after : HttpConn) : Prop :=
  ∃ readBuf method cgi url version checkState,
    after = { conn with readBuf, method, cgi, url, version, checkState } ∧
      (checkState = conn.checkState ∨ checkState = .header)

theorem parseUrl_frame {conn : HttpConn} {url : ℕ} {result : HttpCode × HttpConn}
    (parsed : conn.parseUrl url = some result) : conn.ReadsLine result.2 := by
  simp only [parseUrl, bind, Option.bind_eq_some_iff] at parsed
  obtain ⟨_, _, _, _, parsed⟩ := parsed
  split at parsed
  · cases parsed
    exact ⟨_, _, _, _, _, _, rfl, Or.inl rfl⟩
  · simp only [Option.bind_eq_some_iff] at parsed
    obtain ⟨_, _, parsed⟩ := parsed
    split_ifs at parsed
    · cases parsed
      exact ⟨_, _, _, _, _, _, rfl, Or.inl rfl⟩
    · obtain ⟨_, _, parsed⟩ := Option.bind_eq_some_iff.mp parsed
      split_ifs at parsed
      · obtain ⟨_, _, same⟩ := Option.bind_eq_some_iff.mp parsed
        cases same
        exact ⟨_, _, _, _, _, _, rfl, Or.inr rfl⟩
      · cases parsed
        exact ⟨_, _, _, _, _, _, rfl, Or.inr rfl⟩

theorem parseVersion_frame {conn : HttpConn} {url : ℕ} {result : HttpCode × HttpConn}
    (parsed : conn.parseVersion url = some result) : conn.ReadsLine result.2 := by
  simp only [parseVersion, bind, Option.bind_eq_some_iff] at parsed
  obtain ⟨_, _, _, _, parsed⟩ := parsed
  split at parsed
  · cases parsed
    exact ⟨_, _, _, _, _, _, rfl, Or.inl rfl⟩
  · simp only [Option.bind_eq_some_iff] at parsed
    obtain ⟨_, _, _, _, _, _, parsed⟩ := parsed
    split_ifs at parsed
    · obtain ⟨_, _, _, _, _, _, same, state⟩ := parseUrl_frame parsed
      exact ⟨_, _, _, _, _, _, same, state⟩
    · cases parsed
      exact ⟨_, _, _, _, _, _, rfl, Or.inl rfl⟩

theorem parseRequestLine_frame {conn : HttpConn} {text : ℕ} {result : HttpCode × HttpConn}
    (parsed : conn.parseRequestLine text = some result) : conn.ReadsLine result.2 := by
  simp only [parseRequestLine, bind, Option.bind_eq_some_iff] at parsed
  obtain ⟨_, _, parsed⟩ := parsed
  split at parsed
  · cases parsed
    exact ⟨_, _, _, _, _, _, rfl, Or.inl rfl⟩
  · simp only [Option.bind_eq_some_iff] at parsed
    obtain ⟨_, _, _, _, _, _, parsed⟩ := parsed
    split_ifs at parsed
    · obtain ⟨_, _, _, _, _, _, same, state⟩ := parseVersion_frame parsed
      exact ⟨_, _, _, _, _, _, same, state⟩
    · obtain ⟨_, _, _, _, _, _, same, state⟩ := parseVersion_frame parsed
      exact ⟨_, _, _, _, _, _, same, state⟩
    · cases parsed
      exact ⟨_, _, _, _, _, _, rfl, Or.inl rfl⟩

theorem parseRequestLine_sameUnchecked {conn : HttpConn} {text : ℕ} {result : HttpCode × HttpConn}
    (parsed : conn.parseRequestLine text = some result) : conn.SameUnchecked result.2 := by
  obtain ⟨_, _, _, _, _, _, same, _⟩ := parseRequestLine_frame parsed
  rw [same]
  exact ⟨rfl, rfl⟩

/-- A header changes what it is about, or begins the content. -/
theorem parseHeaders_frame {conn : HttpConn} {text : ℕ} {result : HttpCode × HttpConn}
    (parsed : conn.parseHeaders text = some result) : ∃ checkState linger contentLength host,
      result.2 = { conn with checkState, linger, contentLength, host } := by
  simp only [parseHeaders, bind, Option.bind_eq_some_iff] at parsed
  obtain ⟨_, _, parsed⟩ := parsed
  split_ifs at parsed
  · cases parsed
    exact ⟨_, _, _, _, rfl⟩
  · cases parsed
    exact ⟨_, _, _, _, rfl⟩
  · simp only [Option.bind_eq_some_iff] at parsed
    obtain ⟨_, _, _, _, _, _, parsed⟩ := parsed
    split_ifs at parsed
    · simp only [Option.bind_eq_some_iff] at parsed
      obtain ⟨_, _, _, _, same⟩ := parsed
      split_ifs at same <;> cases same <;> exact ⟨_, _, _, _, rfl⟩
    · simp only [Option.bind_eq_some_iff] at parsed
      obtain ⟨_, _, _, _, same⟩ := parsed
      cases same
      exact ⟨_, _, _, _, rfl⟩
    · simp only [Option.bind_eq_some_iff] at parsed
      obtain ⟨_, _, same⟩ := parsed
      cases same
      exact ⟨_, _, _, _, rfl⟩
    · cases parsed
      exact ⟨_, _, _, _, rfl⟩

theorem parseHeaders_sameUnchecked {conn : HttpConn} {text : ℕ} {result : HttpCode × HttpConn}
    (parsed : conn.parseHeaders text = some result) : conn.SameUnchecked result.2 := by
  obtain ⟨_, _, _, _, same⟩ := parseHeaders_frame parsed
  rw [same]
  exact ⟨rfl, rfl⟩

theorem processLine_header_sameUnchecked {conn after : HttpConn} {taken : LoopStep}
    (state : conn.checkState = .header) (processed : conn.processLine = some (taken, after)) :
    conn.SameUnchecked after := by
  rw [processLine_header conn state] at processed
  obtain ⟨⟨ret, next⟩, parsed, same⟩ := Option.map_eq_some_iff.mp processed
  cases same
  have unchecked := parseHeaders_sameUnchecked parsed
  exact unchecked

/-- What is left to do: the unchecked bytes, the pass at the content that needs none, and the last one. -/
def passesLeft (conn : HttpConn) (lineStatus : LineStatus) : ℕ :=
  conn.readIdx - conn.checkedIdx + (if conn.checkState = .content ∧ lineStatus ≠ .ok then 1 else 2)

/-- The loop body returns a result of the parser's own or goes on with the same unchecked bytes; after the
content it has no line. -/
theorem processLine_eq_some {conn after : HttpConn} {taken : LoopStep}
    (processed : conn.processLine = some (taken, after)) :
    taken = .finish (.code .badRequest) ∨ taken = .finish .callDoRequest ∨
      ∃ lineStatus, taken = .next lineStatus ∧ conn.SameUnchecked after ∧
        (conn.checkState = .content → after.checkState = .content ∧ lineStatus ≠ .ok) := by
  cases state : conn.checkState with
  | requestLine =>
    rw [processLine_requestLine conn state] at processed
    obtain ⟨⟨ret, next⟩, parsed, same⟩ := Option.map_eq_some_iff.mp processed
    have unchecked := parseRequestLine_sameUnchecked parsed
    dsimp only at same
    split_ifs at same <;> cases same
    · exact Or.inl rfl
    · exact Or.inr (Or.inr ⟨_, rfl, unchecked, nofun⟩)
  | header =>
    have unchecked := processLine_header_sameUnchecked state processed
    rw [processLine_header conn state] at processed
    obtain ⟨⟨ret, next⟩, _, same⟩ := Option.map_eq_some_iff.mp processed
    dsimp only at same
    split_ifs at same <;> cases same
    · exact Or.inl rfl
    · exact Or.inr (Or.inl rfl)
    · exact Or.inr (Or.inr ⟨_, rfl, unchecked, nofun⟩)
  | content =>
    rw [processLine_ofContent conn state] at processed
    obtain ⟨⟨ret, next⟩, parsed, same⟩ := Option.map_eq_some_iff.mp processed
    have kept := (checkState_of_parseContent parsed).trans state
    simp only [parseContent] at parsed
    split_ifs at parsed
    · obtain ⟨_, _, read⟩ := Option.map_eq_some_iff.mp parsed
      cases read
      cases same
      exact Or.inr (Or.inl rfl)
    · cases parsed
      cases same
      exact Or.inr (Or.inr ⟨_, rfl, ⟨rfl, rfl⟩, fun _ => ⟨kept, by decide⟩⟩)

/-- Behind a body, `do_request` is called from the content. -/
theorem processLine_called {conn after : HttpConn}
    (processed : conn.processLine = some (.finish .callDoRequest, after))
    (state : after.checkState = .content) : conn.checkState = .content := by
  cases before : conn.checkState with
  | content => rfl
  | requestLine =>
    rw [processLine_requestLine _ before] at processed
    obtain ⟨⟨ret, last⟩, _, same⟩ := Option.map_eq_some_iff.mp processed
    dsimp only at same
    split_ifs at same <;> cases same
  | header =>
    rw [processLine_header _ before] at processed
    obtain ⟨⟨ret, last⟩, parsed, same⟩ := Option.map_eq_some_iff.mp processed
    dsimp only at same
    split_ifs at same with rejected whole
    · cases same
    · subst whole
      cases same
      exact absurd (((checkState_of_parseHeaders parsed).trans before).symm.trans state) (by decide)
    · cases same

/-- A line the scanner has found consumes a byte. -/
theorem parseLine_ok {conn : HttpConn} (found : conn.parseLine.1 = .ok) :
    conn.checkedIdx < conn.readIdx ∧ conn.checkedIdx < conn.parseLine.2.checkedIdx := by
  have each : ∀ fuel (conn : HttpConn), (parseLineLoop fuel conn).1 = .ok →
      0 < fuel ∧ conn.checkedIdx < (parseLineLoop fuel conn).2.checkedIdx := by
    intro fuel conn found
    fun_induction parseLineLoop fuel conn with
    | case7 fuel conn temp notCr notLf ih =>
      have further := (ih found).2
      simp only at further
      exact ⟨Nat.succ_pos _, by omega⟩
    | _ => simp_all
  obtain ⟨unchecked, forward⟩ := each _ conn found
  exact ⟨by omega, forward⟩

/-- A pass that goes on leaves less to do. -/
theorem passesLeft_lt {conn after : HttpConn} {lineStatus next : LineStatus}
    (goesOn : (conn.loopCondition lineStatus).1 = .ok)
    (processed : (conn.loopCondition lineStatus).2.processLine = some (.next next, after)) :
    after.passesLeft next < conn.passesLeft lineStatus := by
  obtain other | other | ⟨_, same, ⟨readIdx, checkedIdx⟩, content⟩ := processLine_eq_some processed
  · cases other
  · cases other
  · cases same
    rw [loopCondition] at goesOn readIdx checkedIdx content
    split_ifs at goesOn readIdx checkedIdx content with atContent
    · have free : ¬(conn.checkState = .content ∧ lineStatus ≠ .ok) := fun both => both.2 atContent.2
      rw [passesLeft, passesLeft, readIdx, checkedIdx, if_pos (content atContent.1), if_neg free]
      exact Nat.lt_succ_self _
    · obtain ⟨state, _, bound, _⟩ := parseLine_frame conn
      obtain ⟨unchecked, forward⟩ := parseLine_ok goesOn
      rw [state] at content
      rw [bound] at readIdx
      simp only [passesLeft, readIdx, checkedIdx]
      by_cases isContent : conn.checkState = .content
      · rw [if_pos (content isContent)]
        split_ifs <;> omega
      · have notYet : ¬(conn.checkState = .content ∧ lineStatus ≠ .ok) := fun both => isContent both.1
        rw [if_neg notYet]
        split_ifs <;> omega

/-- With enough fuel the loop waits for bytes, rejects the request or calls `do_request`. -/
theorem processReadLoop_result {fuel : ℕ} {conn after : HttpConn} {lineStatus : LineStatus}
    {result : ReadResult} (enough : conn.passesLeft lineStatus ≤ fuel)
    (ran : processReadLoop fuel lineStatus conn = some (result, after)) :
    result = .code .noRequest ∨ result = .code .badRequest ∨ result = .callDoRequest := by
  induction fuel generalizing conn lineStatus with
  | zero =>
    rw [passesLeft] at enough
    split_ifs at enough <;> omega
  | succ fuel ih =>
    simp only [processReadLoop, bind] at ran
    split_ifs at ran with goesOn
    · obtain ⟨⟨taken, next⟩, processed, ran⟩ := Option.bind_eq_some_iff.mp ran
      cases taken with
      | finish code =>
        cases ran
        obtain rejected | called | ⟨_, other, _⟩ := processLine_eq_some processed
        · cases rejected
          exact Or.inr (Or.inl rfl)
        · cases called
          exact Or.inr (Or.inr rfl)
        · cases other
      | next status =>
        have less := passesLeft_lt goesOn processed
        apply ih _ ran
        exact Nat.le_of_lt_succ (less.trans_le enough)
    · cases ran
      exact Or.inl rfl

/-- `process_read` always ends, in one of three ways. -/
theorem processRead_result {conn after : HttpConn} {result : ReadResult}
    (read : conn.processRead = some (result, after)) :
    result = .code .noRequest ∨ result = .code .badRequest ∨ result = .callDoRequest := by
  apply processReadLoop_result _ read
  rw [passesLeft]
  split_ifs <;> omega

end HttpConn

end WebServ.Http
