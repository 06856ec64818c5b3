import WebServ.Proofs.RequestLoop

/-! # The content length and the read buffer

`parse_content` adds the announced length to the place of the scanner, compares the sum with the number of
received bytes, and writes a NUL behind the body. The length is whatever `atol` made of the header, cut to
an `int`: a negative one puts the NUL before the body, a large one overflows the sum, and a body that ends
with a full buffer has no place for the NUL. The calls of `parse_content` in a run of deliveries are listed
with the connection as the loop of `process_read` hands it over.
-/

namespace WebServ.Http

open WebServ.Text

namespace HttpConn

/-- The connections the loop of `process_read` reads the content of, in order. -/
def contentCallsLoop : ℕ → LineStatus → HttpConn → List HttpConn
  | 0, _, _ => []
  | fuel + 1, lineStatus, conn =>
      let condition := conn.loopCondition lineStatus
      if condition.1 = .ok then
        (if condition.2.checkState = .content then [condition.2] else []) ++
          match condition.2.processLine with
          | some (.next lineStatus, next) => contentCallsLoop fuel lineStatus next
          | _ => []
      else []

/-- The calls of `parse_content` in successive deliveries. -/
def contentCalls : HttpConn → List Bytes → List HttpConn
  | _, [] => []
  | conn, piece :: rest =>
      let received := (conn.readOnce piece).2
      contentCallsLoop (received.readIdx - received.checkedIdx + 2) .ok received ++
        match conn.deliver piece with
        | some (.code .noRequest, next) => contentCalls next rest
        | _ => []

/-- The sum that `parse_content` compares with the number of received bytes. -/
def neededIdx (conn : HttpConn) : ℤ := conn.contentLength + conn.checkedIdx

/-- The place of the NUL behind the body. -/
def terminatorIdx (conn : HttpConn) : ℤ := conn.startLine + conn.contentLength

/-- In a call of `parse_content` the sum is an `int`, and the NUL is stored behind the start of the body
and inside the buffer. -/
def StoresInBody (start : ℕ) (conn : HttpConn) : Prop :=
  (-2 ^ 31 ≤ conn.neededIdx ∧ conn.neededIdx < 2 ^ 31) ∧
    (conn.neededIdx ≤ conn.readIdx → start ≤ conn.terminatorIdx ∧ conn.terminatorIdx < readBufferSize)

/-- The announced length is not negative, leaves room in an `int`, and the body does not end exactly at
the end of a full buffer. -/
def LengthFits (conn : HttpConn) : Prop :=
  0 ≤ conn.contentLength ∧ conn.contentLength < 2 ^ 31 - conn.checkedIdx ∧
    ¬(conn.readIdx = readBufferSize ∧ conn.checkedIdx = conn.startLine ∧
      conn.contentLength = readBufferSize - conn.startLine)

instance (start : ℕ) (conn : HttpConn) : Decidable (conn.StoresInBody start) :=
  inferInstanceAs (Decidable (_ ∧ (_ → _)))

instance (conn : HttpConn) : Decidable conn.LengthFits := inferInstanceAs (Decidable (_ ∧ _ ∧ _))

/-- A call like this is defined. -/
theorem parseContent_defined {conn : HttpConn} {start : ℕ} (stores : conn.StoresInBody start) :
    (parseContent { conn with startLine := conn.checkedIdx } conn.startLine).isSome := by
  obtain ⟨⟨_, small⟩, inside⟩ := stores
  rw [neededIdx] at small inside
  rw [terminatorIdx] at inside
  rw [parseContent]
  dsimp only
  rw [if_neg (by omega)]
  split_ifs with enough
  · obtain ⟨behind, before⟩ := inside enough
    rw [Buffer.store?, if_pos ⟨by omega, before⟩]
    rfl
  · rfl

/-- The body starts where the first call finds it. -/
def bodyStart : List HttpConn → ℕ
  | [] => 0
  | first :: _ => first.startLine

/-! ## The calls of one request -/

/-- A call of `parse_content`, with the first call of the request. -/
structure CallOf (first conn : HttpConn) : Prop where
  contentLength : conn.contentLength = first.contentLength
  behind : first.startLine ≤ conn.startLine
  line : conn.startLine ≤ conn.checkedIdx
  checked : conn.checkedIdx ≤ conn.readIdx
  inside : conn.readIdx ≤ readBufferSize

/-- All calls so far are of one request. -/
def OneRequest (calls : List HttpConn) : Prop := ∀ first ∈ calls.head?, ∀ call ∈ calls, CallOf first call

/-- The connection between two passes, with the calls so far. -/
structure Tracked (calls : List HttpConn) (conn : HttpConn) : Prop where
  checked : conn.checkedIdx ≤ conn.readIdx
  inside : conn.readIdx ≤ readBufferSize
  line : conn.checkState = .content → conn.startLine ≤ conn.checkedIdx
  begun : ∀ first ∈ calls.head?, conn.checkState = .content ∧
    conn.contentLength = first.contentLength ∧ first.startLine ≤ conn.startLine
  oneRequest : OneRequest calls

namespace Tracked

variable {calls : List HttpConn} {conn after : HttpConn}

theorem init (conn : HttpConn) : Tracked [] conn.init where
  checked := le_rfl
  inside := Nat.zero_le _
  line content := by cases content
  begun := by simp
  oneRequest := by simp [OneRequest]

/-- A delivery only adds bytes. -/
theorem readOnce (tracked : Tracked calls conn) (piece : Bytes) : Tracked calls (conn.readOnce piece).2 := by
  obtain ⟨_, _, same, grown, _, inside⟩ := readOnce_frame conn piece
  rw [same]
  exact ⟨tracked.checked.trans grown, inside tracked.inside, tracked.line, tracked.begun, tracked.oneRequest⟩

/-- The scanner only moves on. -/
theorem loopCondition (tracked : Tracked calls conn) (lineStatus : LineStatus) :
    Tracked calls (conn.loopCondition lineStatus).2 := by
  rw [HttpConn.loopCondition]
  split_ifs
  · exact tracked
  · obtain ⟨checkState, contentLength, readIdx, forward⟩ := parseLine_frame conn
    obtain ⟨startLine, checked⟩ := parseLine_inside tracked.checked
    constructor
    · rwa [readIdx]
    · rw [readIdx]
      exact tracked.inside
    · intro content
      rw [startLine]
      exact (tracked.line (checkState ▸ content)).trans forward
    · intro first member
      rw [checkState, contentLength, startLine]
      exact tracked.begun first member
    · exact tracked.oneRequest

/-- The call that is made next belongs to the request. -/
theorem call (tracked : Tracked calls conn) (content : conn.checkState = .content) :
    OneRequest (calls ++ [conn]) := by
  have line := tracked.line content
  cases calls with
  | nil =>
    intro first member call inside
    cases member
    rw [List.mem_singleton.mp inside]
    exact ⟨rfl, le_rfl, line, tracked.checked, tracked.inside⟩
  | cons first calls =>
    obtain ⟨_, length, behind⟩ := tracked.begun first rfl
    intro other member call inside
    cases member
    rcases List.mem_append.mp inside with before | last
    · exact tracked.oneRequest first rfl call before
    · rw [List.mem_singleton.mp last]
      exact ⟨length, behind, line, tracked.checked, tracked.inside⟩

/-- Before the content there is no call. -/
theorem head?_eq_none (tracked : Tracked calls conn) (reading : conn.checkState ≠ .content) :
    calls.head? = none := by
  cases found : calls.head? with
  | none => rfl
  | some first => exact absurd (tracked.begun first found).1 reading

/-- A pass that goes on has made at most this call. -/
theorem processLine (tracked : Tracked calls conn) {lineStatus : LineStatus}
    (processed : conn.processLine = some (.next lineStatus, after)) :
    Tracked (calls ++ if conn.checkState = .content then [conn] else []) after := by
  cases state : conn.checkState with
  | requestLine =>
    have none := tracked.head?_eq_none (by rw [state]; decide)
    rw [processLine_requestLine conn state] at processed
    obtain ⟨⟨ret, next⟩, parsed, same⟩ := Option.map_eq_some_iff.mp processed
    obtain ⟨_, rfl⟩ := Prod.mk.inj same
    obtain ⟨_, _, _, _, _, checkState, frame, either⟩ := parseRequestLine_frame parsed
    have reading : checkState ≠ .content := by
      rintro rfl
      rcases either with same | other
      · exact absurd (same.trans state) (by decide)
      · exact absurd other (by decide)
    dsimp only at frame
    rw [frame, if_neg (by decide), List.append_nil]
    exact ⟨tracked.checked, tracked.inside, fun content => absurd content reading, by simp [none],
      tracked.oneRequest⟩
  | header =>
    have none := tracked.head?_eq_none (by rw [state]; decide)
    rw [processLine_header conn state] at processed
    obtain ⟨⟨ret, next⟩, parsed, same⟩ := Option.map_eq_some_iff.mp processed
    obtain ⟨_, rfl⟩ := Prod.mk.inj same
    obtain ⟨_, _, _, _, frame⟩ := parseHeaders_frame parsed
    dsimp only at frame
    rw [frame, if_neg (by decide), List.append_nil]
    exact ⟨tracked.checked, tracked.inside, fun _ => le_rfl, by simp [none], tracked.oneRequest⟩
  | content =>
    have made := tracked.call state
    have line := tracked.line state
    rw [processLine_ofContent conn state] at processed
    obtain ⟨⟨ret, next⟩, parsed, same⟩ := Option.map_eq_some_iff.mp processed
    obtain ⟨goesOn, rfl⟩ := Prod.mk.inj same
    simp only [parseContent] at parsed
    split_ifs at parsed
    · obtain ⟨_, _, finished⟩ := Option.map_eq_some_iff.mp parsed
      cases finished
      cases goesOn
    · cases parsed
      rw [if_pos rfl]
      refine ⟨tracked.checked, tracked.inside, fun _ => le_rfl, ?_, made⟩
      intro first member
      have call := made first member conn (List.mem_append_right _ (List.mem_singleton_self _))
      exact ⟨state, call.contentLength, call.behind.trans line⟩

/-- A whole call of `process_read`: its calls are of one request with those before, also when it waits for
more bytes. -/
theorem processReadLoop (fuel : ℕ) (lineStatus : LineStatus) (tracked : Tracked calls conn) :
    OneRequest (calls ++ contentCallsLoop fuel lineStatus conn) ∧
      ∀ after, HttpConn.processReadLoop fuel lineStatus conn = some (.code .noRequest, after) →
        Tracked (calls ++ contentCallsLoop fuel lineStatus conn) after := by
  induction fuel generalizing calls conn lineStatus with
  | zero =>
    rw [contentCallsLoop, List.append_nil]
    exact ⟨tracked.oneRequest, fun after ran => by cases ran⟩
  | succ fuel ih =>
    have scanned := tracked.loopCondition lineStatus
    rw [contentCallsLoop, HttpConn.processReadLoop]
    generalize conn.loopCondition lineStatus = condition at scanned ⊢
    obtain ⟨status, ready⟩ := condition
    dsimp only at scanned ⊢
    by_cases goesOn : status = .ok
    · have made : OneRequest (calls ++ if ready.checkState = .content then [ready] else []) := by
        split_ifs with content
        · exact scanned.call content
        · rw [List.append_nil]
          exact scanned.oneRequest
      rw [if_pos goesOn, if_pos goesOn, ← List.append_assoc]
      cases processed : ready.processLine with
      | none =>
        rw [List.append_nil]
        exact ⟨made, fun after ran => by cases ran⟩
      | some result =>
        obtain ⟨taken, next⟩ := result
        cases taken with
        | finish result =>
          rw [List.append_nil]
          refine ⟨made, fun after ran => ?_⟩
          cases ran
          have ended := processLine_eq_some processed
          simp at ended
        | next lineStatus => exact ih lineStatus (scanned.processLine processed)
    · rw [if_neg goesOn, if_neg goesOn, List.append_nil]
      refine ⟨scanned.oneRequest, fun after ran => ?_⟩
      cases ran
      exact scanned

end Tracked

/-- The calls of `parse_content` in any deliveries to one request are of one request. -/
theorem oneRequest_contentCalls {conn : HttpConn} {calls : List HttpConn} (tracked : Tracked calls conn)
    (pieces : List Bytes) : OneRequest (calls ++ conn.contentCalls pieces) := by
  induction pieces generalizing calls conn with
  | nil =>
    rw [contentCalls, List.append_nil]
    exact tracked.oneRequest
  | cons piece pieces ih =>
    obtain ⟨made, waits⟩ := (tracked.readOnce piece).processReadLoop
      ((conn.readOnce piece).2.readIdx - (conn.readOnce piece).2.checkedIdx + 2) .ok
    rw [contentCalls, ← List.append_assoc, deliver, processRead]
    split
    · next after ran => exact ih (waits after ran)
    · rw [List.append_nil]
      exact made

/-- Inside the buffer, a length that fits puts the NUL behind the body. -/
theorem CallOf.storesInBody {first call : HttpConn} (callOf : CallOf first call) (fits : call.LengthFits) :
    call.StoresInBody first.startLine := by
  obtain ⟨nonnegative, small, notFull⟩ := fits
  have behind := callOf.behind
  have line := callOf.line
  have checked := callOf.checked
  have inside := callOf.inside
  rw [StoresInBody, neededIdx, terminatorIdx]
  refine ⟨⟨by omega, by omega⟩, fun enough => ⟨by omega, ?_⟩⟩
  by_contra full
  exact notFull ⟨by omega, by omega, by omega⟩

/-- A call that stores behind the start of the body does so with a length that fits, unless it is
negative. -/
theorem CallOf.lengthFits {first call : HttpConn} (callOf : CallOf first call)
    (nonnegative : 0 ≤ first.contentLength) (stores : call.StoresInBody first.startLine) :
    call.LengthFits := by
  obtain ⟨⟨_, small⟩, inside⟩ := stores
  rw [neededIdx] at small inside
  rw [terminatorIdx] at inside
  refine ⟨by rw [callOf.contentLength]; exact nonnegative, by omega, ?_⟩
  rintro ⟨full, atStart, ends⟩
  have stored := (inside (by omega)).2
  omega

/-- The first call stores behind the start of the body only if the length is not negative. -/
theorem CallOf.nonnegative {first : HttpConn} (callOf : CallOf first first)
    (stores : first.StoresInBody first.startLine) : 0 ≤ first.contentLength := by
  by_contra negative
  have checked := callOf.checked
  have stored := (stores.2 (by rw [neededIdx]; omega)).1
  rw [terminatorIdx] at stored
  omega

end HttpConn

open HttpConn

/-- However bytes are delivered to an initialised connection: every call of `parse_content` adds without
overflow and stores its NUL behind the start of the body and inside the buffer, exactly if in every call
the announced length fits. -/
theorem storesInBody_iff_lengthFits (start : HttpConn) (pieces : List Bytes) :
    (∀ call ∈ start.init.contentCalls pieces, call.StoresInBody (bodyStart (start.init.contentCalls pieces))) ↔
      ∀ call ∈ start.init.contentCalls pieces, call.LengthFits := by
  have one := oneRequest_contentCalls (Tracked.init start) pieces
  rw [List.nil_append] at one
  cases calls : start.init.contentCalls pieces with
  | nil => exact iff_of_true (by simp) (by simp)
  | cons first rest =>
    rw [calls] at one
    have callOf := one first rfl
    rw [bodyStart]
    constructor
    · intro stores call member
      have atFirst := List.mem_cons_self (a := first) (l := rest)
      have nonnegative := (callOf first atFirst).nonnegative (stores first atFirst)
      exact (callOf call member).lengthFits nonnegative (stores call member)
    · intro fits call member
      exact (callOf call member).storesInBody (fits call member)

/-- A negative length is read as such, and the NUL goes into the header block. -/
theorem negative_length_stores_before :
    ((HttpConn.blank.init.contentCalls [ascii "POST /2 HTTP/1.1\r\nContent-length: -5\r\n\r\n"]).map
        fun call => (call.startLine, call.contentLength, call.terminatorIdx)) = [(40, -5, 35)] ∧
      ¬ ∀ call ∈ HttpConn.blank.init.contentCalls
          [ascii "POST /2 HTTP/1.1\r\nContent-length: -5\r\n\r\n"],
        call.StoresInBody (bodyStart (HttpConn.blank.init.contentCalls
          [ascii "POST /2 HTTP/1.1\r\nContent-length: -5\r\n\r\n"])) :=
  ⟨by decide +kernel, by decide +kernel⟩

/-- A length near the end of the range overflows the sum. -/
example :
    ¬ ∀ call ∈ HttpConn.blank.init.contentCalls
          [ascii "POST /2 HTTP/1.1\r\nContent-length: 2147483647\r\n\r\n"],
        call.StoresInBody (bodyStart (HttpConn.blank.init.contentCalls
          [ascii "POST /2 HTTP/1.1\r\nContent-length: 2147483647\r\n\r\n"])) := by
  decide +kernel

end WebServ.Http
