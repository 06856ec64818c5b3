import WebServ.Proofs.LineScanner
import WebServ.Proofs.RequestLine
import WebServ.Proofs.HeaderLine

/-! # The in-place parser refines the stream parser

`Refines` relates a connection between two deliveries to the abstract parser: the bytes from
`m_start_line` on are the bytes of the unfinished line as they were received, of which the ones
before `m_checked_idx` are plain, and everything learned so far is held in the fields or in strings
that lie wholly below `m_start_line`, where no later store reaches. One call of `process_read`
then does what `parse` does on those bytes, and a delivery appends to them.
-/

namespace WebServ.Http

open WebServ.Text

/-- A non-null pointer to a string that ends, with its NUL, below `limit`. -/
def HoldsString (buffer : Buffer readBufferSize) (limit : ℕ) (pointer : Option ℕ) (text : Bytes) : Prop :=
  ∃ position, pointer = some position ∧ buffer.cstr position = some text ∧
    position + text.length < limit

/-- The fields and strings of a connection that record a request. -/
structure Records (conn : HttpConn) (limit : ℕ) (phase : CheckState) (request : Request) : Prop where
  method : conn.method = request.method
  cgi : conn.cgi = request.cgi
  linger : conn.linger = request.linger
  contentLength : conn.contentLength = request.contentLength
  url : phase ≠ .requestLine → HoldsString conn.readBuf limit conn.url request.url
  host : match request.host with
    | none => conn.host = none
    | some host => HoldsString conn.readBuf limit conn.host host

/-- The connection waits in `phase`, has recorded `request` and holds the received bytes `rest` of
an unfinished line. -/
structure Refines (conn : HttpConn) (phase : CheckState) (request : Request) (rest : Bytes) : Prop where
  state : conn.checkState = phase
  inside : conn.readIdx ≤ readBufferSize
  length : conn.startLine + rest.length = conn.readIdx
  byte : ∀ index, (bound : index < rest.length) → conn.readBuf.byte (conn.startLine + index) = rest[index]
  checked : ∃ seen unread, rest = seen ++ unread ∧ Plain seen ∧
    conn.checkedIdx = conn.startLine + seen.length
  before : 0 < conn.startLine → conn.readBuf.byte (conn.startLine - 1) ≠ cr
  records : Records conn conn.startLine phase request

theorem HoldsString.congr {buffer other : Buffer readBufferSize} {limit wide : ℕ}
    {pointer : Option ℕ} {text : Bytes} (holds : HoldsString buffer limit pointer text)
    (wider : limit ≤ wide) (same : ∀ query, query < limit → other.byte query = buffer.byte query) :
    HoldsString other wide pointer text := by
  obtain ⟨position, rfl, found, bound⟩ := holds
  exact ⟨position, rfl, Buffer.cstr_congr found fun query _ inside => same query (by omega), by omega⟩

/-- Stores behind the recorded strings keep the record. -/
theorem Records.congr {conn after : HttpConn} {limit wide : ℕ} {phase : CheckState}
    {request : Request} (records : Records conn limit phase request) (wider : limit ≤ wide)
    (same : ∀ query, query < limit → after.readBuf.byte query = conn.readBuf.byte query)
    (method : after.method = conn.method) (cgi : after.cgi = conn.cgi)
    (linger : after.linger = conn.linger) (contentLength : after.contentLength = conn.contentLength)
    (url : after.url = conn.url) (host : after.host = conn.host) :
    Records after wide phase request where
  method := method.trans records.method
  cgi := cgi.trans records.cgi
  linger := linger.trans records.linger
  contentLength := contentLength.trans records.contentLength
  url reading := url ▸ (records.url reading).congr wider same
  host := by
    have recorded := records.host
    cases found : request.host with
    | none => simpa only [found, host] using recorded
    | some text =>
      rw [found] at recorded
      exact host ▸ HoldsString.congr recorded wider same

theorem refines_init (conn : HttpConn) : Refines conn.init .requestLine .empty [] where
  state := rfl
  inside := by simp [HttpConn.init]
  length := rfl
  byte := by simp
  checked := ⟨[], [], rfl, by simp [Plain], rfl⟩
  before := by simp [HttpConn.init]
  records := ⟨rfl, rfl, rfl, rfl, fun reading => absurd rfl reading, rfl⟩

/-- A delivery that fits appends to the unfinished line. -/
theorem Refines.readOnce {conn : HttpConn} {phase : CheckState} {request : Request}
    {rest piece : Bytes} (refines : Refines conn phase request rest) (nonempty : piece ≠ [])
    (fits : conn.readIdx + piece.length ≤ readBufferSize) :
    (conn.readOnce piece).1 = true ∧
      (conn.readOnce piece).2.readIdx = conn.readIdx + piece.length ∧
      Refines (conn.readOnce piece).2 phase request (rest ++ piece) := by
  have positive : 0 < piece.length := List.length_pos_iff.mpr nonempty
  have taken : piece.take (readBufferSize - conn.readIdx) = piece :=
    List.take_of_length_le (by omega)
  have ran : conn.readOnce piece = (true, { conn with
      readBuf := conn.readBuf.write conn.readIdx piece
      readIdx := conn.readIdx + piece.length }) := by
    rw [HttpConn.readOnce, if_neg (by omega)]
    simp only [taken, if_neg (show piece.length ≠ 0 by omega)]
  rw [ran]
  have below : ∀ query, query < conn.readIdx →
      (conn.readBuf.write conn.readIdx piece).byte query = conn.readBuf.byte query :=
    fun query bound => Buffer.write_byte_outside _ _ (Or.inl bound)
  have length := refines.length
  refine ⟨rfl, rfl, ?_⟩
  constructor
  · exact refines.state
  · exact fits
  · simp only [List.length_append]
    omega
  · intro index bound
    change (conn.readBuf.write conn.readIdx piece).byte (conn.startLine + index) = _
    rw [List.length_append] at bound
    by_cases old : index < rest.length
    · rw [List.getElem_append_left old, ← refines.byte index old]
      exact below _ (by omega)
    · rw [List.getElem_append_right (by omega)]
      have position : conn.startLine + index = conn.readIdx + (index - rest.length) := by omega
      rw [position]
      exact Buffer.write_byte_inside _ _ _ (by omega)
  · obtain ⟨seen, unread, rfl, plain, checked⟩ := refines.checked
    exact ⟨seen, unread ++ piece, List.append_assoc .., plain, checked⟩
  · intro started
    change 0 < conn.startLine at started
    change (conn.readBuf.write conn.readIdx piece).byte (conn.startLine - 1) ≠ cr
    rw [below _ (by omega)]
    exact refines.before started
  · exact refines.records.congr le_rfl (fun query bound => below query (by omega)) rfl rfl rfl rfl rfl rfl

namespace HttpConn

/-- Hand the line that ends at `position` over: `m_start_line` moves behind its CRLF. -/
def takeLine (conn : HttpConn) (position : ℕ) : HttpConn :=
  { conn.endLine position with startLine := position + 2 }

/-- Outside the content the loop condition is the result of `parse_line`. -/
theorem processReadLoop_line {conn : HttpConn} (reading : conn.checkState ≠ .content) (fuel : ℕ)
    (lineStatus : LineStatus) :
    processReadLoop (fuel + 1) lineStatus conn =
      if conn.parseLine.1 = .ok then
        conn.parseLine.2.processLine.bind fun (step, conn) =>
          match step with
          | .finish result => some (result, conn)
          | .next lineStatus => processReadLoop fuel lineStatus conn
      else some (.code .noRequest, conn.parseLine.2) := by
  rw [processReadLoop, loopCondition]
  simp only [reading, false_and, ↓reduceIte]
  rfl

end HttpConn

open HttpConn

namespace Refines

variable {conn : HttpConn} {phase : CheckState} {request : Request} {rest : Bytes}

/-- The scanner resumes behind the plain bytes it has seen. -/
theorem scan (refines : Refines conn phase request rest) :
    ∃ seen unread, rest = seen ++ unread ∧ Plain seen ∧
      conn.checkedIdx = conn.startLine + seen.length ∧ conn.Unread unread ∧ conn.NoCrBefore := by
  obtain ⟨seen, unread, rfl, plain, checked⟩ := refines.checked
  have length := refines.length
  rw [List.length_append] at length
  refine ⟨seen, unread, rfl, plain, checked, ⟨by omega, ?_⟩, ?_⟩
  · intro index bound
    have byte := refines.byte (seen.length + index) (by rw [List.length_append]; omega)
    rw [List.getElem_append_right (by omega)] at byte
    simpa only [checked, Nat.add_assoc, Nat.add_sub_cancel_left] using byte
  · intro positive
    cases seen with
    | nil =>
      rw [List.length_nil, Nat.add_zero] at checked
      rw [checked] at positive ⊢
      exact refines.before positive
    | cons first more =>
      simp only [List.length_cons] at checked
      have short : more.length < (first :: more ++ unread).length := by
        simp only [List.length_append, List.length_cons]
        omega
      have last := refines.byte more.length short
      have member : (first :: more ++ unread)[more.length] ∈ first :: more := by
        rw [List.getElem_append_left (by simp)]
        exact List.getElem_mem _
      rw [show conn.checkedIdx - 1 = conn.startLine + more.length by omega, last]
      exact (plain _ member).1

/-- On a complete line `parse_line` overwrites the CRLF behind it. -/
theorem parseLine_complete (refines : Refines conn phase request rest) {line after : Bytes}
    (split : splitLine rest = .complete line after) :
    conn.parseLine = (.ok, conn.endLine (conn.startLine + line.length)) := by
  obtain ⟨seen, unread, rfl, plain, checked, unreadBytes, _⟩ := refines.scan
  rw [splitLine_plain_append plain] at split
  cases found : splitLine unread with
  | complete more tail =>
    rw [found, foldr_cons_complete] at split
    cases split
    rw [unreadBytes.parseLine, parseLineLoop_complete unreadBytes found, checked, List.length_append,
      Nat.add_assoc]
  | malformed => rw [found, foldr_cons_other _ (by simp)] at split; cases split
  | unfinished => rw [found, foldr_cons_other _ (by simp)] at split; cases split

/-- Without a complete line `parse_line` changes nothing the relation speaks of. -/
theorem parseLine_incomplete (refines : Refines conn phase request rest)
    (incomplete : ∀ line after, splitLine rest ≠ .complete line after) :
    conn.parseLine.1 ≠ .ok ∧ conn.parseLine.2.readIdx = conn.readIdx ∧
      Refines conn.parseLine.2 phase request rest := by
  obtain ⟨seen, unread, rfl, plain, checked, unreadBytes, before⟩ := refines.scan
  have inner : ∀ line after, splitLine unread ≠ .complete line after := by
    intro line after found
    apply incomplete (seen ++ line) after
    rw [splitLine_plain_append plain, found, foldr_cons_complete]
  obtain ⟨more, tail, rfl, plainMore, scanned⟩ := parseLineLoop_incomplete unreadBytes before inner
  rw [unreadBytes.parseLine, scanned]
  refine ⟨?_, rfl, ?_⟩
  · dsimp only
    split_ifs <;> decide
  · constructor
    · exact refines.state
    · exact refines.inside
    · exact refines.length
    · exact refines.byte
    · refine ⟨seen ++ more, tail, (List.append_assoc ..).symm, ?_, ?_⟩
      · intro value member
        exact (List.mem_append.mp member).elim (plain value) (plainMore value)
      · simp only [advance, checked, List.length_append, Nat.add_assoc]
    · exact refines.before
    · exact refines.records.congr le_rfl (fun _ _ => rfl) rfl rfl rfl rfl rfl rfl

/-- The connection when a complete line is handed over: its visible text is a C string of the
buffer, and nothing outside the CRLF has changed. -/
theorem takeLine_facts (refines : Refines conn phase request rest) {line after : Bytes}
    (split : splitLine rest = .complete line after) :
    (conn.takeLine (conn.startLine + line.length)).readBuf.cstr conn.startLine =
        some (visible line) ∧
      (visible line).length ≤ line.length ∧
      conn.startLine + line.length + 2 + after.length = conn.readIdx ∧
      ∀ query, query < conn.startLine →
        (conn.takeLine (conn.startLine + line.length)).readBuf.byte query = conn.readBuf.byte query := by
  obtain ⟨rfl, plain⟩ := splitLine_complete split
  have length := refines.length
  have inside := refines.inside
  simp only [List.length_append, List.length_cons] at length
  have below : ∀ query, query < conn.startLine + line.length →
      (conn.takeLine (conn.startLine + line.length)).readBuf.byte query = conn.readBuf.byte query := by
    intro query bound
    simp only [takeLine, endLine]
    rw [Buffer.set_byte_ne _ _ (by omega), Buffer.set_byte_ne _ _ (by omega)]
  refine ⟨?_, (List.takeWhile_prefix _).length_le, by omega, fun query bound => below query (by omega)⟩
  apply Buffer.cstr_of_bytes
  · omega
  · intro index bound
    rw [below _ (by omega), refines.byte index (by rw [List.length_append]; omega),
      List.getElem_append_left bound]
  · simp only [takeLine, endLine]
    rw [Buffer.set_byte_ne _ _ (by omega), Buffer.set_byte_self]

/-- Once a line is consumed, the relation holds of the bytes behind it, whatever was recorded. -/
private theorem after_line (refines : Refines conn phase request rest) {line after : Bytes}
    (split : splitLine rest = .complete line after) {next : HttpConn} {nextPhase : CheckState}
    {nextRequest : Request} (state : next.checkState = nextPhase) (readIdx : next.readIdx = conn.readIdx)
    (startLine : next.startLine = conn.startLine + line.length + 2)
    (checkedIdx : next.checkedIdx = next.startLine)
    (behind : ∀ query, next.startLine ≤ query → next.readBuf.byte query = conn.readBuf.byte query)
    (last : next.readBuf.byte (next.startLine - 1) ≠ cr)
    (records : Records next next.startLine nextPhase nextRequest) :
    Refines next nextPhase nextRequest after := by
  obtain ⟨rfl, plain⟩ := splitLine_complete split
  have length := refines.length
  simp only [List.length_append, List.length_cons] at length
  constructor
  · exact state
  · rw [readIdx]; exact refines.inside
  · omega
  · intro index bound
    have byte := refines.byte (line.length + 2 + index) (by
      simp only [List.length_append, List.length_cons]; omega)
    rw [List.getElem_append_right (by omega)] at byte
    rw [behind _ (by omega), startLine]
    simpa only [Nat.add_assoc, Nat.add_sub_cancel_left, Nat.add_comm 2, List.getElem_cons_succ] using byte
  · exact ⟨[], after, rfl, by simp [Plain], checkedIdx⟩
  · exact fun _ => last
  · exact records

/-- Handing over the line that ends at `position`, in one of the two phases that read lines. -/
private theorem processLine_endLine_requestLine (state : conn.checkState = .requestLine)
    (position : ℕ) :
    (conn.endLine position).processLine =
      ((conn.takeLine position).parseRequestLine conn.startLine).map fun (ret, conn) =>
        (if ret = .badRequest then .finish (.code .badRequest) else .next .ok, conn) :=
  processLine_requestLine (conn.endLine position) state

private theorem processLine_endLine_header (state : conn.checkState = .header) (position : ℕ) :
    (conn.endLine position).processLine =
      ((conn.takeLine position).parseHeaders conn.startLine).map fun (ret, conn) =>
        (if ret = .badRequest then .finish (.code .badRequest)
          else if ret = .getRequest then .finish .callDoRequest else .next .ok, conn) :=
  processLine_header (conn.endLine position) state

private theorem takeLine_byte_behind {position query : ℕ} (behind : position + 2 ≤ query) :
    (conn.takeLine position).readBuf.byte query = conn.readBuf.byte query := by
  simp only [takeLine, endLine]
  rw [Buffer.set_byte_ne _ _ (by omega), Buffer.set_byte_ne _ _ (by omega)]

private theorem takeLine_byte_last (position : ℕ) :
    (conn.takeLine position).readBuf.byte (position + 1) = 0 := by
  simp only [takeLine, endLine, Buffer.set_byte_self]

/-- The first line is accepted, rejected or undefined as `requestLine` says of its visible text. -/
theorem requestLine_step (refines : Refines conn .requestLine request rest) {line after : Bytes}
    (split : splitLine rest = .complete line after) :
    match requestLine (visible line) with
    | none => (conn.endLine (conn.startLine + line.length)).processLine = none
    | some none => ∃ final, (conn.endLine (conn.startLine + line.length)).processLine =
        some (.finish (.code .badRequest), final)
    | some (some (method, url)) => ∃ next,
        (conn.endLine (conn.startLine + line.length)).processLine = some (.next .ok, next) ∧
        next.readIdx = conn.readIdx ∧ Refines next .header (request.setLine method url) after := by
  obtain ⟨found, short, length, below⟩ := refines.takeLine_facts split
  have inside := refines.inside
  have room : conn.startLine + (visible line).length + 2 ≤ conn.startLine + line.length + 2 := by omega
  have result := parseRequestLine_result found room (by omega)
  rw [processLine_endLine_requestLine refines.state]
  match requestLine (visible line), result with
  | none, undefined => rw [undefined]; rfl
  | some none, ⟨final, bad⟩ => exact ⟨final, by rw [bad]; rfl⟩
  | some (some (method, url)), ⟨readBuf, pointer, version, ran, read, bound, frame, noCr⟩ =>
    rw [ran, Option.map_some]
    refine ⟨_, rfl, rfl, ?_⟩
    apply refines.after_line split
    · rfl
    · rfl
    · rfl
    · rfl
    · intro query behind
      change conn.startLine + line.length + 2 ≤ query at behind
      change readBuf.byte query = _
      rw [frame query (Or.inr behind)]
      exact takeLine_byte_behind behind
    · intro isCr
      have kept := noCr _ isCr
      change (conn.takeLine _).readBuf.byte (conn.startLine + line.length + 1) = cr at kept
      rw [takeLine_byte_last] at kept
      exact absurd kept (by decide)
    · have records := refines.records
      constructor
      · rfl
      · change (if method = .post then 1 else conn.cgi) = if method = .post then 1 else request.cgi
        rw [records.cgi]
      · exact records.linger
      · exact records.contentLength
      · exact fun _ => ⟨pointer, rfl, read, bound⟩
      · have recorded := records.host
        cases host : request.host with
        | none =>
          rw [host] at recorded
          simp only [Request.setLine, host]
          exact recorded
        | some text =>
          rw [host] at recorded
          simp only [Request.setLine, host]
          have wider : conn.startLine ≤ conn.startLine + line.length + 2 := by omega
          exact recorded.congr wider fun query inside =>
            (frame query (Or.inl inside)).trans (below query inside)

/-- What a header line changes besides the recorded fields. -/
private theorem applyHeader_frame (conn : HttpConn) (start : ℕ) (text : Bytes) :
    (conn.applyHeader start text).readBuf = conn.readBuf ∧
      (conn.applyHeader start text).readIdx = conn.readIdx ∧
      (conn.applyHeader start text).startLine = conn.startLine ∧
      (conn.applyHeader start text).checkedIdx = conn.checkedIdx ∧
      (conn.applyHeader start text).checkState = conn.checkState ∧
      (conn.applyHeader start text).method = conn.method ∧
      (conn.applyHeader start text).cgi = conn.cgi ∧
      (conn.applyHeader start text).url = conn.url := by
  rw [applyHeader]
  split
  · split <;> exact ⟨rfl, rfl, rfl, rfl, rfl, rfl, rfl, rfl⟩
  · split
    · exact ⟨rfl, rfl, rfl, rfl, rfl, rfl, rfl, rfl⟩
    · split <;> exact ⟨rfl, rfl, rfl, rfl, rfl, rfl, rfl, rfl⟩

/-- A header line records what `addHeader` records. -/
private theorem applyHeader_records {start limit : ℕ} {text : Bytes}
    (records : Records conn limit .header request) (found : conn.readBuf.cstr start = some text)
    (bound : start + text.length < limit) :
    Records (conn.applyHeader start text) limit .header (request.addHeader text) := by
  rw [applyHeader, Request.addHeader]
  cases isConnection : fieldValue (ascii "Connection:") text with
  | some value =>
    cases keepAlive : Buffer.sameCaseless value (ascii "keep-alive") with
    | true =>
      simp only [keepAlive, ↓reduceIte]
      exact { records with linger := rfl }
    | false =>
      simp only [keepAlive, Bool.false_eq_true, ↓reduceIte]
      exact records
  | none =>
    cases isLength : fieldValue (ascii "Content-length:") text with
    | some value => exact { records with contentLength := rfl }
    | none =>
      cases isHost : fieldValue (ascii "Host:") text with
      | some value =>
        obtain ⟨read, ends⟩ := applyHeader_host found isHost
        exact { records with host := ⟨_, rfl, read, by omega⟩ }
      | none => exact records

/-- A header line ends the header block if it is empty to the eye and is recorded otherwise. -/
theorem header_step (refines : Refines conn .header request rest) {line after : Bytes}
    (split : splitLine rest = .complete line after) :
    if visible line = [] then
      if request.contentLength ≠ 0 then ∃ next,
        (conn.endLine (conn.startLine + line.length)).processLine = some (.next .ok, next) ∧
        next.readIdx = conn.readIdx ∧ Refines next .content request after ∧
        next.checkedIdx = next.startLine
      else ∃ final,
        (conn.endLine (conn.startLine + line.length)).processLine =
          some (.finish .callDoRequest, final) ∧
        Records final readBufferSize .header request
    else ∃ next,
      (conn.endLine (conn.startLine + line.length)).processLine = some (.next .ok, next) ∧
      next.readIdx = conn.readIdx ∧ Refines next .header (request.addHeader (visible line)) after := by
  obtain ⟨found, short, length, below⟩ := refines.takeLine_facts split
  have inside := refines.inside
  have records : Records (conn.takeLine (conn.startLine + line.length))
      (conn.startLine + line.length + 2) .header request :=
    refines.records.congr (by omega) below rfl rfl rfl rfl rfl rfl
  have last : (conn.takeLine (conn.startLine + line.length)).readBuf.byte
      (conn.startLine + line.length + 1) = 0 := takeLine_byte_last _
  have notCr : (0 : UInt8) ≠ cr := by decide
  rw [processLine_endLine_header refines.state]
  by_cases blank : visible line = []
  · rw [if_pos blank]
    rw [blank] at found
    rw [parseHeaders_blank found]
    have pending : (conn.takeLine (conn.startLine + line.length)).contentLength =
      request.contentLength := records.contentLength
    by_cases zero : request.contentLength = 0
    · rw [if_neg (by simpa using zero), if_neg (by simpa [pending] using zero)]
      exact ⟨_, rfl, records.congr (by omega) (fun _ _ => rfl) rfl rfl rfl rfl rfl rfl⟩
    · rw [if_pos zero, if_pos (by simpa [pending] using zero)]
      refine ⟨_, rfl, rfl, ?_, rfl⟩
      apply refines.after_line split
      · rfl
      · rfl
      · rfl
      · rfl
      · exact fun query behind => takeLine_byte_behind behind
      · exact last ▸ notCr
      · exact { records with url := fun _ => records.url (by decide) }
  · rw [if_neg blank, parseHeaders_field found blank]
    obtain ⟨readBuf, readIdx, startLine, checkedIdx, state, -⟩ := applyHeader_frame
      (conn.takeLine (conn.startLine + line.length)) conn.startLine (visible line)
    refine ⟨_, rfl, readIdx, ?_⟩
    apply refines.after_line split
    · exact state.trans refines.state
    · exact readIdx
    · exact startLine
    · rw [checkedIdx, startLine]; rfl
    · intro query behind
      rw [startLine] at behind
      rw [readBuf]
      exact takeLine_byte_behind behind
    · rw [readBuf, startLine]
      exact last ▸ notCr
    · rw [startLine]
      have within : conn.startLine + (visible line).length < conn.startLine + line.length + 2 := by omega
      exact applyHeader_records records found within

/-- The bytes of a complete line have not all been checked: its CRLF is unread. -/
private theorem unread_line (refines : Refines conn phase request rest) {line after : Bytes}
    (split : splitLine rest = .complete line after) :
    after.length + 2 ≤ conn.readIdx - conn.checkedIdx := by
  obtain ⟨seen, unread, rfl, plain, checked, unreadBytes, _⟩ := refines.scan
  have length := unreadBytes.length
  rw [splitLine_plain_append plain] at split
  cases found : splitLine unread with
  | complete more tail =>
    rw [found, foldr_cons_complete] at split
    cases split
    obtain ⟨rfl, _⟩ := splitLine_complete found
    simp only [List.length_append, List.length_cons] at length
    omega
  | malformed => rw [found, foldr_cons_other _ (by simp)] at split; cases split
  | unfinished => rw [found, foldr_cons_other _ (by simp)] at split; cases split

/-- A connection between two lines has as many unread bytes as the relation says. -/
private theorem unread_le (refines : Refines conn phase request rest) :
    conn.readIdx - conn.checkedIdx ≤ rest.length := by
  obtain ⟨seen, unread, rfl, _, checked⟩ := refines.checked
  have length := refines.length
  omega

end Refines

namespace HttpConn

/-- The loop of `process_read`, stopped in the state in which it first finds the content to read. -/
def enterContentLoop : ℕ → HttpConn → Option HttpConn
  | 0, _ => none
  | fuel + 1, conn =>
      if conn.checkState = .content then some conn
      else if conn.parseLine.1 = .ok then
        match conn.parseLine.2.processLine with
        | some (.next _, next) => enterContentLoop fuel next
        | _ => none
      else none

/-- The state in which one call of `process_read` begins to read the content, if it does. -/
def enterContent (conn : HttpConn) : Option HttpConn :=
  enterContentLoop (conn.readIdx - conn.checkedIdx + 2) conn

end HttpConn

/-- What the loop of `process_read` does where the stream parser makes the given progress, once the
first `passes` passes are done: it has ended, or it is about to read the content. -/
def LoopResult (conn : HttpConn) (lineStatus : LineStatus) (passes : ℕ) : Progress → Prop
  | .waiting phase request rest => phase ≠ .content ∧ ∃ after,
      (∀ extra, processReadLoop (passes + extra) lineStatus conn = some (.code .noRequest, after)) ∧
      after.readIdx = conn.readIdx ∧ Refines after phase request rest
  | .rejected => ∃ final,
      ∀ extra, processReadLoop (passes + extra) lineStatus conn = some (.code .badRequest, final)
  | .undefined => ∀ extra, processReadLoop (passes + extra) lineStatus conn = none
  | .finished request => ∃ final,
      (∀ extra, processReadLoop (passes + extra) lineStatus conn = some (.callDoRequest, final)) ∧
      Records final readBufferSize .header request
  | .body request rest => passes + rest.length ≤ conn.readIdx - conn.checkedIdx ∧
      request.contentLength ≠ 0 ∧ ∃ before,
      (∀ extra, processReadLoop (passes + extra) lineStatus conn = processReadLoop extra .ok before) ∧
      (∀ extra, enterContentLoop (passes + extra + 1) conn = some before) ∧
      before.readIdx = conn.readIdx ∧ Refines before .content request rest ∧
      before.checkedIdx = before.startLine

/-- The content is entered only where the stream parser reaches a body. -/
def EntersOnlyBody (conn : HttpConn) (progress : Progress) : Prop :=
  (∀ known left, progress ≠ .body known left) → ∀ fuel, enterContentLoop fuel conn = none

/-- A pass that consumes a line. -/
private theorem processReadLoop_next {conn ended next : HttpConn} (reading : conn.checkState ≠ .content)
    (scanned : conn.parseLine = (.ok, ended)) (handled : ended.processLine = some (.next .ok, next))
    (lineStatus : LineStatus) (passes : ℕ) :
    processReadLoop (passes + 1) lineStatus conn = processReadLoop passes .ok next ∧
      enterContentLoop (passes + 1) conn = enterContentLoop passes next := by
  constructor
  · rw [processReadLoop_line reading, scanned, if_pos rfl, handled]
    rfl
  · rw [enterContentLoop, if_neg reading, scanned, if_pos rfl, handled]

/-- A pass that consumes a line comes before the passes for what follows it. -/
private theorem LoopResult.step {conn ended next : HttpConn} {passes : ℕ} {progress : Progress}
    (reading : conn.checkState ≠ .content) (scanned : conn.parseLine = (.ok, ended))
    (handled : ended.processLine = some (.next .ok, next)) (lineStatus : LineStatus)
    (readIdx : next.readIdx = conn.readIdx)
    (consumed : next.readIdx - next.checkedIdx + 1 ≤ conn.readIdx - conn.checkedIdx)
    (only : EntersOnlyBody next progress) (result : LoopResult next .ok passes progress) :
    EntersOnlyBody conn progress ∧ LoopResult conn lineStatus (passes + 1) progress := by
  have passed := processReadLoop_next reading scanned handled lineStatus
  have later : ∀ extra, processReadLoop (passes + 1 + extra) lineStatus conn =
      processReadLoop (passes + extra) .ok next := by
    intro extra
    rw [Nat.add_right_comm]
    exact (passed _).1
  refine ⟨?_, ?_⟩
  · intro noBody fuel
    cases fuel with
    | zero => rfl
    | succ fuel => rw [(passed fuel).2, only noBody]
  · cases progress with
    | waiting phase request rest =>
      obtain ⟨reading, after, ran, kept, refines⟩ := result
      exact ⟨reading, after, fun extra => (later extra).trans (ran extra), kept.trans readIdx, refines⟩
    | rejected =>
      obtain ⟨final, ran⟩ := result
      exact ⟨final, fun extra => (later extra).trans (ran extra)⟩
    | undefined => exact fun extra => (later extra).trans (result extra)
    | finished request =>
      obtain ⟨final, ran, records⟩ := result
      exact ⟨final, fun extra => (later extra).trans (ran extra), records⟩
    | body request rest =>
      obtain ⟨room, pending, before, ran, entered, kept, refines⟩ := result
      refine ⟨by omega, pending, before, fun extra => (later extra).trans (ran extra), fun extra => ?_,
        kept.trans readIdx, refines⟩
      rw [(passed _).2, Nat.add_right_comm]
      exact entered extra

/-- A pass that does not lead to another one does not enter the content. -/
private theorem entersOnlyBody_of_end {conn ended : HttpConn} {progress : Progress}
    (reading : conn.checkState ≠ .content) (scanned : conn.parseLine = (.ok, ended))
    (last : ∀ status next, ended.processLine ≠ some (.next status, next)) :
    EntersOnlyBody conn progress := by
  intro _ fuel
  cases fuel with
  | zero => rfl
  | succ fuel =>
    rw [enterContentLoop, if_neg reading, scanned, if_pos rfl]
    dsimp only
    split
    · next status next handled => exact absurd handled (last status next)
    · rfl

private theorem entersOnlyBody_of_stop {conn : HttpConn} {progress : Progress}
    (reading : conn.checkState ≠ .content) (stopped : conn.parseLine.1 ≠ .ok) :
    EntersOnlyBody conn progress := by
  intro _ fuel
  cases fuel with
  | zero => rfl
  | succ fuel => rw [enterContentLoop, if_neg reading, if_neg stopped]

/-- A pass whose line ends the loop. -/
private theorem processReadLoop_ended {conn ended : HttpConn} (reading : conn.checkState ≠ .content)
    (scanned : conn.parseLine = (.ok, ended)) (lineStatus : LineStatus) (extra : ℕ) :
    processReadLoop (1 + extra) lineStatus conn = ended.processLine.bind fun (step, conn) =>
      match step with
      | .finish result => some (result, conn)
      | .next lineStatus => processReadLoop extra lineStatus conn := by
  rw [Nat.add_comm 1, processReadLoop_line reading, scanned, if_pos rfl]

/-- The loop of `process_read` does to the received bytes what the stream parser does. -/
theorem processReadLoop_parse {conn : HttpConn} {phase : CheckState} {request : Request} {rest : Bytes}
    (refines : Refines conn phase request rest) (reading : phase ≠ .content) (lineStatus : LineStatus) :
    ∃ passes, passes ≤ conn.readIdx - conn.checkedIdx + 1 ∧
      EntersOnlyBody conn (parse phase request rest) ∧
      LoopResult conn lineStatus passes (parse phase request rest) := by
  have lines : conn.checkState ≠ .content := refines.state ▸ reading
  fun_induction parse phase request rest generalizing conn lineStatus with
  | case1 => exact absurd rfl reading
  | case2 request bytes line after split result =>
    have scanned := refines.parseLine_complete split
    have handled := refines.requestLine_step split
    rw [result] at handled
    refine ⟨1, by omega, entersOnlyBody_of_end lines scanned (by simp [handled]), fun extra => ?_⟩
    rw [processReadLoop_ended lines scanned, handled, Option.bind_none]
  | case3 request bytes line after split result =>
    have scanned := refines.parseLine_complete split
    have handled := refines.requestLine_step split
    rw [result] at handled
    obtain ⟨final, handled⟩ := handled
    refine ⟨1, by omega, entersOnlyBody_of_end lines scanned (by simp [handled]), final, fun extra => ?_⟩
    rw [processReadLoop_ended lines scanned, handled, Option.bind_some]
  | case4 request bytes line after split method url result ih =>
    have scanned := refines.parseLine_complete split
    have consumed := refines.unread_line split
    have handled := refines.requestLine_step split
    rw [result] at handled
    obtain ⟨next, handled, readIdx, refines⟩ := handled
    obtain ⟨passes, bound, only, ran⟩ := ih refines (by decide) .ok (refines.state ▸ by decide)
    have left := refines.unread_le
    exact ⟨passes + 1, by omega, ran.step lines scanned handled lineStatus readIdx (by omega) only⟩
  | case5 request bytes incomplete =>
    obtain ⟨stopped, readIdx, kept⟩ := refines.parseLine_incomplete incomplete
    refine ⟨1, by omega, entersOnlyBody_of_stop lines stopped, by decide, conn.parseLine.2, fun extra => ?_, readIdx, kept⟩
    rw [Nat.add_comm 1, processReadLoop_line lines, if_neg stopped]
  | case6 request bytes line after split blank nonzero =>
    have scanned := refines.parseLine_complete split
    have consumed := refines.unread_line split
    have handled := refines.header_step split
    rw [if_pos blank, if_pos nonzero] at handled
    obtain ⟨next, handled, readIdx, content⟩ := handled
    obtain ⟨refined, atStart⟩ := content
    refine ⟨1, by omega, fun noBody => absurd rfl (noBody request after), by omega, nonzero, next,
      fun extra => ?_, fun extra => ?_, readIdx, refined, atStart⟩
    · rw [Nat.add_comm 1]
      exact (processReadLoop_next lines scanned handled lineStatus extra).1
    · rw [(processReadLoop_next lines scanned handled lineStatus _).2, Nat.add_comm 1,
        enterContentLoop, if_pos refined.state]
  | case7 request bytes line after split blank zero =>
    have scanned := refines.parseLine_complete split
    have handled := refines.header_step split
    rw [if_pos blank, if_neg zero] at handled
    obtain ⟨final, handled, records⟩ := handled
    refine ⟨1, by omega, entersOnlyBody_of_end lines scanned (by simp [handled]), final, fun extra => ?_, records⟩
    rw [processReadLoop_ended lines scanned, handled, Option.bind_some]
  | case8 request bytes line after split field ih =>
    have scanned := refines.parseLine_complete split
    have consumed := refines.unread_line split
    have handled := refines.header_step split
    rw [if_neg field] at handled
    obtain ⟨next, handled, readIdx, refines⟩ := handled
    obtain ⟨passes, bound, only, ran⟩ := ih refines (by decide) .ok (refines.state ▸ by decide)
    have left := refines.unread_le
    exact ⟨passes + 1, by omega, ran.step lines scanned handled lineStatus readIdx (by omega) only⟩
  | case9 request bytes incomplete =>
    obtain ⟨stopped, readIdx, kept⟩ := refines.parseLine_incomplete incomplete
    refine ⟨1, by omega, entersOnlyBody_of_stop lines stopped, by decide, conn.parseLine.2, fun extra => ?_, readIdx, kept⟩
    rw [Nat.add_comm 1, processReadLoop_line lines, if_neg stopped]

end WebServ.Http
