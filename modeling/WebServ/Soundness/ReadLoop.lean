import WebServ.Model.ReadLoop
import WebServ.Machine.Path
import WebServ.Proofs.HeaderLine
import WebServ.Soundness.RequestLine
import WebServ.Soundness.RequestLineStores
import WebServ.Soundness.ContentLength

/-! # `process_read` keeps its indexes in order and ends

The loop mixes a scanner that resumes where it stopped, a switch on the check state and a body that may send
the scanner over the bytes of the content. Step by step the three indexes stay in order, a line that is handed
over ends with two NULs in front of `m_checked_idx`, and five times the unchecked bytes, with a few steps more
for where the thread stands, bound what is left to do.
-/

namespace WebServ.Http

open WebServ.Text WebServ.Machine

namespace HttpConn

/-- The line at `m_start_line` ends with two NULs in front of `m_checked_idx`. -/
structure LineEnds (conn : HttpConn) : Prop where
  line : conn.startLine < conn.checkedIdx
  first : conn.readBuf.byte (conn.checkedIdx - 2) = 0
  second : conn.readBuf.byte (conn.checkedIdx - 1) = 0

/-- The line at hand is a request line with an `http` URL that has no path. -/
def AtPathless (conn : HttpConn) : Prop :=
  conn.checkState = .requestLine ∧ ∃ text, conn.readBuf.cstr conn.startLine = some text ∧ LacksPath text

/-- The sum of `parse_content` is no `int`. -/
def SumOverflows (conn : HttpConn) : Prop := conn.checkState = .content ∧ 2 ^ 31 ≤ conn.neededIdx

/-- The NUL of `parse_content` is stored outside the buffer. -/
def StoresOutside (conn : HttpConn) : Prop :=
  conn.checkState = .content ∧ conn.neededIdx ≤ conn.readIdx ∧
    ¬(0 ≤ conn.terminatorIdx ∧ conn.terminatorIdx < readBufferSize)

/-- What the loop body has no defined result for. -/
def Undefined (conn : HttpConn) : Prop := conn.AtPathless ∨ conn.SumOverflows ∨ conn.StoresOutside

variable {conn : HttpConn}

/-- The text of such a line is empty or leaves both NULs in the line. -/
theorem LineEnds.cstr (ends : conn.LineEnds) (inside : conn.checkedIdx ≤ readBufferSize) :
    ∃ text, conn.readBuf.cstr conn.startLine = some text ∧
      (text = [] ∨ conn.startLine + text.length + 2 ≤ conn.checkedIdx) :=
  Buffer.cstr_of_nuls ends.line inside ends.first ends.second

theorem parseRequestLine_undefined (conn : HttpConn) {start : ℕ} {text : Bytes}
    (found : conn.readBuf.cstr start = some text)
    (room : text = [] ∨ start + text.length + 2 ≤ readBufferSize)
    (undefined : conn.parseRequestLine start = none) : LacksPath text := by
  rcases room with rfl | room
  · have searched : conn.readBuf.strpbrk start blanks = some none := Buffer.strpbrk_eq_null found rfl
    simp [parseRequestLine, searched] at undefined
  · rcases requestLine_cases text with ⟨_, _, form⟩ | lacks | rejected
    · obtain ⟨_, accepted, _⟩ := conn.parseRequestLine_acceptable found room form
      cases accepted.symm.trans undefined
    · exact lacks
    · obtain ⟨_, ran⟩ := conn.parseRequestLine_rejected found room rejected
      cases ran.symm.trans undefined

theorem parseHeaders_defined (conn : HttpConn) {start : ℕ} {text : Bytes}
    (found : conn.readBuf.cstr start = some text) : (conn.parseHeaders start).isSome := by
  by_cases empty : text = []
  · subst empty
    rw [parseHeaders_blank found]
    split_ifs <;> rfl
  · rw [parseHeaders_field found empty]
    rfl

/-- The loop body has a result but in these cases. -/
theorem undefined_of_processLine (inside : conn.checkedIdx ≤ readBufferSize)
    (ends : conn.checkState ≠ .content → conn.LineEnds) (undefined : conn.processLine = none) :
    conn.Undefined := by
  cases state : conn.checkState with
  | requestLine =>
    obtain ⟨text, found, room⟩ := (ends (by rw [state]; decide)).cstr inside
    rw [processLine_requestLine conn state, Option.map_eq_none_iff] at undefined
    refine Or.inl ⟨state, text, found, ?_⟩
    apply parseRequestLine_undefined { conn with startLine := conn.checkedIdx } found _ undefined
    exact room.imp_right fun room => room.trans inside
  | header =>
    obtain ⟨text, found, _⟩ := (ends (by rw [state]; decide)).cstr inside
    rw [processLine_header conn state, Option.map_eq_none_iff] at undefined
    have defined := parseHeaders_defined { conn with startLine := conn.checkedIdx } found
    rw [undefined] at defined
    cases defined
  | content =>
    rw [processLine_ofContent conn state, Option.map_eq_none_iff, parseContent] at undefined
    dsimp only at undefined
    split_ifs at undefined with overflows enough
    · exact Or.inr (Or.inl ⟨state, overflows⟩)
    · refine Or.inr (Or.inr ⟨state, enough, fun inside => ?_⟩)
      rw [terminatorIdx] at inside
      rw [Buffer.store?, if_pos inside] at undefined
      cases undefined

/-- In these cases it has none. -/
theorem processLine_of_undefined (inside : conn.checkedIdx ≤ readBufferSize)
    (ends : conn.checkState ≠ .content → conn.LineEnds) (undefined : conn.Undefined) :
    conn.processLine = none := by
  obtain ⟨state, text, found, lacks⟩ | ⟨state, overflows⟩ | ⟨state, enough, outside⟩ := undefined
  · obtain ⟨same, read, room⟩ := (ends (by rw [state]; decide)).cstr inside
    obtain rfl := Option.some.inj (read.symm.trans found)
    have behind : conn.startLine + same.length + 2 ≤ readBufferSize := by
      rcases room with rfl | room
      · exact absurd (requestLine_of_lacksPath lacks) (by decide)
      · exact room.trans inside
    have lost : parseRequestLine { conn with startLine := conn.checkedIdx } conn.startLine = none :=
      parseRequestLine_lacksPath found behind lacks
    rw [processLine_requestLine conn state, lost]
    rfl
  · rw [neededIdx] at overflows
    rw [processLine_ofContent conn state, parseContent]
    dsimp only
    rw [if_pos overflows]
    rfl
  · rw [neededIdx] at enough
    rw [terminatorIdx] at outside
    rw [processLine_ofContent conn state, parseContent]
    dsimp only
    rw [if_pos enough, Buffer.store?, if_neg outside]
    split_ifs <;> rfl

end HttpConn

open HttpConn

namespace Reader

/-! ## The steps are those of the loop -/

/-- The second reader is reached inside the call of `process_read`. -/
def Proceeds (reader last : Reader) : Prop :=
  ∃ count, run step reader (List.replicate count .proceed) = some last

theorem Proceeds.refl (reader : Reader) : reader.Proceeds reader := ⟨0, rfl⟩

theorem Proceeds.after {reader next last : Reader} (taken : reader.proceed = some next)
    (rest : next.Proceeds last) : reader.Proceeds last := by
  obtain ⟨count, ran⟩ := rest
  exact ⟨count + 1, (run_cons_eq_some step).mpr ⟨next, taken, ran⟩⟩

theorem Proceeds.trans {reader next last : Reader} (first : reader.Proceeds next)
    (rest : next.Proceeds last) : reader.Proceeds last := by
  obtain ⟨count, ran⟩ := first
  obtain ⟨more, ranMore⟩ := rest
  refine ⟨count + more, ?_⟩
  rw [List.replicate_add, run_append, ran, Option.bind_some, ranMore]

/-- Where `parse_line` leads. -/
def afterScan : LineStatus × HttpConn → Reader
  | (.ok, conn) => ⟨conn, .body⟩
  | (.bad, conn) => ⟨conn, .returned (.code .noRequest)⟩
  | (.open, conn) => ⟨conn, .returned (.code .noRequest)⟩

/-- The scanner runs to the end of the loop of `parse_line`. -/
theorem proceeds_parseLine (conn : HttpConn) :
    Proceeds ⟨conn, .scanning⟩ (afterScan conn.parseLine) := by
  rw [parseLine]
  generalize left : conn.readIdx - conn.checkedIdx = fuel
  fun_induction parseLineLoop fuel conn with
  | case1 conn =>
    have all : ¬ conn.checkedIdx < conn.readIdx := by omega
    exact .after (by simp only [proceed, scanByte, if_neg all, afterScan]) (.refl _)
  | case7 fuel conn temp notCr notLf ih =>
    have more : conn.checkedIdx < conn.readIdx := by omega
    refine .after ?_ (ih (by dsimp only; omega))
    simp only [proceed, scanByte, if_pos more]
    rw [if_neg notCr, if_neg notLf]
  | case2 fuel conn temp isCr last =>
    have more : conn.checkedIdx < conn.readIdx := by omega
    refine .after ?_ (.refl _)
    simp only [proceed, scanByte, if_pos more]
    rw [if_pos isCr, if_pos last]
    rfl
  | case3 fuel conn temp isCr notLast isLf =>
    have more : conn.checkedIdx < conn.readIdx := by omega
    refine .after ?_ (.refl _)
    simp only [proceed, scanByte, if_pos more]
    rw [if_pos isCr, if_neg notLast, if_pos isLf]
    rfl
  | case4 fuel conn temp isCr notLast notLf =>
    have more : conn.checkedIdx < conn.readIdx := by omega
    refine .after ?_ (.refl _)
    simp only [proceed, scanByte, if_pos more]
    rw [if_pos isCr, if_neg notLast, if_neg notLf]
    rfl
  | case5 fuel conn temp notCr isLf behindCr =>
    have more : conn.checkedIdx < conn.readIdx := by omega
    refine .after ?_ (.refl _)
    simp only [proceed, scanByte, if_pos more]
    rw [if_neg notCr, if_pos isLf, if_pos behindCr]
    rfl
  | case6 fuel conn temp notCr isLf notBehind =>
    have more : conn.checkedIdx < conn.readIdx := by omega
    refine .after ?_ (.refl _)
    simp only [proceed, scanByte, if_pos more]
    rw [if_neg notCr, if_pos isLf, if_neg notBehind]
    rfl

theorem proceed_condition (conn : HttpConn) (lineStatus : LineStatus) :
    proceed ⟨conn, .condition lineStatus⟩ =
      if conn.checkState = .content ∧ lineStatus = .ok then some ⟨conn, .body⟩
      else some ⟨conn, .scanning⟩ := rfl

theorem proceeds_loopCondition (conn : HttpConn) (lineStatus : LineStatus) :
    Proceeds ⟨conn, .condition lineStatus⟩ (afterScan (conn.loopCondition lineStatus)) := by
  rw [loopCondition]
  split_ifs with direct
  · exact .after (if_pos direct) (.refl _)
  · exact .after (if_neg direct) (proceeds_parseLine conn)

/-- How a call ends: with a result, or in a loop body without one. -/
inductive Ends (reader : Reader) : Option (ReadResult × HttpConn) → Prop where
  | returns {result : ReadResult} {conn : HttpConn} (proceeds : reader.Proceeds ⟨conn, .returned result⟩) :
      Ends reader (some (result, conn))
  | undefined {conn : HttpConn} (proceeds : reader.Proceeds ⟨conn, .body⟩)
      (refused : conn.processLine = none) : Ends reader none

theorem Ends.before {reader next : Reader} {outcome : Option (ReadResult × HttpConn)}
    (first : reader.Proceeds next) (ends : next.Ends outcome) : reader.Ends outcome := by
  cases ends with
  | returns proceeds => exact .returns (first.trans proceeds)
  | undefined proceeds refused => exact .undefined (first.trans proceeds) refused

theorem afterScan_ok {condition : LineStatus × HttpConn} (isOk : condition.1 = .ok) :
    afterScan condition = ⟨condition.2, .body⟩ := by
  obtain ⟨status, conn⟩ := condition
  cases isOk
  rfl

theorem afterScan_other {condition : LineStatus × HttpConn} (other : condition.1 ≠ .ok) :
    afterScan condition = ⟨condition.2, .returned (.code .noRequest)⟩ := by
  obtain ⟨status, conn⟩ := condition
  cases status with
  | ok => exact absurd rfl other
  | bad => rfl
  | «open» => rfl

theorem ends_processReadLoop {fuel : ℕ} {lineStatus : LineStatus} {conn : HttpConn}
    (enough : conn.passesLeft lineStatus ≤ fuel) :
    Ends ⟨conn, .condition lineStatus⟩ (processReadLoop fuel lineStatus conn) := by
  induction fuel generalizing conn lineStatus with
  | zero =>
    rw [passesLeft] at enough
    split_ifs at enough <;> omega
  | succ fuel ih =>
    have scanned := proceeds_loopCondition conn lineStatus
    rw [processReadLoop]
    dsimp only
    split_ifs with goesOn
    · rw [afterScan_ok goesOn] at scanned
      cases processed : (conn.loopCondition lineStatus).2.processLine with
      | none => exact .undefined scanned processed
      | some result =>
        obtain ⟨taken, next⟩ := result
        have passed : Proceeds ⟨conn, .condition lineStatus⟩ (afterBody (taken, next)) := by
          refine scanned.trans (.after ?_ (.refl _))
          simp only [proceed, processed, Option.map_some]
        cases taken with
        | finish result => exact .returns passed
        | next status =>
          have less := passesLeft_lt goesOn processed
          exact (ih (Nat.le_of_lt_succ (less.trans_le enough))).before passed
    · rw [afterScan_other goesOn] at scanned
      exact .returns scanned

/-- The steps of a call lead to its result, for every connection it may be called on. -/
theorem ends_processRead (conn : HttpConn) : Ends ⟨conn, .condition .ok⟩ conn.processRead := by
  apply ends_processReadLoop
  rw [passesLeft]
  split_ifs <;> omega

/-! ## What is left to do -/

/-- No more steps than this remain of the call. -/
def left (reader : Reader) : ℕ :=
  5 * (reader.conn.readIdx - reader.conn.checkedIdx) +
    match reader.point with
    | .returned _ => 0
    | .scanning => 1
    | .condition lineStatus => if reader.conn.checkState = .content ∧ lineStatus = .ok then 4 else 2
    | .body => if reader.conn.checkState = .content then 3 else 5

theorem left_condition (conn : HttpConn) (lineStatus : LineStatus) :
    left ⟨conn, .condition lineStatus⟩ = 5 * (conn.readIdx - conn.checkedIdx) +
      if conn.checkState = .content ∧ lineStatus = .ok then 4 else 2 := rfl

theorem left_body_eq (conn : HttpConn) : left ⟨conn, .body⟩ =
    5 * (conn.readIdx - conn.checkedIdx) + if conn.checkState = .content then 3 else 5 := rfl

/-- A byte is checked, or the call returns. -/
theorem left_scanByte (conn : HttpConn) : conn.scanByte.left < left ⟨conn, .scanning⟩ := by
  rw [scanByte]
  dsimp only
  split_ifs <;> simp only [left] <;> try split_ifs
  all_goals omega

theorem left_body {conn after : HttpConn} {taken : LoopStep}
    (processed : conn.processLine = some (taken, after)) :
    (afterBody (taken, after)).left < left ⟨conn, .body⟩ := by
  obtain ⟨_, readIdx, checkedIdx⟩ := processLine_indexes processed
  rw [left_body_eq]
  cases taken with
  | finish result =>
    simp only [afterBody, left, readIdx, checkedIdx]
    split_ifs <;> omega
  | next status =>
    obtain other | other | ⟨_, same, _, content⟩ := processLine_eq_some processed
    · cases other
    · cases other
    · cases same
      rw [afterBody, left_condition, readIdx, checkedIdx]
      by_cases isContent : conn.checkState = .content
      · have indirect : ¬(after.checkState = .content ∧ status = .ok) :=
          fun both => (content isContent).2 both.2
        rw [if_pos isContent, if_neg indirect]
        omega
      · rw [if_neg isContent]
        split_ifs <;> omega

/-- Every step inside `process_read` leaves less to do, from any connection and at any point. -/
theorem left_lt {reader next : Reader} (taken : reader.step .proceed = some next) : next.left < reader.left := by
  obtain ⟨conn, point⟩ := reader
  cases point with
  | returned result => cases taken
  | condition lineStatus =>
    rw [step, proceed_condition] at taken
    rw [left_condition]
    split_ifs at taken ⊢ with direct
    · cases taken
      rw [left_body_eq, if_pos direct.1]
      exact Nat.lt_succ_self _
    · cases taken
      exact Nat.lt_succ_self _
  | scanning =>
    cases taken
    exact left_scanByte conn
  | body =>
    obtain ⟨⟨loopStep, after⟩, processed, rfl⟩ := Option.map_eq_some_iff.mp taken
    exact left_body processed

/-- The call is over or its loop body has no result. -/
theorem over_of_refused {reader : Reader} (refused : reader.step .proceed = none) :
    (∃ result, reader.point = .returned result) ∨
      (reader.point = .body ∧ reader.conn.processLine = none) := by
  obtain ⟨conn, point⟩ := reader
  cases point with
  | returned result => exact Or.inl ⟨result, rfl⟩
  | condition lineStatus =>
    rw [step, proceed_condition] at refused
    split_ifs at refused
  | scanning => cases refused
  | body => exact Or.inr ⟨rfl, Option.map_eq_none_iff.mp refused⟩

/-! ## The indexes -/

/-- The indexes are in order, and a line for the loop body has ended. -/
structure Good (reader : Reader) : Prop where
  indexed : Indexed reader.conn
  ends : reader.point = .body → reader.conn.checkState ≠ .content → reader.conn.LineEnds

theorem good_scanByte {conn : HttpConn} (indexed : Indexed conn) : conn.scanByte.Good := by
  obtain ⟨line, checked, inside⟩ := indexed
  rw [scanByte]
  dsimp only
  split_ifs with more isCr last isLf isLf behindCr
  · exact ⟨⟨line, checked, inside⟩, nofun⟩
  · refine ⟨⟨?_, ?_, inside⟩, fun _ _ => ⟨?_, ?_, ?_⟩⟩
    · exact line.trans (Nat.le_add_right _ 2)
    · dsimp only
      omega
    · exact Nat.lt_add_right 1 (Nat.lt_succ_of_le line)
    · dsimp only
      rw [Nat.add_sub_cancel, Buffer.set_byte_ne _ _ (by omega), Buffer.set_byte_self]
    · exact Buffer.set_byte_self _ _ _
  · exact ⟨⟨line, checked, inside⟩, nofun⟩
  · refine ⟨⟨line.trans (Nat.le_succ _), more, inside⟩, fun _ _ => ⟨Nat.lt_succ_of_le line, ?_, ?_⟩⟩
    · have before : conn.checkedIdx + 1 - 2 = conn.checkedIdx - 1 := by omega
      dsimp only
      rw [before, Buffer.set_byte_ne _ _ (by omega), Buffer.set_byte_self]
    · exact Buffer.set_byte_self _ _ _
  · exact ⟨⟨line, checked, inside⟩, nofun⟩
  · exact ⟨⟨line.trans (Nat.le_succ _), more, inside⟩, nofun⟩
  · exact ⟨⟨line, checked, inside⟩, nofun⟩

theorem good_step {reader next : Reader} {event : ReadEvent} (good : reader.Good)
    (taken : reader.step event = some next) : next.Good := by
  obtain ⟨conn, point⟩ := reader
  cases event with
  | readOnce available =>
    cases point with
    | returned result =>
      cases taken
      exact ⟨good.indexed.readOnce available, nofun⟩
    | condition lineStatus => cases taken
    | scanning => cases taken
    | body => cases taken
  | processRead =>
    cases point with
    | returned result =>
      cases taken
      exact ⟨good.indexed, nofun⟩
    | condition lineStatus => cases taken
    | scanning => cases taken
    | body => cases taken
  | proceed =>
    cases point with
    | returned result => cases taken
    | condition lineStatus =>
      rw [step, proceed_condition] at taken
      split_ifs at taken with direct
      · cases taken
        exact ⟨good.indexed, fun _ reading => absurd direct.1 reading⟩
      · cases taken
        exact ⟨good.indexed, nofun⟩
    | scanning =>
      cases taken
      exact good_scanByte good.indexed
    | body =>
      obtain ⟨⟨loopStep, after⟩, processed, rfl⟩ := Option.map_eq_some_iff.mp taken
      have indexed := good.indexed.processLine processed
      cases loopStep with
      | finish result => exact ⟨indexed, nofun⟩
      | next status => exact ⟨indexed, nofun⟩

theorem good_run {reader last : Reader} {events : List ReadEvent} (good : reader.Good)
    (ran : run step reader events = some last) : last.Good :=
  invariant (fun _ _ _ before taken => good_step before taken) good ran

/-! ## The calls -/

/-- The indexes are in order, and a text that is handed to `parse_request_line` or `parse_headers` ends with a NUL
in front of `m_checked_idx`. -/
structure Ordered (reader : Reader) : Prop where
  line : reader.conn.startLine ≤ reader.conn.checkedIdx
  checked : reader.conn.checkedIdx ≤ reader.conn.readIdx
  inside : reader.conn.readIdx ≤ readBufferSize
  handed : reader.point = .body → reader.conn.checkState ≠ .content → ∃ text,
    reader.conn.readBuf.cstr reader.conn.startLine = some text ∧
      reader.conn.startLine + text.length < reader.conn.checkedIdx

/-- What is left of the call of `process_read` ends with a result. -/
def Returns (reader : Reader) : Prop :=
  ∃ count last result, count ≤ reader.left ∧ run step reader (List.replicate count .proceed) = some last ∧
    last.point = .returned result

/-- The order of a state, and the end of the call it belongs to. -/
structure InOrder (reader : Reader) : Prop extends Ordered reader where
  returns : reader.Returns

/-- No loop body that the rest of the call comes to is one of the undefined ones. -/
def StaysDefined (reader : Reader) : Prop := ∀ conn, reader.Proceeds ⟨conn, .body⟩ → ¬conn.Undefined

theorem Good.ordered {reader : Reader} (good : reader.Good) : reader.Ordered where
  line := good.indexed.line
  checked := good.indexed.checked
  inside := good.indexed.inside
  handed := by
    intro atBody reading
    have ends := good.ends atBody reading
    obtain ⟨text, found, room⟩ := ends.cstr (good.indexed.checked.trans good.indexed.inside)
    have line := ends.line
    refine ⟨text, found, ?_⟩
    rcases room with rfl | room
    · exact line
    · omega

/-- A loop body has a result exactly where it is not one of the undefined ones. -/
theorem Good.refused_iff {conn : HttpConn} (good : Good ⟨conn, .body⟩) :
    step ⟨conn, .body⟩ .proceed = none ↔ conn.Undefined := by
  have inside := good.indexed.checked.trans good.indexed.inside
  rw [step, proceed, Option.map_eq_none_iff]
  exact ⟨undefined_of_processLine inside (good.ends rfl), processLine_of_undefined inside (good.ends rfl)⟩

/-- A call returns exactly if no loop body it comes to is undefined. -/
theorem Good.returns_iff {reader : Reader} (good : reader.Good) : reader.Returns ↔ reader.StaysDefined := by
  constructor
  · rintro ⟨count, last, result, _, ran, returned⟩ conn ⟨other, reached⟩ undefined
    have stopped : last.step .proceed = none := by rw [step, proceed, returned]
    have stuck := (good_run good reached).refused_iff.mpr undefined
    rw [eq_of_refused ran stopped reached stuck] at returned
    cases returned
  · intro defined
    obtain ⟨count, last, bound, ran, refused⟩ := exists_refused_of_measure left (fun _ _ => left_lt) reader
    rcases over_of_refused refused with ⟨result, returned⟩ | ⟨atBody, _⟩
    · exact ⟨count, last, result, bound, ran, returned⟩
    · obtain ⟨conn, point⟩ := last
      obtain rfl : point = .body := atBody
      exact absurd ((good_run good ran).refused_iff.mp refused) (defined conn ⟨count, ran⟩)

theorem Good.inOrder_iff {reader : Reader} (good : reader.Good) : reader.InOrder ↔ reader.StaysDefined :=
  ⟨fun inOrder => good.returns_iff.mp inOrder.returns,
    fun defined => ⟨good.ordered, good.returns_iff.mpr defined⟩⟩

/-- In every state of every sequence of deliveries and calls after `init()`: the indexes are in order, and a text
handed to `parse_request_line` or `parse_headers` ends with a NUL in front of `m_checked_idx`. What is left of a
call of `process_read` ends with a result exactly if no loop body it comes to gets a request line with an `http`
URL without a path, a sum of `parse_content` that is no `int`, or a NUL to store outside the buffer. The same holds
of a call on any connection with its indexes in order, in every check state; and a call on any connection at all
ends after a bounded number of steps, with a result or in a loop body that has none. -/
theorem process_read_inOrder (start : HttpConn) (events : List ReadEvent) (reader : Reader)
    (ran : run step (initial start) events = some reader) :
    reader.Ordered ∧ (reader.InOrder ↔ reader.StaysDefined) ∧
      (∀ conn, Indexed conn →
        (InOrder ⟨conn, .condition .ok⟩ ↔ StaysDefined ⟨conn, .condition .ok⟩)) ∧
      ∀ conn : HttpConn, ∃ count last, count ≤ left ⟨conn, .condition .ok⟩ ∧
        run step ⟨conn, .condition .ok⟩ (List.replicate count .proceed) = some last ∧
        ((∃ result, last.point = .returned result) ∨
          (last.point = .body ∧ last.conn.processLine = none)) := by
  have start : (initial start).Good := ⟨.init start, nofun⟩
  have good := good_run start ran
  refine ⟨good.ordered, good.inOrder_iff, fun conn indexed => ?_, fun conn => ?_⟩
  · have entered : Good ⟨conn, .condition .ok⟩ := ⟨indexed, nofun⟩
    exact entered.inOrder_iff
  · obtain ⟨count, last, bound, proceeded, refused⟩ :=
      exists_refused_of_measure left (fun _ _ => left_lt) ⟨conn, .condition .ok⟩
    exact ⟨count, last, bound, proceeded, over_of_refused refused⟩

/-- The first line of a request is handed over with its NUL. -/
theorem process_read_inOrder_firstLine : ∃ reader,
    run step (initial blank) (.readOnce (ascii "GET / HTTP/1.1\r\nHost: a") :: .processRead ::
      List.replicate 16 .proceed) = some reader ∧
    (∃ text, reader.conn.readBuf.cstr reader.conn.startLine = some text ∧
      reader.conn.startLine + text.length < reader.conn.checkedIdx) ∧
    (reader.InOrder ↔ reader.StaysDefined) := by
  have ran := Option.some_get (show (run step (initial blank)
    (.readOnce (ascii "GET / HTTP/1.1\r\nHost: a") :: .processRead ::
      List.replicate 16 .proceed)).isSome from by decide +kernel)
  obtain ⟨ordered, returns, _⟩ := process_read_inOrder blank _ _ ran.symm
  exact ⟨_, ran.symm, ordered.handed (by decide +kernel) (by decide +kernel), returns⟩

/-- A request line with an `http` URL without a path: the call that reads it does not return, and it has not come
to `parse_content`. -/
theorem pathless_not_inOrder : ∃ reader stuck count,
    run step (initial blank) [.readOnce (ascii "GET http://host HTTP/1.1\r\n"), .processRead] = some reader ∧
    run step reader (List.replicate count .proceed) = some stuck ∧ stuck.point = .body ∧
    stuck.conn.checkState = .requestLine ∧ stuck.step .proceed = none ∧ ¬reader.InOrder := by
  obtain ⟨reader, ran⟩ := Option.isSome_iff_exists.mp (show (run step (initial blank)
    [.readOnce (ascii "GET http://host HTTP/1.1\r\n"), .processRead]).isSome by decide +kernel)
  have whole : ((run step (initial blank)
      [.readOnce (ascii "GET http://host HTTP/1.1\r\n"), .processRead]).bind fun reader =>
        run step reader (List.replicate 26 .proceed)).any (fun stuck => decide (stuck.point = .body ∧
          stuck.conn.checkState = .requestLine) && (stuck.step .proceed).isNone) := by decide +kernel
  rw [ran, Option.bind_some] at whole
  cases reached : run step reader (List.replicate 26 .proceed) with
  | none =>
    rw [reached] at whole
    cases whole
  | some stuck =>
    rw [reached, Option.any_some, Bool.and_eq_true, decide_eq_true_eq, Option.isNone_iff_eq_none] at whole
    obtain ⟨⟨atBody, state⟩, refused⟩ := whole
    refine ⟨reader, stuck, 26, ran, reached, atBody, state, refused, fun inOrder => ?_⟩
    obtain ⟨count, last, result, _, ended, returned⟩ := inOrder.returns
    have stopped : last.step .proceed = none := by rw [step, proceed, returned]
    rw [eq_of_refused ended stopped reached refused, atBody] at returned
    cases returned

end Reader

end WebServ.Http
