import WebServ.Model.RequestParser
import Mathlib.Tactic.SplitIfs

/-! # What the parser does not look at

A parser function works on the read buffer and on what it has found there. The other members (the socket,
the response, the file, and the pointer to the body until there is one) are outside of it: it neither
reads nor writes them, so that replacing them before a call or after it is the same. What a delivery
leaves alone, and what it does not depend on, both follow.
-/

namespace WebServ.Http

open WebServ.Text

/-- The members outside the parser. -/
structure Outside where
  sockfd : Option ℕ
  writeBuf : Buffer writeBufferSize
  writeIdx : ℕ
  realFile : Buffer filenameLen
  fileAddress : FileAddress
  fileStat : FileStat
  iv0 : Iovec
  iv1 : Iovec
  ivCount : ℕ
  string : Option ℕ
  bytesToSend : ℤ
  bytesHaveSend : ℤ

namespace HttpConn

/-- The members outside the parser, of a connection. -/
def outside (conn : HttpConn) : Outside where
  sockfd := conn.sockfd
  writeBuf := conn.writeBuf
  writeIdx := conn.writeIdx
  realFile := conn.realFile
  fileAddress := conn.fileAddress
  fileStat := conn.fileStat
  iv0 := conn.iv0
  iv1 := conn.iv1
  ivCount := conn.ivCount
  string := conn.string
  bytesToSend := conn.bytesToSend
  bytesHaveSend := conn.bytesHaveSend

/-- The connection with other members outside the parser. -/
def withOutside (conn : HttpConn) (rest : Outside) : HttpConn :=
  { conn with
    sockfd := rest.sockfd
    writeBuf := rest.writeBuf
    writeIdx := rest.writeIdx
    realFile := rest.realFile
    fileAddress := rest.fileAddress
    fileStat := rest.fileStat
    iv0 := rest.iv0
    iv1 := rest.iv1
    ivCount := rest.ivCount
    string := rest.string
    bytesToSend := rest.bytesToSend
    bytesHaveSend := rest.bytesHaveSend }

theorem withOutside_outside (conn : HttpConn) : conn.withOutside conn.outside = conn := rfl

/-- Two initialised objects differ outside the parser only. -/
theorem init_eq_withOutside (conn other : HttpConn) :
    other.init = conn.init.withOutside other.init.outside := rfl

/-- The body has been read into `m_string`. -/
def HasBody (result : ReadResult) (conn : HttpConn) : Prop :=
  result = .callDoRequest ∧ conn.checkState = .content

instance (result : ReadResult) (conn : HttpConn) : Decidable (conn.HasBody result) :=
  inferInstanceAs (Decidable (_ ∧ _))

/-- Other members outside the parser, in the result of one of its functions. -/
def carry {α : Type} (rest : Outside) (result : α × HttpConn) : α × HttpConn :=
  (result.1, result.2.withOutside rest)

/-- The same for a result of `process_read`, which may have set `m_string`. -/
def keep (rest : Outside) (read : ReadResult × HttpConn) : ReadResult × HttpConn :=
  if read.2.HasBody read.1 then carry { rest with string := read.2.string } read else carry rest read

theorem bind_eq_map_bind {α β γ : Type} {first : Option α} {left : α → Option γ}
    {right : α → Option β} {change : β → γ} (each : ∀ value, left value = (right value).map change) :
    first.bind left = (first.bind right).map change := by
  cases first with
  | none => rfl
  | some value => exact each value

theorem ite_eq_map_ite {β γ : Type} {cond : Prop} [Decidable cond] {left left' : Option γ}
    {right right' : Option β} {change : β → γ} (holds : left = right.map change)
    (fails : left' = right'.map change) :
    (if cond then left else left') = (if cond then right else right').map change := by
  split_ifs
  · exact holds
  · exact fails

variable (conn : HttpConn) (rest : Outside)

theorem parseUrl_withOutside (url : ℕ) :
    (conn.withOutside rest).parseUrl url = (conn.parseUrl url).map (carry rest) := by
  simp only [parseUrl, bind]
  apply bind_eq_map_bind
  intro afterHttp
  apply bind_eq_map_bind
  intro afterHttps
  cases afterHttps with
  | none => rfl
  | some url =>
    apply bind_eq_map_bind
    intro first
    apply ite_eq_map_ite
    · rfl
    · apply bind_eq_map_bind
      intro length
      apply ite_eq_map_ite
      · apply bind_eq_map_bind
        intro readBuf
        rfl
      · rfl

theorem parseVersion_withOutside (url : ℕ) :
    (conn.withOutside rest).parseVersion url = (conn.parseVersion url).map (carry rest) := by
  simp only [parseVersion, bind]
  apply bind_eq_map_bind
  intro spaces
  apply bind_eq_map_bind
  intro found
  cases found with
  | none => rfl
  | some separator =>
    apply bind_eq_map_bind
    intro readBuf
    apply bind_eq_map_bind
    intro spaces
    apply bind_eq_map_bind
    intro supported
    apply ite_eq_map_ite
    · rw [← parseUrl_withOutside]
      rfl
    · rfl

theorem parseRequestLine_withOutside (text : ℕ) :
    (conn.withOutside rest).parseRequestLine text = (conn.parseRequestLine text).map (carry rest) := by
  simp only [parseRequestLine, bind]
  apply bind_eq_map_bind
  intro found
  cases found with
  | none => rfl
  | some separator =>
    apply bind_eq_map_bind
    intro readBuf
    apply bind_eq_map_bind
    intro isGet
    apply bind_eq_map_bind
    intro isPost
    apply ite_eq_map_ite
    · rw [← parseVersion_withOutside]
      rfl
    · apply ite_eq_map_ite
      · rw [← parseVersion_withOutside]
        rfl
      · rfl

theorem parseHeaders_withOutside (text : ℕ) :
    (conn.withOutside rest).parseHeaders text = (conn.parseHeaders text).map (carry rest) := by
  simp only [parseHeaders, bind]
  apply bind_eq_map_bind
  intro first
  apply ite_eq_map_ite
  · exact ite_eq_map_ite rfl rfl
  · apply bind_eq_map_bind
    intro isConnection
    apply bind_eq_map_bind
    intro isLength
    apply bind_eq_map_bind
    intro isHost
    apply ite_eq_map_ite
    · apply bind_eq_map_bind
      intro value
      apply bind_eq_map_bind
      intro keepAlive
      cases keepAlive <;> rfl
    · apply ite_eq_map_ite
      · apply bind_eq_map_bind
        intro value
        apply bind_eq_map_bind
        intro digits
        rfl
      · apply ite_eq_map_ite
        · apply bind_eq_map_bind
          intro value
          rfl
        · rfl

/-- The end of the header block leaves the check state as it is. -/
theorem checkState_of_parseHeaders {conn after : HttpConn} {text : ℕ}
    (parsed : conn.parseHeaders text = some (.getRequest, after)) : after.checkState = conn.checkState := by
  simp only [parseHeaders, bind, Option.bind_eq_some_iff] at parsed
  obtain ⟨_, _, parsed⟩ := parsed
  split_ifs at parsed
  · cases parsed
  · cases parsed
    rfl
  · simp only [Option.bind_eq_some_iff] at parsed
    obtain ⟨_, _, _, _, _, _, parsed⟩ := parsed
    split_ifs at parsed
    · simp only [Option.bind_eq_some_iff] at parsed
      obtain ⟨_, _, _, _, same⟩ := parsed
      cases same
    · simp only [Option.bind_eq_some_iff] at parsed
      obtain ⟨_, _, _, _, same⟩ := parsed
      cases same
    · simp only [Option.bind_eq_some_iff] at parsed
      obtain ⟨_, _, same⟩ := parsed
      cases same
    · cases parsed

/-- The content is the one part that sets a member outside the parser. -/
theorem parseContent_withOutside (text : ℕ) :
    (conn.withOutside rest).parseContent text = (conn.parseContent text).map fun result =>
      if result.1 = .getRequest then carry { rest with string := result.2.string } result
      else carry rest result := by
  simp only [parseContent]
  apply ite_eq_map_ite
  · rfl
  · apply ite_eq_map_ite
    · rw [Option.map_map]
      rfl
    · rfl

theorem checkState_of_parseContent {conn after : HttpConn} {text : ℕ} {ret : HttpCode}
    (parsed : conn.parseContent text = some (ret, after)) : after.checkState = conn.checkState := by
  simp only [parseContent] at parsed
  split_ifs at parsed
  · obtain ⟨_, _, same⟩ := Option.map_eq_some_iff.mp parsed
    cases same
    rfl
  · cases parsed
    rfl

/-- Other members outside the parser, in the result of the loop body of `process_read`. -/
def keepStep (rest : Outside) : LoopStep × HttpConn → LoopStep × HttpConn
  | (.finish result, conn) => (.finish result, (keep rest (result, conn)).2)
  | (.next lineStatus, conn) => (.next lineStatus, conn.withOutside rest)

theorem keep_of_not_hasBody (rest : Outside) {result : ReadResult} {conn : HttpConn}
    (noBody : ¬conn.HasBody result) : keep rest (result, conn) = (result, conn.withOutside rest) := if_neg noBody

theorem processLine_withOutside :
    (conn.withOutside rest).processLine = conn.processLine.map (keepStep rest) := by
  cases state : conn.checkState with
  | requestLine =>
    have moved := parseRequestLine_withOutside { conn with startLine := conn.checkedIdx } rest conn.startLine
    rw [processLine_requestLine conn state, processLine_requestLine (conn.withOutside rest) state]
    refine (congrArg (Option.map _) moved).trans ?_
    cases { conn with startLine := conn.checkedIdx }.parseRequestLine conn.startLine with
    | none => rfl
    | some parsed =>
      obtain ⟨ret, after⟩ := parsed
      cases ret <;> rfl
  | header =>
    have moved := parseHeaders_withOutside { conn with startLine := conn.checkedIdx } rest conn.startLine
    rw [processLine_header conn state, processLine_header (conn.withOutside rest) state]
    refine (congrArg (Option.map _) moved).trans ?_
    cases parsed : { conn with startLine := conn.checkedIdx }.parseHeaders conn.startLine with
    | none => rfl
    | some result =>
      obtain ⟨ret, after⟩ := result
      cases ret with
      | getRequest =>
        have stays := (checkState_of_parseHeaders parsed).trans state
        have noBody : ¬after.HasBody .callDoRequest := fun body => absurd (stays.symm.trans body.2) (by decide)
        have kept := congrArg Prod.snd (keep_of_not_hasBody rest noBody)
        exact congrArg (fun after => some (LoopStep.finish .callDoRequest, after)) kept.symm
      | _ => rfl
  | content =>
    have moved := parseContent_withOutside { conn with startLine := conn.checkedIdx } rest conn.startLine
    rw [processLine_ofContent conn state, processLine_ofContent (conn.withOutside rest) state]
    refine (congrArg (Option.map _) moved).trans ?_
    cases parsed : { conn with startLine := conn.checkedIdx }.parseContent conn.startLine with
    | none => rfl
    | some result =>
      obtain ⟨ret, after⟩ := result
      cases ret with
      | getRequest =>
        have body : after.HasBody .callDoRequest := ⟨rfl, (checkState_of_parseContent parsed).trans state⟩
        simp only [Option.map_some, carry, keepStep, ↓reduceIte, keep, if_pos body]
      | _ => rfl

/-! ## Whole calls and deliveries -/

theorem parseLineLoop_withOutside (fuel : ℕ) :
    parseLineLoop fuel (conn.withOutside rest) = carry rest (parseLineLoop fuel conn) := by
  induction fuel generalizing conn with
  | zero => rfl
  | succ fuel ih =>
    have next := ih { conn with checkedIdx := conn.checkedIdx + 1 }
    simp only [parseLineLoop, apply_ite (carry rest)]
    refine if_congr Iff.rfl (if_congr Iff.rfl rfl (if_congr Iff.rfl rfl rfl)) ?_
    exact if_congr Iff.rfl (if_congr Iff.rfl rfl rfl) next

theorem loopCondition_withOutside (lineStatus : LineStatus) :
    (conn.withOutside rest).loopCondition lineStatus = carry rest (conn.loopCondition lineStatus) := by
  have state : (conn.withOutside rest).checkState = conn.checkState := rfl
  rw [loopCondition, loopCondition, state]
  split_ifs
  · rfl
  · exact parseLineLoop_withOutside conn rest _

theorem processReadLoop_withOutside (fuel : ℕ) (lineStatus : LineStatus) :
    processReadLoop fuel lineStatus (conn.withOutside rest) =
      (processReadLoop fuel lineStatus conn).map (keep rest) := by
  induction fuel generalizing conn lineStatus with
  | zero => rfl
  | succ fuel ih =>
    have condition := loopCondition_withOutside conn rest lineStatus
    simp only [processReadLoop, bind]
    rw [condition]
    apply ite_eq_map_ite
    · have line := processLine_withOutside (conn.loopCondition lineStatus).2 rest
      refine (congrArg (Option.bind · _) line).trans ?_
      cases (conn.loopCondition lineStatus).2.processLine with
      | none => rfl
      | some result =>
        obtain ⟨taken, after⟩ := result
        cases taken with
        | finish result =>
          by_cases body : after.HasBody result
          · simp only [Option.map_some, keepStep, Option.bind_some, keep, if_pos body]
            rfl
          · simp only [Option.map_some, keepStep, Option.bind_some, keep_of_not_hasBody _ body]
        | next status => exact ih after status
    · rfl

theorem processRead_withOutside :
    (conn.withOutside rest).processRead = conn.processRead.map (keep rest) :=
  processReadLoop_withOutside conn rest _ _

theorem readOnce_withOutside (available : Bytes) :
    (conn.withOutside rest).readOnce available = carry rest (conn.readOnce available) := by
  simp only [readOnce, apply_ite (carry rest)]
  exact if_congr Iff.rfl rfl (if_congr Iff.rfl rfl rfl)

theorem deliver_withOutside (available : Bytes) :
    (conn.withOutside rest).deliver available = (conn.deliver available).map (keep rest) := by
  rw [deliver, readOnce_withOutside]
  exact processRead_withOutside _ rest

/-- Deliveries are the same whatever is outside the parser. -/
theorem deliverAll_withOutside (pieces : List Bytes) :
    (conn.withOutside rest).deliverAll pieces = (conn.deliverAll pieces).map (keep rest) := by
  induction pieces generalizing conn with
  | nil => rfl
  | cons piece pieces ih =>
    simp only [deliverAll, bind]
    rw [deliver_withOutside]
    cases conn.deliver piece with
    | none => rfl
    | some read =>
      obtain ⟨result, after⟩ := read
      by_cases waiting : result = .code .noRequest
      · subst waiting
        exact ih after
      · by_cases body : after.HasBody result
        · simp only [Option.map_some, Option.bind_some, keep, if_pos body, carry, if_neg waiting]
        · simp only [Option.map_some, Option.bind_some, keep_of_not_hasBody _ body, if_neg waiting]

private theorem outside_of_keep {rest : Outside} {result : ReadResult} {after : HttpConn}
    (same : (result, after) = keep rest (result, after)) :
    after.outside = if after.HasBody result then { rest with string := after.string } else rest := by
  split_ifs with body
  · rw [keep, if_pos body] at same
    exact congrArg (fun read => outside read.2) same
  · rw [keep_of_not_hasBody _ body] at same
    exact congrArg (fun read => outside read.2) same

/-- A call leaves everything outside the parser as it is, but for `m_string` when there is a body. -/
theorem outside_of_processRead {conn after : HttpConn} {result : ReadResult}
    (read : conn.processRead = some (result, after)) :
    after.outside =
      if after.HasBody result then { conn.outside with string := after.string } else conn.outside := by
  have kept := processRead_withOutside conn conn.outside
  rw [withOutside_outside, read] at kept
  exact outside_of_keep (Option.some.inj kept)

/-- So do deliveries. -/
theorem outside_of_deliverAll {conn after : HttpConn} {pieces : List Bytes} {result : ReadResult}
    (read : conn.deliverAll pieces = some (result, after)) :
    after.outside =
      if after.HasBody result then { conn.outside with string := after.string } else conn.outside := by
  have kept := deliverAll_withOutside conn conn.outside pieces
  rw [withOutside_outside, read] at kept
  exact outside_of_keep (Option.some.inj kept)

end HttpConn

end WebServ.Http
