import WebServ.Model.Process
import WebServ.Proofs.RequestLoop
import WebServ.Proofs.RequestedPage
import WebServ.Proofs.Response

/-! # Which requests are answered

Every outcome of the parser and of `do_request` is looked up in the switch of `process_write`. The error
pages and files with contents have a branch that succeeds. A missing file has none, and the branch of an
empty file falls through into the default: in both cases the connection is closed without a response.
-/

namespace WebServ.Http

open WebServ.Text

namespace HttpConn

/-! ## The response builder -/

theorem addResponse_writeIdx_le (conn : HttpConn) (text : Bytes) :
    (conn.addResponse text).2.writeIdx ≤ conn.writeIdx + text.length := by
  rw [addResponse]
  dsimp only
  split_ifs <;> dsimp only <;> omega

theorem addResponse_writeIdx_lt {conn : HttpConn} (inside : conn.writeIdx < writeBufferSize) (text : Bytes) :
    (conn.addResponse text).2.writeIdx < writeBufferSize := by
  rw [addResponse]
  dsimp only
  split_ifs <;> dsimp only <;> omega

/-- A text that fits is added. -/
theorem addResponse_eq_true {conn : HttpConn} {text : Bytes}
    (fits : conn.writeIdx + text.length < writeBufferSize - 1) :
    (conn.addResponse text).1 = true ∧ (conn.addResponse text).2.writeIdx = conn.writeIdx + text.length := by
  have size : writeBufferSize = 1024 := rfl
  rw [addResponse]
  dsimp only
  rw [if_neg (by omega), if_neg (by omega), if_neg (by omega)]
  exact ⟨rfl, rfl⟩

/-- The room a header block takes at most. -/
theorem addHeaders_writeIdx_le (conn : HttpConn) (contentLen : ℤ) :
    (conn.addHeaders contentLen).writeIdx ≤ conn.writeIdx + (decimal (toInt contentLen)).length + 41 := by
  have length := conn.addResponse_writeIdx_le
    (ascii "Content-Length:" ++ decimal (toInt contentLen) ++ ascii "\r\n")
  have linger := (conn.addContentLength (toInt contentLen)).addResponse_writeIdx_le
    (ascii "Connection:" ++ (if (conn.addContentLength (toInt contentLen)).linger then ascii "keep-live"
      else ascii "close") ++ ascii "\r\n")
  have blank := (conn.addContentLength (toInt contentLen)).addLinger.addResponse_writeIdx_le (ascii "\r\n")
  have word : ∀ kept : Bool, (if kept then ascii "keep-live" else ascii "close").length ≤ 9 := by decide
  have kept := word (conn.addContentLength (toInt contentLen)).linger
  have literals : (ascii "Content-Length:").length = 15 ∧ (ascii "Connection:").length = 11 ∧
      (ascii "\r\n").length = 2 := by decide
  simp only [List.length_append, literals] at length linger blank
  rw [← addContentLength] at length
  rw [← addLinger] at linger
  rw [← addBlankLine, ← addHeaders] at blank
  omega

theorem addStatusLine_writeIdx_le (conn : HttpConn) (status : ℤ) (title : Bytes) :
    (conn.addStatusLine status title).writeIdx ≤
      conn.writeIdx + (decimal status).length + title.length + 12 := by
  have line := conn.addResponse_writeIdx_le
    (ascii "HTTP/1.1 " ++ decimal status ++ ascii " " ++ title ++ ascii "\r\n")
  have literals : (ascii "HTTP/1.1 ").length = 9 ∧ (ascii " ").length = 1 ∧ (ascii "\r\n").length = 2 := by
    decide
  simp only [List.length_append, literals] at line
  rw [← addStatusLine] at line
  omega

theorem addHeaders_writeIdx_lt {conn : HttpConn} (inside : conn.writeIdx < writeBufferSize)
    (contentLen : ℤ) : (conn.addHeaders contentLen).writeIdx < writeBufferSize := by
  apply addResponse_writeIdx_lt
  apply addResponse_writeIdx_lt
  exact addResponse_writeIdx_lt inside _

/-- A page that fits in the write buffer is sent. -/
theorem errorPage_answers {conn : HttpConn} {status : ℤ} {title form : Bytes} (empty : conn.writeIdx = 0)
    (short : (decimal status).length + title.length + (decimal (toInt form.length)).length + form.length <
      writeBufferSize - 54) (nonempty : form ≠ []) :
    (conn.errorPage status title form).1 = true ∧
      0 < (conn.errorPage status title form).2.bytesToSend := by
  have size : writeBufferSize = 1024 := rfl
  have line := conn.addStatusLine_writeIdx_le status title
  have headers := (conn.addStatusLine status title).addHeaders_writeIdx_le form.length
  have fits : ((conn.addStatusLine status title).addHeaders form.length).writeIdx + form.length <
      writeBufferSize - 1 := by omega
  obtain ⟨added, length⟩ := addResponse_eq_true fits
  have present := List.length_pos_iff.mpr nonempty
  rw [errorPage]
  dsimp only
  rw [addContent, if_pos added]
  refine ⟨rfl, Int.natCast_pos.mpr ?_⟩
  rw [length]
  omega

/-- A file with contents is sent behind its header. -/
theorem processWrite_file_answers {conn : HttpConn} (empty : conn.writeIdx = 0)
    (sized : conn.fileStat.size < 2 ^ 31 - writeBufferSize) (nonempty : conn.fileStat.size ≠ 0) :
    (conn.processWrite .fileRequest).1 = true ∧ 0 < (conn.processWrite .fileRequest).2.bytesToSend := by
  have stat : (conn.addStatusLine 200 ok200Title).fileStat = conn.fileStat := (addResponse_sameFile _ _).1
  have kept := (addHeaders_sameFile (conn.addStatusLine 200 ok200Title) conn.fileStat.size).1
  have inside : (conn.addStatusLine 200 ok200Title).writeIdx < writeBufferSize :=
    addResponse_writeIdx_lt (by rw [empty]; decide) _
  have size : writeBufferSize = 1024 := rfl
  have header := addHeaders_writeIdx_lt inside conn.fileStat.size
  rw [processWrite]
  dsimp only
  rw [stat, if_pos nonempty]
  refine ⟨rfl, ?_⟩
  rw [kept, stat, ← Nat.cast_add, toInt_natCast (by omega)]
  dsimp only
  omega

/-- Outcomes of `process_read` with a branch of `process_write` that succeeds. -/
theorem processWrite_answers_iff {conn : HttpConn} {ret : HttpCode} (empty : conn.writeIdx = 0)
    (sized : ret = .fileRequest → conn.fileStat.size < 2 ^ 31 - writeBufferSize) :
    (conn.processWrite ret).1 = true ∧ 0 < (conn.processWrite ret).2.bytesToSend ↔
      ret = .internalError ∨ ret = .badRequest ∨ ret = .forbiddenRequest ∨
        (ret = .fileRequest ∧ conn.fileStat.size ≠ 0) := by
  cases ret with
  | internalError =>
    rw [processWrite]
    exact iff_of_true (errorPage_answers empty (by decide) (by decide)) (by simp)
  | badRequest =>
    rw [processWrite]
    exact iff_of_true (errorPage_answers empty (by decide) (by decide)) (by simp)
  | forbiddenRequest =>
    rw [processWrite]
    exact iff_of_true (errorPage_answers empty (by decide) (by decide)) (by simp)
  | fileRequest =>
    by_cases nonempty : conn.fileStat.size = 0
    · have stat : (conn.addStatusLine 200 ok200Title).fileStat = conn.fileStat := (addResponse_sameFile _ _).1
      apply iff_of_false
      · rw [processWrite]
        dsimp only
        rw [stat, if_neg (not_not.mpr nonempty)]
        exact fun both => Bool.false_ne_true both.1
      · simp [nonempty]
    · exact iff_of_true (processWrite_file_answers empty (sized rfl) nonempty) (by simp [nonempty])
  | noRequest => exact iff_of_false (fun both => Bool.false_ne_true both.1) (by simp)
  | getRequest => exact iff_of_false (fun both => Bool.false_ne_true both.1) (by simp)
  | noResource => exact iff_of_false (fun both => Bool.false_ne_true both.1) (by simp)
  | closedConnection => exact iff_of_false (fun both => Bool.false_ne_true both.1) (by simp)

/-- The builder does not touch the socket. -/
theorem processWrite_sockfd (conn : HttpConn) (ret : HttpCode) :
    (conn.processWrite ret).2.sockfd = conn.sockfd := by
  obtain ⟨_, _, _, _, _, _, same⟩ := conn.processWrite_frame ret
  rw [same]

/-! ## The end of `do_request` -/

/-- The last part of `do_request`, by what `stat` says of the path. -/
theorem serveFile_answer {conn : HttpConn} {tree : FileTree} {registry : Registry} {outcome : Outcome}
    {path : Bytes} (found : conn.realFile.cstr 0 = some path)
    (served : conn.serveFile tree registry = some outcome) :
    match tree.stat path with
    | none => outcome.code = .noResource ∧ outcome.conn = conn
    | some fileStat =>
      (fileStat.otherRead = false ∧ outcome.code = .forbiddenRequest ∧ outcome.conn = { conn with fileStat }) ∨
      (fileStat.directory = true ∧ outcome.code = .badRequest ∧ outcome.conn = { conn with fileStat }) ∨
      (fileStat.otherRead = true ∧ fileStat.directory = false ∧ outcome.code = .fileRequest ∧
        outcome.conn = { conn with fileStat, fileAddress := tree.mmap path }) := by
  simp only [serveFile, found, bind, Option.bind_some] at served
  cases stat : tree.stat path with
  | none =>
    rw [stat] at served
    cases served
    exact ⟨rfl, rfl⟩
  | some fileStat =>
    simp only [stat] at served
    split_ifs at served with unreadable isDirectory
    · cases served
      exact Or.inl ⟨by simpa using unreadable, rfl, rfl⟩
    · cases served
      exact Or.inr (Or.inl ⟨isDirectory, rfl, rfl⟩)
    · cases served
      exact Or.inr (Or.inr ⟨by simpa using unreadable, by simpa using isDirectory, rfl, rfl⟩)

end HttpConn

/-! ## The whole of `process` -/

/-- The connection is as open as before and a complete response is pending. -/
def Processed.Answers (done : Processed) (conn : HttpConn) : Prop :=
  done.conn.sockfd = conn.sockfd ∧ done.written = some true ∧ 0 < done.conn.bytesToSend

instance (done : Processed) (conn : HttpConn) : Decidable (done.Answers conn) :=
  inferInstanceAs (Decidable (_ ∧ _))

/-- The request is rejected by the parser, or the file it asks for exists and is forbidden, a directory, or
not empty. -/
def HasAnswer (tree : FileTree) (query : Bytes → ℤ) (registry : Registry) :
    ReadResult × HttpConn → Prop
  | (.code code, _) => code = .badRequest
  | (.callDoRequest, conn) => ∃ after page fileStat,
      conn.target query registry = some (after, page) ∧ tree.stat (docRoot ++ page) = some fileStat ∧
      (fileStat.otherRead = false ∨ fileStat.directory = true ∨ fileStat.size ≠ 0)
  | (.unfinished, _) => False

namespace HttpConn

theorem not_hasBody_code (conn : HttpConn) (code : HttpCode) : ¬conn.HasBody (.code code) :=
  fun body => nomatch body.1

theorem outside_readOnce (conn : HttpConn) (available : Bytes) :
    (conn.readOnce available).2.outside = conn.outside := by
  simp only [readOnce]
  split_ifs <;> rfl

/-- A connection that is still waiting for its first whole request, read once more: outside the parser it is
as `init` has left it, but for `m_string`. -/
theorem outside_of_waiting {start conn called : HttpConn} {earlier : List Bytes} {piece : Bytes}
    {result : ReadResult} (waits : start.init.deliverAll earlier = some (.code .noRequest, conn))
    (parsed : conn.deliver piece = some (result, called)) :
    called.realFile = .zero ∧ called.writeIdx = 0 ∧ called.sockfd = conn.sockfd := by
  have before := outside_of_deliverAll waits
  rw [if_neg (not_hasBody_code conn _)] at before
  have after := outside_of_processRead parsed
  rw [outside_readOnce] at after
  have kept : called.realFile = conn.realFile ∧ called.writeIdx = conn.writeIdx ∧
      called.sockfd = conn.sockfd := by
    split_ifs at after
    · exact ⟨congrArg Outside.realFile after, congrArg Outside.writeIdx after,
        congrArg Outside.sockfd after⟩
    · exact ⟨congrArg Outside.realFile after, congrArg Outside.writeIdx after,
        congrArg Outside.sockfd after⟩
  exact ⟨kept.1.trans (congrArg Outside.realFile before), kept.2.1.trans (congrArg Outside.writeIdx before),
    kept.2.2⟩

/-- A result that is not `NO_REQUEST` is answered if the response builder has a branch for it. -/
theorem respond_answers_iff {conn called : HttpConn} {registry : Registry} {ret : HttpCode}
    (pending : ret ≠ .noRequest) (empty : called.writeIdx = 0) (sockfd : called.sockfd = conn.sockfd)
    (sized : ret = .fileRequest → called.fileStat.size < 2 ^ 31 - writeBufferSize) :
    (called.respond registry ret).Answers conn ↔
      ret = .internalError ∨ ret = .badRequest ∨ ret = .forbiddenRequest ∨
        (ret = .fileRequest ∧ called.fileStat.size ≠ 0) := by
  have kept := processWrite_sockfd called ret
  rw [← processWrite_answers_iff empty sized, respond, if_neg pending]
  generalize called.processWrite ret = page at kept
  obtain ⟨written, built⟩ := page
  constructor
  · rintro ⟨_, isWritten, some⟩
    cases Option.some.inj isWritten
    exact ⟨rfl, some⟩
  · rintro ⟨isWritten, some⟩
    cases isWritten
    exact ⟨kept.trans sockfd, rfl, some⟩

/-- The parts of a defined call. -/
theorem process_eq_some {conn : HttpConn} {tree : FileTree} {query : Bytes → ℤ} {registry : Registry}
    {read : ReadResult × HttpConn} {done : Processed} (parsed : conn.processRead = some read)
    (ran : conn.process tree query registry = some done) :
    ∃ ret after users, answerRead tree query registry read = some (ret, after, users) ∧
      done = after.respond users ret := by
  simp only [process, parsed, bind, Option.bind_some] at ran
  obtain ⟨⟨ret, after, users⟩, answered, same⟩ := Option.bind_eq_some_iff.mp ran
  exact ⟨ret, after, users, answered, (Option.some.inj same).symm⟩

end HttpConn

theorem hasAnswer_iff {tree : FileTree} {query : Bytes → ℤ} {registry users : Registry} {called : HttpConn}
    {page : Bytes} (asked : called.target query registry = some (users, page)) :
    HasAnswer tree query registry (.callDoRequest, called) ↔
      ∃ fileStat, tree.stat (docRoot ++ page) = some fileStat ∧
        (fileStat.otherRead = false ∨ fileStat.directory = true ∨ fileStat.size ≠ 0) := by
  constructor
  · rintro ⟨after, other, fileStat, found, rest⟩
    cases asked.symm.trans found
    exact ⟨fileStat, rest⟩
  · rintro ⟨fileStat, rest⟩
    exact ⟨users, page, fileStat, asked, rest⟩

/-- A connection waits for a request after any number of reads, and one more read brings process_read to a
result: a complete response is left pending exactly if the request is rejected, or the file it asks for
exists and is forbidden, a directory, or not empty. -/
theorem answers_iff_hasAnswer (start conn : HttpConn) (earlier : List Bytes) (piece : Bytes)
    (tree : FileTree) (query : Bytes → ℤ) (registry : Registry) (read : ReadResult × HttpConn)
    (done : Processed) (waits : start.init.deliverAll earlier = some (.code .noRequest, conn))
    (parsed : conn.deliver piece = some read)
    (sized : ∀ path fileStat, tree.stat path = some fileStat → fileStat.otherRead = true →
      fileStat.directory = false → fileStat.size < 2 ^ 31 - writeBufferSize)
    (ran : (conn.readOnce piece).2.process tree query registry = some done)
    (resolved : done.code ≠ .noRequest) :
    done.Answers conn ↔ HasAnswer tree query registry read := by
  obtain ⟨result, called⟩ := read
  obtain ⟨zero, empty, sockfd⟩ := HttpConn.outside_of_waiting waits parsed
  obtain ⟨ret, after, users, answered, rfl⟩ := HttpConn.process_eq_some parsed ran
  have code : (after.respond users ret).code = ret := by
    rw [HttpConn.respond]
    split_ifs <;> rfl
  rw [code] at resolved
  rcases HttpConn.processRead_result parsed with rfl | rfl | rfl
  · cases answered
    exact absurd rfl resolved
  · cases answered
    rw [HttpConn.respond_answers_iff resolved empty sockfd nofun]
    exact iff_of_true (Or.inr (Or.inl rfl)) rfl
  · obtain ⟨outcome, served, same⟩ := Option.map_eq_some_iff.mp answered
    cases same
    obtain ⟨page, realFile, readBuf, asked, behindRoot, last⟩ := HttpConn.doRequest_target zero served
    have answer := HttpConn.serveFile_answer behindRoot last
    rw [hasAnswer_iff asked]
    cases stat : tree.stat (docRoot ++ page) with
    | none =>
      rw [stat] at answer
      obtain ⟨missing, moved⟩ := answer
      rw [missing] at resolved ⊢
      rw [HttpConn.respond_answers_iff resolved (by rw [moved, empty]) (by rw [moved, sockfd]) nofun]
      exact iff_of_false (by simp) nofun
    | some fileStat =>
      simp only [stat] at answer
      have only : ∀ kind : FileStat → Prop,
          (∃ found, some fileStat = some found ∧ kind found) ↔ kind fileStat := by simp
      rw [only]
      rcases answer with ⟨forbidden, code, moved⟩ | ⟨directory, code, moved⟩ |
        ⟨readable, regular, code, moved⟩
      · rw [code] at resolved ⊢
        rw [HttpConn.respond_answers_iff resolved (by rw [moved, empty]) (by rw [moved, sockfd]) nofun]
        exact iff_of_true (by simp) (Or.inl forbidden)
      · rw [code] at resolved ⊢
        rw [HttpConn.respond_answers_iff resolved (by rw [moved, empty]) (by rw [moved, sockfd]) nofun]
        exact iff_of_true (by simp) (Or.inr (Or.inl directory))
      · rw [code] at resolved ⊢
        rw [HttpConn.respond_answers_iff resolved (by rw [moved, empty]) (by rw [moved, sockfd])
          fun _ => by rw [moved]; exact sized _ _ stat readable regular, moved]
        simp [readable, regular]

/-! ## Three requests -/

/-- A site with a file, an empty file and nothing else. -/
private def twoFiles : FileTree where
  stat path := if path = docRoot ++ ascii "/a" then some ⟨5, true, false⟩
    else if path = docRoot ++ ascii "/empty" then some ⟨0, true, false⟩ else none
  mmap path := if path = docRoot ++ ascii "/empty" then .failed else .mapped 0

private theorem twoFiles_sized (path : Bytes) (fileStat : FileStat)
    (found : twoFiles.stat path = some fileStat) : fileStat.size < 2 ^ 31 - writeBufferSize := by
  simp only [twoFiles] at found
  split_ifs at found <;> cases found <;> decide

/-- A connection on descriptor 5 that has received some bytes. -/
private def asking (bytes : Bytes) : HttpConn := ((HttpConn.blank.accept 5).readOnce bytes).2

/-- A request for the file, cut in two. -/
theorem answers_iff_hasAnswer_cut :
    ∃ (conn : HttpConn) (read : ReadResult × HttpConn) (done : Processed),
      done.Answers conn ↔ HasAnswer twoFiles (fun _ => 0) (.loaded []) read :=
  ⟨_, _, _, answers_iff_hasAnswer { HttpConn.blank with sockfd := some 5 } _ [ascii "GET /a HT"]
    (ascii "TP/1.1\r\n\r\n") twoFiles (fun _ => 0) (.loaded []) _ _
    (eq_some_of_fst .blank (by decide +kernel))
    (eq_some_of_fst .blank (show Option.map _ _ = some .callDoRequest by decide +kernel))
    (fun path fileStat found _ _ => twoFiles_sized path fileStat found)
    (Option.some_get (by decide +kernel)).symm (by decide +kernel)⟩

/-- Requests for a missing file and for an empty file: the connection is closed without a response. -/
theorem dropped_without_response :
    ∃ missing empty, (asking (ascii "GET /b HTTP/1.1\r\n\r\n")).sockfd = some 5 ∧
      (asking (ascii "GET /b HTTP/1.1\r\n\r\n")).process twoFiles (fun _ => 0) (.loaded []) =
        some missing ∧
      missing.code = .noResource ∧ missing.conn.sockfd = none ∧
      ¬missing.Answers (asking (ascii "GET /b HTTP/1.1\r\n\r\n")) ∧
      (asking (ascii "GET /empty HTTP/1.1\r\n\r\n")).process twoFiles (fun _ => 0) (.loaded []) =
        some empty ∧
      empty.code = .fileRequest ∧ empty.conn.sockfd = none ∧
      ¬empty.Answers (asking (ascii "GET /empty HTTP/1.1\r\n\r\n")) :=
  ⟨_, _, by decide +kernel, (Option.some_get (by decide +kernel)).symm, by decide +kernel,
    by decide +kernel, by decide +kernel, (Option.some_get (by decide +kernel)).symm, by decide +kernel,
    by decide +kernel, by decide +kernel⟩

end WebServ.Http
