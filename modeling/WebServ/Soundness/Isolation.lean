import WebServ.Model.Process
import WebServ.Proofs.RequestLoop
import WebServ.Proofs.RequestedPage
import WebServ.Soundness.Segmentation

/-! # What a request learns of the ones before it

The same object serves one request after another, and `init` resets every member that the parser or
`do_request` reads, but for `m_string`. So two histories of the object can be told apart by a request only
through the credentials, and only if they are read without a body having been received: by a POST whose
last segment begins with 2 or 3 and whose header block leaves no content length. Every other request is
handled alike whatever the object has served before.
-/

namespace WebServ.Http

open WebServ.Text

/-- Everything a request is handled by: the pointer the credentials are read through, if they are, and the
result of `process_read`, the path and the users at its end. The outer `none` is undefined behaviour of the
parser, the inner of `do_request`. -/
structure Handled where
  reads : Option (Option ℕ)
  result : Option (HttpCode × Buffer filenameLen × Registry)

namespace HttpConn

/-- `do_request` goes on to read name and password. -/
def ReadsCredentials (conn : HttpConn) : Prop :=
  conn.cgi = 1 ∧ (conn.action = some '2'.toUInt8 ∨ conn.action = some '3'.toUInt8)

instance (conn : HttpConn) : Decidable conn.ReadsCredentials := inferInstanceAs (Decidable (_ ∧ _))

/-- The request delivered to the object as `init` leaves it. -/
def handled (tree : FileTree) (query : Bytes → ℤ) (registry : Registry) (start : HttpConn)
    (pieces : List Bytes) : Option Handled :=
  (start.init.deliverAll pieces).map fun read =>
    { reads := if read.1 = .callDoRequest ∧ read.2.ReadsCredentials then some read.2.string else none
      result := (answerRead tree query registry read).map fun (ret, conn, users) =>
        (ret, conn.realFile, users) }

/-! ## `do_request` outside the parser -/

/-- Other members outside the parser, but for the path. -/
def elsewhere (conn : HttpConn) (rest : Outside) : HttpConn :=
  conn.withOutside { rest with realFile := conn.realFile }

private theorem map_bind_congr {α β γ δ : Type} {first : Option α} {left : α → Option β}
    {right : α → Option γ} {change : β → δ} {other : γ → δ}
    (each : ∀ value, first = some value → (left value).map change = (right value).map other) :
    (first.bind left).map change = (first.bind right).map other := by
  cases first with
  | none => rfl
  | some value => exact each value rfl

theorem routeFile_elsewhere (conn : HttpConn) (rest : Outside) (url : ℕ) (action : UInt8) :
    (conn.elsewhere rest).routeFile url action = (conn.routeFile url action).map (elsewhere · rest) := by
  simp only [routeFile, bind]
  cases routePage action with
  | some page =>
    apply bind_eq_map_bind
    intro realFile
    rfl
  | none =>
    apply bind_eq_map_bind
    intro text
    apply bind_eq_map_bind
    intro realFile
    rfl

theorem cgiRequest_elsewhere {conn : HttpConn} {rest : Outside} (string : rest.string = conn.string)
    (query : Bytes → ℤ) (registry : Registry) (url : ℕ) (action : UInt8) :
    cgiRequest query registry url action (conn.elsewhere rest) =
      (cgiRequest query registry url action conn).map fun after => (after.1, after.2.elsewhere rest) := by
  have user : (conn.elsewhere rest).credentials = conn.credentials := by
    simp only [credentials, elsewhere, withOutside, string]
  have copied : (conn.elsewhere rest).copyAction url = conn.copyAction url := rfl
  simp only [cgiRequest, bind]
  rw [user, copied]
  apply bind_eq_map_bind
  intro realFile
  apply bind_eq_map_bind
  intro user
  apply ite_eq_map_ite
  · apply bind_eq_map_bind
    intro sql
    apply bind_eq_map_bind
    intro readBuf
    rfl
  · apply bind_eq_map_bind
    intro readBuf
    rfl

/-- What is seen of a call of `do_request`. -/
def seen (outcome : Outcome) : HttpCode × Buffer filenameLen × Registry :=
  (outcome.code, outcome.conn.realFile, outcome.registry)

theorem serveFile_elsewhere (conn : HttpConn) (rest : Outside) (tree : FileTree) (registry : Registry) :
    ((conn.elsewhere rest).serveFile tree registry).map seen =
      (conn.serveFile tree registry).map seen := by
  have path : (conn.elsewhere rest).realFile = conn.realFile := rfl
  simp only [serveFile, bind, path]
  cases conn.realFile.cstr 0 with
  | none => rfl
  | some path =>
    simp only [Option.bind_some]
    cases tree.stat path with
    | none => rfl
    | some fileStat =>
      simp only
      split_ifs <;> rfl

theorem cgiPart_elsewhere (conn : HttpConn) (rest : Outside) (action : UInt8)
    (string : conn.cgi = 1 ∧ (action = '2'.toUInt8 ∨ action = '3'.toUInt8) → rest.string = conn.string)
    (query : Bytes → ℤ) (registry : Registry) (url : ℕ) :
    cgiPart query registry url action (conn.elsewhere rest) =
      (cgiPart query registry url action conn).map fun after => (after.1, after.2.elsewhere rest) := by
  have cgi : (conn.elsewhere rest).cgi = conn.cgi := rfl
  rw [cgiPart, cgiPart, cgi]
  by_cases isCgi : conn.cgi = 1 ∧ (action = '2'.toUInt8 ∨ action = '3'.toUInt8)
  · rw [if_pos isCgi, if_pos isCgi]
    exact cgiRequest_elsewhere (string isCgi) query registry url action
  · rw [if_neg isCgi, if_neg isCgi]
    rfl

/-- `do_request` does not depend on what is outside the parser, but for `m_string` where it reads the
credentials. -/
theorem doRequest_elsewhere {conn : HttpConn} {rest : Outside}
    (string : conn.ReadsCredentials → rest.string = conn.string) (tree : FileTree) (query : Bytes → ℤ)
    (registry : Registry) :
    ((conn.elsewhere rest).doRequest tree query registry).map seen =
      (conn.doRequest tree query registry).map seen := by
  simp only [doRequest, bind]
  apply map_bind_congr
  intro realFile _
  apply map_bind_congr
  intro url _
  apply map_bind_congr
  intro behind place
  apply map_bind_congr
  intro action loaded
  have place : conn.behindSlash = some behind := place
  have here : conn.action = some action := by rw [HttpConn.action, place, Option.bind_some]; exact loaded
  have cgi := cgiPart_elsewhere { conn with realFile } rest action (fun isCgi => string ⟨isCgi.1, by
    rw [here, Option.some.injEq, Option.some.injEq]
    exact isCgi.2⟩) query registry url
  refine (congrArg (fun after => Option.map seen (Option.bind after _)) cgi).trans ?_
  cases cgiPart query registry url action { conn with realFile } with
  | none => rfl
  | some after =>
    simp only [Option.map_some, Option.bind_some]
    apply map_bind_congr
    intro again _
    rw [routeFile_elsewhere]
    cases after.2.routeFile url again with
    | none => rfl
    | some routed => exact serveFile_elsewhere routed rest tree after.1

/-- What a delivery ends with is handled alike, but for the credentials. -/
theorem answerRead_withOutside (result : ReadResult) (called : HttpConn) (rest : Outside)
    (path : rest.realFile = called.realFile)
    (string : result = .callDoRequest → called.ReadsCredentials → rest.string = called.string)
    (tree : FileTree) (query : Bytes → ℤ) (registry : Registry) :
    (answerRead tree query registry (result, called.withOutside rest)).map
        (fun (ret, conn, users) => (ret, conn.realFile, users)) =
      (answerRead tree query registry (result, called)).map
        fun (ret, conn, users) => (ret, conn.realFile, users) := by
  have same : called.withOutside rest = called.elsewhere rest := by rw [elsewhere, ← path]
  rw [same]
  cases result with
  | code code => rfl
  | unfinished => rfl
  | callDoRequest =>
    have alike := doRequest_elsewhere (string rfl) tree query registry
    simp only [answerRead, Option.map_map]
    exact alike

/-- A request that reads the credentials only behind a body is handled alike after any two histories. -/
theorem handled_congr {tree : FileTree} {query : Bytes → ℤ} {registry : Registry} {pieces : List Bytes}
    (first second : HttpConn)
    (behindBody : ∀ called, first.init.deliverAll pieces = some (.callDoRequest, called) →
      called.ReadsCredentials → called.HasBody .callDoRequest) :
    handled tree query registry second pieces = handled tree query registry first pieces := by
  have moved := deliverAll_withOutside first.init second.init.outside pieces
  rw [handled, handled, init_eq_withOutside first second, moved, Option.map_map]
  cases ran : first.init.deliverAll pieces with
  | none => rfl
  | some read =>
    obtain ⟨result, called⟩ := read
    have path : called.realFile = .zero := deliverAll_realFile ran
    simp only [Option.map_some, Function.comp_apply]
    by_cases body : called.HasBody result
    · have alike := answerRead_withOutside result called
        { second.init.outside with string := called.string } path.symm (fun _ _ => rfl) tree query registry
      rw [keep, if_pos body]
      simp only [carry, alike]
      rfl
    · have stale : ¬(result = .callDoRequest ∧ called.ReadsCredentials) := by
        rintro ⟨rfl, asks⟩
        exact body (behindBody called ran asks)
      have alike := answerRead_withOutside result called second.init.outside path.symm
        (fun isCall asks => absurd ⟨isCall, asks⟩ stale) tree query registry
      have reads : ¬(result = .callDoRequest ∧ (called.withOutside second.init.outside).ReadsCredentials) :=
        stale
      rw [keep_of_not_hasBody _ body]
      simp only [if_neg stale, if_neg reads, alike]

end HttpConn

/-! ## In terms of the bytes -/

/-- A POST whose last segment begins with 2 or 3. -/
def Request.AsksCredentials (request : Request) : Prop :=
  request.cgi = 1 ∧ (urlAction request.url = some '2'.toUInt8 ∨ urlAction request.url = some '3'.toUInt8)

instance (request : Request) : Decidable request.AsksCredentials := inferInstanceAs (Decidable (_ ∧ _))

theorem Records.readsCredentials_iff {conn : HttpConn} {limit : ℕ} {request : Request}
    (records : Records conn limit .header request) :
    conn.ReadsCredentials ↔ request.AsksCredentials := by
  obtain ⟨url, points, text, _⟩ := records.url (by decide)
  have found : conn.urlText = some request.url := by rw [HttpConn.urlText, points, Option.bind_some, text]
  rw [HttpConn.ReadsCredentials, Request.AsksCredentials, HttpConn.action_eq found, records.cgi]

/-! ## Where `do_request` is called from -/

namespace HttpConn

/-- The content is not left again. -/
theorem processReadLoop_content {fuel : ℕ} {lineStatus : LineStatus} {conn after : HttpConn}
    {result : ReadResult} (state : conn.checkState = .content)
    (ran : processReadLoop fuel lineStatus conn = some (result, after)) : after.checkState = .content := by
  induction fuel generalizing conn lineStatus with
  | zero =>
    cases ran
    exact state
  | succ fuel ih =>
    have kept : (conn.loopCondition lineStatus).2.checkState = .content := by
      rw [loopCondition]
      split_ifs
      · exact state
      · exact (parseLine_frame conn).1.trans state
    simp only [processReadLoop, bind] at ran
    split_ifs at ran
    · obtain ⟨⟨taken, next⟩, processed, ran⟩ := Option.bind_eq_some_iff.mp ran
      have stays : next.checkState = .content := by
        rw [processLine_ofContent _ kept] at processed
        obtain ⟨⟨ret, last⟩, parsed, same⟩ := Option.map_eq_some_iff.mp processed
        cases same
        exact (checkState_of_parseContent parsed).trans kept
      cases taken with
      | finish code =>
        cases ran
        exact stays
      | next status => exact ih stays ran
    · cases ran
      exact kept

theorem deliverAll_content {conn after : HttpConn} {pieces : List Bytes} {result : ReadResult}
    (state : conn.checkState = .content) (ran : conn.deliverAll pieces = some (result, after)) :
    after.checkState = .content := by
  induction pieces generalizing conn with
  | nil =>
    cases ran
    exact state
  | cons piece rest ih =>
    have received : (conn.readOnce piece).2.checkState = .content := by
      obtain ⟨_, _, same, _⟩ := readOnce_frame conn piece
      rw [same]
      exact state
    simp only [deliverAll, bind] at ran
    obtain ⟨⟨code, next⟩, delivered, ran⟩ := Option.bind_eq_some_iff.mp ran
    have stays := processReadLoop_content received delivered
    split_ifs at ran
    · exact ih stays ran
    · cases ran
      exact stays

/-- `do_request` is called behind a body only from a loop that has entered the content. -/
theorem enterContentLoop_of_content {fuel : ℕ} {lineStatus : LineStatus} {conn after : HttpConn}
    (ran : processReadLoop fuel lineStatus conn = some (.callDoRequest, after))
    (state : after.checkState = .content) : enterContentLoop fuel conn ≠ none := by
  induction fuel generalizing conn lineStatus with
  | zero => cases ran
  | succ fuel ih =>
    rw [enterContentLoop]
    split_ifs with entered found
    · exact Option.some_ne_none _
    · rw [processReadLoop_line entered, if_pos found] at ran
      obtain ⟨⟨taken, next⟩, processed, ran⟩ := Option.bind_eq_some_iff.mp ran
      simp only [processed]
      cases taken with
      | next status => exact ih ran
      | finish code =>
        cases ran
        exact absurd (processLine_called processed state) ((parseLine_frame conn).1 ▸ entered)
    · rw [processReadLoop_line entered, if_neg found] at ran
      cases ran

end HttpConn

/-- When `do_request` is called, the stream parser has the whole request, or the connection has reached the
content and the stream parser the body. -/
theorem Refines.called {conn called : HttpConn} {phase : CheckState} {request : Request} {rest : Bytes}
    (refines : Refines conn phase request rest) (reading : phase ≠ .content)
    (pieces : List Bytes) (nonempty : ∀ piece ∈ pieces, piece ≠ [])
    (fits : conn.readIdx + pieces.flatten.length ≤ readBufferSize)
    (ran : conn.deliverAll pieces = some (.callDoRequest, called)) :
    (∃ known, parse phase request (rest ++ pieces.flatten) = .finished known ∧
        Records called readBufferSize .header known ∧ called.checkState ≠ .content) ∨
      (∃ known left, parse phase request (rest ++ pieces.flatten) = .body known left ∧
        called.checkState = .content) := by
  induction pieces generalizing conn phase request rest with
  | nil => cases ran
  | cons piece pieces ih =>
    rw [List.flatten_cons, ← List.append_assoc, parse_append]
    rw [List.flatten_cons, List.length_append] at fits
    obtain ⟨nonempty, others⟩ := List.forall_mem_cons.mp nonempty
    obtain ⟨readIdx, passes, extra, delivered, _, onlyBody, result⟩ :=
      refines.deliver reading nonempty (by omega)
    simp only [HttpConn.deliverAll, bind] at ran
    obtain ⟨⟨code, next⟩, first, ran⟩ := Option.bind_eq_some_iff.mp ran
    have loop := delivered.symm.trans first
    cases progress : parse phase request (rest ++ piece) with
    | waiting after known left =>
      rw [progress] at result
      obtain ⟨nextReading, after, waited, kept, refined⟩ := result
      cases (waited extra).symm.trans loop
      rw [if_pos rfl] at ran
      exact ih refined nextReading others (by omega) ran
    | rejected =>
      rw [progress] at result
      obtain ⟨final, rejected⟩ := result
      cases (rejected extra).symm.trans loop
      cases ran
    | undefined =>
      rw [progress] at result
      cases (result extra).symm.trans loop
    | finished known =>
      rw [progress] at result onlyBody
      obtain ⟨final, finished, records⟩ := result
      cases (finished extra).symm.trans loop
      cases ran
      refine Or.inl ⟨known, rfl, records, fun content => ?_⟩
      apply HttpConn.enterContentLoop_of_content loop content (onlyBody _ _)
      intro _ _ body
      cases body
    | body known left =>
      rw [progress] at result
      obtain ⟨_, _, before, entered, _, _, refined, _⟩ := result
      have state := HttpConn.processReadLoop_content refined.state ((entered extra).symm.trans loop)
      refine Or.inr ⟨known, left ++ pieces.flatten, rfl, ?_⟩
      split_ifs at ran
      · exact HttpConn.deliverAll_content state ran
      · cases ran
        exact state

namespace HttpConn

/-- A request without a body that asks for the credentials reads them through what an earlier request has
left in `m_string`. -/
theorem handled_asksCredentials {pieces : List Bytes} {request : Request}
    (nonempty : ∀ piece ∈ pieces, piece ≠ []) (fits : pieces.flatten.length ≤ readBufferSize)
    (whole : parse .requestLine .empty pieces.flatten = .finished request) (asks : request.AsksCredentials)
    (tree : FileTree) (query : Bytes → ℤ) (registry : Registry) (start : HttpConn) :
    (handled tree query registry start pieces).map Handled.reads = some (some start.string) := by
  have waits : parse .requestLine .empty [] = .waiting .requestLine .empty [] :=
    parse_incomplete (by decide) (by simp [splitLine]) _
  have room : start.init.readIdx + pieces.flatten.length ≤ readBufferSize := by
    simpa [HttpConn.init] using fits
  have observed := (refines_init start).deliverAll (by decide) waits pieces nonempty room
    (by rw [List.nil_append, whole]; intro _ _ body; cases body)
  rw [List.nil_append, whole] at observed
  obtain ⟨⟨result, called⟩, ran, same⟩ := Option.map_eq_some_iff.mp observed
  obtain rfl : result = .callDoRequest := (Prod.mk.inj same).1
  have kept := congrArg Outside.string (outside_of_deliverAll ran)
  rcases (refines_init start).called (by decide) pieces nonempty room ran with
    ⟨known, found, records, header⟩ | ⟨known, left, found, _⟩
  · rw [List.nil_append, whole] at found
    cases found
    rw [if_neg fun body : called.HasBody _ => header body.2] at kept
    have reads := records.readsCredentials_iff.mpr asks
    rw [handled, ran, Option.map_some, Option.map_some, if_pos ⟨rfl, reads⟩]
    exact congrArg (fun string => some (some string)) kept
  · rw [List.nil_append, whole] at found
    cases found

end HttpConn

/-- A request is handled alike after any two histories of its object, the credentials being read through the
same pointer, exactly if it is not a POST without a body whose last segment begins with 2 or 3. -/
theorem isolated_iff_not_asksCredentials (tree : FileTree) (query : Bytes → ℤ) (registry : Registry)
    (pieces : List Bytes) (nonempty : ∀ piece ∈ pieces, piece ≠ [])
    (fits : pieces.flatten.length ≤ readBufferSize) :
    (∀ first second : HttpConn,
        HttpConn.handled tree query registry first pieces =
          HttpConn.handled tree query registry second pieces) ↔
      ¬∃ request, parse .requestLine .empty pieces.flatten = .finished request ∧
        request.AsksCredentials := by
  constructor
  · rintro isolated ⟨request, whole, asks⟩
    have reads := HttpConn.handled_asksCredentials nonempty fits whole asks tree query registry
    have same := congrArg (Option.map Handled.reads)
      (isolated HttpConn.blank { HttpConn.blank with string := some 0 })
    rw [reads, reads] at same
    cases same
  · intro notAsking first second
    apply HttpConn.handled_congr
    intro called ran reads
    have room : second.init.readIdx + pieces.flatten.length ≤ readBufferSize := by
      simpa [HttpConn.init] using fits
    rcases (refines_init second).called (by decide) pieces nonempty room ran with
      ⟨known, found, records, _⟩ | ⟨_, _, _, content⟩
    · rw [List.nil_append] at found
      exact absurd ⟨known, found, records.readsCredentials_iff.mp reads⟩ notAsking
    · exact ⟨rfl, content⟩

/-! ## Logins with and without a body -/

/-- A site where every file exists. -/
private def fullSite : FileTree := ⟨fun _ => some ⟨5, true, false⟩, fun _ => .mapped 0⟩

private def onlyBob : Registry := .loaded [⟨ascii "bob", ascii "pw"⟩]

/-- A login with its body, delivered in two parts. -/
theorem isolated_iff_not_asksCredentials_login :
    (∀ first second : HttpConn,
        HttpConn.handled fullSite (fun _ => 0) onlyBob first
            [ascii "POST /2 HTTP/1.1\r\nContent-le", ascii "ngth:9\r\n\r\nuser=bob&"] =
          HttpConn.handled fullSite (fun _ => 0) onlyBob second
            [ascii "POST /2 HTTP/1.1\r\nContent-le", ascii "ngth:9\r\n\r\nuser=bob&"]) ↔
      ¬∃ request, parse .requestLine .empty
          (ascii "POST /2 HTTP/1.1\r\nContent-length:9\r\n\r\nuser=bob&") = .finished request ∧
        request.AsksCredentials :=
  isolated_iff_not_asksCredentials fullSite (fun _ => 0) onlyBob
    [ascii "POST /2 HTTP/1.1\r\nContent-le", ascii "ngth:9\r\n\r\nuser=bob&"] (by decide) (by decide)

/-- The object after a first request of a client. -/
private def served (request : Bytes) : Option HttpConn :=
  (HttpConn.process fullSite (fun _ => 0) onlyBob ((HttpConn.blank.accept 5).readOnce request).2).map
    (·.conn)

/-- A login without a body that carries a name and a password in a header field. -/
private def bodiless : Bytes :=
  ascii "POST /2 HTTP/1.1\r\nHost: aaaaaaaaaaaaaauser=bob&password=pw\r\n\r\n"

/-- The path of the file the login is answered with. -/
private def answerPath (start : HttpConn) : Option Bytes :=
  (HttpConn.handled fullSite (fun _ => 0) onlyBob start [bodiless]).bind fun handled =>
    handled.result.bind fun result => result.2.1.cstr 0

private theorem handled_ne {first second : HttpConn} {welcome error : Bytes}
    (accepted : answerPath first = some welcome) (refused : answerPath second = some error)
    (different : welcome ≠ error) :
    HttpConn.handled fullSite (fun _ => 0) onlyBob first [bodiless] ≠
      HttpConn.handled fullSite (fun _ => 0) onlyBob second [bodiless] := by
  intro same
  apply different
  have paths : answerPath first = answerPath second := by rw [answerPath, answerPath, same]
  exact Option.some.inj (accepted.symm.trans (paths.trans refused))

/-- The same login succeeds or fails depending on where the body of the request before it lay. -/
theorem login_by_earlier_request :
    ∃ first second,
      served (ascii "POST /2 HTTP/1.1\r\nContent-length:9\r\n\r\nuser=eve&") = some first ∧
      served (ascii "POST /2 HTTP/1.1\r\nContent-length:10\r\n\r\nuser=eve&p") = some second ∧
      answerPath first = some (docRoot ++ welcomePage) ∧
      answerPath second = some (docRoot ++ logErrorPage) ∧
      HttpConn.handled fullSite (fun _ => 0) onlyBob first [bodiless] ≠
        HttpConn.handled fullSite (fun _ => 0) onlyBob second [bodiless] := by
  have welcome : answerPath ((served (ascii
      "POST /2 HTTP/1.1\r\nContent-length:9\r\n\r\nuser=eve&")).getD .blank) =
        some (docRoot ++ welcomePage) := by decide +kernel
  have error : answerPath ((served (ascii
      "POST /2 HTTP/1.1\r\nContent-length:10\r\n\r\nuser=eve&p")).getD .blank) =
        some (docRoot ++ logErrorPage) := by decide +kernel
  have some_getD : ∀ result : Option HttpConn, result.isSome → result = some (result.getD .blank) := by
    intro result present
    obtain ⟨conn, rfl⟩ := Option.isSome_iff_exists.mp present
    rfl
  exact ⟨_, _, some_getD _ (by decide +kernel), some_getD _ (by decide +kernel), welcome, error,
    handled_ne welcome error (by decide +kernel)⟩

end WebServ.Http
