import WebServ.Proofs.UrlPlace

/-! # The stores of `parse_request_line` stay in the line

The function overwrites separators and may append the default page inside the input buffer, where the next
header lines already lie. The places it stores to are written down beside the code, for the calls as well
that end in undefined behaviour. Behind the slash of a line that gets the default page lie the separator,
the eight bytes of the version and the two NULs of `parse_line`: eleven bytes, and the page with its NUL
takes eleven.
-/

namespace WebServ.Http

open WebServ.Text

namespace HttpConn

/-- The pointer behind both scheme prefixes. -/
def stripSchemes (buffer : Buffer readBufferSize) (url : ℕ) : Option (Option ℕ) :=
  (stripScheme buffer (ascii "http://") (some url)).bind (stripScheme buffer (ascii "https://"))

/-- The places the last part stores to: `strcat` of the default page, behind a single slash. -/
def urlStores (buffer : Buffer readBufferSize) (url : ℕ) : List ℕ :=
  match stripSchemes buffer url with
  | some (some pointer) =>
      if buffer.byte pointer = slash ∧ buffer.strlen pointer = some 1 then
        List.range' (pointer + 1) ((ascii "judge.html").length + 1)
      else []
  | _ => []

/-- The version behind a separator is the supported one. -/
def supportedAt (buffer : Buffer readBufferSize) (place : ℕ) : Bool :=
  ((buffer.strspn place blanks).bind fun spaces =>
    buffer.strcasecmp (place + spaces) (ascii "HTTP/1.1")) == some true

/-- The places the middle part stores to. -/
def versionStores (buffer : Buffer readBufferSize) (url : ℕ) : List ℕ :=
  match buffer.strspn url blanks with
  | none => []
  | some spaces =>
      match buffer.strpbrk (url + spaces) blanks with
      | some (some separator) =>
          let cut : Buffer readBufferSize := buffer.set separator 0
          separator :: if supportedAt cut (separator + 1) then urlStores cut (url + spaces) else []
      | _ => []

/-- The method that stands at the pointer is a supported one. -/
def methodAt (buffer : Buffer readBufferSize) (text : ℕ) : Bool :=
  buffer.strcasecmp text (ascii "GET") == some true || buffer.strcasecmp text (ascii "POST") == some true

/-- The places `parse_request_line(text)` stores to. -/
def requestLineStores (buffer : Buffer readBufferSize) (text : ℕ) : List ℕ :=
  match buffer.strpbrk text blanks with
  | some (some separator) =>
      let cut : Buffer readBufferSize := buffer.set separator 0
      separator :: if methodAt cut text then versionStores cut (separator + 1) else []
  | _ => []

/-! ## Nothing else is changed -/

private theorem set_of_store {buffer readBuf : Buffer readBufferSize} {place : ℕ} {value : UInt8}
    (stored : buffer.store? place value = some readBuf) : buffer.set place value = readBuf := by
  rw [Buffer.store?, Option.ite_none_right_eq_some, Int.toNat_natCast] at stored
  exact Option.some.inj stored.2

theorem parseUrl_unstored {conn after : HttpConn} {url query : ℕ} {ret : HttpCode}
    (parsed : conn.parseUrl url = some (ret, after)) (unstored : query ∉ urlStores conn.readBuf url) :
    after.readBuf.byte query = conn.readBuf.byte query := by
  simp only [parseUrl, bind, Option.bind_eq_some_iff] at parsed
  obtain ⟨afterHttp, http, afterHttps, https, parsed⟩ := parsed
  have stripped : stripSchemes conn.readBuf url = some afterHttps := by
    rw [stripSchemes, http, Option.bind_some, https]
  split at parsed
  · cases parsed
    rfl
  · next pointer =>
    simp only [Option.bind_eq_some_iff] at parsed
    obtain ⟨first, loaded, parsed⟩ := parsed
    split_ifs at parsed with notSlash
    · cases parsed
      rfl
    · obtain ⟨length, measured, parsed⟩ := Option.bind_eq_some_iff.mp parsed
      split_ifs at parsed with single
      · obtain ⟨readBuf, appended, same⟩ := Option.bind_eq_some_iff.mp parsed
        cases same
        have isSlash : conn.readBuf.byte pointer = slash := by
          rw [Buffer.load?, Option.ite_none_right_eq_some] at loaded
          exact (Option.some.inj loaded.2).trans (not_not.mp notSlash)
        rw [single] at measured
        simp only [urlStores, stripped, isSlash, measured, and_self, ↓reduceIte, List.mem_range'_1] at unstored
        rw [Buffer.strcat, measured, Option.bind_some, Buffer.strcpy, Buffer.write?_eq_some_iff] at appended
        rw [← appended.2, Buffer.write_byte_outside]
        simp only [List.length_append, List.length_singleton]
        omega
      · cases parsed
        rfl

theorem parseVersion_unstored {conn after : HttpConn} {url query : ℕ} {ret : HttpCode}
    (parsed : conn.parseVersion url = some (ret, after)) (unstored : query ∉ versionStores conn.readBuf url) :
    after.readBuf.byte query = conn.readBuf.byte query := by
  simp only [parseVersion, bind, Option.bind_eq_some_iff] at parsed
  obtain ⟨spaces, skipped, found, searched, parsed⟩ := parsed
  split at parsed
  · cases parsed
    rfl
  · next separator =>
    simp only [Option.bind_eq_some_iff] at parsed
    obtain ⟨readBuf, stored, versionSpaces, skippedVersion, supported, compared, parsed⟩ := parsed
    obtain rfl := set_of_store stored
    simp only [versionStores, skipped, searched, List.mem_cons, not_or] at unstored
    have cut : (conn.readBuf.set separator 0).byte query = conn.readBuf.byte query :=
      Buffer.set_byte_ne _ _ unstored.1
    cases supported with
    | false =>
      cases parsed
      exact cut
    | true =>
      have isSupported : supportedAt (conn.readBuf.set separator 0) (separator + 1) = true := by
        rw [supportedAt, skippedVersion, Option.bind_some, compared, beq_self_eq_true]
      rw [if_pos isSupported] at unstored
      exact (parseUrl_unstored parsed unstored.2).trans cut

/-- Bytes at places `parse_request_line` does not store to are as before. -/
theorem parseRequestLine_unstored {conn after : HttpConn} {text query : ℕ} {ret : HttpCode}
    (parsed : conn.parseRequestLine text = some (ret, after))
    (unstored : query ∉ requestLineStores conn.readBuf text) :
    after.readBuf.byte query = conn.readBuf.byte query := by
  simp only [parseRequestLine, bind, Option.bind_eq_some_iff] at parsed
  obtain ⟨found, searched, parsed⟩ := parsed
  split at parsed
  · cases parsed
    rfl
  · next separator =>
    simp only [Option.bind_eq_some_iff] at parsed
    obtain ⟨readBuf, stored, isGet, get, isPost, post, parsed⟩ := parsed
    obtain rfl := set_of_store stored
    simp only [requestLineStores, searched, List.mem_cons, not_or] at unstored
    have cut : (conn.readBuf.set separator 0).byte query = conn.readBuf.byte query :=
      Buffer.set_byte_ne _ _ unstored.1
    have known : isGet = true ∨ isPost = true → methodAt (conn.readBuf.set separator 0) text = true := by
      rw [methodAt, get, post]
      rintro (rfl | rfl) <;> simp
    split_ifs at parsed with onGet onPost
    · rw [if_pos (known (Or.inl onGet))] at unstored
      exact (parseVersion_unstored parsed unstored.2).trans cut
    · rw [if_pos (known (Or.inr onPost))] at unstored
      exact (parseVersion_unstored parsed unstored.2).trans cut
    · cases parsed
      exact cut

/-! ## Where the places lie -/

theorem urlStores_inside {buffer : Buffer readBufferSize} {url limit place : ℕ} {text : Bytes}
    (found : buffer.cstr url = some text) (room : url + text.length + 11 ≤ limit)
    (stored : place ∈ urlStores buffer url) : url ≤ place ∧ place < limit := by
  have page : (ascii "judge.html").length = 10 := by decide
  obtain ⟨afterHttp, strippedHttp, pathHttp, _, pointsHttp⟩ :=
    stripScheme_points (ascii "http://") found le_rfl rfl
  rcases afterHttp with _ | pointer <;> rcases pathHttp with _ | path
  case none.none =>
    have undefined : stripSchemes buffer url = none := by
      rw [stripSchemes, strippedHttp, Option.bind_some, stripScheme]
    simp [urlStores, undefined] at stored
  case none.some => cases pointsHttp
  case some.none => cases pointsHttp
  case some.some =>
    obtain ⟨foundHttp, above, ends⟩ := pointsHttp
    obtain ⟨afterHttps, strippedHttps, pathHttps, _, pointsHttps⟩ :=
      stripScheme_points (ascii "https://") foundHttp above ends
    have stripped : stripSchemes buffer url = some afterHttps := by
      rw [stripSchemes, strippedHttp, Option.bind_some, strippedHttps]
    rcases afterHttps with _ | pointer <;> rcases pathHttps with _ | path
    case none.none => simp [urlStores, stripped] at stored
    case none.some => cases pointsHttps
    case some.none => cases pointsHttps
    case some.some =>
      obtain ⟨found, above, ends⟩ := pointsHttps
      simp only [urlStores, stripped] at stored
      split_ifs at stored with single
      · have length : path.length = 1 := by
          have measured := single.2
          rw [Buffer.strlen, found, Option.map_some, Option.some.injEq] at measured
          exact measured
        rw [List.mem_range'_1, page] at stored
        omega
      · cases stored

theorem versionStores_inside {buffer : Buffer readBufferSize} {start limit place : ℕ} {text : Bytes}
    (found : buffer.cstr start = some text) (room : start + text.length + 2 ≤ limit)
    (stored : place ∈ versionStores buffer start) : start ≤ place ∧ place < limit := by
  obtain ⟨skipped, target⟩ := Buffer.strspn_skip blanks found
  have parts := congrArg List.length
    (List.takeWhile_append_dropWhile (p := blanks.contains) (l := text))
  rw [List.length_append] at parts
  rw [versionStores, skipped] at stored
  generalize (text.takeWhile blanks.contains).length = spaces at target parts stored
  generalize text.dropWhile blanks.contains = targetText at target parts
  rcases strpbrk_blanks target with ⟨_, searched⟩ | ⟨url, separator, afterUrl, same, _, _, searched⟩
  · simp [searched] at stored
  · simp only [searched, List.mem_cons] at stored
    rw [same] at target parts
    simp only [List.length_append, List.length_cons] at parts
    rcases stored with rfl | stored
    · omega
    · split_ifs at stored with supported
      · have word := Buffer.cstr_cut_word target
        obtain ⟨skippedVersion, version⟩ := Buffer.strspn_skip blanks (Buffer.cstr_cut_rest target)
        have lengths := congrArg List.length
          (List.takeWhile_append_dropWhile (p := blanks.contains) (l := afterUrl))
        rw [List.length_append] at lengths
        -- the separator and the eight bytes of the version lie behind the URL
        rw [supportedAt, skippedVersion, Option.bind_some, beq_iff_eq, Buffer.strcasecmp, version,
          Option.map_some, Option.some.injEq] at supported
        have eight : (afterUrl.dropWhile blanks.contains).length = 8 :=
          Buffer.sameCaseless_length supported
        have room : start + spaces + url.length + 11 ≤ limit := by omega
        obtain ⟨above, below⟩ := urlStores_inside word room stored
        exact ⟨by omega, below⟩
      · cases stored

/-- In a line whose visible text ends two bytes before `limit`, every store lies in the line. -/
theorem requestLineStores_inside {buffer : Buffer readBufferSize} {start limit place : ℕ} {text : Bytes}
    (found : buffer.cstr start = some text) (room : start + text.length + 2 ≤ limit)
    (stored : place ∈ requestLineStores buffer start) : start ≤ place ∧ place < limit := by
  rw [requestLineStores] at stored
  rcases strpbrk_blanks found with ⟨_, searched⟩ | ⟨word, separator, rest, same, _, _, searched⟩
  · simp [searched] at stored
  · simp only [searched, List.mem_cons] at stored
    rw [same] at found room
    simp only [List.length_append, List.length_cons] at room
    rcases stored with rfl | stored
    · omega
    · split_ifs at stored
      · have after := Buffer.cstr_cut_rest found
        have room : start + word.length + 1 + rest.length + 2 ≤ limit := by omega
        obtain ⟨above, below⟩ := versionStores_inside after room stored
        exact ⟨by omega, below⟩
      · cases stored

/-- A line of a single byte is empty, and nothing is stored. -/
theorem requestLineStores_nil {buffer : Buffer readBufferSize} {start : ℕ}
    (found : buffer.cstr start = some []) : requestLineStores buffer start = [] := by
  have searched : buffer.strpbrk start blanks = some none := Buffer.strpbrk_eq_null found rfl
  simp [requestLineStores, searched]

/-! ## The lines that are handed over -/

/-- Every store of `parse_request_line` lies in the line it is called for, between the start of the line and
`m_checked_idx`, and every other byte of the buffer is as before. -/
structure StoresInLine (conn : HttpConn) : Prop where
  inside : ∀ place ∈ requestLineStores conn.readBuf conn.startLine,
    conn.startLine ≤ place ∧ place < conn.checkedIdx
  unchanged : ∀ ret after,
    parseRequestLine { conn with startLine := conn.checkedIdx } conn.startLine = some (ret, after) →
    ∀ query, query < conn.startLine ∨ conn.checkedIdx ≤ query →
      after.readBuf.byte query = conn.readBuf.byte query

/-- A line that ends with two NULs. -/
theorem storesInLine_of_nul {conn : HttpConn} (line : conn.startLine < conn.checkedIdx)
    (inside : conn.checkedIdx ≤ readBufferSize) (first : conn.readBuf.byte (conn.checkedIdx - 2) = 0)
    (second : conn.readBuf.byte (conn.checkedIdx - 1) = 0) : conn.StoresInLine := by
  have places : ∀ place ∈ requestLineStores conn.readBuf conn.startLine,
      conn.startLine ≤ place ∧ place < conn.checkedIdx := by
    obtain ⟨text, found, rfl | room⟩ := Buffer.cstr_of_nuls line inside first second
    · simp [requestLineStores_nil found]
    · intro place stored
      exact requestLineStores_inside found room stored
  refine ⟨places, fun ret after parsed query outside => ?_⟩
  have unstored : query ∉ requestLineStores conn.readBuf conn.startLine := by
    intro stored
    have between := places query stored
    omega
  exact @parseRequestLine_unstored { conn with startLine := conn.checkedIdx } _ _ _ _ parsed unstored

/-- The connections the loop of `process_read` hands to its body, each after the call of `parse_line`. -/
def passesLoop : ℕ → LineStatus → HttpConn → List HttpConn
  | 0, _, _ => []
  | fuel + 1, lineStatus, conn =>
      let condition := conn.loopCondition lineStatus
      if condition.1 = .ok then
        condition.2 :: match condition.2.processLine with
          | some (.next lineStatus, after) => passesLoop fuel lineStatus after
          | _ => []
      else []

/-- The same for successive deliveries, each with its call of `process_read`. -/
def passes : HttpConn → List Bytes → List HttpConn
  | _, [] => []
  | conn, piece :: rest =>
      let received := (conn.readOnce piece).2
      passesLoop (received.readIdx - received.checkedIdx + 2) .ok received ++
        match conn.deliver piece with
        | some (_, after) => after.passes rest
        | none => []

/-- The order of the indexes. -/
structure Indexed (conn : HttpConn) : Prop where
  line : conn.startLine ≤ conn.checkedIdx
  checked : conn.checkedIdx ≤ conn.readIdx
  inside : conn.readIdx ≤ readBufferSize

theorem Indexed.init (conn : HttpConn) : Indexed conn.init := ⟨le_rfl, le_rfl, Nat.zero_le _⟩

theorem Indexed.readOnce {conn : HttpConn} (indexed : Indexed conn) (piece : Bytes) :
    Indexed (conn.readOnce piece).2 := by
  obtain ⟨_, _, same, grown, _, inside⟩ := readOnce_frame conn piece
  rw [same]
  exact ⟨indexed.line, indexed.checked.trans grown, inside indexed.inside⟩

theorem Indexed.loopCondition {conn : HttpConn} (indexed : Indexed conn) (lineStatus : LineStatus) :
    Indexed (conn.loopCondition lineStatus).2 := by
  rw [HttpConn.loopCondition]
  split_ifs
  · exact indexed
  · obtain ⟨_, _, readIdx, forward⟩ := parseLine_frame conn
    obtain ⟨startLine, checked⟩ := parseLine_inside indexed.checked
    exact ⟨startLine ▸ indexed.line.trans forward, readIdx ▸ checked, readIdx ▸ indexed.inside⟩

/-- The loop body begins the next line at `m_checked_idx`. -/
theorem processLine_indexes {conn after : HttpConn} {taken : LoopStep}
    (processed : conn.processLine = some (taken, after)) :
    after.startLine = conn.checkedIdx ∧ conn.SameUnchecked after := by
  cases state : conn.checkState with
  | requestLine =>
    rw [processLine_requestLine _ state] at processed
    obtain ⟨⟨ret, last⟩, parsed, same⟩ := Option.map_eq_some_iff.mp processed
    obtain ⟨_, rfl⟩ := Prod.mk.inj same
    obtain ⟨_, _, _, _, _, _, frame, _⟩ := parseRequestLine_frame parsed
    dsimp only at frame
    subst frame
    exact ⟨rfl, rfl, rfl⟩
  | header =>
    rw [processLine_header _ state] at processed
    obtain ⟨⟨ret, last⟩, parsed, same⟩ := Option.map_eq_some_iff.mp processed
    obtain ⟨_, rfl⟩ := Prod.mk.inj same
    obtain ⟨_, _, _, _, frame⟩ := parseHeaders_frame parsed
    dsimp only at frame
    subst frame
    exact ⟨rfl, rfl, rfl⟩
  | content =>
    rw [processLine_ofContent _ state] at processed
    obtain ⟨⟨ret, last⟩, parsed, same⟩ := Option.map_eq_some_iff.mp processed
    obtain ⟨_, rfl⟩ := Prod.mk.inj same
    simp only [parseContent] at parsed
    split_ifs at parsed
    · obtain ⟨_, _, finished⟩ := Option.map_eq_some_iff.mp parsed
      cases finished
      exact ⟨rfl, rfl, rfl⟩
    · cases parsed
      exact ⟨rfl, rfl, rfl⟩

theorem Indexed.processLine {conn after : HttpConn} {taken : LoopStep} (indexed : Indexed conn)
    (processed : conn.processLine = some (taken, after)) : Indexed after := by
  obtain ⟨startLine, readIdx, checkedIdx⟩ := processLine_indexes processed
  exact ⟨by omega, by rw [readIdx, checkedIdx]; exact indexed.checked, readIdx ▸ indexed.inside⟩

theorem Indexed.processReadLoop {fuel : ℕ} {lineStatus : LineStatus} {conn after : HttpConn}
    {result : ReadResult} (indexed : Indexed conn)
    (ran : HttpConn.processReadLoop fuel lineStatus conn = some (result, after)) : Indexed after := by
  induction fuel generalizing conn lineStatus with
  | zero =>
    cases ran
    exact indexed
  | succ fuel ih =>
    rw [HttpConn.processReadLoop] at ran
    dsimp only at ran
    split_ifs at ran with goesOn
    · obtain ⟨⟨taken, next⟩, processed, ran⟩ := Option.bind_eq_some_iff.mp ran
      have kept := (indexed.loopCondition lineStatus).processLine processed
      cases taken with
      | next status => exact ih kept ran
      | finish code =>
        cases ran
        exact kept
    · cases ran
      exact indexed.loopCondition lineStatus

/-- A line that is handed to `parse_request_line`. -/
theorem Indexed.storesInLine {conn : HttpConn} {lineStatus : LineStatus} (indexed : Indexed conn)
    (goesOn : (conn.loopCondition lineStatus).1 = .ok)
    (state : (conn.loopCondition lineStatus).2.checkState = .requestLine) :
    (conn.loopCondition lineStatus).2.StoresInLine := by
  have scanned := indexed.loopCondition lineStatus
  rw [loopCondition_requestLine state] at goesOn scanned ⊢
  obtain ⟨_, first, second⟩ := parseLine_nul goesOn
  have further := (parseLine_ok goesOn).2
  obtain ⟨startLine, _⟩ := parseLine_inside indexed.checked
  have line := indexed.line
  exact storesInLine_of_nul (by omega) (scanned.checked.trans scanned.inside) first second

theorem Indexed.passesLoop {fuel : ℕ} {lineStatus : LineStatus} {conn ready : HttpConn}
    (indexed : Indexed conn) (handed : ready ∈ HttpConn.passesLoop fuel lineStatus conn)
    (state : ready.checkState = .requestLine) : ready.StoresInLine := by
  induction fuel generalizing conn lineStatus with
  | zero => cases handed
  | succ fuel ih =>
    rw [HttpConn.passesLoop] at handed
    split_ifs at handed with goesOn
    · rcases List.mem_cons.mp handed with rfl | later
      · exact indexed.storesInLine goesOn state
      · split at later
        · next status after processed =>
          exact ih ((indexed.loopCondition lineStatus).processLine processed) later
        · cases later
    · cases handed

/-- Whatever bytes are delivered to an initialised connection, in whatever pieces: for each line that
`parse_line` delimits and `process_read` passes to `parse_request_line`, all stores lie below `m_checked_idx`
in the line itself, and the bytes outside the line are unchanged. -/
theorem storesInLine_of_passes (start : HttpConn) (pieces : List Bytes) (ready : HttpConn)
    (handed : ready ∈ start.init.passes pieces) (state : ready.checkState = .requestLine) :
    ready.StoresInLine := by
  have each : ∀ (pieces : List Bytes) (conn : HttpConn), Indexed conn → ready ∈ conn.passes pieces →
      ready.StoresInLine := by
    intro pieces
    induction pieces with
    | nil =>
      intro conn _ handed
      cases handed
    | cons piece pieces ih =>
      intro conn indexed handed
      rw [passes] at handed
      rcases List.mem_append.mp handed with now | later
      · exact (indexed.readOnce piece).passesLoop now state
      · split at later
        · next result after delivered =>
          exact ih after ((indexed.readOnce piece).processReadLoop delivered) later
        · cases later
  exact each pieces start.init (.init start) handed

/-- A request for the root: the default page ends with the last byte of the line. -/
theorem storesInLine_of_passes_root :
    let received := (blank.init.readOnce (ascii "GET / HTTP/1.1\r\nHost: a\r\n")).2
    let ready := received.parseLine.2
    requestLineStores ready.readBuf ready.startLine = 3 :: 5 :: List.range' 5 11 ∧ ready.checkedIdx = 16 ∧
      ready.readIdx = 25 ∧ ready.StoresInLine := by
  intro received ready
  refine ⟨by decide +kernel, by decide +kernel, by decide +kernel,
    storesInLine_of_passes blank [ascii "GET / HTTP/1.1\r\nHost: a\r\n"] ready ?_ (by decide +kernel)⟩
  have goesOn : (received.loopCondition .ok).1 = .ok := by decide +kernel
  have begins : (received.loopCondition .ok).2 = ready := rfl
  rw [passes]
  apply List.mem_append_left
  change ready ∈ passesLoop _ .ok received
  rw [passesLoop, if_pos goesOn, begins]
  exact List.mem_cons_self

end HttpConn

end WebServ.Http
