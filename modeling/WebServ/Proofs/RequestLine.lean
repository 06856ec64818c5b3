import WebServ.Model.RequestStream

/-! # What `parse_request_line` does to the line it is given

The function works by pointer searches and in-place NULs; its result is the one `requestLine` reads
off the visible text of the line. Every store lies between the start of the text and two bytes
behind its end, the place of the former CRLF: the default page is appended only to a URL that is a
single slash, and the separator, the version and the CRLF leave exactly its eleven bytes.
-/

namespace WebServ.Http

open WebServ.Text

/-- A pointer, possibly null, to a string that ends at `last`. -/
def Points (buffer : Buffer readBufferSize) (low last : ℕ) : Option ℕ → Option Bytes → Prop
  | none, none => True
  | some pointer, some text =>
      buffer.cstr pointer = some text ∧ low ≤ pointer ∧ pointer + text.length = last
  | _, _ => False

/-- One stage of `parse_request_line` against the path it should find: undefined behaviour, a bad
request, or a URL string in the buffer with every store inside `[low, limit)` and none of a CR. -/
def StageResult (conn : HttpConn) (low limit : ℕ) (result : Option (HttpCode × HttpConn)) :
    Option (Option Bytes) → Prop
  | none => result = none
  | some none => ∃ after, result = some (.badRequest, after)
  | some (some path) => ∃ readBuf pointer version,
      result = some (.noRequest,
        { conn with readBuf, url := some pointer, version, checkState := .header }) ∧
      readBuf.cstr pointer = some path ∧ pointer + path.length < limit ∧
      (∀ query, query < low ∨ limit ≤ query → readBuf.byte query = conn.readBuf.byte query) ∧
      ∀ query, readBuf.byte query = cr → conn.readBuf.byte query = cr

namespace HttpConn

theorem stripScheme_points {buffer : Buffer readBufferSize} {low last pointer : ℕ}
    {text : Bytes} (scheme : Bytes) (found : buffer.cstr pointer = some text) (above : low ≤ pointer)
    (ends : pointer + text.length = last) :
    ∃ stripped, stripScheme buffer scheme (some pointer) = some stripped ∧
      ∃ path, withoutScheme scheme (some text) = some path ∧ Points buffer low last stripped path := by
  have compared : buffer.strncasecmp pointer scheme scheme.length =
      some (Buffer.sameCaseless (text.take scheme.length) scheme) := by
    simp only [Buffer.strncasecmp, found, Option.map_some, List.take_length]
  cases same : Buffer.sameCaseless (text.take scheme.length) scheme with
  | false =>
    refine ⟨some pointer, ?_, some text, ?_, found, above, ends⟩
    · simp [stripScheme, compared, same]
    · simp [withoutScheme, same]
  | true =>
    have long : scheme.length ≤ text.length := by
      have equal := Buffer.sameCaseless_length same
      rw [List.length_take] at equal
      omega
    have behind := Buffer.cstr_drop found long
    have searched := Buffer.strchr_eq slash behind
    have split := List.takeWhile_append_dropWhile (p := (· != slash)) (l := text.drop scheme.length)
    cases rest : (text.drop scheme.length).dropWhile (· != slash) with
    | nil =>
      refine ⟨none, ?_, none, ?_, trivial⟩
      · simp [stripScheme, compared, same, searched, rest]
      · simp [withoutScheme, same, rest]
    | cons first tail =>
      rw [rest] at split
      refine ⟨some _, by simp [stripScheme, compared, same, searched, rest]; rfl,
        some (first :: tail), by simp [withoutScheme, same, rest], ?_, by omega, ?_⟩
      · rw [← split] at behind
        exact Buffer.cstr_skip behind
      · have lengths := congrArg List.length split
        simp only [List.length_append, List.length_drop] at lengths
        omega

/-- The default page is appended to a single slash when eleven bytes are free behind it. -/
private theorem strcat_judge {buffer : Buffer readBufferSize} {pointer : ℕ}
    (found : buffer.cstr pointer = some [slash]) (room : pointer + 12 ≤ readBufferSize) :
    ∃ after, buffer.strcat pointer (ascii "judge.html") = some after ∧
      after.cstr pointer = some ([slash] ++ ascii "judge.html") ∧
      (∀ query, query < pointer + 1 ∨ pointer + 12 ≤ query → after.byte query = buffer.byte query) ∧
      ∀ query, after.byte query = cr → buffer.byte query = cr := by
  have length : (ascii "judge.html").length = 10 := by decide
  have nonzero : ∀ value ∈ ascii "judge.html", value ≠ 0 := by decide +kernel
  have head : buffer.byte pointer = slash := Buffer.cstr_byte found
  have frame : ∀ query, query < pointer + 1 ∨ pointer + 12 ≤ query →
      (buffer.write (pointer + 1) (ascii "judge.html" ++ [0])).byte query = buffer.byte query := by
    intro query outside
    apply Buffer.write_byte_outside
    simp only [List.length_append, length, List.length_singleton]
    omega
  refine ⟨buffer.write (pointer + 1) (ascii "judge.html" ++ [0]), ?_, ?_, frame, ?_⟩
  · simp only [Buffer.strcat, Buffer.strlen, found, Option.map_some, List.length_singleton,
      Option.bind_some, Buffer.strcpy]
    exact Buffer.write?_eq_some (by simp only [List.length_append, length, List.length_singleton]; omega)
  · have written := Buffer.cstr_write buffer (pointer + 1) (ascii "judge.html") (by omega) nonzero
    have kept : (buffer.write (pointer + 1) (ascii "judge.html" ++ [0])).byte pointer = slash := by
      rw [Buffer.write_byte_outside _ _ (Or.inl (by omega)), head]
    have whole := Buffer.cstr_cons written (by rw [kept]; decide)
    rwa [kept] at whole
  · intro query isCr
    by_cases outside : query < pointer + 1 ∨ pointer + 12 ≤ query
    · rwa [frame query outside] at isCr
    · obtain ⟨index, rfl⟩ : ∃ index, query = pointer + 1 + index := ⟨query - (pointer + 1), by omega⟩
      have bound : index < (ascii "judge.html" ++ [0]).length := by
        simp only [List.length_append, length, List.length_singleton]
        omega
      have notCr : ∀ value ∈ ascii "judge.html" ++ [0], value ≠ cr := by decide +kernel
      rw [Buffer.write_byte_inside _ _ _ bound] at isCr
      exact absurd isCr (notCr _ (List.getElem_mem bound))

/-- The last stage: a URL of the buffer that ends at least eleven bytes before `limit`. -/
theorem parseUrl_result {conn : HttpConn} {url limit : ℕ} {text : Bytes}
    (found : conn.readBuf.cstr url = some text) (room : url + text.length + 11 ≤ limit)
    (inside : limit ≤ readBufferSize) :
    StageResult conn url limit (conn.parseUrl url) (requestUrl text) := by
  obtain ⟨afterHttp, strippedHttp, pathHttp, specHttp, pointsHttp⟩ :=
    stripScheme_points (ascii "http://") found le_rfl rfl
  rw [HttpConn.parseUrl, requestUrl, strippedHttp, specHttp]
  simp only [bind, Option.bind_some]
  match afterHttp, pathHttp, pointsHttp with
  | none, none, _ => exact rfl
  | some pointer, some path, ⟨foundHttp, above, ends⟩ =>
    obtain ⟨afterHttps, strippedHttps, pathHttps, specHttps, pointsHttps⟩ :=
      stripScheme_points (ascii "https://") foundHttp above ends
    rw [strippedHttps, specHttps]
    simp only [Option.bind_some]
    match afterHttps, pathHttps, pointsHttps with
    | none, none, _ => exact ⟨_, rfl⟩
    | some pointer, some path, ⟨found, above, ends⟩ =>
      have bound := Buffer.cstr_bound found
      have head : conn.readBuf.load? pointer = some (path.headD 0) := by
        rw [Buffer.load?, if_pos (by omega), Buffer.cstr_byte found]
      simp only [head, Option.bind_some]
      cases path with
      | nil => exact ⟨_, rfl⟩
      | cons first rest =>
        by_cases isSlash : first = slash
        · subst isSlash
          simp only [List.headD_cons, ne_eq, not_true_eq_false, ↓reduceIte, List.head?_cons,
            Buffer.strlen, found, Option.map_some, Option.bind_some]
          cases rest with
          | nil =>
            simp only [List.length_singleton] at ends
            obtain ⟨after, appended, read, frame, noCr⟩ := strcat_judge found (by omega)
            simp only [List.length_singleton, ↓reduceIte, appended, Option.bind_some]
            refine ⟨after, pointer, conn.version, rfl, read, ?_, ?_, noCr⟩
            · have length : (ascii "judge.html").length = 10 := by decide
              simp only [List.length_append, List.length_singleton, length]
              omega
            · intro query outside
              exact frame query (by omega)
          | cons second rest =>
            rw [if_neg (by simp), if_neg (by simp)]
            exact ⟨conn.readBuf, pointer, conn.version, rfl, found, by omega, fun _ _ => rfl, fun _ => id⟩
        · simp only [List.headD_cons, ne_eq, isSlash, not_false_eq_true, ↓reduceIte,
            List.head?_cons, Option.some.injEq]
          exact ⟨_, rfl⟩

/-- A stage whose stores start later and end earlier is a stage of the wider range. -/
private theorem StageResult.widen {conn before : HttpConn} {low limit wide : ℕ}
    {result : Option (HttpCode × HttpConn)} {path : Option (Option Bytes)} (wider : wide ≤ low)
    (stage : StageResult conn low limit result path)
    (rest : ∀ readBuf pointer version, ∃ version',
      { conn with readBuf, url := some pointer, version, checkState := .header } =
        { before with readBuf, url := some pointer, version := version', checkState := .header })
    (frame : ∀ query, query < wide ∨ limit ≤ query → conn.readBuf.byte query = before.readBuf.byte query)
    (noCr : ∀ query, conn.readBuf.byte query = cr → before.readBuf.byte query = cr) :
    StageResult before wide limit result path := by
  match path, stage with
  | none, undefined => exact undefined
  | some none, bad => exact bad
  | some (some path), ⟨readBuf, pointer, version, ran, found, bound, kept, keptCr⟩ =>
    obtain ⟨version', same⟩ := rest readBuf pointer version
    refine ⟨readBuf, pointer, version', ran.trans (by rw [same]), found, bound, ?_,
      fun query isCr => noCr query (keptCr query isCr)⟩
    intro query outside
    rw [kept query (by omega), frame query outside]

private theorem cr_of_set_zero (buffer : Buffer readBufferSize) (offset query : ℕ)
    (isCr : (buffer.set offset 0).byte query = cr) : buffer.byte query = cr := by
  rw [Buffer.set_byte] at isCr
  split_ifs at isCr
  · exact absurd isCr (by decide)
  · exact isCr

/-- A search for a blank fails, or splits the text into a word and what follows its separator. -/
theorem strpbrk_blanks {buffer : Buffer readBufferSize} {offset : ℕ} {text : Bytes}
    (found : buffer.cstr offset = some text) :
    (text.dropWhile isWordByte = [] ∧ buffer.strpbrk offset blanks = some none) ∨
      ∃ word separator rest, text = word ++ separator :: rest ∧ text.takeWhile isWordByte = word ∧
        text.dropWhile isWordByte = separator :: rest ∧
        buffer.strpbrk offset blanks = some (some (offset + word.length)) := by
  cases rest : text.dropWhile isWordByte with
  | nil => exact Or.inl ⟨rfl, Buffer.strpbrk_eq_null found rest⟩
  | cons separator rest' =>
    refine Or.inr ⟨_, separator, rest', ?_, rfl, rfl, Buffer.strpbrk_eq_some found rest⟩
    rw [← rest, List.takeWhile_append_dropWhile]

/-- The middle stage: what follows the method ends two bytes before `limit`. -/
theorem parseVersion_result {conn : HttpConn} {start limit : ℕ} {text : Bytes}
    (found : conn.readBuf.cstr start = some text) (room : start + text.length + 2 ≤ limit)
    (inside : limit ≤ readBufferSize) :
    StageResult conn start limit (conn.parseVersion start) (requestTarget text) := by
  obtain ⟨skipped, target⟩ := Buffer.strspn_skip blanks found
  have parts := congrArg List.length
    (List.takeWhile_append_dropWhile (p := blanks.contains) (l := text))
  rw [List.length_append] at parts
  rw [HttpConn.parseVersion, requestTarget]
  simp only [bind, skipped, Option.bind_some]
  generalize (text.takeWhile blanks.contains).length = spaces at target parts ⊢
  generalize text.dropWhile blanks.contains = targetText at target parts ⊢
  rcases strpbrk_blanks target with ⟨absent, searched⟩ | ⟨url, separator, afterUrl, same, taken, dropped, searched⟩
  · rw [searched, absent, Option.bind_some]
    exact ⟨_, rfl⟩
  · rw [searched, dropped, taken, Option.bind_some]
    rw [same] at target parts
    have bound := Buffer.cstr_bound target
    simp only [List.length_append, List.length_cons] at bound parts
    have word := Buffer.cstr_cut_word target
    have after := Buffer.cstr_cut_rest target
    obtain ⟨skippedVersion, version⟩ := Buffer.strspn_skip blanks after
    have lengths := congrArg List.length
      (List.takeWhile_append_dropWhile (p := blanks.contains) (l := afterUrl))
    rw [List.length_append] at lengths
    dsimp only
    rw [Buffer.store?_eq_some (by omega), Option.bind_some, skippedVersion, Option.bind_some]
    simp only [Buffer.strcasecmp, version, Option.map_some, Option.bind_some]
    cases supported : Buffer.sameCaseless (afterUrl.dropWhile blanks.contains) (ascii "HTTP/1.1") with
    | false => exact ⟨_, rfl⟩
    | true =>
      have eight : (afterUrl.dropWhile blanks.contains).length = 8 :=
        Buffer.sameCaseless_length supported
      refine StageResult.widen (by omega) (parseUrl_result word (by omega) inside)
        (fun _ _ version => ⟨_, rfl⟩) ?_ (cr_of_set_zero _ _)
      intro query outside
      exact Buffer.set_byte_ne _ _ (by omega)

/-- Method and counter after an accepted request line. -/
def setMethod (conn : HttpConn) (method : Method) : HttpConn :=
  { conn with method, cgi := if method = .post then 1 else conn.cgi }

private theorem stage_of_target {conn before : HttpConn} {method : Method} {low wide limit : ℕ}
    {result : Option (HttpCode × HttpConn)} (target : Option (Option Bytes)) (wider : wide ≤ low)
    (stage : StageResult conn low limit result target)
    (rest : ∀ readBuf pointer version, ∃ version',
      { conn with readBuf, url := some pointer, version, checkState := .header } =
        { before.setMethod method with
          readBuf, url := some pointer, version := version', checkState := .header })
    (frame : ∀ query, query < wide ∨ limit ≤ query → conn.readBuf.byte query = before.readBuf.byte query)
    (noCr : ∀ query, conn.readBuf.byte query = cr → before.readBuf.byte query = cr) :
    match target.map (·.map (method, ·)) with
    | none => result = none
    | some none => ∃ after, result = some (.badRequest, after)
    | some (some (method, path)) =>
        StageResult (before.setMethod method) wide limit result (some (some path)) := by
  match target with
  | none => exact stage
  | some none => exact stage
  | some (some _) => exact StageResult.widen wider stage rest frame noCr

/-- On a line whose visible text ends two bytes before `limit`, `parse_request_line` finds what
`requestLine` finds and stores nothing outside the line. -/
theorem parseRequestLine_result {conn : HttpConn} {start limit : ℕ} {text : Bytes}
    (found : conn.readBuf.cstr start = some text) (room : start + text.length + 2 ≤ limit)
    (inside : limit ≤ readBufferSize) :
    match requestLine text with
    | none => conn.parseRequestLine start = none
    | some none => ∃ after, conn.parseRequestLine start = some (.badRequest, after)
    | some (some (method, path)) => StageResult (conn.setMethod method) start limit
        (conn.parseRequestLine start) (some (some path)) := by
  rw [HttpConn.parseRequestLine, requestLine]
  simp only [bind]
  rcases strpbrk_blanks found with ⟨absent, searched⟩ | ⟨word, separator, rest, same, taken, dropped, searched⟩
  · rw [searched, absent, Option.bind_some]
    exact ⟨_, rfl⟩
  · rw [searched, dropped, taken, Option.bind_some]
    rw [same] at found room
    have bound := Buffer.cstr_bound found
    simp only [List.length_append, List.length_cons] at bound room
    have wordFound := Buffer.cstr_cut_word found
    have after := Buffer.cstr_cut_rest found
    dsimp only
    rw [Buffer.store?_eq_some (by omega), Option.bind_some]
    simp only [Buffer.strcasecmp, wordFound, Option.map_some, Option.bind_some, methodOf]
    have frame : ∀ query, query < start ∨ limit ≤ query →
        (conn.readBuf.set (start + word.length) 0).byte query = conn.readBuf.byte query :=
      fun query outside => Buffer.set_byte_ne _ _ (by omega)
    cases isGet : Buffer.sameCaseless word (ascii "GET") with
    | true =>
      exact stage_of_target (requestTarget rest) (by omega)
        (parseVersion_result after (by omega) inside) (fun _ _ version => ⟨version, rfl⟩) frame
        (cr_of_set_zero _ _)
    | false =>
      cases isPost : Buffer.sameCaseless word (ascii "POST") with
      | true =>
        exact stage_of_target (requestTarget rest) (by omega)
          (parseVersion_result after (by omega) inside) (fun _ _ version => ⟨version, rfl⟩) frame
          (cr_of_set_zero _ _)
      | false => exact ⟨_, rfl⟩

end HttpConn

end WebServ.Http
