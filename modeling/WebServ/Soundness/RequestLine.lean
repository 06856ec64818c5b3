import WebServ.Proofs.RequestLine
import WebServ.Proofs.RequestPath
import Mathlib.Data.List.TakeWhile

/-! # Which request lines are accepted

`parse_request_line` is a chain of searches in a line it cuts up as it goes. What it accepts has a plain
form: a method, a URL and the version, separated by blanks, where the URL is a path or has a path behind
its scheme and authority. The one line that is neither accepted nor rejected has an `http` URL without a
path: the search for its slash fails, and the null pointer goes into the comparison with the next scheme.
-/

namespace WebServ.Http

open WebServ.Text

/-- The word of a request line that names a method. -/
def methodName : Method → Bytes
  | .get => ascii "GET"
  | .post => ascii "POST"

/-- One or more separators. -/
def BlankRun (run : Bytes) : Prop := run ≠ [] ∧ ∀ value ∈ run, blanks.contains value = true

/-- A text without separators. -/
def Word (text : Bytes) : Prop := ∀ value ∈ text, isWordByte value = true

/-- A line with a method, a URL and the supported version. -/
def LineForm (text : Bytes) (method : Method) (url : Bytes) : Prop :=
  ∃ word separator gap version, text = word ++ separator ++ url ++ gap ++ version ∧
    Buffer.sameCaseless word (methodName method) = true ∧ BlankRun separator ∧ Word url ∧ BlankRun gap ∧
    Buffer.sameCaseless version (ascii "HTTP/1.1") = true

/-- The prefixes a URL may have before its authority. -/
def schemes : List Bytes := [ascii "http://", ascii "https://"]

/-- A URL with the path in it: all of it, or what follows a scheme and an authority. -/
inductive UrlForm : Bytes → Bytes → Prop where
  | path (rest : Bytes) : UrlForm (slash :: rest) (slash :: rest)
  | absolute {scheme start authority : Bytes} (known : scheme ∈ schemes)
      (same : Buffer.sameCaseless start scheme = true) (bare : slash ∉ authority) (rest : Bytes) :
      UrlForm (start ++ authority ++ slash :: rest) (slash :: rest)

/-- An `http` URL without a path. -/
def Pathless (url : Bytes) : Prop :=
  ∃ start authority, url = start ++ authority ∧
    Buffer.sameCaseless start (ascii "http://") = true ∧ slash ∉ authority

/-- A single slash stands for the default page. -/
def orDefaultPage (path : Bytes) : Bytes := if path = [slash] then ascii "/judge.html" else path

/-! ## Words and blanks -/

section Split

variable {stop : UInt8 → Bool} {run : Bytes} {first : UInt8}

/-- A run ends at the first byte outside it. -/
theorem takeWhile_run (inside : ∀ value ∈ run, stop value = true) (ends : stop first = false)
    (rest : Bytes) :
    (run ++ first :: rest).takeWhile stop = run ∧ (run ++ first :: rest).dropWhile stop = first :: rest := by
  rw [List.takeWhile_append_of_pos inside, List.dropWhile_append_of_pos inside,
    List.takeWhile_cons_of_neg (by simp [ends]), List.dropWhile_cons_of_neg (by simp [ends]),
    List.append_nil]
  exact ⟨rfl, rfl⟩

/-- What follows a run does not start with a byte of it. -/
theorem head_of_dropWhile {text rest : Bytes} (dropped : text.dropWhile stop = first :: rest) :
    stop first = false := by
  have head := List.head?_dropWhile_not stop text
  rw [dropped] at head
  simpa using head

end Split

/-- No letter case turns a blank into another byte. -/
theorem word_of_sameCaseless {text literal : Bytes} (same : Buffer.sameCaseless text literal = true)
    (plain : ∀ value ∈ literal.map Buffer.toLower, isWordByte value = true) : Word text := by
  intro value member
  have lower : Buffer.toLower value ∈ literal.map Buffer.toLower := by
    rw [← eq_of_beq same]
    exact List.mem_map_of_mem member
  have fixed : ∀ byte ∈ blanks, Buffer.toLower byte = byte := by decide +kernel
  cases blank : isWordByte value with
  | true => rfl
  | false =>
    have separates : value ∈ blanks := by
      rw [isWordByte, Bool.not_eq_false'] at blank
      exact List.contains_iff_mem.mp blank
    have word := plain _ lower
    rw [fixed value separates, blank] at word
    cases word

theorem methodName_word (method : Method) :
    ∀ value ∈ (methodName method).map Buffer.toLower, isWordByte value = true := by
  cases method <;> decide +kernel

/-- The first word names a method exactly if it is the method's name up to letter case. -/
theorem methodOf_eq_some_iff {word : Bytes} {method : Method} :
    methodOf word = some method ↔ Buffer.sameCaseless word (methodName method) = true := by
  have different : Buffer.sameCaseless word (ascii "GET") = true →
      Buffer.sameCaseless word (ascii "POST") = true → False := by
    intro isGet isPost
    have lengths := (Buffer.sameCaseless_length isGet).symm.trans (Buffer.sameCaseless_length isPost)
    exact absurd lengths (by decide)
  rw [methodOf]
  cases method with
  | get =>
    rw [methodName]
    split_ifs with isGet isPost
    · simp [isGet]
    · simp [isGet]
    · simp [isGet]
  | post =>
    rw [methodName]
    split_ifs with isGet isPost
    · exact iff_of_false (by simp) (different isGet)
    · simp [isPost]
    · simp [isPost]

theorem not_word_of_blank {value : UInt8} (blank : blanks.contains value = true) :
    isWordByte value = false := by
  rw [isWordByte, blank]
  rfl

theorem not_blank_of_word {value : UInt8} (word : isWordByte value = true) :
    blanks.contains value = false := by
  rw [isWordByte] at word
  exact Bool.not_eq_true' _ ▸ word

/-- Behind blanks a word is found. -/
theorem dropWhile_blanks {run word : Bytes} (blank : ∀ value ∈ run, blanks.contains value = true)
    (isWord : Word word) (nonempty : word ≠ []) (rest : Bytes) :
    (run ++ (word ++ rest)).dropWhile blanks.contains = word ++ rest := by
  obtain ⟨first, word, rfl⟩ := List.exists_cons_of_ne_nil nonempty
  exact (takeWhile_run blank (not_blank_of_word (List.forall_mem_cons.mp isWord).1) _).2

/-- A word and the blank behind it. -/
theorem split_of_dropWhile {text rest : Bytes} {first : UInt8}
    (dropped : text.dropWhile isWordByte = first :: rest) :
    text = text.takeWhile isWordByte ++ first :: rest ∧ Word (text.takeWhile isWordByte) ∧
      blanks.contains first = true := by
  refine ⟨?_, fun value member => List.mem_takeWhile_imp member, ?_⟩
  · rw [← dropped, List.takeWhile_append_dropWhile]
  · have notWord := head_of_dropWhile dropped
    rwa [isWordByte, Bool.not_eq_false'] at notWord

/-- Blanks up to a word. -/
theorem blankRun_cons {first : UInt8} (blank : blanks.contains first = true) (text : Bytes) :
    BlankRun (first :: text.takeWhile blanks.contains) := by
  refine ⟨List.cons_ne_nil _ _, List.forall_mem_cons.mpr ⟨blank, ?_⟩⟩
  exact fun value member => List.mem_takeWhile_imp member

/-! ## The parts of a line -/

/-- A line of the form is searched for the path in its URL. -/
theorem requestLine_of_form {text url : Bytes} {method : Method} (form : LineForm text method url)
    (nonempty : url ≠ []) : requestLine text = (requestUrl url).map (·.map (method, ·)) := by
  obtain ⟨word, separator, gap, version, rfl, named, ⟨present, separates⟩, isWord, ⟨more, parts⟩,
    supported⟩ := form
  obtain ⟨firstBlank, separator, rfl⟩ := List.exists_cons_of_ne_nil present
  obtain ⟨secondBlank, gap, rfl⟩ := List.exists_cons_of_ne_nil more
  obtain ⟨head, separates⟩ := List.forall_mem_cons.mp separates
  obtain ⟨middle, parts⟩ := List.forall_mem_cons.mp parts
  have wordBytes := word_of_sameCaseless named (methodName_word method)
  have versionBytes := word_of_sameCaseless supported (by decide +kernel)
  have written : version ≠ [] := by
    rintro rfl
    exact absurd supported (by decide)
  have shape : word ++ firstBlank :: separator ++ url ++ secondBlank :: gap ++ version =
      word ++ firstBlank :: (separator ++ (url ++ secondBlank :: (gap ++ version))) := by
    simp only [List.append_assoc, List.cons_append]
  have versionFound : (gap ++ version).dropWhile blanks.contains = version := by
    have found := dropWhile_blanks parts versionBytes written []
    rwa [List.append_nil] at found
  have target : requestTarget (separator ++ (url ++ secondBlank :: (gap ++ version))) = requestUrl url := by
    obtain ⟨taken, dropped⟩ := takeWhile_run isWord (not_word_of_blank middle) (gap ++ version)
    simp only [requestTarget, dropWhile_blanks separates isWord nonempty, taken, dropped, versionFound,
      supported, ↓reduceIte]
  obtain ⟨taken, dropped⟩ := takeWhile_run wordBytes (not_word_of_blank head)
    (separator ++ (url ++ secondBlank :: (gap ++ version)))
  rw [shape, requestLine]
  simp only [taken, dropped, methodOf_eq_some_iff.mpr named, target]

/-- A line that is not rejected has the form. -/
theorem form_of_requestLine {text : Bytes} (kept : requestLine text ≠ some none) :
    ∃ method url, LineForm text method url ∧ url ≠ [] := by
  rw [requestLine] at kept
  cases afterWord : text.dropWhile isWordByte with
  | nil => simp [afterWord] at kept
  | cons firstBlank rest =>
    simp only [afterWord] at kept
    cases named : methodOf (text.takeWhile isWordByte) with
    | none => simp [named] at kept
    | some method =>
      simp only [named] at kept
      have target : requestTarget rest ≠ some none := fun rejected => kept (by rw [rejected]; rfl)
      rw [requestTarget] at target
      cases afterUrl : (rest.dropWhile blanks.contains).dropWhile isWordByte with
      | nil => simp [afterUrl] at target
      | cons secondBlank gap =>
        simp only [afterUrl] at target
        split_ifs at target with supported
        · obtain ⟨split, _, firstSeparates⟩ := split_of_dropWhile afterWord
          obtain ⟨targetSplit, urlWord, secondSeparates⟩ := split_of_dropWhile afterUrl
          refine ⟨method, (rest.dropWhile blanks.contains).takeWhile isWordByte,
            ⟨text.takeWhile isWordByte, firstBlank :: rest.takeWhile blanks.contains,
              secondBlank :: gap.takeWhile blanks.contains, gap.dropWhile blanks.contains, ?_,
              methodOf_eq_some_iff.mp named, blankRun_cons firstSeparates rest, urlWord,
              blankRun_cons secondSeparates gap, supported⟩, ?_⟩
          · have version := List.takeWhile_append_dropWhile (p := blanks.contains) (l := gap)
            calc text
                _ = text.takeWhile isWordByte ++ firstBlank ::
                      (rest.takeWhile blanks.contains ++ rest.dropWhile blanks.contains) := by
                  rw [List.takeWhile_append_dropWhile, ← split]
                _ = text.takeWhile isWordByte ++ firstBlank :: (rest.takeWhile blanks.contains ++
                      ((rest.dropWhile blanks.contains).takeWhile isWordByte ++ secondBlank ::
                        (gap.takeWhile blanks.contains ++ gap.dropWhile blanks.contains))) := by
                  rw [version, ← targetSplit]
                _ = _ := by simp only [List.append_assoc, List.cons_append]
          · intro empty
            rw [empty, List.nil_append] at targetSplit
            rw [head_of_dropWhile targetSplit] at secondSeparates
            cases secondSeparates
        · exact absurd rfl target

/-! ## The path of a URL -/

/-- A path has no scheme. -/
theorem withoutScheme_path {scheme : Bytes} (known : scheme ∈ schemes) (rest : Bytes) :
    withoutScheme scheme (some (slash :: rest)) = some (some (slash :: rest)) := by
  have different : Buffer.sameCaseless ((slash :: rest).take scheme.length) scheme = false := by
    simp only [schemes, List.mem_cons, List.not_mem_nil, or_false] at known
    rcases known with rfl | rfl
    · rfl
    · rfl
  rw [withoutScheme, different, if_neg (by simp)]

/-- Behind a scheme the path is found. -/
theorem withoutScheme_absolute {scheme start authority : Bytes}
    (same : Buffer.sameCaseless start scheme = true) (bare : slash ∉ authority) (rest : Bytes) :
    withoutScheme scheme (some (start ++ authority ++ slash :: rest)) = some (some (slash :: rest)) := by
  have inside : ∀ value ∈ authority, (value != slash) = true := by
    intro value member
    exact bne_iff_ne.mpr fun isSlash => bare (isSlash ▸ member)
  rw [withoutScheme, ← Buffer.sameCaseless_length same, List.append_assoc, List.take_left, if_pos same,
    List.drop_left, (takeWhile_run inside (by simp) rest).2]

/-- Behind a scheme without a path nothing is found. -/
theorem withoutScheme_bare {scheme start authority : Bytes}
    (same : Buffer.sameCaseless start scheme = true) (bare : slash ∉ authority) :
    withoutScheme scheme (some (start ++ authority)) = some none := by
  have inside : authority.dropWhile (· != slash) = [] := by
    refine List.dropWhile_eq_nil_iff.mpr fun value member => ?_
    exact bne_iff_ne.mpr fun isSlash => bare (isSlash ▸ member)
  rw [withoutScheme, ← Buffer.sameCaseless_length same, List.take_left, if_pos same, List.drop_left, inside]

/-- A URL starts with a scheme or is left alone. -/
theorem withoutScheme_cases (scheme url : Bytes) :
    (∃ start after, url = start ++ after ∧ Buffer.sameCaseless start scheme = true) ∨
      withoutScheme scheme (some url) = some (some url) := by
  cases same : Buffer.sameCaseless (url.take scheme.length) scheme with
  | true => exact Or.inl ⟨_, _, (List.take_append_drop scheme.length url).symm, same⟩
  | false =>
    exact Or.inr (by rw [withoutScheme, same, if_neg (by simp)])

/-- The text behind a scheme has a path or none. -/
theorem path_cases (after : Bytes) :
    slash ∉ after ∨ ∃ authority rest, after = authority ++ slash :: rest ∧ slash ∉ authority := by
  by_cases member : slash ∈ after
  · obtain ⟨authority, rest, split, bare⟩ := List.eq_append_cons_of_mem member
    exact Or.inr ⟨authority, rest, split, bare⟩
  · exact Or.inl member

/-- A URL with the second scheme does not start with the first. -/
theorem withoutScheme_other {start : Bytes} (same : Buffer.sameCaseless start (ascii "https://") = true)
    (after : Bytes) :
    withoutScheme (ascii "http://") (some (start ++ after)) = some (some (start ++ after)) := by
  have length : start.length = 8 := Buffer.sameCaseless_length same
  have shorter : (start ++ after).take (ascii "http://").length = start.take 7 :=
    List.take_append_of_le_length (by rw [length]; decide)
  have lower : (start.take 7).map Buffer.toLower = ascii "https:/" := by
    rw [List.map_take, eq_of_beq same]
    decide
  have different : Buffer.sameCaseless (start.take 7) (ascii "http://") = false := by
    rw [Buffer.sameCaseless, lower]
    decide
  rw [withoutScheme, shorter, different, if_neg (by simp)]

/-- A path that is left behind the schemes is the result. -/
theorem requestUrl_of_path {url rest : Bytes}
    (stripped : (withoutScheme (ascii "http://") (some url)).bind (withoutScheme (ascii "https://")) =
      some (some (slash :: rest))) : requestUrl url = some (some (orDefaultPage (slash :: rest))) := by
  obtain ⟨afterHttp, first, second⟩ := Option.bind_eq_some_iff.mp stripped
  simp only [requestUrl, bind, first, second, Option.bind_some, List.head?_cons, ne_eq, not_true_eq_false,
    ↓reduceIte, orDefaultPage]
  cases rest with
  | nil => rfl
  | cons value rest => rw [if_neg (by simp), if_neg (by simp)]

theorem requestUrl_of_form {url path : Bytes} (form : UrlForm url path) :
    requestUrl url = some (some (orDefaultPage path)) := by
  cases form with
  | path rest =>
    apply requestUrl_of_path
    rw [withoutScheme_path (by simp [schemes]) rest, Option.bind_some,
      withoutScheme_path (by simp [schemes]) rest]
  | absolute known same bare rest =>
    apply requestUrl_of_path
    simp only [schemes, List.mem_cons, List.not_mem_nil, or_false] at known
    rcases known with rfl | rfl
    · rw [withoutScheme_absolute same bare, Option.bind_some, withoutScheme_path (by simp [schemes]) rest]
    · rw [List.append_assoc, withoutScheme_other same, Option.bind_some, ← List.append_assoc,
        withoutScheme_absolute same bare]

/-- Without a path the null pointer is compared with the second scheme. -/
theorem requestUrl_of_pathless {url : Bytes} (pathless : Pathless url) : requestUrl url = none := by
  obtain ⟨start, authority, rfl, same, bare⟩ := pathless
  simp only [requestUrl, bind, withoutScheme_bare same bare, Option.bind_some]
  rfl

/-- A URL that is not rejected has a path, or runs into the null pointer. -/
theorem form_of_requestUrl {url : Bytes} (kept : requestUrl url ≠ some none) :
    (∃ path, UrlForm url path) ∨ Pathless url := by
  rcases withoutScheme_cases (ascii "http://") url with ⟨start, after, rfl, same⟩ | first
  · rcases path_cases after with bare | ⟨authority, rest, rfl, bare⟩
    · exact Or.inr ⟨start, after, rfl, same, bare⟩
    · rw [← List.append_assoc]
      exact Or.inl ⟨_, .absolute (by simp [schemes]) same bare rest⟩
  · rcases withoutScheme_cases (ascii "https://") url with ⟨start, after, rfl, same⟩ | second
    · rcases path_cases after with bare | ⟨authority, rest, rfl, bare⟩
      · refine absurd ?_ kept
        simp only [requestUrl, bind, first, Option.bind_some, withoutScheme_bare same bare]
      · rw [← List.append_assoc]
        exact Or.inl ⟨_, .absolute (by simp [schemes]) same bare rest⟩
    · simp only [requestUrl, bind, first, second, Option.bind_some] at kept
      cases url with
      | nil => simp at kept
      | cons value rest =>
        by_cases isSlash : value = slash
        · rw [isSlash]
          exact Or.inl ⟨_, .path rest⟩
        · simp [isSlash] at kept

/-! ## The lines that are accepted -/

/-- A request line the server accepts: the path, before the default page is put in. -/
def Acceptable (text : Bytes) (method : Method) (path : Bytes) : Prop :=
  ∃ url, LineForm text method url ∧ UrlForm url path

/-- A request line with an `http` URL that has no path. -/
def LacksPath (text : Bytes) : Prop := ∃ method url, LineForm text method url ∧ Pathless url

theorem requestLine_of_acceptable {text path : Bytes} {method : Method}
    (form : Acceptable text method path) : requestLine text = some (some (method, orDefaultPage path)) := by
  obtain ⟨url, line, urlForm⟩ := form
  have nonempty : url ≠ [] := by
    rintro rfl
    generalize same : ([] : Bytes) = empty at urlForm
    cases urlForm with
    | path rest => cases same
    | absolute _ _ _ rest => simp at same
  rw [requestLine_of_form line nonempty, requestUrl_of_form urlForm]
  rfl

theorem requestLine_of_lacksPath {text : Bytes} (lacks : LacksPath text) : requestLine text = none := by
  obtain ⟨method, url, line, pathless⟩ := lacks
  have nonempty : url ≠ [] := by
    rintro rfl
    obtain ⟨start, authority, empty, same, _⟩ := pathless
    rw [List.nil_eq_append_iff] at empty
    rw [empty.1] at same
    exact absurd same (by decide)
  rw [requestLine_of_form line nonempty, requestUrl_of_pathless pathless]
  rfl

/-- A line is acceptable, lacks its path, or is rejected. -/
theorem requestLine_cases (text : Bytes) :
    (∃ method path, Acceptable text method path) ∨ LacksPath text ∨ requestLine text = some none := by
  by_cases rejected : requestLine text = some none
  · exact Or.inr (Or.inr rejected)
  · obtain ⟨method, url, line, nonempty⟩ := form_of_requestLine rejected
    have kept : requestUrl url ≠ some none := by
      intro badUrl
      rw [requestLine_of_form line nonempty, badUrl] at rejected
      exact rejected rfl
    rcases form_of_requestUrl kept with ⟨path, form⟩ | pathless
    · exact Or.inl ⟨method, path, url, line, form⟩
    · exact Or.inr (Or.inl ⟨method, url, line, pathless⟩)

namespace HttpConn

variable {conn : HttpConn} {start : ℕ} {text : Bytes}

/-- An acceptable line is accepted, with the method and the path it names. -/
theorem parseRequestLine_acceptable (found : conn.readBuf.cstr start = some text)
    (room : start + text.length + 2 ≤ readBufferSize) {method : Method} {path : Bytes}
    (form : Acceptable text method path) :
    ∃ after, conn.parseRequestLine start = some (.noRequest, after) ∧ after.method = method ∧
      after.cgi = (if method = .post then 1 else conn.cgi) ∧ after.urlText = some (orDefaultPage path) := by
  have stage := parseRequestLine_result found room le_rfl
  rw [requestLine_of_acceptable form] at stage
  obtain ⟨readBuf, pointer, version, ran, read, _⟩ := stage
  exact ⟨_, ran, rfl, rfl, read⟩

/-- A line without the path is undefined. -/
theorem parseRequestLine_lacksPath (found : conn.readBuf.cstr start = some text)
    (room : start + text.length + 2 ≤ readBufferSize) (lacks : LacksPath text) :
    conn.parseRequestLine start = none := by
  have stage := parseRequestLine_result found room le_rfl
  rwa [requestLine_of_lacksPath lacks] at stage

/-- Any other line is rejected. -/
theorem parseRequestLine_rejected (found : conn.readBuf.cstr start = some text)
    (room : start + text.length + 2 ≤ readBufferSize) (rejected : requestLine text = some none) :
    ∃ after, conn.parseRequestLine start = some (.badRequest, after) := by
  have stage := parseRequestLine_result found room le_rfl
  rwa [rejected] at stage

end HttpConn

/-- `parse_request_line` accepts a line, with two bytes of the buffer behind it as `parse_line` leaves
them, exactly if it has the form of a request line; then the method, `cgi` and the URL are those of the
line. -/
theorem accepts_iff_acceptable (conn : HttpConn) (start : ℕ) (text : Bytes)
    (found : conn.readBuf.cstr start = some text) (room : start + text.length + 2 ≤ readBufferSize) :
    ((∃ after, conn.parseRequestLine start = some (.noRequest, after)) ↔
        ∃ method path, Acceptable text method path) ∧
      ∀ after method path, conn.parseRequestLine start = some (.noRequest, after) →
        Acceptable text method path → after.method = method ∧
          after.cgi = (if method = .post then 1 else conn.cgi) ∧
          after.urlText = some (orDefaultPage path) := by
  refine ⟨⟨?_, ?_⟩, ?_⟩
  · rintro ⟨after, accepted⟩
    rcases requestLine_cases text with form | lacks | rejected
    · exact form
    · rw [conn.parseRequestLine_lacksPath found room lacks] at accepted
      cases accepted
    · obtain ⟨other, ran⟩ := conn.parseRequestLine_rejected found room rejected
      rw [ran] at accepted
      cases accepted
  · rintro ⟨method, path, form⟩
    obtain ⟨after, accepted, _⟩ := conn.parseRequestLine_acceptable found room form
    exact ⟨after, accepted⟩
  · intro after method path accepted form
    obtain ⟨other, ran, facts⟩ := conn.parseRequestLine_acceptable found room form
    cases ran.symm.trans accepted
    exact facts

/-- An absolute URL with an authority and the path of the site. -/
theorem accepts_iff_acceptable_root :
    (∃ after, { HttpConn.blank with
          readBuf := Buffer.zero.write 0 (ascii "post\t http://host/  HTTP/1.1") }.parseRequestLine 0 =
        some (.noRequest, after)) ↔
      ∃ method path, Acceptable (ascii "post\t http://host/  HTTP/1.1") method path :=
  (accepts_iff_acceptable _ 0 _ (by decide +kernel) (by decide +kernel)).1

/-- `parse_request_line` never uses a null pointer and rejects every line that is not acceptable, unless
the line has an `http` URL without a path. -/
theorem rejects_iff_not_lacksPath (conn : HttpConn) (start : ℕ) (text : Bytes)
    (found : conn.readBuf.cstr start = some text) (room : start + text.length + 2 ≤ readBufferSize) :
    (conn.parseRequestLine start ≠ none ∧
        ((¬ ∃ method path, Acceptable text method path) →
          ∃ after, conn.parseRequestLine start = some (.badRequest, after))) ↔
      ¬ LacksPath text := by
  constructor
  · rintro ⟨defined, _⟩ lacks
    exact defined (conn.parseRequestLine_lacksPath found room lacks)
  · intro hasPath
    rcases requestLine_cases text with ⟨method, path, form⟩ | lacks | rejected
    · obtain ⟨after, accepted, _⟩ := conn.parseRequestLine_acceptable found room form
      exact ⟨by simp [accepted], fun unacceptable => absurd ⟨method, path, form⟩ unacceptable⟩
    · exact absurd lacks hasPath
    · obtain ⟨after, ran⟩ := conn.parseRequestLine_rejected found room rejected
      exact ⟨by simp [ran], fun _ => ⟨after, ran⟩⟩

/-- A line with a relative URL. -/
theorem rejects_iff_not_lacksPath_relative :
    ({ HttpConn.blank with readBuf := Buffer.zero.write 0 (ascii "GET a HTTP/1.1") }.parseRequestLine 0 ≠
          none ∧
        ((¬ ∃ method path, Acceptable (ascii "GET a HTTP/1.1") method path) →
          ∃ after, { HttpConn.blank with
              readBuf := Buffer.zero.write 0 (ascii "GET a HTTP/1.1") }.parseRequestLine 0 =
            some (.badRequest, after))) ↔
      ¬ LacksPath (ascii "GET a HTTP/1.1") :=
  rejects_iff_not_lacksPath _ 0 _ (by decide +kernel) (by decide +kernel)

/-- A URL without a path is not acceptable and not rejected. -/
theorem pathless_undefined :
    (¬ ∃ method path, Acceptable (ascii "GET http://host HTTP/1.1") method path) ∧
      { HttpConn.blank with
        readBuf := Buffer.zero.write 0 (ascii "GET http://host HTTP/1.1") }.parseRequestLine 0 = none ∧
      HttpConn.blank.init.deliver (ascii "GET http://host HTTP/1.1\r\n") = none := by
  refine ⟨?_, by decide +kernel, by decide +kernel⟩
  rintro ⟨method, path, form⟩
  have accepted := requestLine_of_acceptable form
  rw [show requestLine (ascii "GET http://host HTTP/1.1") = none by decide +kernel] at accepted
  cases accepted

end WebServ.Http
