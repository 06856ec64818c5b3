import WebServ.Model.RequestParser

/-! # What the parser is for: requests read off a byte stream

The abstract parser knows no buffer and no resumption. It cuts a byte list into CRLF lines, turns
the first into a method and a URL and the others into header fields, and stops at the empty line.
Because it is a function of the bytes received so far, its result on a stream cannot depend on how
the stream was delivered; `parse_append` says what a further delivery adds. A byte that is no part
of a line (a bare CR or LF) leaves the parser waiting, as the code does.
-/

namespace WebServ.Http

open WebServ.Text

/-- The first line of a byte list: complete with the bytes after its CRLF, cut short by a bare CR
or LF, or not finished. -/
inductive Line where
  | complete (line rest : Bytes)
  | malformed
  | unfinished
deriving DecidableEq, Repr

/-- Put a byte before the first line. -/
def Line.cons (first : UInt8) : Line → Line
  | .complete line rest => .complete (first :: line) rest
  | other => other

/-- What a CR at the start of the bytes amounts to, from the bytes after it. -/
def afterCr : Bytes → Line
  | [] => .unfinished
  | second :: rest => if second = lf then .complete [] rest else .malformed

def splitLine : Bytes → Line
  | [] => .unfinished
  | first :: rest =>
      if first = cr then afterCr rest
      else if first = lf then .malformed
      else (splitLine rest).cons first

/-- Neither CR nor LF. -/
def Plain (line : Bytes) : Prop := ∀ value ∈ line, value ≠ cr ∧ value ≠ lf

instance (line : Bytes) : Decidable (Plain line) :=
  inferInstanceAs (Decidable (∀ value ∈ line, value ≠ cr ∧ value ≠ lf))

/-- A complete line and its CRLF are a prefix of the bytes. -/
theorem splitLine_complete {bytes line rest : Bytes} (split : splitLine bytes = .complete line rest) :
    bytes = line ++ cr :: lf :: rest ∧ Plain line := by
  induction bytes generalizing line with
  | nil => simp [splitLine] at split
  | cons first tail ih =>
    rw [splitLine] at split
    split_ifs at split with isCr isLf
    · subst isCr
      cases tail with
      | nil => simp [afterCr] at split
      | cons second tail =>
        rw [afterCr] at split
        split_ifs at split with isLf
        cases split
        exact ⟨by rw [isLf]; rfl, by simp [Plain]⟩
    · cases inner : splitLine tail with
      | complete more after =>
        rw [inner] at split
        cases split
        obtain ⟨rfl, plain⟩ := ih inner
        exact ⟨rfl, List.forall_mem_cons.mpr ⟨⟨isCr, isLf⟩, plain⟩⟩
      | malformed => simp [inner, Line.cons] at split
      | unfinished => simp [inner, Line.cons] at split

theorem splitLine_length {bytes line rest : Bytes} (split : splitLine bytes = .complete line rest) :
    rest.length < bytes.length := by
  obtain ⟨rfl, _⟩ := splitLine_complete split
  simp only [List.length_append, List.length_cons]
  omega

/-- Plain bytes before a list lengthen its first line and change nothing else. -/
theorem splitLine_plain_append {line : Bytes} (plain : Plain line) (bytes : Bytes) :
    splitLine (line ++ bytes) = line.foldr Line.cons (splitLine bytes) := by
  induction line with
  | nil => rfl
  | cons first rest ih =>
    obtain ⟨⟨notCr, notLf⟩, plain⟩ := List.forall_mem_cons.mp plain
    rw [List.cons_append, splitLine, if_neg notCr, if_neg notLf, ih plain, List.foldr_cons]

theorem foldr_cons_complete (line more rest : Bytes) :
    line.foldr Line.cons (.complete more rest) = .complete (line ++ more) rest := by
  induction line with
  | nil => rfl
  | cons first tail ih => rw [List.foldr_cons, ih, Line.cons, List.cons_append]

theorem foldr_cons_other (line : Bytes) {other : Line} (incomplete : ∀ l r, other ≠ .complete l r) :
    line.foldr Line.cons other = other := by
  induction line with
  | nil => rfl
  | cons first tail ih =>
    rw [List.foldr_cons, ih]
    cases other with
    | complete l r => exact absurd rfl (incomplete l r)
    | malformed => rfl
    | unfinished => rfl

theorem splitLine_append_of_complete {bytes line rest : Bytes}
    (split : splitLine bytes = .complete line rest) (more : Bytes) :
    splitLine (bytes ++ more) = .complete line (rest ++ more) := by
  obtain ⟨rfl, plain⟩ := splitLine_complete split
  rw [List.append_assoc, splitLine_plain_append plain]
  have crlf : splitLine (cr :: lf :: rest ++ more) = .complete [] (rest ++ more) := by
    simp [splitLine, afterCr]
  rw [crlf, foldr_cons_complete, List.append_nil]

/-! ## The request line -/

/-- A byte that does not separate the words of a request line. -/
def isWordByte (value : UInt8) : Bool := !blanks.contains value

/-- The method named by the first word, up to letter case. -/
def methodOf (word : Bytes) : Option Method :=
  if Buffer.sameCaseless word (ascii "GET") then some .get
  else if Buffer.sameCaseless word (ascii "POST") then some .post
  else none

/-- A URL without the given scheme and the authority after it. Null URLs are not defined here. -/
def withoutScheme (scheme : Bytes) : Option Bytes → Option (Option Bytes)
  | none => none
  | some url =>
      if Buffer.sameCaseless (url.take scheme.length) scheme then
        match (url.drop scheme.length).dropWhile (· != slash) with
        | [] => some none
        | path => some (some path)
      else some (some url)

/-- The path a request asks for. The outer `none` is undefined behaviour, the inner a bad URL. -/
def requestUrl (url : Bytes) : Option (Option Bytes) := do
  let afterHttp ← withoutScheme (ascii "http://") (some url)
  let afterHttps ← withoutScheme (ascii "https://") afterHttp
  match afterHttps with
  | none => some none
  | some path =>
      if path.head? ≠ some slash then some none
      else some (some (if path.length = 1 then path ++ ascii "judge.html" else path))

/-- The path in what follows the method. -/
def requestTarget (text : Bytes) : Option (Option Bytes) :=
  let target := text.dropWhile blanks.contains
  match target.dropWhile isWordByte with
  | [] => some none
  | _ :: afterUrl =>
      if Buffer.sameCaseless (afterUrl.dropWhile blanks.contains) (ascii "HTTP/1.1") then
        requestUrl (target.takeWhile isWordByte)
      else some none

/-- Method and path of a request line. -/
def requestLine (text : Bytes) : Option (Option (Method × Bytes)) :=
  match text.dropWhile isWordByte with
  | [] => some none
  | _ :: afterMethod =>
      match methodOf (text.takeWhile isWordByte) with
      | none => some none
      | some method => (requestTarget afterMethod).map (·.map (method, ·))

/-! ## Headers and the whole request -/

/-- What the parser has learned about a request. -/
structure Request where
  method : Method
  cgi : ℕ
  linger : Bool
  contentLength : ℤ
  url : Bytes
  host : Option Bytes
deriving DecidableEq, Repr

/-- Nothing is known before the first byte. -/
def Request.empty : Request := ⟨.get, 0, false, 0, [], none⟩

/-- The value of a header field, if the line starts with the field's name. -/
def fieldValue (field text : Bytes) : Option Bytes :=
  if Buffer.sameCaseless (text.take field.length) field then
    some ((text.drop field.length).dropWhile blanks.contains)
  else none

/-- The effect of one header line. -/
def Request.addHeader (request : Request) (text : Bytes) : Request :=
  match fieldValue (ascii "Connection:") text with
  | some value =>
      if Buffer.sameCaseless value (ascii "keep-alive") then { request with linger := true }
      else request
  | none =>
      match fieldValue (ascii "Content-length:") text with
      | some value => { request with contentLength := toInt (atol value) }
      | none =>
          match fieldValue (ascii "Host:") text with
          | some value => { request with host := some value }
          | none => request

/-- The effect of an accepted request line. -/
def Request.setLine (request : Request) (method : Method) (url : Bytes) : Request :=
  { request with method, url, cgi := if method = .post then 1 else request.cgi }

/-- How far the parser gets: it waits with the bytes of an unfinished line, rejects the request,
runs into undefined behaviour, has the whole request, or has reached its body. -/
inductive Progress where
  | waiting (phase : CheckState) (request : Request) (rest : Bytes)
  | rejected
  | undefined
  | finished (request : Request)
  | body (request : Request) (rest : Bytes)
deriving DecidableEq, Repr

/-- The bytes of a line before its first NUL: what the string functions see of it. -/
def visible (line : Bytes) : Bytes := line.takeWhile (· != 0)

/-- Parse the lines of a byte list. -/
def parse : CheckState → Request → Bytes → Progress
  | .content, request, bytes => .body request bytes
  | .requestLine, request, bytes =>
      match _split : splitLine bytes with
      | .complete line rest =>
          match requestLine (visible line) with
          | none => .undefined
          | some none => .rejected
          | some (some (method, url)) => parse .header (request.setLine method url) rest
      | _ => .waiting .requestLine request bytes
  | .header, request, bytes =>
      match _split : splitLine bytes with
      | .complete line rest =>
          if visible line = [] then
            if request.contentLength ≠ 0 then .body request rest else .finished request
          else parse .header (request.addHeader (visible line)) rest
      | _ => .waiting .header request bytes
termination_by _ _ bytes => bytes.length
decreasing_by all_goals exact splitLine_length _split

theorem parse_requestLine {bytes line rest : Bytes} (split : splitLine bytes = .complete line rest)
    (request : Request) :
    parse .requestLine request bytes =
      match requestLine (visible line) with
      | none => .undefined
      | some none => .rejected
      | some (some (method, url)) => parse .header (request.setLine method url) rest := by
  rw [parse]
  split
  · next found =>
    cases split.symm.trans found
    rfl
  · next other => exact absurd split (other line rest)

theorem parse_header {bytes line rest : Bytes} (split : splitLine bytes = .complete line rest)
    (request : Request) :
    parse .header request bytes =
      if visible line = [] then
        if request.contentLength ≠ 0 then .body request rest else .finished request
      else parse .header (request.addHeader (visible line)) rest := by
  rw [parse]
  split
  · next found =>
    cases split.symm.trans found
    rfl
  · next other => exact absurd split (other line rest)

theorem parse_incomplete {phase : CheckState} (reading : phase ≠ .content) {bytes : Bytes}
    (incomplete : ∀ line rest, splitLine bytes ≠ .complete line rest) (request : Request) :
    parse phase request bytes = .waiting phase request bytes := by
  cases phase with
  | content => exact absurd rfl reading
  | requestLine =>
    rw [parse]
    split
    · next found => exact absurd found (incomplete _ _)
    · rfl
  | header =>
    rw [parse]
    split
    · next found => exact absurd found (incomplete _ _)
    · rfl

/-- What further bytes do to a parser that has stopped. -/
def Progress.resume (more : Bytes) : Progress → Progress
  | .waiting phase request rest => parse phase request (rest ++ more)
  | .body request rest => .body request (rest ++ more)
  | other => other

/-- Parsing a concatenation resumes where the first part left the parser. -/
theorem parse_append (phase : CheckState) (request : Request) (bytes more : Bytes) :
    parse phase request (bytes ++ more) = (parse phase request bytes).resume more := by
  fun_induction parse phase request bytes with
  | case1 => rw [parse, Progress.resume]
  | case2 request bytes line rest split result =>
    rw [parse_requestLine (splitLine_append_of_complete split more), result]
    rfl
  | case3 request bytes line rest split result =>
    rw [parse_requestLine (splitLine_append_of_complete split more), result]
    rfl
  | case4 request bytes line rest split method url result ih =>
    rw [parse_requestLine (splitLine_append_of_complete split more), result]
    exact ih
  | case5 => rfl
  | case6 request bytes line rest split blank nonzero =>
    rw [parse_header (splitLine_append_of_complete split more), if_pos blank, if_pos nonzero]
    rfl
  | case7 request bytes line rest split blank zero =>
    rw [parse_header (splitLine_append_of_complete split more), if_pos blank, if_neg zero]
    rfl
  | case8 request bytes line rest split field ih =>
    rw [parse_header (splitLine_append_of_complete split more), if_neg field]
    exact ih
  | case9 => rfl

end WebServ.Http
