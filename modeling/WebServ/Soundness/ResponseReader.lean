import WebServ.Soundness.ResponseFraming
import Mathlib.Data.List.TakeWhile

/-! # What a client reads

A client cuts the bytes it receives into lines up to the empty one, takes the length of the body from the
header, and so finds the end of one response and the beginning of the next. It reads any sequence of the
responses of the server back, whatever follows, and takes no part of a response for a whole one.
-/

namespace WebServ.Http

open WebServ.Text

/-- The lines up to the empty one, and the bytes behind it. -/
def readLines (bytes : Bytes) : Option (List Bytes × Bytes) :=
  match _split : splitLine bytes with
  | .complete line rest =>
      if line = [] then some ([], rest)
      else (readLines rest).map fun (lines, body) => (line :: lines, body)
  | _ => none
termination_by bytes.length
decreasing_by exact splitLine_length _split

/-- The announced length of a body: the one value of the header field, in whatever case its name is. -/
def bodyLength (headers : List Bytes) : Option ℕ :=
  match headers.filterMap (fieldValue (ascii "Content-Length:")) with
  | [value] => some (digitsValue 0 value)
  | _ => none

namespace Response

/-- The first response, and the bytes behind it; none if it is not complete. -/
def read (bytes : Bytes) : Option (Response × Bytes) :=
  match readLines bytes with
  | some (statusLine :: headers, rest) =>
      match bodyLength headers with
      | some length =>
          if length ≤ rest.length then some (⟨statusLine, headers, rest.take length⟩, rest.drop length)
          else none
      | none => none
  | _ => none

end Response

/-! ## Lines -/

theorem readLines_complete {bytes line rest : Bytes} (split : splitLine bytes = .complete line rest) :
    readLines bytes =
      if line = [] then some ([], rest)
      else (readLines rest).map fun (lines, body) => (line :: lines, body) := by
  rw [readLines]
  split
  · next found =>
    cases split.symm.trans found
    rfl
  · next other => exact absurd split (other line rest)

theorem readLines_incomplete {bytes : Bytes} (incomplete : ∀ line rest, splitLine bytes ≠ .complete line rest) :
    readLines bytes = none := by
  rw [readLines]
  split
  · next found => exact absurd found (incomplete _ _)
  · rfl

theorem readLines_length {bytes body : Bytes} {lines : List Bytes} (found : readLines bytes = some (lines, body)) :
    body.length < bytes.length := by
  fun_induction readLines bytes generalizing lines with
  | case1 bytes rest split =>
    cases found
    exact splitLine_length split
  | case2 bytes line rest split nonempty ih =>
    obtain ⟨⟨others, _⟩, there, same⟩ := Option.map_eq_some_iff.mp found
    cases same
    exact Nat.lt_trans (ih there) (splitLine_length split)
  | case3 => cases found

/-- More bytes do not change the lines that are complete. -/
theorem readLines_append {bytes body : Bytes} {lines : List Bytes}
    (found : readLines bytes = some (lines, body)) (more : Bytes) :
    readLines (bytes ++ more) = some (lines, body ++ more) := by
  fun_induction readLines bytes generalizing lines with
  | case1 bytes rest split =>
    cases found
    rw [readLines_complete (splitLine_append_of_complete split more), if_pos rfl]
  | case2 bytes line rest split nonempty ih =>
    obtain ⟨⟨others, _⟩, there, same⟩ := Option.map_eq_some_iff.mp found
    cases same
    rw [readLines_complete (splitLine_append_of_complete split more), if_neg nonempty, ih there, Option.map_some]
  | case3 => cases found

/-- Written lines are read. -/
theorem readLines_lines {lines : List Bytes} (plain : ∀ line ∈ lines, Plain line ∧ line ≠ []) (body : Bytes) :
    readLines (lines.flatMap (· ++ ascii "\r\n") ++ ascii "\r\n" ++ body) = some (lines, body) := by
  have crlf : ascii "\r\n" = [cr, lf] := by decide
  rw [crlf]
  induction lines with
  | nil =>
    have split : splitLine ([cr, lf] ++ body) = .complete [] body := by simp [splitLine, afterCr]
    rw [List.flatMap_nil, List.nil_append, readLines_complete split, if_pos rfl]
  | cons line lines ih =>
    obtain ⟨⟨isPlain, nonempty⟩, others⟩ := List.forall_mem_cons.mp plain
    have split : splitLine ((line :: lines).flatMap (· ++ [cr, lf]) ++ [cr, lf] ++ body) =
        .complete line (lines.flatMap (· ++ [cr, lf]) ++ [cr, lf] ++ body) := by
      have first : splitLine (line ++ [cr, lf]) = .complete line [] := by
        have alone : splitLine [cr, lf] = .complete [] [] := by decide
        rw [splitLine_plain_append isPlain, alone, foldr_cons_complete, List.append_nil]
      rw [List.flatMap_cons, List.append_assoc, List.append_assoc, splitLine_append_of_complete first,
        List.nil_append, ← List.append_assoc]
    rw [readLines_complete split, if_neg nonempty, ih others, Option.map_some]

/-! ## One response -/

namespace Response

theorem read_length {bytes rest : Bytes} {response : Response} (found : read bytes = some (response, rest)) :
    rest.length < bytes.length := by
  rw [read] at found
  split at found
  · next statusLine headers body lines =>
    split at found
    · split_ifs at found
      cases found
      have shorter := readLines_length lines
      rw [List.length_drop]
      omega
    · cases found
  · cases found

/-- More bytes do not change a complete response. -/
theorem read_append {bytes rest : Bytes} {response : Response} (found : read bytes = some (response, rest))
    (more : Bytes) : read (bytes ++ more) = some (response, rest ++ more) := by
  rw [read] at found
  split at found
  · next statusLine headers body lines =>
    split at found
    · next length announced =>
      split_ifs at found with enough
      cases found
      have still : length ≤ (body ++ more).length := by
        rw [List.length_append]
        omega
      rw [read, readLines_append lines more]
      dsimp only
      rw [announced]
      dsimp only
      rw [if_pos still, List.take_append_of_le_length enough, List.drop_append_of_le_length enough]
    · cases found
  · cases found

/-- No line hides a line break or is empty, and the header announces the length of the body. -/
structure Readable (response : Response) : Prop where
  statusLine : Plain response.statusLine ∧ response.statusLine ≠ []
  headers : ∀ header ∈ response.headers, Plain header ∧ header ≠ []
  announced : bodyLength response.headers = some response.body.length

/-- A response is read back, whatever follows. -/
theorem Readable.read_bytes {response : Response} (readable : response.Readable) (rest : Bytes) :
    read (response.bytes ++ rest) = some (response, rest) := by
  have lines : readLines (response.bytes ++ rest) =
      some (response.statusLine :: response.headers, response.body ++ rest) := by
    have plain : ∀ line ∈ response.statusLine :: response.headers, Plain line ∧ line ≠ [] :=
      List.forall_mem_cons.mpr ⟨readable.statusLine, readable.headers⟩
    rw [← readLines_lines plain (response.body ++ rest), bytes, List.flatMap_cons]
    simp only [List.append_assoc]
  have enough : response.body.length ≤ (response.body ++ rest).length := by
    rw [List.length_append]
    omega
  rw [read, lines]
  dsimp only
  rw [readable.announced]
  dsimp only
  rw [if_pos enough, List.take_left, List.drop_left]

/-- A proper part of a response is not taken for one. -/
theorem Readable.read_part {response : Response} (readable : response.Readable) {front back : Bytes}
    (cut : response.bytes = front ++ back) (more : back ≠ []) : read front = none := by
  rcases part : read front with _ | ⟨other, rest⟩
  · rfl
  · have whole := readable.read_bytes []
    rw [List.append_nil, cut, read_append part back, Option.some.injEq, Prod.mk.injEq] at whole
    exact absurd (List.append_eq_nil_iff.mp whole.2).2 more

/-- All complete responses, and the bytes behind the last of them. -/
def readAll (bytes : Bytes) : List Response × Bytes :=
  match _found : read bytes with
  | some (response, rest) =>
      let (others, left) := readAll rest
      (response :: others, left)
  | none => ([], bytes)
termination_by bytes.length
decreasing_by exact read_length _found

theorem readAll_some {bytes rest : Bytes} {response : Response} (found : read bytes = some (response, rest)) :
    readAll bytes = (response :: (readAll rest).1, (readAll rest).2) := by
  rw [readAll]
  split
  · next other same =>
    cases found.symm.trans same
    rfl
  · next other =>
    cases found.symm.trans other

theorem readAll_none {bytes : Bytes} (missing : read bytes = none) : readAll bytes = ([], bytes) := by
  rw [readAll]
  split
  · next found => cases missing.symm.trans found
  · rfl

/-- Responses one after the other, and a part of one more. -/
theorem readAll_responses {responses : List Response} (readable : ∀ response ∈ responses, response.Readable)
    {front : Bytes} (unfinished : read front = none) :
    readAll (responses.flatMap bytes ++ front) = (responses, front) := by
  induction responses with
  | nil => exact readAll_none unfinished
  | cons response responses ih =>
    obtain ⟨first, others⟩ := List.forall_mem_cons.mp readable
    rw [List.flatMap_cons, List.append_assoc, readAll_some (first.read_bytes _), ih others]

theorem read_nil : read [] = none := by
  rw [read, readLines_incomplete (by simp [splitLine])]

end Response

/-! ## The responses of the server -/

/-- A field name is found whatever its value. -/
theorem fieldValue_append (field value : Bytes) :
    fieldValue field (field ++ value) = some (value.dropWhile blanks.contains) := by
  rw [fieldValue, List.take_left, List.drop_left, Buffer.sameCaseless, beq_self_eq_true, if_pos rfl]

theorem readable_answer (linger : Bool) (status : ℤ) {title : Bytes} (body : Bytes) (plain : Plain title) :
    (HttpConn.answer linger status title body).Readable := by
  have wellFormed := HttpConn.answer_wellFormed linger status body plain
  refine ⟨⟨wellFormed.statusLine.1, ?_⟩, wellFormed.headers, ?_⟩
  · obtain ⟨rest, same⟩ := wellFormed.statusLine.2
    rw [← same]
    exact List.append_ne_nil_of_left_ne_nil (by decide) rest
  · have length : fieldValue (ascii "Content-Length:") (ascii "Content-Length:" ++ decimal body.length) =
        some (decimal body.length) := by
      rw [fieldValue_append, List.dropWhile_eq_self_iff.mpr]
      intro some_digit isBlank
      have digit := isDigit_of_mem_decimal (List.getElem_mem some_digit)
      generalize (decimal body.length)[0] = first at digit isBlank
      simp only [blanks, List.contains_cons, List.contains_nil, Bool.or_false, Bool.or_eq_true,
        beq_iff_eq] at isBlank
      rcases isBlank with rfl | rfl
      · exact absurd digit (by decide)
      · exact absurd digit (by decide)
    have other : fieldValue (ascii "Content-Length:")
        (ascii "Connection:" ++ (if linger then ascii "keep-live" else ascii "close")) = none := by
      cases linger <;> decide
    simp only [HttpConn.answer, bodyLength, List.filterMap_cons, List.filterMap_nil, length, other,
      digitsValue_decimal]

end WebServ.Http
