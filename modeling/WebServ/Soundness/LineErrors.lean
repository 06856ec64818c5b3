import WebServ.Proofs.RequestPath
import WebServ.Soundness.Segmentation

/-! # Malformed lines

The line scanner reports a bare CR or LF as `LINE_BAD`, but the loop of `process_read` asks only whether
a line is complete, and the result behind the loop is `NO_REQUEST`. A line that no further byte can
complete leaves the server waiting for the rest of it.
-/

namespace WebServ.Http

open WebServ.Text HttpConn

/-- The bytes contain a CR before another byte than LF, or an LF without a CR before it. -/
def Stray (bytes : Bytes) : Prop :=
  (∃ before next after, bytes = before ++ cr :: next :: after ∧ next ≠ lf) ∨
    ∃ before after, bytes = before ++ lf :: after ∧ before.getLast? ≠ some cr

/-- More bytes can complete the line the bytes begin with. -/
def Completable (bytes : Bytes) : Prop := ∃ more line rest, splitLine (bytes ++ more) = .complete line rest

/-! ## What is left behind the last complete line -/

/-- A malformed line is plain up to the stray byte. -/
theorem splitLine_malformed {bytes : Bytes} (split : splitLine bytes = .malformed) :
    ∃ line rest, bytes = line ++ rest ∧ Plain line ∧
      ((∃ next after, rest = cr :: next :: after ∧ next ≠ lf) ∨ ∃ after, rest = lf :: after) := by
  induction bytes with
  | nil => cases split
  | cons first tail ih =>
    rw [splitLine] at split
    split_ifs at split with isCr isLf
    · subst isCr
      cases tail with
      | nil => cases split
      | cons next after =>
        rw [afterCr] at split
        split_ifs at split with isLf
        exact ⟨[], _, rfl, by simp [Plain], Or.inl ⟨next, after, rfl, isLf⟩⟩
    · exact ⟨[], _, rfl, by simp [Plain], Or.inr ⟨tail, by rw [isLf]⟩⟩
    · have inner : splitLine tail = .malformed := by
        cases found : splitLine tail with
        | complete line rest => simp [found, Line.cons] at split
        | malformed => rfl
        | unfinished => simp [found, Line.cons] at split
      obtain ⟨line, rest, rfl, plain, stop⟩ := ih inner
      exact ⟨first :: line, rest, rfl, List.forall_mem_cons.mpr ⟨⟨isCr, isLf⟩, plain⟩, stop⟩

/-- An unfinished line is plain, or plain up to a CR at its end. -/
theorem splitLine_unfinished {bytes : Bytes} (split : splitLine bytes = .unfinished) :
    ∃ line, Plain line ∧ (bytes = line ∨ bytes = line ++ [cr]) := by
  induction bytes with
  | nil => exact ⟨[], by simp [Plain], Or.inl rfl⟩
  | cons first tail ih =>
    rw [splitLine] at split
    split_ifs at split with isCr isLf
    · subst isCr
      cases tail with
      | nil => exact ⟨[], by simp [Plain], Or.inr rfl⟩
      | cons next after =>
        rw [afterCr] at split
        split_ifs at split
    · have inner : splitLine tail = .unfinished := by
        cases found : splitLine tail with
        | complete line rest => simp [found, Line.cons] at split
        | malformed => simp [found, Line.cons] at split
        | unfinished => rfl
      obtain ⟨line, plain, either⟩ := ih inner
      refine ⟨first :: line, List.forall_mem_cons.mpr ⟨⟨isCr, isLf⟩, plain⟩, ?_⟩
      exact either.imp (fun same => by rw [same]) (fun same => by rw [same, List.cons_append])

/-- A plain line, also one with a CR behind it, has no stray byte. -/
theorem not_stray_of_plain {line bytes : Bytes} (plain : Plain line)
    (same : bytes = line ∨ bytes = line ++ [cr]) : ¬ Stray bytes := by
  have noLf : lf ∉ bytes := by
    rcases same with rfl | rfl
    · exact fun member => (plain lf member).2 rfl
    · intro member
      rcases List.mem_append.mp member with inside | last
      · exact (plain lf inside).2 rfl
      · exact absurd (List.mem_singleton.mp last) (by decide)
  rintro (⟨before, next, after, split, _⟩ | ⟨before, after, rfl, _⟩)
  · have crInside : cr ∈ bytes.dropLast := by
      rw [split, ← List.singleton_append, ← List.append_assoc, List.dropLast_append_of_ne_nil (by simp)]
      simp
    rcases same with rfl | rfl
    · exact (plain cr (List.dropLast_subset _ crInside)).1 rfl
    · rw [List.dropLast_concat] at crInside
      exact (plain cr crInside).1 rfl
  · exact noLf (by simp)

/-- Behind the last complete line a stray byte is what the scanner calls a bad line. -/
theorem stray_iff_malformed {bytes : Bytes} (incomplete : ∀ line rest, splitLine bytes ≠ .complete line rest) :
    Stray bytes ↔ splitLine bytes = .malformed := by
  constructor
  · intro stray
    cases split : splitLine bytes with
    | complete line rest => exact absurd split (incomplete line rest)
    | malformed => rfl
    | unfinished =>
      obtain ⟨line, plain, same⟩ := splitLine_unfinished split
      exact absurd stray (not_stray_of_plain plain same)
  · intro split
    obtain ⟨line, rest, rfl, plain, ⟨next, after, rfl, notLf⟩ | ⟨after, rfl⟩⟩ := splitLine_malformed split
    · exact Or.inl ⟨line, next, after, rfl, notLf⟩
    · refine Or.inr ⟨line, after, rfl, fun last => ?_⟩
      exact (plain cr (List.mem_of_getLast? last)).1 rfl

/-- Nothing completes a malformed line. -/
theorem not_completable_of_malformed {bytes : Bytes} (split : splitLine bytes = .malformed) :
    ¬ Completable bytes := by
  rintro ⟨more, line, rest, complete⟩
  obtain ⟨start, stop, rfl, plain, kind⟩ := splitLine_malformed split
  have stays : splitLine (stop ++ more) = .malformed := by
    rcases kind with ⟨next, after, rfl, notLf⟩ | ⟨after, rfl⟩
    · simp [splitLine, afterCr, notLf]
    · rw [List.cons_append, splitLine, if_neg (by decide), if_pos rfl]
  rw [List.append_assoc, splitLine_plain_append plain, stays, foldr_cons_other _ (by simp)] at complete
  cases complete

/-- An unfinished line can be completed. -/
theorem completable_of_unfinished {bytes : Bytes} (split : splitLine bytes = .unfinished) :
    Completable bytes := by
  obtain ⟨line, plain, same⟩ := splitLine_unfinished split
  have crlf : splitLine [cr, lf] = .complete [] [] := by decide
  have ends : splitLine (line ++ [cr, lf]) = .complete (line ++ []) [] := by
    rw [splitLine_plain_append plain, crlf, foldr_cons_complete]
  rcases same with rfl | rfl
  · exact ⟨[cr, lf], _, _, ends⟩
  · exact ⟨[lf], _, _, by rw [List.append_assoc]; exact ends⟩

/-! ## What `process_read` answers -/

/-- The answer the error handling is meant to give: a stray byte behind the last complete line is a bad
request, and more input is awaited only where it can complete the line. -/
def ReportsLine (result : ReadResult) (rest : Bytes) : Prop :=
  (Stray rest → result = .code .badRequest) ∧ (result = .code .noRequest → Completable rest)

/-- The bytes a parser waits with do not begin with a complete line. -/
theorem incomplete_of_waiting {phase next : CheckState} {request known : Request} {bytes rest : Bytes}
    (waits : parse phase request bytes = .waiting next known rest) (line after : Bytes) :
    splitLine rest ≠ .complete line after := by
  fun_induction parse phase request bytes with
  | case1 => cases waits
  | case2 => cases waits
  | case3 => cases waits
  | case4 _ _ _ _ _ _ _ _ ih => exact ih waits
  | case5 request bytes incomplete =>
    cases waits
    exact incomplete line after
  | case6 => cases waits
  | case7 => cases waits
  | case8 _ _ _ _ _ _ ih => exact ih waits
  | case9 request bytes incomplete =>
    cases waits
    exact incomplete line after

/-- Outside the content, the answer to an unfinished line is always to wait. -/
theorem deliverAll_waiting {start after : HttpConn} {pieces : List Bytes} {result : ReadResult}
    {phase : CheckState} {request : Request} {rest : Bytes} (nonempty : ∀ piece ∈ pieces, piece ≠ [])
    (fits : pieces.flatten.length ≤ readBufferSize)
    (ran : start.init.deliverAll pieces = some (result, after))
    (waits : parse .requestLine .empty pieces.flatten = .waiting phase request rest) :
    result = .code .noRequest := by
  have initially : parse .requestLine .empty [] = .waiting .requestLine .empty [] :=
    parse_incomplete (by decide) (by simp [splitLine]) _
  have observed := (refines_init start).deliverAll (by decide) initially pieces nonempty
    (by simpa [HttpConn.init] using fits) (by simp [waits])
  rw [ran, List.nil_append, waits] at observed
  exact congrArg Prod.fst (Option.some.inj observed)

/-- However a stream is delivered: while the parser reads the request line or the headers, `process_read`
reports errors as it should exactly if no stray CR or LF is behind the last complete line. -/
theorem reportsLine_iff_not_stray (start after : HttpConn) (pieces : List Bytes) (result : ReadResult)
    (phase : CheckState) (request : Request) (rest : Bytes) (nonempty : ∀ piece ∈ pieces, piece ≠ [])
    (fits : pieces.flatten.length ≤ readBufferSize)
    (ran : start.init.deliverAll pieces = some (result, after))
    (waits : parse .requestLine .empty pieces.flatten = .waiting phase request rest) :
    ReportsLine result rest ↔ ¬ Stray rest := by
  have answer := deliverAll_waiting nonempty fits ran waits
  have incomplete := incomplete_of_waiting waits
  constructor
  · rintro ⟨reported, _⟩ stray
    rw [reported stray] at answer
    cases answer
  · intro noStray
    refine ⟨fun stray => absurd stray noStray, fun _ => ?_⟩
    apply completable_of_unfinished
    cases split : splitLine rest with
    | complete line more => exact absurd split (incomplete line more)
    | malformed => exact absurd ((stray_iff_malformed incomplete).mpr split) noStray
    | unfinished => rfl

/-- A delivery that ends inside a CRLF. -/
theorem reportsLine_iff_not_stray_cr :
    ReportsLine (.code .noRequest) (ascii "GET / HTTP/1.1\r") ↔ ¬ Stray (ascii "GET / HTTP/1.1\r") := by
  have unfinished : splitLine (ascii "GET / HTTP/1.1\r") = .unfinished := by decide
  have waits : parse .requestLine .empty (ascii "GET / HTTP/1.1\r") =
      .waiting .requestLine .empty (ascii "GET / HTTP/1.1\r") :=
    parse_incomplete (by decide) (by simp [unfinished]) _
  have ran : HttpConn.blank.init.deliverAll [ascii "GET / HT", ascii "TP/1.1\r"] = some (.code .noRequest, _) :=
    eq_some_of_fst .blank (by decide +kernel)
  exact reportsLine_iff_not_stray .blank _ [ascii "GET / HT", ascii "TP/1.1\r"] _ _ _ _ (by decide)
    (by decide) ran waits

/-- A bare LF in the request line is not reported, and the rest of a line awaited that nothing completes. -/
theorem stray_awaited : ∃ after,
    HttpConn.blank.init.deliverAll [ascii "GET / HTTP/1.1\nHost: a"] = some (.code .noRequest, after) ∧
      parse .requestLine .empty (ascii "GET / HTTP/1.1\nHost: a") =
        .waiting .requestLine .empty (ascii "GET / HTTP/1.1\nHost: a") ∧
      Stray (ascii "GET / HTTP/1.1\nHost: a") ∧ ¬ Completable (ascii "GET / HTTP/1.1\nHost: a") := by
  have malformed : splitLine (ascii "GET / HTTP/1.1\nHost: a") = .malformed := by decide
  have incomplete : ∀ line rest, splitLine (ascii "GET / HTTP/1.1\nHost: a") ≠ .complete line rest := by
    simp [malformed]
  have ran : HttpConn.blank.init.deliverAll [ascii "GET / HTTP/1.1\nHost: a"] = some (.code .noRequest, _) :=
    eq_some_of_fst .blank (by decide +kernel)
  exact ⟨_, ran, parse_incomplete (by decide) incomplete _, (stray_iff_malformed incomplete).mpr malformed,
    not_completable_of_malformed malformed⟩

end WebServ.Http
