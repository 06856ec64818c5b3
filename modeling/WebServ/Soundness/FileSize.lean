import WebServ.Proofs.Response
import WebServ.Soundness.ResponseWriter

/-! # Which file sizes a response carries

The size of a file is a 64-bit number. `add_headers` takes it as an `int`, and so do `bytes_to_send` and
`bytes_have_send`, whose sum with the header is to be kept by every update of `write`. So the largest size
that is announced and counted right is not 2³¹ - 1 but smaller by the header, whose length depends on
`m_linger` and on the digits of the size. An empty file has a page of the program's own instead.
-/

namespace WebServ.Http

open WebServ.Text

namespace HttpConn

/-- Both counters are non-negative `int`s, and together they are the total. -/
def CountsTo (conn : HttpConn) (total : ℤ) : Prop :=
  conn.bytesHaveSend + conn.bytesToSend = total ∧ 0 ≤ conn.bytesHaveSend ∧ conn.bytesHaveSend < 2 ^ 31 ∧
    0 ≤ conn.bytesToSend ∧ conn.bytesToSend < 2 ^ 31

/-- The response to a request for the file announces its size, counts it without truncation, and every
update of `write` keeps the total. -/
structure SizeExact (conn : HttpConn) : Prop where
  announced : statusText 200 ok200Title ++ contentLengthText conn.fileStat.size <+:
    (conn.processWrite .fileRequest).2.written
  counted : (conn.processWrite .fileRequest).2.bytesToSend =
    (conn.processWrite .fileRequest).2.writeIdx + conn.fileStat.size
  kept : ∀ results reached,
    Machine.run Transfer.step (Transfer.start (conn.processWrite .fileRequest).2) results = some reached →
    ¬reached.Over →
    let total : ℤ := (conn.processWrite .fileRequest).2.writeIdx + conn.fileStat.size
    reached.conn.CountsTo total ∧
      ∀ count, reached.Admits (.sent count) → (reached.conn.advanceIovecs count).CountsTo total

/-! ## The counters of a response that fits -/

variable {header file : ℕ} {address : FileAddress}

/-- The counters are right and the iovecs offer no more than is left. -/
def Sized (conn : HttpConn) (header file : ℕ) (address : FileAddress) (done rest : ℕ) : Prop :=
  (∃ left, InHeader conn header file address done rest left) ∨ InFile conn header file address done rest

theorem sized_of_onCourse {conn : HttpConn} {done rest : ℕ} (course : OnCourse conn header file address done rest) :
    Sized conn header file address done rest := by
  rcases course with ⟨left, state, _⟩ | ⟨state, _⟩
  · exact Or.inl ⟨left, state⟩
  · exact Or.inr state

theorem Sized.counted {conn : HttpConn} {done rest : ℕ} (sized : Sized conn header file address done rest) :
    Counted conn header file address done rest := by
  rcases sized with ⟨_, state⟩ | state
  · exact state.toCounted
  · exact state.toCounted

theorem Sized.offered_le {conn : HttpConn} {done rest : ℕ}
    (sized : Sized conn header file address done rest) : conn.offered.length ≤ rest := by
  rcases sized with ⟨left, state⟩ | state
  · have total := state.total
    have inside := state.inside
    rw [state.offered, List.length_append, cells_length, cells_length]
    omega
  · rw [state.offered, cells_length]

/-- The updates after a `writev`, however often the header is interrupted. -/
theorem Sized.advance {conn : HttpConn} {done rest temp : ℕ}
    (sized : Sized conn header file address done rest) (small : header + file < 2 ^ 31)
    (bound : temp ≤ rest) :
    Sized (conn.advanceIovecs temp) header file address (done + temp) (rest - temp) := by
  by_cases reached : conn.iv0.len ≤ done + temp
  · exact Or.inr (sized.counted.inFile_advance small bound reached)
  · rcases sized with ⟨left, state⟩ | state
    · have length : conn.iv0.len = left := by rw [state.iv0]
      exact Or.inl ⟨_, state.advance small bound (by omega)⟩
    · have length := state.iv0
      omega

theorem Sized.countsTo {conn : HttpConn} {done rest : ℕ}
    (sized : Sized conn header file address done rest) (small : header + file < 2 ^ 31) :
    conn.CountsTo (header + file) := by
  have state := sized.counted
  have total := state.total
  rw [CountsTo, state.bytesHaveSend, state.bytesToSend]
  omega

/-- A `writev` ends the transfer or leaves the counters right. -/
theorem Sized.step {transfer next : Transfer} {done rest : ℕ} {result : WritevResult}
    (sized : Sized transfer.conn header file address done rest) (small : header + file < 2 ^ 31)
    (taken : transfer.step result = some next) :
    next.Over ∨ ∃ done rest, Sized next.conn header file address done rest := by
  obtain ⟨running, admitted, rfl⟩ := Transfer.step_eq_some taken
  cases result with
  | again => exact Or.inr ⟨done, rest, sized⟩
  | error => exact Or.inl ⟨nofun, nofun⟩
  | sent count =>
    have bound : count ≤ rest := admitted.2.trans sized.offered_le
    have passed := sized.counted.writePass small bound
    split_ifs at passed with more
    · refine Or.inr ⟨done + count, rest - count, ?_⟩
      rw [passed]
      exact sized.advance small bound
    · left
      rcases passed with kept | closed
      · exact ⟨by simp [kept], by simp [kept]⟩
      · exact ⟨by simp [closed], by simp [closed]⟩

theorem Sized.run {transfer reached : Transfer} {done rest : ℕ} {results : List WritevResult}
    (sized : Sized transfer.conn header file address done rest) (small : header + file < 2 ^ 31)
    (ran : Machine.run Transfer.step transfer results = some reached) :
    reached.Over ∨ ∃ done rest, Sized reached.conn header file address done rest := by
  induction results generalizing transfer done rest with
  | nil =>
    cases ran
    exact Or.inr ⟨done, rest, sized⟩
  | cons result results ih =>
    obtain ⟨next, taken, later⟩ := (Machine.run_cons_eq_some Transfer.step).mp ran
    rcases sized.step small taken with isOver | ⟨done, rest, sized⟩
    · obtain rfl := Transfer.run_over isOver later
      exact Or.inl isOver
    · exact ih sized later

/-! ## The sizes that are carried -/

/-- What is written for a file. -/
theorem written_fileRequest {conn : HttpConn} (empty : conn.writeIdx = 0) :
    (conn.processWrite .fileRequest).2.written = (conn.responseTexts .fileRequest).flatten ∧
      (conn.processWrite .fileRequest).2.writeIdx = (conn.responseTexts .fileRequest).flatten.length := by
  have written := (responseTexts_written empty .fileRequest).2
  exact ⟨written.written_eq, written.writeIdx⟩

/-- The page of an empty file announces its own length. -/
theorem not_sizeExact_of_empty {conn : HttpConn} (empty : conn.writeIdx = 0)
    (nothing : conn.fileStat.size = 0) : ¬conn.SizeExact := by
  intro exact
  have announced := exact.announced
  rw [(written_fileRequest empty).1, responseTexts, if_neg (not_not.mpr nothing), nothing] at announced
  revert announced
  cases conn.linger <;> decide

/-- The length of the header of a file with contents. -/
theorem writeIdx_fileRequest {conn : HttpConn} (empty : conn.writeIdx = 0)
    (nonempty : conn.fileStat.size ≠ 0) (short : conn.fileStat.size < 2 ^ 31) :
    (conn.processWrite .fileRequest).2.writeIdx =
      (decimal conn.fileStat.size).length + if conn.linger then 58 else 54 := by
  have status : (decimal 200).length = 3 := by decide
  have title : ok200Title.length = 2 := by decide
  rw [(written_fileRequest empty).2, responseTexts, if_pos nonempty, headTexts_length, status, title,
    toInt_natCast short]
  split_ifs <;> omega

/-- A size has ten digits where the bound of an `int` matters. -/
theorem fits_iff {size : ℕ} {linger : Bool} (short : size < 2 ^ 31) :
    ((decimal size).length + if linger then 58 else 54) + size < 2 ^ 31 ↔
      size + (if linger then 68 else 64) < 2 ^ 31 := by
  have ten : (decimal size).length ≤ 10 := (decimal_length_le_iff (by decide)).mpr (by omega)
  by_cases nine : (decimal size).length ≤ 9
  · have few := (decimal_length_le_iff (by decide)).mp nine
    split_ifs <;> omega
  · split_ifs <;> omega

/-- A file that fits with its header. -/
theorem sizeExact_of_fits {conn : HttpConn} (empty : conn.writeIdx = 0) (unsent : conn.bytesHaveSend = 0)
    (nonempty : conn.fileStat.size ≠ 0)
    (fits : conn.fileStat.size + (if conn.linger then 68 else 64) < 2 ^ 31) : conn.SizeExact := by
  have short : conn.fileStat.size < 2 ^ 31 := by omega
  have length := writeIdx_fileRequest empty nonempty short
  obtain ⟨stat, haveSend⟩ := processWrite_sameFile conn .fileRequest
  obtain ⟨written, _⟩ := written_fileRequest empty
  have small : (conn.processWrite .fileRequest).2.writeIdx + conn.fileStat.size < 2 ^ 31 := by
    rw [length]
    exact (fits_iff short).mpr fits
  have made := processWrite_made nonempty
  rw [← stat] at small
  have course := processWrite_onCourse made (processWrite_ivCount made) unsent small
  refine ⟨?_, ?_, ?_⟩
  · rw [written, responseTexts, if_pos nonempty, headTexts, toInt_natCast short, List.flatten_cons,
      List.flatten_cons, ← List.append_assoc]
    exact List.prefix_append _ _
  · rw [course.counted.bytesToSend, stat, Nat.cast_add]
  · intro results reached ran running total
    have start : Sized (Transfer.start (conn.processWrite .fileRequest).2).conn _ _ _ _ _ :=
      sized_of_onCourse course
    rcases start.run small ran with isOver | ⟨done, rest, sized⟩
    · exact absurd isOver running
    · rw [stat] at sized small
      refine ⟨sized.countsTo small, fun count admitted => ?_⟩
      exact (sized.advance small (admitted.2.trans sized.offered_le)).countsTo small

/-- The size of a file is announced, counted and kept exactly when the file has contents and fits an `int`
with its header: 68 bytes for a connection that is kept, 64 for one that is closed. -/
theorem sizeExact_iff (conn : HttpConn) (empty : conn.writeIdx = 0) (unsent : conn.bytesHaveSend = 0) :
    conn.SizeExact ↔
      conn.fileStat.size ≠ 0 ∧ conn.fileStat.size + (if conn.linger then 68 else 64) < 2 ^ 31 := by
  constructor
  · intro exact
    have nonempty : conn.fileStat.size ≠ 0 := fun nothing => not_sizeExact_of_empty empty nothing exact
    have made := processWrite_made nonempty
    have bound := (processWrite_file made (processWrite_ivCount made)).2.2.1 ▸ toInt_lt _
    rw [exact.counted] at bound
    have short : conn.fileStat.size < 2 ^ 31 := by omega
    rw [writeIdx_fileRequest empty nonempty short] at bound
    exact ⟨nonempty, (fits_iff short).mp (by exact_mod_cast bound)⟩
  · rintro ⟨nonempty, fits⟩
    exact sizeExact_of_fits empty unsent nonempty fits

/-- The largest file for a connection that is closed. -/
theorem sizeExact_iff_largest :
    let conn := { blank with fileStat := ⟨2 ^ 31 - 65, true, false⟩, fileAddress := .mapped 0 }
    conn.SizeExact := by
  intro conn
  exact (sizeExact_iff conn rfl rfl).mpr (by decide)

/-- A file of 2³¹ bytes is announced with a negative length, and the number of bytes to send is negative. -/
theorem size_truncated :
    let conn := { blank with fileStat := ⟨2 ^ 31, true, false⟩, fileAddress := .mapped 0 }
    (conn.processWrite .fileRequest).2.written =
        ascii "HTTP/1.1 200 OK\r\nContent-Length:-2147483648\r\nConnection:close\r\n\r\n" ∧
      (conn.processWrite .fileRequest).2.bytesToSend = 65 - 2 ^ 31 ∧ ¬conn.SizeExact := by
  intro conn
  have counted : (conn.processWrite .fileRequest).2.bytesToSend = 65 - 2 ^ 31 := by decide +kernel
  have length : (conn.processWrite .fileRequest).2.writeIdx = 65 := by decide +kernel
  refine ⟨by decide +kernel, counted, fun exact => ?_⟩
  have other := exact.counted
  rw [counted, length] at other
  revert other
  decide

end HttpConn

end WebServ.Http
