import WebServ.Model.ResponseWriter

/-! # When a response is sent as it was prepared

The first partial write inside the header leaves the iovecs right: `m_iv[0]` is moved and shortened
by all that was sent. The second one shortens the already shortened iovec by the whole sum again, so
that header bytes are skipped, or the comparison with the reduced length takes the header for sent
and `m_iv[1]` starts in front of the file. A response whose header is interrupted at most once is
sent whole; one whose header is interrupted more often never is.
-/

namespace WebServ.Http

open WebServ.Text HttpConn

/-- The header in the write buffer followed by the file: what is to be sent. -/
def response (header file : ℕ) (address : FileAddress) : List Pointer :=
  cells (.writeBuf 0) header ++ cells (.file address 0) file

/-- What was sent is a prefix of the response and is all of it at the end, and until then the iovecs
stay inside the response. -/
def Transfer.Faithful (whole : List Pointer) (transfer : Transfer) : Prop :=
  transfer.sent <+: whole ∧ (¬transfer.Over → ∀ place ∈ transfer.conn.offered, place ∈ whole) ∧
    (transfer.Finished → transfer.sent = whole)

/-- Every state of a run is faithful. -/
def FaithfulRun (whole : List Pointer) (transfer : Transfer) (results : List WritevResult) : Prop :=
  ∀ first, first <+: results → ∀ reached,
    Machine.run Transfer.step transfer first = some reached → reached.Faithful whole

/-- How many of the `writev` results leave the total strictly inside the header. -/
def shortHeaderWrites (header : ℕ) : ℕ → List WritevResult → ℕ
  | _, [] => 0
  | total, .sent count :: rest =>
      (if total + count < header then 1 else 0) + shortHeaderWrites header (total + count) rest
  | total, _ :: rest => shortHeaderWrites header total rest

variable {header file : ℕ} {address : FileAddress}

/-- `done` bytes are sent and `rest` are left, the members agree with that, and of the iovecs only is
known that the first is no longer than the header. -/
structure Counted (conn : HttpConn) (header file : ℕ) (address : FileAddress) (done rest : ℕ) : Prop where
  ivCount : conn.ivCount = 2
  writeIdx : conn.writeIdx = header
  fileAddress : conn.fileAddress = address
  bytesHaveSend : conn.bytesHaveSend = done
  bytesToSend : conn.bytesToSend = rest
  total : done + rest = header + file
  length : conn.iv0.len ≤ header

/-- The iovecs offer `left` bytes of the header and the whole file. -/
structure InHeader (conn : HttpConn) (header file : ℕ) (address : FileAddress) (done rest left : ℕ) : Prop
    extends Counted conn header file address done rest where
  iv0 : conn.iv0 = ⟨.writeBuf done, left⟩
  iv1 : conn.iv1 = ⟨.file address 0, file⟩
  inside : done + left ≤ header

/-- The iovecs offer the rest of the file, counted from the bytes sent. -/
structure InFile (conn : HttpConn) (header file : ℕ) (address : FileAddress) (done rest : ℕ) : Prop
    extends Counted conn header file address done rest where
  iv0 : conn.iv0.len = 0
  iv1 : conn.iv1 = ⟨.file address (done - header), rest⟩

theorem InHeader.offered {conn : HttpConn} {done rest left : ℕ}
    (state : InHeader conn header file address done rest left) :
    conn.offered = cells (.writeBuf done) left ++ cells (.file address 0) file := by
  rw [HttpConn.offered, state.ivCount, state.iv0, state.iv1]
  simp only [List.take_succ_cons, List.take_zero, List.flatMap_cons, List.flatMap_nil, List.append_nil]

theorem InFile.offered {conn : HttpConn} {done rest : ℕ}
    (state : InFile conn header file address done rest) :
    conn.offered = cells (.file address (done - header)) rest := by
  rw [HttpConn.offered, state.ivCount, state.iv1]
  simp only [List.take_succ_cons, List.take_zero, List.flatMap_cons, List.flatMap_nil, state.iv0,
    cells_zero, List.nil_append, List.append_nil]

/-- The updates after a `writev`, with the machine arithmetic evaluated: the header counts as sent once
the total reaches the length of `m_iv[0]`, and `m_iv[0]` is shortened by the total otherwise. -/
theorem Counted.advance {conn : HttpConn} {done rest temp : ℕ}
    (state : Counted conn header file address done rest) (small : header + file < 2 ^ 31)
    (bound : temp ≤ rest) :
    conn.advanceIovecs temp =
      if conn.iv0.len ≤ done + temp then
        { conn with
          bytesHaveSend := (done + temp : ℕ)
          bytesToSend := (rest - temp : ℕ)
          iv0 := { conn.iv0 with len := 0 }
          iv1 := ⟨.file address ((done + temp : ℕ) - header), rest - temp⟩ }
      else
        { conn with
          bytesHaveSend := (done + temp : ℕ)
          bytesToSend := (rest - temp : ℕ)
          iv0 := ⟨.writeBuf (done + temp : ℕ), conn.iv0.len - (done + temp)⟩ } := by
  have total := state.total
  have haveSend : conn.bytesHaveSend + temp = (done + temp : ℕ) := by
    rw [state.bytesHaveSend, Nat.cast_add]
  have toSend : conn.bytesToSend - temp = (rest - temp : ℕ) := by
    rw [state.bytesToSend, Nat.cast_sub bound]
  rw [advanceIovecs]
  simp only [haveSend, toSend, toSize_natCast (show done + temp < 2 ^ 64 by omega),
    toSize_natCast (show rest - temp < 2 ^ 64 by omega), state.fileAddress, state.writeIdx]
  split_ifs with reached
  · rfl
  · have length := state.length
    have left : (conn.iv0.len : ℤ) - (done + temp : ℕ) = (conn.iv0.len - (done + temp) : ℕ) := by
      rw [Nat.cast_sub (by omega)]
    rw [left, toSize_natCast (by omega)]

/-- The counters after a `writev`, whatever becomes of the iovecs. -/
theorem Counted.counted_advance {conn : HttpConn} {done rest temp : ℕ}
    (state : Counted conn header file address done rest) (small : header + file < 2 ^ 31)
    (bound : temp ≤ rest) :
    Counted (conn.advanceIovecs temp) header file address (done + temp) (rest - temp) := by
  have total := state.total
  have length := state.length
  rw [state.advance small bound]
  split_ifs
  · exact ⟨state.ivCount, state.writeIdx, state.fileAddress, rfl, rfl, by omega, Nat.zero_le _⟩
  · refine ⟨state.ivCount, state.writeIdx, state.fileAddress, rfl, rfl, by omega, ?_⟩
    dsimp only
    omega

/-- Once the total reaches the length of `m_iv[0]`, what is offered next is counted from the start of
the file. -/
theorem Counted.inFile_advance {conn : HttpConn} {done rest temp : ℕ}
    (state : Counted conn header file address done rest) (small : header + file < 2 ^ 31)
    (bound : temp ≤ rest) (reached : conn.iv0.len ≤ done + temp) :
    InFile (conn.advanceIovecs temp) header file address (done + temp) (rest - temp) where
  toCounted := state.counted_advance small bound
  iv0 := by rw [state.advance small bound, if_pos reached]
  iv1 := by rw [state.advance small bound, if_pos reached]

/-- Otherwise the header iovec, moved to the first unsent byte, is shortened by the total. -/
theorem InHeader.advance {conn : HttpConn} {done rest left temp : ℕ}
    (state : InHeader conn header file address done rest left) (small : header + file < 2 ^ 31)
    (bound : temp ≤ rest) (short : done + temp < left) :
    InHeader (conn.advanceIovecs temp) header file address (done + temp) (rest - temp)
      (left - (done + temp)) := by
  have inside := state.inside
  have length : conn.iv0.len = left := by rw [state.iv0]
  have advanced := state.toCounted.advance small bound
  rw [if_neg (by omega)] at advanced
  refine ⟨state.toCounted.counted_advance small bound, ?_, ?_, by omega⟩
  · rw [advanced, length]
  · rw [advanced]
    exact state.iv1

/-! ## The states of a transfer that is on course -/

/-- The iovecs offer exactly what is left of the response. -/
def OnCourse (conn : HttpConn) (header file : ℕ) (address : FileAddress) (done rest : ℕ) : Prop :=
  (∃ left, InHeader conn header file address done rest left ∧ done + left = header) ∨
    InFile conn header file address done rest ∧ header ≤ done

theorem OnCourse.counted {conn : HttpConn} {done rest : ℕ}
    (course : OnCourse conn header file address done rest) :
    Counted conn header file address done rest := by
  rcases course with ⟨_, state, _⟩ | ⟨state, _⟩
  · exact state.toCounted
  · exact state.toCounted

theorem OnCourse.offered {conn : HttpConn} {done rest : ℕ}
    (course : OnCourse conn header file address done rest) :
    conn.offered = (response header file address).drop done := by
  rcases course with ⟨left, state, rfl⟩ | ⟨state, beyond⟩
  · rw [state.offered, response, cells_add, List.append_assoc,
      List.drop_left' (cells_length _ _), Pointer.plus, zero_add]
  · obtain ⟨gone, rfl⟩ := Nat.exists_eq_add_of_le beyond
    have total := state.total
    obtain rfl : file = gone + rest := by omega
    rw [state.offered, response, cells_add, ← List.append_assoc, List.drop_left' (by simp),
      Pointer.plus, zero_add, Nat.cast_add, add_sub_cancel_left]

/-- A `writev` keeps the course unless it is a second one that ends inside the header. -/
theorem OnCourse.advance {conn : HttpConn} {done rest temp : ℕ}
    (course : OnCourse conn header file address done rest) (small : header + file < 2 ^ 31)
    (bound : temp ≤ rest) (once : done = 0 ∨ header ≤ done + temp) :
    OnCourse (conn.advanceIovecs temp) header file address (done + temp) (rest - temp) := by
  rcases course with ⟨left, state, whole⟩ | ⟨state, beyond⟩
  · have length : conn.iv0.len = left := by rw [state.iv0]
    by_cases reached : left ≤ done + temp
    · exact Or.inr ⟨state.toCounted.inFile_advance small bound (by omega), by omega⟩
    · exact Or.inl ⟨_, state.advance small bound (by omega), by omega⟩
  · have length := state.iv0
    exact Or.inr ⟨state.toCounted.inFile_advance small bound (by omega), by omega⟩

/-- The start of a response prepared with a file. -/
theorem processWrite_onCourse {conn prepared : HttpConn} {ret : HttpCode}
    (made : conn.processWrite ret = (true, prepared)) (withFile : prepared.ivCount = 2)
    (unsent : conn.bytesHaveSend = 0)
    (small : prepared.writeIdx + prepared.fileStat.size < 2 ^ 31) :
    OnCourse prepared prepared.writeIdx prepared.fileStat.size prepared.fileAddress 0
      (prepared.writeIdx + prepared.fileStat.size) := by
  obtain ⟨iv0, iv1, toSend, haveSend, _⟩ := processWrite_file made withFile
  refine Or.inl ⟨prepared.writeIdx, ⟨⟨withFile, rfl, rfl, ?_, ?_, by omega, ?_⟩, ?_, iv1, by omega⟩,
    by omega⟩
  · rw [haveSend, unsent, Nat.cast_zero]
  · rw [toSend, ← Nat.cast_add, toInt_natCast small]
  · rw [iv0]
  · rw [iv0, Nat.cast_zero]

/-! ## One `writev` -/

theorem Transfer.step_eq_some {transfer next : Transfer} {result : WritevResult}
    (taken : transfer.step result = some next) :
    ¬transfer.Over ∧ transfer.Admits result ∧
      next = ⟨(transfer.conn.writePass result).2, transfer.sent ++ transfer.taken result,
        (transfer.conn.writePass result).1⟩ := by
  rw [Transfer.step] at taken
  split_ifs at taken with refused
  simp only [not_or, not_not] at refused
  exact ⟨refused.1, refused.2.1, (Option.some.inj taken).symm⟩

/-- A response that is over takes no further `writev`. -/
theorem Transfer.run_over {transfer final : Transfer} {results : List WritevResult}
    (isOver : transfer.Over) (ran : Machine.run Transfer.step transfer results = some final) :
    final = transfer := by
  cases results with
  | nil => exact (Option.some.inj ran).symm
  | cons result rest =>
    obtain ⟨next, taken, _⟩ := (Machine.run_cons_eq_some Transfer.step).mp ran
    exact absurd isOver (Transfer.step_eq_some taken).1

/-- After a `writev` that sent bytes the loop goes on with what is left, or the call of `write` ends. -/
theorem Counted.writePass {conn : HttpConn} {done rest temp : ℕ}
    (state : Counted conn header file address done rest) (small : header + file < 2 ^ 31)
    (bound : temp ≤ rest) :
    if temp < rest then conn.writePass (.sent temp) = (none, conn.advanceIovecs temp)
    else (conn.writePass (.sent temp)).1 = some .kept ∨ (conn.writePass (.sent temp)).1 = some .closed := by
  have left := (state.counted_advance small bound).bytesToSend
  rw [HttpConn.writePass]
  split_ifs with more finished kept
  · omega
  · omega
  · rfl
  · exact Or.inl rfl
  · exact Or.inr rfl
  · omega

/-- A running transfer of which `done` bytes are sent, with the iovecs on course. -/
structure Sending (transfer : Transfer) (header file : ℕ) (address : FileAddress) (done rest : ℕ) : Prop where
  running : ¬transfer.Over
  course : OnCourse transfer.conn header file address done rest
  sent : transfer.sent = (response header file address).take done
  more : 0 < rest

theorem Sending.faithful {transfer : Transfer} {done rest : ℕ}
    (sending : Sending transfer header file address done rest) :
    transfer.Faithful (response header file address) := by
  refine ⟨?_, ?_, ?_⟩
  · rw [sending.sent]
    exact List.take_prefix _ _
  · intro _ place member
    rw [sending.course.offered] at member
    exact List.mem_of_mem_drop member
  · rintro (kept | closed)
    · exact absurd ⟨by simp [kept], by simp [kept]⟩ sending.running
    · exact absurd ⟨by simp [closed], by simp [closed]⟩ sending.running

/-- The total the next `writev` result adds. -/
def WritevResult.count : WritevResult → ℕ
  | .sent count => count
  | _ => 0

/-- A `writev` of a transfer on course ends it faithfully or keeps it on course, unless it is a second
one that ends inside the header. -/
theorem Sending.step {transfer next : Transfer} {done rest : ℕ} {result : WritevResult}
    (sending : Sending transfer header file address done rest) (small : header + file < 2 ^ 31)
    (taken : transfer.step result = some next)
    (once : done = 0 ∨ ∀ count, result = .sent count → header ≤ done + count) :
    (next.Over ∧ next.Faithful (response header file address)) ∨
      ∃ left, Sending next header file address (done + result.count) left := by
  obtain ⟨running, admitted, rfl⟩ := Transfer.step_eq_some taken
  have before := sending.faithful.1
  cases result with
  | again =>
    refine Or.inr ⟨rest, ?_, sending.course, ?_, sending.more⟩
    · exact fun isOver => isOver.2 rfl
    · exact (List.append_nil _).trans sending.sent
  | error =>
    refine Or.inl ⟨⟨nofun, nofun⟩, ?_, fun alive => absurd ⟨nofun, nofun⟩ alive, ?_⟩
    · change transfer.sent ++ [] <+: _
      rwa [List.append_nil]
    · rintro (kept | closed)
      · cases kept
      · cases closed
  | sent count =>
    obtain ⟨positive, enough⟩ := admitted
    have total := sending.course.counted.total
    have wholeLength : (response header file address).length = header + file := by
      simp only [response, List.length_append, cells_length]
    rw [sending.course.offered, List.length_drop, wholeLength] at enough
    have bound : count ≤ rest := by omega
    have sent : transfer.sent ++ transfer.taken (.sent count) =
        (response header file address).take (done + count) := by
      rw [Transfer.taken, sending.sent, sending.course.offered, List.take_add]
    have passed := sending.course.counted.writePass small bound
    by_cases more : count < rest
    · rw [if_pos more] at passed
      refine Or.inr ⟨rest - count, ?_, ?_, sent, by omega⟩
      · exact fun isOver => isOver.1 (by rw [passed])
      · rw [passed]
        exact sending.course.advance small bound (once.imp_right fun beyond => beyond count rfl)
    · rw [if_neg more] at passed
      have whole : transfer.sent ++ transfer.taken (.sent count) = response header file address := by
        rw [sent, List.take_of_length_le (by omega)]
      have isOver : Transfer.Over ⟨(transfer.conn.writePass (.sent count)).2,
          transfer.sent ++ transfer.taken (.sent count), (transfer.conn.writePass (.sent count)).1⟩ := by
        rcases passed with kept | closed
        · exact ⟨by simp [kept], by simp [kept]⟩
        · exact ⟨by simp [closed], by simp [closed]⟩
      exact Or.inl ⟨isOver, whole ▸ List.prefix_rfl, fun alive => absurd isOver alive, fun _ => whole⟩

/-! ## Whole transfers -/

/-- Beyond the header no further result counts as interrupting it. -/
theorem shortHeaderWrites_beyond {total : ℕ} (beyond : header ≤ total) (results : List WritevResult) :
    shortHeaderWrites header total results = 0 := by
  induction results generalizing total with
  | nil => rfl
  | cons result rest ih =>
    cases result with
    | sent count => rw [shortHeaderWrites, if_neg (by omega), ih (by omega)]
    | again => exact ih beyond
    | error => exact ih beyond

theorem shortHeaderWrites_append (total : ℕ) (first second : List WritevResult) :
    shortHeaderWrites header total first ≤ shortHeaderWrites header total (first ++ second) := by
  induction first generalizing total with
  | nil => exact Nat.zero_le _
  | cons result rest ih =>
    cases result with
    | sent count => exact Nat.add_le_add_left (ih _) _
    | again => exact ih total
    | error => exact ih total

/-- A transfer whose header is interrupted at most once is faithful at the end of any run. -/
theorem Sending.run {transfer final : Transfer} {done rest : ℕ} {results : List WritevResult}
    (sending : Sending transfer header file address done rest) (small : header + file < 2 ^ 31)
    (once : (if done = 0 then 0 else 1) + shortHeaderWrites header done results ≤ 1)
    (ran : Machine.run Transfer.step transfer results = some final) :
    final.Faithful (response header file address) := by
  induction results generalizing transfer done rest with
  | nil =>
    cases ran
    exact sending.faithful
  | cons result results ih =>
    obtain ⟨next, taken, later⟩ := (Machine.run_cons_eq_some Transfer.step).mp ran
    have harmless : done = 0 ∨ ∀ count, result = .sent count → header ≤ done + count := by
      by_cases fresh : done = 0
      · exact Or.inl fresh
      · refine Or.inr fun count isSent => ?_
        rw [isSent, shortHeaderWrites, if_neg fresh] at once
        by_contra short
        rw [if_pos (by omega)] at once
        omega
    rcases sending.step small taken harmless with ⟨isOver, faithful⟩ | ⟨left, sending⟩
    · rw [Transfer.run_over isOver later]
      exact faithful
    · refine ih sending ?_ later
      cases result with
      | sent count =>
        have positive : 0 < count := (Transfer.step_eq_some taken).2.1.1
        rw [shortHeaderWrites] at once
        rw [WritevResult.count, if_neg (by omega)]
        by_cases beyond : header ≤ done + count
        · rw [shortHeaderWrites_beyond beyond]
        · rw [if_pos (show done + count < header by omega)] at once
          omega
      | again => exact once
      | error => exact once

theorem FaithfulRun.head {whole : List Pointer} {transfer : Transfer} {results : List WritevResult}
    (faithful : FaithfulRun whole transfer results) : transfer.Faithful whole :=
  faithful [] List.nil_prefix transfer rfl

theorem FaithfulRun.tail {whole : List Pointer} {transfer next : Transfer} {result : WritevResult}
    {results : List WritevResult} (faithful : FaithfulRun whole transfer (result :: results))
    (taken : transfer.step result = some next) : FaithfulRun whole next results := by
  intro first isPrefix reached ran
  apply faithful (result :: first) ((List.prefix_cons_inj result).mpr isPrefix)
  exact (Machine.run_cons_eq_some Transfer.step).mpr ⟨next, taken, ran⟩

/-- The result after which a finished transfer ran on: `EAGAIN`, or bytes that were offered. A failure
ends the transfer unfinished. -/
private theorem finished_step {transfer final : Transfer} {result : WritevResult}
    {results : List WritevResult} (finished : final.Finished)
    (ran : Machine.run Transfer.step transfer (result :: results) = some final) :
    ∃ next, transfer.step result = some next ∧
      Machine.run Transfer.step next results = some final ∧
      (result = .again ∧ next = { transfer with ended := some .again } ∨
        ∃ count, result = .sent count ∧ 0 < count ∧ count ≤ transfer.conn.offered.length ∧
          next = ⟨(transfer.conn.writePass (.sent count)).2,
            transfer.sent ++ transfer.conn.offered.take count,
            (transfer.conn.writePass (.sent count)).1⟩) := by
  obtain ⟨next, taken, later⟩ := (Machine.run_cons_eq_some Transfer.step).mp ran
  refine ⟨next, taken, later, ?_⟩
  obtain ⟨running, admitted, rfl⟩ := Transfer.step_eq_some taken
  cases result with
  | again => exact Or.inl ⟨rfl, by simp [Transfer.taken, HttpConn.writePass]⟩
  | sent count => exact Or.inr ⟨count, rfl, admitted.1, admitted.2, rfl⟩
  | error =>
    have isOver := Transfer.run_over (by exact ⟨nofun, nofun⟩) later
    rw [isOver] at finished
    rcases finished with kept | closed
    · cases kept
    · cases closed

/-- What a `writev` in the middle of a response does to a header iovec. -/
private theorem InHeader.sent {transfer : Transfer} {done rest left count : ℕ}
    (state : InHeader transfer.conn header file address done rest left) (small : header + file < 2 ^ 31)
    (inside : done + count < header) (some_file : 0 < file) :
    ∃ conn, transfer.conn.writePass (.sent count) = (none, conn) ∧
      if left ≤ done + count then ∃ place ∈ conn.offered, place ∉ response header file address
      else InHeader conn header file address (done + count) (rest - count) (left - (done + count)) := by
  have total := state.total
  have length : transfer.conn.iv0.len = left := by rw [state.iv0]
  have passed := state.toCounted.writePass small (show count ≤ rest by omega)
  rw [if_pos (by omega)] at passed
  refine ⟨_, passed, ?_⟩
  split_ifs with reached
  · have advanced := state.toCounted.inFile_advance small (show count ≤ rest by omega) (by omega)
    refine ⟨.file address (((done + count : ℕ) : ℤ) - header), ?_, ?_⟩
    · rw [advanced.offered]
      exact mem_cells.mpr ⟨0, by omega, by simp [Pointer.plus]⟩
    · intro member
      simp only [response, List.mem_append, mem_cells] at member
      rcases member with ⟨index, _, same⟩ | ⟨index, _, same⟩
      · cases same
      · simp only [Pointer.plus, Pointer.file.injEq, true_and] at same
        omega
  · exact state.advance small (by omega) (by omega)

/-- Bytes of the file sent before the end of the header are out of place. -/
private theorem InHeader.not_prefix {transfer : Transfer} {done rest left count : ℕ}
    (state : InHeader transfer.conn header file address done rest left) (missing : done + left < header)
    (sent : transfer.sent.length = done) (beyond : left < count)
    (enough : count ≤ transfer.conn.offered.length) :
    ¬transfer.sent ++ transfer.conn.offered.take count <+: response header file address := by
  rintro ⟨others, whole⟩
  have offered := state.offered
  have some_file : 0 < file := by
    rw [offered, List.length_append, cells_length, cells_length] at enough
    omega
  have there : (response header file address)[done + left]? = some (.writeBuf (0 + (done + left : ℕ))) := by
    rw [response, List.getElem?_append_left (by rw [cells_length]; omega), cells_getElem? (by omega),
      Pointer.plus]
  rw [← whole, List.getElem?_append_left (by rw [List.length_append, List.length_take]; omega),
    List.getElem?_append_right (by omega), sent, Nat.add_sub_cancel_left,
    List.getElem?_take_of_lt beyond, offered, List.getElem?_append_right (by rw [cells_length]),
    cells_length, Nat.sub_self, cells_getElem? some_file] at there
  cases there

/-- Once header bytes are missing from the iovecs, a transfer that finishes is unfaithful on the way. -/
private theorem InHeader.not_faithfulRun_of_missing {transfer final : Transfer} {done rest left : ℕ}
    {results : List WritevResult}
    (state : InHeader transfer.conn header file address done rest left) (running : ¬transfer.Over)
    (missing : done + left < header) (sent : transfer.sent.length = done)
    (small : header + file < 2 ^ 31) (some_file : 0 < file) (finished : final.Finished)
    (ran : Machine.run Transfer.step transfer results = some final) :
    ¬FaithfulRun (response header file address) transfer results := by
  induction results generalizing transfer done rest left with
  | nil =>
    cases ran
    rcases finished with kept | closed
    · exact absurd ⟨by simp [kept], by simp [kept]⟩ running
    · exact absurd ⟨by simp [closed], by simp [closed]⟩ running
  | cons result results ih =>
    intro faithful
    obtain ⟨next, taken, later, cause⟩ := finished_step finished ran
    rcases cause with ⟨_, rfl⟩ | ⟨count, _, positive, enough, rfl⟩
    · exact @ih { transfer with ended := some .again } _ _ _ state (fun isOver => isOver.2 rfl) missing sent
        later (faithful.tail taken)
    · by_cases inside : done + count < header
      · obtain ⟨conn, passed, outcome⟩ := state.sent small inside some_file
        have length : (transfer.sent ++ transfer.conn.offered.take count).length = done + count := by
          rw [List.length_append, List.length_take, sent, min_eq_left enough]
        rw [passed] at taken later
        have tail := faithful.tail taken
        split_ifs at outcome with reached
        · obtain ⟨place, offered, foreign⟩ := outcome
          exact foreign (tail.head.2.1 (fun isOver => isOver.1 rfl) place offered)
        · exact ih outcome (fun isOver => isOver.1 rfl) (by omega) length later tail
      · exact state.not_prefix missing sent (by omega) enough (faithful.tail taken).head.1

/-- A transfer whose header is interrupted a second time and that finishes is unfaithful on the way. -/
private theorem InHeader.not_faithfulRun {transfer final : Transfer} {done rest left : ℕ}
    {results : List WritevResult}
    (state : InHeader transfer.conn header file address done rest left) (running : ¬transfer.Over)
    (whole : done + left = header) (sent : transfer.sent.length = done)
    (small : header + file < 2 ^ 31) (some_file : 0 < file) (finished : final.Finished)
    (ran : Machine.run Transfer.step transfer results = some final)
    (often : 1 < (if done = 0 then 0 else 1) + shortHeaderWrites header done results) :
    ¬FaithfulRun (response header file address) transfer results := by
  induction results generalizing transfer done rest left with
  | nil =>
    rw [shortHeaderWrites] at often
    split_ifs at often <;> omega
  | cons result results ih =>
    intro faithful
    obtain ⟨next, taken, later, cause⟩ := finished_step finished ran
    rcases cause with ⟨rfl, rfl⟩ | ⟨count, rfl, positive, enough, rfl⟩
    · exact @ih { transfer with ended := some .again } _ _ _ state (fun isOver => isOver.2 rfl) whole sent
        later often (faithful.tail taken)
    · rw [shortHeaderWrites] at often
      by_cases inside : done + count < header
      · obtain ⟨conn, passed, outcome⟩ := state.sent small inside some_file
        have length : (transfer.sent ++ transfer.conn.offered.take count).length = done + count := by
          rw [List.length_append, List.length_take, sent, min_eq_left enough]
        rw [passed] at taken later
        have tail := faithful.tail taken
        split_ifs at outcome with reached
        · obtain ⟨place, offered, foreign⟩ := outcome
          exact foreign (tail.head.2.1 (fun isOver => isOver.1 rfl) place offered)
        · by_cases fresh : done = 0
          · -- the first interruption leaves the iovecs right
            rw [if_pos fresh, if_pos inside] at often
            refine ih outcome (fun isOver => isOver.1 rfl) (by omega) length later ?_ tail
            rw [if_neg (by omega)]
            omega
          · exact outcome.not_faithfulRun_of_missing (fun isOver => isOver.1 rfl) (by omega) length small
              some_file finished later tail
      · rw [if_neg inside, shortHeaderWrites_beyond (by omega)] at often
        split_ifs at often <;> omega

/-- A response prepared with a file, sent by any number of calls of `write`: if at most one `writev`
leaves the total strictly inside the header, every state is faithful, and a transfer that finishes is
faithful throughout only then. -/
theorem faithfulRun_iff_shortHeaderWrites (conn prepared : HttpConn) (ret : HttpCode)
    (made : conn.processWrite ret = (true, prepared)) (withFile : prepared.ivCount = 2)
    (unsent : conn.bytesHaveSend = 0)
    (small : prepared.writeIdx + prepared.fileStat.size < 2 ^ 31)
    (results : List WritevResult) (final : Transfer)
    (ran : Machine.run Transfer.step (Transfer.start prepared) results = some final) :
    (shortHeaderWrites prepared.writeIdx 0 results ≤ 1 →
      FaithfulRun (response prepared.writeIdx prepared.fileStat.size prepared.fileAddress)
        (Transfer.start prepared) results) ∧
    (final.Finished →
      FaithfulRun (response prepared.writeIdx prepared.fileStat.size prepared.fileAddress)
        (Transfer.start prepared) results → shortHeaderWrites prepared.writeIdx 0 results ≤ 1) := by
  have nonempty := (processWrite_file made withFile).2.2.2.2
  have course := processWrite_onCourse made withFile unsent small
  have running : ¬(Transfer.start prepared).Over := fun isOver => isOver.2 rfl
  refine ⟨?_, ?_⟩
  · intro once first isPrefix reached before
    have sending : Sending (Transfer.start prepared) prepared.writeIdx prepared.fileStat.size
        prepared.fileAddress 0 (prepared.writeIdx + prepared.fileStat.size) :=
      ⟨running, course, (List.take_zero ..).symm, by omega⟩
    obtain ⟨others, rfl⟩ := isPrefix
    have fewer : shortHeaderWrites prepared.writeIdx 0 first ≤
        shortHeaderWrites prepared.writeIdx 0 (first ++ others) := shortHeaderWrites_append 0 first others
    exact sending.run small (by rw [if_pos rfl]; omega) before
  · intro finished faithful
    by_contra often
    rcases course with ⟨left, state, whole⟩ | ⟨_, beyond⟩
    · exact state.not_faithfulRun running whole rfl small (by omega) finished ran
        (by rw [if_pos rfl]; omega) faithful
    · rw [shortHeaderWrites_beyond beyond] at often
      omega

/-- A file of five bytes ready to be sent: 55 bytes of header and the file. -/
def fiveBytes : HttpConn :=
  (processWrite { HttpConn.blank with fileStat := ⟨5, true, false⟩, fileAddress := .mapped 0 }
    .fileRequest).2

/-- One partial write inside the header and a full socket buffer do no harm. -/
theorem faithfulRun_fiveBytes :
    FaithfulRun (response fiveBytes.writeIdx fiveBytes.fileStat.size fiveBytes.fileAddress)
      (Transfer.start fiveBytes) [.sent 40, .again, .sent 20] :=
  (faithfulRun_iff_shortHeaderWrites
    { HttpConn.blank with fileStat := ⟨5, true, false⟩, fileAddress := .mapped 0 } fiveBytes .fileRequest
    rfl rfl rfl (by decide +kernel) [.sent 40, .again, .sent 20]
    ((Machine.run Transfer.step (Transfer.start fiveBytes) [.sent 40, .again, .sent 20]).get
      (by decide +kernel)) (Option.some_get _).symm).1 (by decide +kernel)

/-- Two partial writes inside the header: the transfer finishes with five bytes from in front of the
file in place of the last five of the header. -/
theorem fiveBytes_foreign :
    ∃ final, Machine.run Transfer.step (Transfer.start fiveBytes) [.sent 40, .sent 10, .sent 10] =
      some final ∧ final.Finished ∧
      final.sent ≠ response fiveBytes.writeIdx fiveBytes.fileStat.size fiveBytes.fileAddress ∧
      .file (.mapped 0) (-5) ∈ final.sent :=
  ⟨(Machine.run Transfer.step (Transfer.start fiveBytes) [.sent 40, .sent 10, .sent 10]).get
    (by decide +kernel), (Option.some_get _).symm, by decide +kernel, by decide +kernel, by decide +kernel⟩

end WebServ.Http
