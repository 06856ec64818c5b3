import WebServ.Soundness.Segmentation

/-! # When a request body survives its segmentation

`parse_content` takes the body to begin at `m_start_line` and to be complete when
`m_content_length + m_checked_idx` bytes have been read, so it is right as long as `m_checked_idx`
stays at the first body byte. But after a delivery that ends inside the body the loop of
`process_read` runs the line scanner over the body bytes received so far. Unless a bare LF or CR in
front holds the scanner, `m_checked_idx` moves, and from then on more bytes are awaited than the
request has.
-/

namespace WebServ.Http

open WebServ.Text HttpConn

/-- The read buffer holds the bytes, followed by a NUL, at the position `m_string` points to. -/
def HoldsBody (conn : HttpConn) (body : Bytes) : Prop :=
  ∃ start, conn.string = some start ∧ start + body.length < readBufferSize ∧
    (∀ index, (bound : index < body.length) → conn.readBuf.byte (start + index) = body[index]) ∧
    conn.readBuf.byte (start + body.length) = 0

/-- Every delivery before the last one yields `NO_REQUEST` and the last one reaches `do_request`
with the body in `m_string`. -/
def ReadsBody (conn : HttpConn) (earlier : List Bytes) (last body : Bytes) : Prop :=
  ∃ waiting final, conn.deliverAll earlier = some (.code .noRequest, waiting) ∧
    waiting.deliver last = some (.callDoRequest, final) ∧ HoldsBody final body

/-- More bytes are awaited than the limit: a content that will not be completed. -/
structure Overrun (conn : HttpConn) (limit : ℕ) : Prop where
  state : conn.checkState = .content
  beyond : (limit : ℤ) < conn.contentLength + conn.checkedIdx

/-- `parse_content` where the content is incomplete. -/
private theorem processLine_content {conn : HttpConn} (state : conn.checkState = .content)
    (incomplete : (conn.readIdx : ℤ) < conn.contentLength + conn.checkedIdx) :
    conn.processLine = if 2 ^ 31 ≤ conn.contentLength + conn.checkedIdx then none
      else some (.next .open, { conn with startLine := conn.checkedIdx }) := by
  rw [processLine_ofContent conn state, parseContent]
  dsimp only
  split_ifs
  · rfl
  · omega
  · rfl

/-- Waiting for more bytes than the limit is for good. -/
private theorem Overrun.parseLine {conn : HttpConn} {limit : ℕ} (overrun : Overrun conn limit) :
    Overrun conn.parseLine.2 limit := by
  obtain ⟨state, length, _, forward⟩ := parseLine_frame conn
  have beyond := overrun.beyond
  exact ⟨state.trans overrun.state, by rw [length]; omega⟩

/-- The loop goes to the content with the status `LINE_OK` and to the scanner otherwise. -/
theorem loopCondition_content {conn : HttpConn} (state : conn.checkState = .content) :
    conn.loopCondition .ok = (.ok, conn) ∧ conn.loopCondition .open = conn.parseLine := by
  simp only [loopCondition, state, reduceCtorEq, and_self, and_false, ↓reduceIte]

private theorem loopCondition_readIdx (conn : HttpConn) (lineStatus : LineStatus) :
    (conn.loopCondition lineStatus).2.readIdx = conn.readIdx := by
  rw [loopCondition]
  split_ifs
  · rfl
  · exact (parseLine_frame conn).2.2.1

/-- The loop does not reach `do_request` once more bytes are awaited than the limit. -/
private theorem processReadLoop_overrun {conn final : HttpConn} {limit fuel : ℕ} {result : ReadResult}
    {lineStatus : LineStatus} (overrun : Overrun (conn.loopCondition lineStatus).2 limit)
    (inside : conn.readIdx ≤ limit)
    (ran : conn.processReadLoop fuel lineStatus = some (result, final)) :
    result ≠ .callDoRequest ∧
      (result ≠ .unfinished → Overrun final limit ∧ final.readIdx = conn.readIdx) := by
  induction fuel generalizing conn lineStatus with
  | zero =>
    cases ran
    exact ⟨by decide, fun ended => absurd rfl ended⟩
  | succ fuel ih =>
    have readIdx := loopCondition_readIdx conn lineStatus
    have beyond := overrun.beyond
    rw [processReadLoop] at ran
    dsimp only at ran
    split_ifs at ran with isOk
    · rw [processLine_content overrun.state (by omega)] at ran
      split_ifs at ran
      · cases ran
      · have next : Overrun { (conn.loopCondition lineStatus).2 with
            startLine := (conn.loopCondition lineStatus).2.checkedIdx } limit := ⟨overrun.state, beyond⟩
        have scanned : Overrun (loopCondition _ .open).2 limit :=
          (loopCondition_content next.state).2 ▸ next.parseLine
        have rest := ih scanned (readIdx.trans_le inside) ran
        exact ⟨rest.1, fun ended => ⟨(rest.2 ended).1, (rest.2 ended).2.trans readIdx⟩⟩
    · cases ran
      exact ⟨by decide, fun _ => ⟨overrun, readIdx⟩⟩

private theorem Overrun.readOnce {conn : HttpConn} {limit : ℕ} (overrun : Overrun conn limit)
    (piece : Bytes) : Overrun (conn.readOnce piece).2 limit := by
  obtain ⟨_, _, same, _⟩ := readOnce_frame conn piece
  rw [same]
  exact ⟨overrun.state, overrun.beyond⟩

private theorem Overrun.deliver {conn final : HttpConn} {limit : ℕ} {result : ReadResult} {piece : Bytes}
    (overrun : Overrun conn limit) (inside : conn.readIdx + piece.length ≤ limit)
    (ran : conn.deliver piece = some (result, final)) :
    result ≠ .callDoRequest ∧
      (result ≠ .unfinished → Overrun final limit ∧ final.readIdx ≤ conn.readIdx + piece.length) := by
  have readIdx : (conn.readOnce piece).2.readIdx ≤ conn.readIdx + piece.length := by
    obtain ⟨_, _, same, _, short, _⟩ := readOnce_frame conn piece
    rwa [same]
  have entered : Overrun ((conn.readOnce piece).2.loopCondition .ok).2 limit := by
    rw [(loopCondition_content (overrun.readOnce piece).state).1]
    exact overrun.readOnce piece
  have rest := processReadLoop_overrun entered (by omega) ran
  exact ⟨rest.1, fun ended => ⟨(rest.2 ended).1, by rw [(rest.2 ended).2]; exact readIdx⟩⟩

/-- The first delivery waits, and the others read the body. -/
theorem readsBody_cons {conn : HttpConn} {piece last body : Bytes} {earlier : List Bytes} :
    ReadsBody conn (piece :: earlier) last body ↔
      ∃ next, conn.deliver piece = some (.code .noRequest, next) ∧ ReadsBody next earlier last body := by
  constructor
  · rintro ⟨waiting, final, waited, ended⟩
    rw [deliverAll] at waited
    cases delivered : conn.deliver piece with
    | none =>
      rw [delivered] at waited
      cases waited
    | some outcome =>
      obtain ⟨result, next⟩ := outcome
      rw [delivered] at waited
      simp only [bind, Option.bind_some] at waited
      split_ifs at waited with isWaiting
      · exact ⟨next, by rw [isWaiting], waiting, final, waited, ended⟩
      · cases waited
        exact absurd rfl isWaiting
  · rintro ⟨next, delivered, waiting, final, waited, ended⟩
    refine ⟨waiting, final, ?_, ended⟩
    rw [deliverAll, delivered]
    exact waited

/-- The body of an overrun request is never read. -/
private theorem Overrun.not_readsBody {conn : HttpConn} {limit : ℕ} {earlier : List Bytes}
    {last body : Bytes} (overrun : Overrun conn limit)
    (inside : conn.readIdx + (earlier.flatten ++ last).length ≤ limit) :
    ¬ReadsBody conn earlier last body := by
  induction earlier generalizing conn with
  | nil =>
    rintro ⟨waiting, final, waited, ended, _⟩
    cases waited
    exact (overrun.deliver (by simpa using inside) ended).1 rfl
  | cons piece earlier ih =>
    rw [List.flatten_cons, List.append_assoc, List.length_append] at inside
    intro reads
    obtain ⟨next, delivered, reads⟩ := readsBody_cons.mp reads
    obtain ⟨overrun, readIdx⟩ := (overrun.deliver (by omega) delivered).2 nofun
    exact ih overrun (by omega) reads

/-! ## The content under the refinement relation -/

section Content

variable {conn : HttpConn} {known : Request} {received : Bytes}

/-- At the start of the content all received body bytes are unread. -/
private theorem Refines.unread_content (refines : Refines conn .content known received)
    (atStart : conn.checkedIdx = conn.startLine) : conn.Unread received ∧ conn.NoCrBefore := by
  obtain ⟨seen, unread, rfl, _, checked, unreadBytes, before⟩ := refines.scan
  have none : seen.length = 0 := by omega
  rw [List.length_eq_zero_iff.mp none, List.nil_append]
  exact ⟨unreadBytes, before⟩

/-- With the whole body received the loop ends, the body as `m_string`. -/
theorem Refines.loop_ends (refines : Refines conn .content known received)
    (atStart : conn.checkedIdx = conn.startLine) (whole : known.contentLength = received.length)
    (fits : conn.startLine + received.length < readBufferSize) (fuel : ℕ) :
    conn.processReadLoop (fuel + 1) .ok = some (.callDoRequest, { conn with
      startLine := conn.checkedIdx
      readBuf := conn.readBuf.set (conn.startLine + received.length) 0
      string := some conn.startLine }) := by
  have length := refines.length
  have awaited : conn.contentLength = received.length := refines.records.contentLength.trans whole
  have stored : conn.readBuf.store? (conn.startLine + conn.contentLength) 0 =
      some (conn.readBuf.set (conn.startLine + received.length) 0) := by
    rw [awaited]
    exact_mod_cast Buffer.store?_eq_some fits
  rw [processReadLoop]
  simp only [(loopCondition_content refines.state).1, ↓reduceIte, processLine]
  split
  · next other => exact absurd (other.symm.trans refines.state) (by decide)
  · next other => exact absurd (other.symm.trans refines.state) (by decide)
  · rw [parseContent]
    dsimp only
    rw [if_neg (by simp only [readBufferSize] at fits; omega), if_pos (by omega), stored]
    rfl

/-- The whole body has been received. -/
private theorem Refines.loop_complete (refines : Refines conn .content known received)
    (atStart : conn.checkedIdx = conn.startLine) (whole : known.contentLength = received.length)
    (fits : conn.startLine + received.length < readBufferSize) (fuel : ℕ) :
    ∃ final, conn.processReadLoop (fuel + 1) .ok = some (.callDoRequest, final) ∧
      HoldsBody final received := by
  refine ⟨_, refines.loop_ends atStart whole fits fuel, conn.startLine, rfl, fits, ?_, ?_⟩
  · intro index bound
    change (conn.readBuf.set (conn.startLine + received.length) 0).byte (conn.startLine + index) = _
    rw [Buffer.set_byte_ne _ _ (by omega)]
    exact refines.byte index bound
  · exact Buffer.set_byte_self ..

variable {length : ℕ} (refines : Refines conn .content known received)
  (atStart : conn.checkedIdx = conn.startLine) (awaited : known.contentLength = length)
  (partly : received.length < length)

include refines atStart awaited partly

/-- The first pass finds the content incomplete and turns to the line scanner. -/
private theorem Refines.loop_incomplete (fits : conn.startLine + length < readBufferSize) (fuel : ℕ) :
    conn.processReadLoop (fuel + 1) .ok = conn.processReadLoop fuel .open := by
  have total := refines.length
  have pending : conn.contentLength = length := refines.records.contentLength.trans awaited
  have same : { conn with startLine := conn.checkedIdx } = conn :=
    congrArg (fun start => { conn with startLine := start }) atStart
  have handled : conn.processLine = some (.next .open, conn) := by
    simp only [readBufferSize] at fits
    rw [processLine_content refines.state (by omega), if_neg (by omega), same]
  rw [processReadLoop, (loopCondition_content refines.state).1]
  simp only [↓reduceIte, handled]
  rfl

/-- Part of the body has been received, and it holds the scanner where it is. -/
private theorem Refines.loop_waits (fits : conn.startLine + length < readBufferSize)
    (stays : scannerStays received = true) (fuel : ℕ) :
    conn.processReadLoop (fuel + 2) .ok = some (.code .noRequest, conn) := by
  obtain ⟨unread, before⟩ := refines.unread_content atStart
  obtain ⟨stopped, same⟩ := unread.parseLine_stays before stays
  rw [refines.loop_incomplete atStart awaited partly fits, processReadLoop,
    (loopCondition_content refines.state).2]
  dsimp only
  rw [if_neg stopped, same]

/-- Part of the body has been received, and the scanner moves into it. -/
private theorem Refines.loop_overruns (fits : conn.startLine + length < readBufferSize)
    (moves : scannerStays received = false) {fuel : ℕ} {result : ReadResult} {final : HttpConn}
    (ran : conn.processReadLoop fuel .ok = some (result, final)) :
    result ≠ .callDoRequest ∧ (result ≠ .unfinished →
      Overrun final (conn.startLine + length) ∧ final.readIdx = conn.readIdx) := by
  have total := refines.length
  have moved := (refines.unread_content atStart).1.parseLine_moves moves
  obtain ⟨state, contentLength, _, _⟩ := parseLine_frame conn
  have pending : conn.contentLength = length := refines.records.contentLength.trans awaited
  cases fuel with
  | zero =>
    cases ran
    exact ⟨nofun, fun ended => absurd rfl ended⟩
  | succ fuel =>
    rw [refines.loop_incomplete atStart awaited partly fits] at ran
    apply processReadLoop_overrun _ (by omega) ran
    rw [(loopCondition_content refines.state).2]
    refine ⟨state.trans refines.state, ?_⟩
    rw [contentLength, pending]
    omega

end Content

/-! ## Deliveries -/

/-- A delivery at the start of the content appends to the received body bytes. -/
private theorem Refines.deliver_content {conn : HttpConn} {known : Request} {received piece : Bytes}
    (refines : Refines conn .content known received) (atStart : conn.checkedIdx = conn.startLine)
    (nonempty : piece ≠ []) (fits : conn.readIdx + piece.length ≤ readBufferSize) :
    ∃ next fuel, conn.deliver piece = next.processReadLoop (fuel + 2) .ok ∧
      Refines next .content known (received ++ piece) ∧ next.checkedIdx = next.startLine ∧
      next.startLine = conn.startLine := by
  obtain ⟨_, _, refined⟩ := refines.readOnce nonempty fits
  obtain ⟨_, _, same, _⟩ := readOnce_frame conn piece
  exact ⟨(conn.readOnce piece).2, _, rfl, refined, by rw [same]; exact atStart, by rw [same]⟩

/-- A delivery that ends inside the body: it waits in the right state or is the end of the request. -/
private theorem readsBody_of_partly {conn before : HttpConn} {known : Request} {fuel : ℕ}
    {received piece body last : Bytes} {earlier : List Bytes}
    (delivered : conn.deliver piece = before.processReadLoop (fuel + 2) .ok)
    (refines : Refines before .content known received) (atStart : before.checkedIdx = before.startLine)
    (awaited : known.contentLength = body.length)
    (fits : before.startLine + body.length < readBufferSize)
    (cut : received ++ (earlier.flatten ++ last) = body) (present : last ≠ []) :
    ReadsBody conn (piece :: earlier) last body ↔
      scannerStays received = true ∧ ReadsBody before earlier last body := by
  have lengths := congrArg List.length cut
  have total := refines.length
  have positive := List.length_pos_iff.mpr present
  simp only [List.length_append] at lengths
  have partly : received.length < body.length := by omega
  rw [readsBody_cons, delivered]
  cases stays : scannerStays received with
  | true =>
    rw [refines.loop_waits atStart awaited partly fits stays]
    simp only [Option.some.injEq, Prod.mk.injEq, true_and, exists_eq_left']
  | false =>
    simp only [Bool.false_eq_true, false_and, iff_false]
    rintro ⟨next, ran, reads⟩
    obtain ⟨overrun, readIdx⟩ := (refines.loop_overruns atStart awaited partly fits stays ran).2 nofun
    refine overrun.not_readsBody ?_ reads
    rw [List.length_append]
    omega

/-- Once the content is entered, the body is read exactly if the scanner stays after every delivery
that ends inside it. -/
private theorem Refines.readsBody_content {conn : HttpConn} {known : Request}
    {received body last : Bytes} {earlier : List Bytes}
    (refines : Refines conn .content known received) (atStart : conn.checkedIdx = conn.startLine)
    (awaited : known.contentLength = body.length)
    (fits : conn.startLine + body.length < readBufferSize) (stays : scannerStays received = true)
    (cut : received ++ (earlier.flatten ++ last) = body)
    (nonempty : ∀ piece ∈ earlier, piece ≠ []) (present : last ≠ []) :
    ReadsBody conn earlier last body ↔
      ∀ first, first <+: earlier → scannerStays (received ++ first.flatten) = true := by
  induction earlier generalizing conn received with
  | nil =>
    rw [List.flatten_nil, List.nil_append] at cut
    have lengths := congrArg List.length cut
    have total := refines.length
    rw [List.length_append] at lengths
    obtain ⟨next, fuel, delivered, refined, start, startLine⟩ :=
      refines.deliver_content atStart present (by omega)
    rw [cut] at refined
    obtain ⟨final, ended, holds⟩ := refined.loop_complete start awaited (by omega) (fuel + 1)
    constructor
    · intro _ first none
      rw [List.prefix_nil.mp none, List.flatten_nil, List.append_nil]
      exact stays
    · exact fun _ => ⟨conn, final, rfl, delivered.trans ended, holds⟩
  | cons piece earlier ih =>
    obtain ⟨filled, others⟩ := List.forall_mem_cons.mp nonempty
    rw [List.flatten_cons, List.append_assoc, ← List.append_assoc] at cut
    have lengths := congrArg List.length cut
    have total := refines.length
    simp only [List.length_append] at lengths
    obtain ⟨next, fuel, delivered, refined, start, startLine⟩ :=
      refines.deliver_content atStart filled (by omega)
    rw [readsBody_of_partly delivered refined start awaited (by omega) cut present]
    have later := fun held => ih refined start (by omega) held cut others
    constructor
    · rintro ⟨held, reads⟩ first isPrefix
      rcases List.prefix_cons_iff.mp isPrefix with rfl | ⟨first, rfl, inner⟩
      · rw [List.flatten_nil, List.append_nil]
        exact stays
      · rw [List.flatten_cons, ← List.append_assoc]
        exact (later held).mp reads first inner
    · intro holds
      have held : scannerStays (received ++ piece) = true := by
        simpa using holds [piece] ((List.prefix_cons_inj piece).mpr List.nil_prefix)
      refine ⟨held, (later held).mpr fun first inner => ?_⟩
      rw [List.append_assoc, ← List.flatten_cons]
      exact holds (piece :: first) ((List.prefix_cons_inj piece).mpr inner)

/-- A delivery that completes the header block enters the content with the body bytes it has brought. -/
theorem Refines.deliver_headerEnd {conn : HttpConn} {phase : CheckState}
    {request known : Request} {rest pending received : Bytes} (refines : Refines conn phase request rest)
    (reading : phase ≠ .content) (header : parse phase request (rest ++ pending) = .body known [])
    (more : pending ≠ []) (fits : conn.readIdx + (pending ++ received).length ≤ readBufferSize) :
    ∃ before fuel, conn.deliver (pending ++ received) = before.processReadLoop (fuel + 2) .ok ∧
      Refines before .content known received ∧ before.checkedIdx = before.startLine ∧
      before.startLine = conn.readIdx + pending.length := by
  have nonempty : pending ++ received ≠ [] := fun empty => more (List.append_eq_nil_iff.mp empty).1
  obtain ⟨readIdx, passes, extra, delivered, fuel, _, result⟩ := refines.deliver reading nonempty fits
  rw [← List.append_assoc, parse_append, header, Progress.resume, List.nil_append] at result
  obtain ⟨room, _, before, ran, _, kept, refined, atStart⟩ := result
  obtain ⟨spare, enough⟩ := Nat.exists_eq_add_of_le' (show 2 ≤ extra by omega)
  have total := refined.length
  rw [List.length_append] at readIdx
  exact ⟨before, spare, by rw [delivered, ran, enough], refined, atStart, by omega⟩

/-- A delivery that leaves the header block unfinished waits. -/
theorem Refines.deliver_header {conn : HttpConn} {phase : CheckState}
    {request known : Request} {rest piece more : Bytes} (refines : Refines conn phase request rest)
    (reading : phase ≠ .content)
    (header : parse phase request (rest ++ (piece ++ more)) = .body known []) (unfinished : more ≠ [])
    (nonempty : piece ≠ []) (fits : conn.readIdx + piece.length ≤ readBufferSize) :
    ∃ next after read left, conn.deliver piece = some (.code .noRequest, next) ∧
      next.readIdx = conn.readIdx + piece.length ∧ after ≠ .content ∧
      Refines next after read left ∧ parse after read (left ++ more) = .body known [] := by
  obtain ⟨readIdx, passes, extra, delivered, _, _, result⟩ := refines.deliver reading nonempty fits
  rw [← List.append_assoc, parse_append] at header
  cases progress : parse phase request (rest ++ piece) with
  | waiting after read left =>
    rw [progress] at header result
    obtain ⟨reading, next, ran, kept, refined⟩ := result
    exact ⟨next, after, read, left, delivered.trans (ran extra), kept.trans readIdx, reading, refined,
      header⟩
  | rejected => rw [progress] at header; cases header
  | undefined => rw [progress] at header; cases header
  | finished read => rw [progress] at header; cases header
  | body read left =>
    rw [progress, Progress.resume, Progress.body.injEq] at header
    exact absurd (List.append_eq_nil_iff.mp header.2).2 unfinished

/-- Before the content is entered, with the bytes `pending` of the header block still to come. -/
private theorem Refines.readsBody_header {conn : HttpConn} {phase : CheckState}
    {request known : Request} {rest pending body last : Bytes} {earlier : List Bytes}
    (refines : Refines conn phase request rest) (reading : phase ≠ .content)
    (header : parse phase request (rest ++ pending) = .body known []) (more : pending ≠ [])
    (awaited : known.contentLength = body.length)
    (fits : conn.readIdx + (pending ++ body).length < readBufferSize)
    (cut : earlier.flatten ++ last = pending ++ body)
    (nonempty : ∀ piece ∈ earlier, piece ≠ []) (present : last ≠ []) :
    ReadsBody conn earlier last body ↔ ∀ first received, first <+: earlier →
      first.flatten = pending ++ received → scannerStays received = true := by
  induction earlier generalizing conn phase request rest pending with
  | nil =>
    rw [List.flatten_nil, List.nil_append] at cut
    obtain ⟨before, fuel, delivered, refined, atStart, startLine⟩ :=
      refines.deliver_headerEnd reading header more fits.le
    rw [List.length_append] at fits
    obtain ⟨final, ended, holds⟩ := refined.loop_complete atStart awaited (by omega) (fuel + 1)
    constructor
    · intro _ first received none whole
      rw [List.prefix_nil.mp none, List.flatten_nil] at whole
      exact absurd (List.append_eq_nil_iff.mp whole.symm).1 more
    · exact fun _ => ⟨conn, final, rfl, by rw [cut, delivered, ended], holds⟩
  | cons piece earlier ih =>
    obtain ⟨filled, others⟩ := List.forall_mem_cons.mp nonempty
    rw [List.flatten_cons, List.append_assoc] at cut
    by_cases short : piece.length < pending.length
    · -- the piece ends inside the header block
      obtain ⟨left, rfl⟩ : ∃ left, pending = piece ++ left :=
        (List.prefix_of_prefix_length_le ⟨_, cut⟩ ⟨_, rfl⟩ short.le).imp fun _ => Eq.symm
      rw [List.append_assoc, List.append_cancel_left_eq] at cut
      have unfinished : left ≠ [] := by
        rintro rfl
        simp at short
      rw [List.append_assoc, List.length_append] at fits
      obtain ⟨next, after, read, tail, delivered, readIdx, nextReading, refined, header⟩ :=
        refines.deliver_header reading header unfinished filled (by omega)
      rw [readsBody_cons, delivered]
      simp only [Option.some.injEq, Prod.mk.injEq, true_and, exists_eq_left']
      rw [ih refined nextReading header unfinished (by omega) cut others]
      constructor
      · intro holds first received isPrefix whole
        rcases List.prefix_cons_iff.mp isPrefix with rfl | ⟨first, rfl, inner⟩
        · exact absurd (List.append_eq_nil_iff.mp whole.symm).1 more
        · rw [List.flatten_cons, List.append_assoc, List.append_cancel_left_eq] at whole
          exact holds first received inner whole
      · intro holds first received inner whole
        apply holds (piece :: first) received ((List.prefix_cons_inj piece).mpr inner)
        rw [List.flatten_cons, whole, List.append_assoc]
    · -- the piece reaches the body
      obtain ⟨start, rfl⟩ : ∃ start, piece = pending ++ start :=
        (List.prefix_of_prefix_length_le ⟨_, cut.symm⟩ ⟨_, rfl⟩ (by omega)).imp fun _ => Eq.symm
      rw [List.append_assoc, List.append_cancel_left_eq] at cut
      have lengths := congrArg List.length cut
      simp only [List.length_append] at lengths fits
      obtain ⟨before, fuel, delivered, refined, atStart, startLine⟩ :=
        refines.deliver_headerEnd reading header more
          (show conn.readIdx + (pending ++ start).length ≤ readBufferSize by rw [List.length_append]; omega)
      have inside : before.startLine + body.length < readBufferSize := by omega
      have later := fun held =>
        refined.readsBody_content atStart awaited inside held cut others present
      rw [readsBody_of_partly delivered refined atStart awaited inside cut present]
      constructor
      · rintro ⟨held, reads⟩ first received isPrefix whole
        rcases List.prefix_cons_iff.mp isPrefix with rfl | ⟨first, rfl, inner⟩
        · exact absurd (List.append_eq_nil_iff.mp whole.symm).1 more
        · rw [List.flatten_cons, List.append_assoc, List.append_cancel_left_eq] at whole
          rw [← whole]
          exact (later held).mp reads first inner
      · intro holds
        have held : scannerStays start = true :=
          holds [pending ++ start] start ((List.prefix_cons_inj _).mpr List.nil_prefix) (by simp)
        refine ⟨held, (later held).mpr fun first inner => ?_⟩
        apply holds ((pending ++ start) :: first) _ ((List.prefix_cons_inj _).mpr inner)
        rw [List.flatten_cons, List.append_assoc]

/-- A request whose header block leaves a content length of as many bytes as its body has, cut into
nonempty deliveries: the body is read if and only if every delivery that ends inside the body has
brought body bytes that hold the line scanner. -/
theorem readsBody_iff_scannerStays (conn content : HttpConn) (header body last : Bytes)
    (earlier : List Bytes) (entered : (conn.init.readOnce header).2.enterContent = some content)
    (wholly : content.checkedIdx = content.readIdx) (awaited : content.contentLength = body.length)
    (fits : header.length + body.length ≤ readBufferSize - 1)
    (nonempty : ∀ piece ∈ earlier ++ [last], piece ≠ [])
    (cut : (earlier ++ [last]).flatten = header ++ body) :
    ReadsBody conn.init earlier last body ↔ ∀ first received, first <+: earlier →
      first.flatten = header ++ received → scannerStays received = true := by
  have present : header ≠ [] := by
    rintro rfl
    have nothing : (conn.init.readOnce []).2.enterContent = none := rfl
    rw [nothing] at entered
    cases entered
  obtain ⟨earlierNonempty, lastNonempty⟩ := List.forall_mem_append.mp nonempty
  rw [List.flatten_append, List.flatten_singleton] at cut
  have empty : conn.init.readIdx = 0 := rfl
  simp only [readBufferSize] at fits
  obtain ⟨_, passes, extra, _, fuel, only, result⟩ := (refines_init conn).deliver (by decide) present
    (by simp only [readBufferSize]; omega)
  rw [List.nil_append] at only result
  obtain ⟨known, left, reached⟩ : ∃ known left, parse .requestLine .empty header = .body known left := by
    by_contra other
    simp only [not_exists] at other
    rw [enterContent, only other] at entered
    cases entered
  rw [reached] at result
  obtain ⟨room, _, before, _, enters, _, refined, atStart⟩ := result
  obtain ⟨spare, enough⟩ := Nat.exists_eq_add_of_le' (show 1 ≤ extra by omega)
  have same : before = content := by
    have found := enters spare
    rw [Nat.add_assoc, ← enough, ← fuel] at found
    exact Option.some.inj (found.symm.trans entered)
  subst same
  have total := refined.length
  obtain rfl : left = [] := List.length_eq_zero_iff.mp (by omega)
  apply (refines_init conn).readsBody_header (by decide) (by rw [List.nil_append, reached]) present
    (refined.records.contentLength.symm.trans awaited) _ cut earlierNonempty
    (lastNonempty last (List.mem_singleton_self last))
  simp only [List.length_append, readBufferSize]
  omega

/-- A form whose two body bytes arrive apart is read if the first of them is a LF. -/
theorem readsBody_lf :
    ReadsBody HttpConn.blank.init [ascii "POST /2 HTTP/1.1\r\nContent-length: 2\r\n\r\n\n"]
      (ascii "a") (ascii "\na") := by
  apply (readsBody_iff_scannerStays HttpConn.blank
    ((HttpConn.blank.init.readOnce
      (ascii "POST /2 HTTP/1.1\r\nContent-length: 2\r\n\r\n")).2.enterContent.get (by decide +kernel))
    (ascii "POST /2 HTTP/1.1\r\nContent-length: 2\r\n\r\n") (ascii "\na") (ascii "a")
    [ascii "POST /2 HTTP/1.1\r\nContent-length: 2\r\n\r\n\n"] (Option.some_get _).symm
    (by decide +kernel) (by decide +kernel) (by decide) (by decide) (by decide)).mpr
  intro first received isPrefix whole
  have split : ascii "POST /2 HTTP/1.1\r\nContent-length: 2\r\n\r\n\n" =
      ascii "POST /2 HTTP/1.1\r\nContent-length: 2\r\n\r\n" ++ [lf] := by decide
  rcases List.prefix_cons_iff.mp isPrefix with rfl | ⟨first, rfl, inner⟩
  · exact absurd (List.append_eq_nil_iff.mp whole.symm).1 (by decide)
  · rw [List.prefix_nil.mp inner, List.flatten_singleton, split, List.append_cancel_left_eq] at whole
    rw [← whole]
    decide

/-- Cut between two letters, the body is not read: after the first letter `m_checked_idx` stands
behind it. -/
theorem not_readsBody_letters :
    ((HttpConn.blank.init.readOnce
        (ascii "POST /2 HTTP/1.1\r\nContent-length: 2\r\n\r\n")).2.enterContent.any fun content =>
      content.checkedIdx == content.readIdx && content.contentLength == 2) = true ∧
    ¬ReadsBody HttpConn.blank.init
      [ascii "POST /2 HTTP/1.1\r\nContent-length: 2\r\n\r\na"] (ascii "b") (ascii "ab") := by
  refine ⟨by decide +kernel, ?_⟩
  rintro ⟨waiting, final, waited, ended, _⟩
  have ran : ((HttpConn.blank.init.deliverAll
      [ascii "POST /2 HTTP/1.1\r\nContent-length: 2\r\n\r\na"]).bind fun outcome =>
        (outcome.2.deliver (ascii "b")).map Prod.fst) = some (.code .noRequest) := by decide +kernel
  rw [waited, Option.bind_some, ended] at ran
  cases ran

end WebServ.Http
