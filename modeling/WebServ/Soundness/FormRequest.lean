import WebServ.Soundness.RequestBody
import WebServ.Soundness.Session

/-! # Requests that carry a form

A request with a body is a header block and the bytes of the form. Where one delivery brings the whole form
behind an end of the header block, the parser reads it whatever the deliveries before have brought: the
object with which `do_request` is called holds the URL and the form.
-/

namespace WebServ.Http

open WebServ.Text HttpConn

/-- The header block of a POST of the URL, with the length of the form as its content length. -/
def Posts (header url form : Bytes) : Prop :=
  ∃ request, parse .requestLine .empty header = .body request [] ∧ request.cgi = 1 ∧ request.url = url ∧
    request.contentLength = form.length

/-- The pieces of such a request: the last brings the form and something of the header block. -/
structure FormCut (header form : Bytes) (earlier : List Bytes) (last : Bytes) : Prop where
  whole : earlier.flatten ++ last = header ++ form
  inLast : form.length < last.length
  nonempty : ∀ piece ∈ earlier, piece ≠ []
  fits : (header ++ form).length < readBufferSize

/-! ## What a browser sends -/

/-- Header lines that leave a content length have a body behind them. -/
theorem parse_headerBlock_body {fields : List Bytes} {request : Request}
    (lines : ∀ field ∈ fields, Plain field ∧ visible field ≠ [])
    (body : (fields.foldl (fun known field => known.addHeader (visible field)) request).contentLength ≠ 0) :
    parse .header request (headerBlock fields) =
      .body (fields.foldl (fun known field => known.addHeader (visible field)) request) [] := by
  induction fields generalizing request with
  | nil =>
    have split : splitLine [cr, lf] = .complete [] [] := by decide
    have blank : visible [] = [] := rfl
    rw [headerBlock, List.foldr_nil, parse_header split, if_pos blank,
      if_pos (show request.contentLength ≠ 0 from body), List.foldl_nil]
  | cons field fields ih =>
    obtain ⟨⟨plain, shows⟩, others⟩ := List.forall_mem_cons.mp lines
    have split : splitLine (field ++ cr :: lf :: headerBlock fields) = .complete field (headerBlock fields) :=
      splitLine_line plain _
    rw [headerBlock, List.foldr_cons, ← headerBlock, parse_header split, if_neg shows]
    exact ih others body

theorem addHeader_cgi (request : Request) (text : Bytes) : (request.addHeader text).cgi = request.cgi := by
  rw [Request.addHeader]
  split
  · split_ifs <;> rfl
  · split
    · rfl
    · split <;> rfl

/-- A request line and header lines. -/
theorem posts_of_lines {line url form : Bytes} {fields : List Bytes} (plain : Plain line)
    (accepted : requestLine (visible line) = some (some (.post, url)))
    (lines : ∀ field ∈ fields, Plain field ∧ visible field ≠ [])
    (length : (fields.foldl (fun known field => known.addHeader (visible field))
      (Request.empty.setLine .post url)).contentLength = form.length) (nonempty : form ≠ []) :
    Posts (line ++ cr :: lf :: headerBlock fields) url form := by
  have keeps : ∀ (fields : List Bytes) (request : Request),
      (fields.foldl (fun known field => known.addHeader (visible field)) request).cgi = request.cgi ∧
        (fields.foldl (fun known field => known.addHeader (visible field)) request).url = request.url := by
    intro fields
    induction fields with
    | nil => exact fun request => ⟨rfl, rfl⟩
    | cons field fields ih =>
      intro request
      obtain ⟨cgi, url⟩ := ih (request.addHeader (visible field))
      exact ⟨cgi.trans (addHeader_cgi ..), url.trans (addHeader_url ..)⟩
  have body : form.length ≠ 0 := mt List.length_eq_zero_iff.mp nonempty
  refine ⟨_, ?_, (keeps fields _).1, (keeps fields _).2, length⟩
  rw [parse_requestLine (splitLine_line plain _), accepted]
  exact parse_headerBlock_body lines (by rw [length]; exact_mod_cast body)

/-! ## Delivery -/

theorem HttpConn.deliverAll_singleton (conn : HttpConn) (piece : Bytes) :
    conn.deliverAll [piece] = conn.deliver piece := by
  rw [deliverAll]
  cases conn.deliver piece with
  | none => rfl
  | some outcome =>
    obtain ⟨result, next⟩ := outcome
    simp only [bind, Option.bind_some, deliverAll]
    split_ifs with waits
    · rw [waits]
    · rfl

/-- The earlier pieces wait, and the last one enters the content with the whole form. -/
theorem Refines.deliver_form {conn : HttpConn} {phase : CheckState} {request known : Request}
    {rest pending form last : Bytes} {earlier : List Bytes} (refines : Refines conn phase request rest)
    (reading : phase ≠ .content) (header : parse phase request (rest ++ pending) = .body known [])
    (cut : earlier.flatten ++ last = pending ++ form) (inLast : form.length < last.length)
    (nonempty : ∀ piece ∈ earlier, piece ≠ [])
    (fits : conn.readIdx + (pending ++ form).length ≤ readBufferSize) :
    ∃ before fuel, conn.deliverAll (earlier ++ [last]) = before.processReadLoop (fuel + 2) .ok ∧
      Refines before .content known form ∧ before.checkedIdx = before.startLine ∧
      before.startLine = conn.readIdx + pending.length := by
  induction earlier generalizing conn phase request rest pending with
  | nil =>
    rw [List.flatten_nil, List.nil_append] at cut
    have more : pending ≠ [] := by
      rintro rfl
      rw [cut, List.nil_append] at inLast
      exact lt_irrefl _ inLast
    obtain ⟨before, fuel, delivered, refined, atStart, startLine⟩ :=
      refines.deliver_headerEnd reading header more fits
    refine ⟨before, fuel, ?_, refined, atStart, startLine⟩
    rw [List.nil_append, deliverAll_singleton, cut, delivered]
  | cons piece earlier ih =>
    obtain ⟨filled, others⟩ := List.forall_mem_cons.mp nonempty
    rw [List.flatten_cons, List.append_assoc] at cut
    have lengths := congrArg List.length cut
    simp only [List.length_append] at lengths fits
    -- the piece ends inside the header block, because the last one begins there
    obtain ⟨left, rfl⟩ : ∃ left, pending = piece ++ left :=
      (List.prefix_of_prefix_length_le ⟨_, cut⟩ ⟨_, rfl⟩ (by omega)).imp fun _ => Eq.symm
    rw [List.append_assoc, List.append_cancel_left_eq] at cut
    rw [List.length_append] at lengths fits
    have unfinished : left ≠ [] := by
      rintro rfl
      rw [List.length_nil] at lengths
      omega
    obtain ⟨next, after, read, tail, delivered, readIdx, nextReading, refined, resumed⟩ :=
      refines.deliver_header reading header unfinished filled (by omega)
    have room : next.readIdx + (left ++ form).length ≤ readBufferSize := by
      rw [readIdx, List.length_append]
      omega
    obtain ⟨before, fuel, ran, refined, atStart, startLine⟩ := ih refined nextReading resumed cut others room
    refine ⟨before, fuel, ?_, refined, atStart, ?_⟩
    · rw [List.cons_append, HttpConn.deliverAll, delivered]
      exact ran
    · rw [startLine, readIdx, List.length_append, Nat.add_assoc]

/-- The object has the URL of a POST and, behind it, its form. -/
structure HoldsForm (called : HttpConn) (url form : Bytes) : Prop where
  cgi : called.cgi = 1
  strings : ∃ pointer string, called.url = some pointer ∧ called.readBuf.cstr pointer = some url ∧
    called.string = some string ∧ called.readBuf.cstr string = some form ∧ pointer + url.length < string

/-- Where the content ends, the object has the URL and the form. -/
theorem Refines.holdsForm {conn : HttpConn} {known : Request} {form : Bytes}
    (refines : Refines conn .content known form) (cgi : known.cgi = 1)
    (inside : conn.startLine + form.length < readBufferSize) (nonzero : ∀ value ∈ form, value ≠ 0) :
    HoldsForm { conn with
      startLine := conn.checkedIdx
      readBuf := conn.readBuf.set (conn.startLine + form.length) 0
      string := some conn.startLine } known.url form := by
  -- the NUL behind the form is no byte of the URL
  have same : ∀ query, query < conn.startLine →
      (conn.readBuf.set (conn.startLine + form.length) 0).byte query = conn.readBuf.byte query :=
    fun query earlier => Buffer.set_byte_ne _ _ (by omega)
  obtain ⟨pointer, points, url, before⟩ := (refines.records.url (by decide)).congr le_rfl same
  have text : (conn.readBuf.set (conn.startLine + form.length) 0).cstr conn.startLine =
      some (form.takeWhile (· != 0)) := by
    apply Buffer.cstr_of_bytes inside
    · intro index bound
      rw [Buffer.set_byte_ne _ _ (by omega)]
      exact refines.byte index bound
    · exact Buffer.set_byte_self ..
  have whole : form.takeWhile (· != 0) = form :=
    List.takeWhile_eq_self_iff.mpr fun value member => bne_iff_ne.mpr (nonzero value member)
  rw [whole] at text
  exact ⟨refines.records.cgi.trans cgi, pointer, conn.startLine, points, url, rfl, text, before⟩

/-- However the request is cut, `do_request` is called with the URL and the form. -/
theorem form_called {header url form last : Bytes} {earlier : List Bytes} (start : HttpConn)
    (posts : Posts header url form) (cut : FormCut header form earlier last)
    (nonzero : ∀ value ∈ form, value ≠ 0) :
    ∃ called, start.init.deliverAll (earlier ++ [last]) = some (.callDoRequest, called) ∧
      HoldsForm called url form := by
  obtain ⟨request, parsed, cgi, rfl, awaited⟩ := posts
  have fits := cut.fits
  have empty : start.init.readIdx = 0 := rfl
  have room : start.init.readIdx + (header ++ form).length ≤ readBufferSize := by
    rw [empty]
    omega
  obtain ⟨before, fuel, delivered, refined, atStart, startLine⟩ :=
    (refines_init start).deliver_form (by decide) (by rw [List.nil_append, parsed]) cut.whole cut.inLast
      cut.nonempty room
  have inside : before.startLine + form.length < readBufferSize := by
    rw [List.length_append] at fits
    omega
  rw [refined.loop_ends atStart awaited inside] at delivered
  exact ⟨_, delivered, refined.holdsForm cgi inside nonzero⟩

end WebServ.Http
