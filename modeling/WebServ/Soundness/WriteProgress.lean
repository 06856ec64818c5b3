import WebServ.Machine.Fairness
import WebServ.Soundness.Process
import WebServ.Soundness.ResponseWriter

/-! # When `write` gets on

The loop of `write` ends only when everything is sent or `writev` fails, so it relies on the iovecs: as
long as bytes are left to send, `writev` must be offered some. With a file that is always so, since the
second iovec is set to all that is left once the first one is taken for sent. A response without a file
has no second iovec: every short write takes the whole total off the first one again, and when nothing of
it remains, `writev` sends nothing and the loop runs for ever.
-/

namespace WebServ.Http

open WebServ.Text WebServ.Machine HttpConn

namespace Transfer

/-- The results `writev` gives when it returns: some of the bytes it is offered, none only if it is
offered none. -/
def Allows (transfer : Transfer) : WritevResult → Prop
  | .sent count => count ≤ transfer.conn.offered.length ∧ (count = 0 → transfer.conn.offered = [])
  | _ => True

instance (transfer : Transfer) (result : WritevResult) : Decidable (transfer.Allows result) :=
  match result with
  | .sent _ => inferInstanceAs (Decidable (_ ∧ (_ → _)))
  | .again => inferInstanceAs (Decidable True)
  | .error => inferInstanceAs (Decidable True)

/-- One `writev`, which sends nothing when it is offered nothing. -/
def writeStep (transfer : Transfer) (result : WritevResult) : Option Transfer :=
  if transfer.Over ∨ ¬transfer.Allows result ∨
      (transfer.ended = some .again ∧ transfer.conn.bytesToSend = 0) then none
  else
    let (ended, conn) := transfer.conn.writePass result
    some ⟨conn, transfer.sent ++ transfer.taken result, ended⟩

/-- While the response is being sent and bytes are left, the iovecs offer some. -/
def Offers (transfer : Transfer) : Prop :=
  ¬transfer.Over → 0 < transfer.conn.bytesToSend → transfer.conn.offered ≠ []

instance (transfer : Transfer) : Decidable transfer.Offers := inferInstanceAs (Decidable (_ → _ → _))

theorem writeStep_eq_some {transfer next : Transfer} {result : WritevResult}
    (taken : transfer.writeStep result = some next) :
    ¬transfer.Over ∧ transfer.Allows result ∧
      ¬(transfer.ended = some .again ∧ transfer.conn.bytesToSend = 0) ∧
      next = ⟨(transfer.conn.writePass result).2, transfer.sent ++ transfer.taken result,
        (transfer.conn.writePass result).1⟩ := by
  rw [writeStep] at taken
  split_ifs at taken with refused
  simp only [not_or, not_not] at refused
  exact ⟨refused.1, refused.2.1, refused.2.2, (Option.some.inj taken).symm⟩

/-- It is the step of a transfer that is offered bytes whenever it sends some. -/
theorem writeStep_of_step {transfer next : Transfer} {result : WritevResult}
    (taken : transfer.step result = some next) : transfer.writeStep result = some next := by
  have allowed : transfer.Admits result → transfer.Allows result := by
    intro admitted
    cases result with
    | sent count => exact ⟨admitted.2, fun none => absurd admitted.1 (by omega)⟩
    | again => trivial
    | error => trivial
  rw [step] at taken
  rw [writeStep]
  split_ifs at taken with refused
  simp only [not_or, not_not] at refused
  rw [if_neg (by simp only [not_or, not_not]; exact ⟨refused.1, allowed refused.2.1, refused.2.2⟩)]
  exact taken

/-- A response that is over offers nothing and needs nothing. -/
theorem offers_of_over {transfer : Transfer} (isOver : transfer.Over) : transfer.Offers :=
  fun alive => absurd isOver alive

/-- After a pass the response is over or goes on with the iovecs set anew. -/
theorem pass_sent (conn : HttpConn) (sent : List Pointer) (count : ℕ) :
    (0 < (conn.advanceIovecs count).bytesToSend ∧
        conn.writePass (.sent count) = (none, conn.advanceIovecs count)) ∨
      ((conn.advanceIovecs count).bytesToSend ≤ 0 ∧
        Over ⟨(conn.writePass (.sent count)).2, sent, (conn.writePass (.sent count)).1⟩) := by
  rw [writePass]
  split_ifs with done linger
  · exact Or.inr ⟨done, by simp, by simp⟩
  · exact Or.inr ⟨done, by simp, by simp⟩
  · exact Or.inl ⟨by omega, rfl⟩

end Transfer

/-! ## Without a file -/

/-- A response of `length` bytes in one iovec, with the bytes sent and the sum of the totals after each
`writev` that sent some. -/
structure OneIovec (conn : HttpConn) (length done sum : ℕ) : Prop where
  ivCount : conn.ivCount = 1
  iov : conn.iv0.len = length - sum
  bytesHaveSend : conn.bytesHaveSend = done
  bytesToSend : conn.bytesToSend = length - done
  counted : done ≤ sum
  inside : done ≤ length
  small : length < 2 ^ 31

theorem OneIovec.offered_length {conn : HttpConn} {length done sum : ℕ}
    (state : OneIovec conn length done sum) : conn.offered.length = length - sum := by
  rw [offered, state.ivCount]
  simp only [List.take_succ_cons, List.take_zero, List.flatMap_cons, List.flatMap_nil, List.append_nil,
    cells_length]
  exact state.iov

/-- The total is taken off the iovec again. -/
theorem OneIovec.advance {conn : HttpConn} {length done sum count : ℕ}
    (state : OneIovec conn length done sum) (enough : count ≤ conn.offered.length) :
    OneIovec (conn.advanceIovecs count) length (done + count) (sum + (done + count)) := by
  rw [state.offered_length] at enough
  have counted := state.counted
  have inside := state.inside
  have small := state.small
  have haveSend : conn.bytesHaveSend + count = (done + count : ℕ) := by
    rw [state.bytesHaveSend, Nat.cast_add]
  have toSend : conn.bytesToSend - count = (length : ℤ) - (done + count : ℕ) := by
    rw [state.bytesToSend, Nat.cast_add]
    omega
  have size : toSize (done + count : ℕ) = done + count := toSize_natCast (by omega)
  rw [advanceIovecs]
  dsimp only
  rw [haveSend, toSend, state.iov, size]
  split_ifs with reached
  · refine ⟨state.ivCount, ?_, rfl, rfl, by omega, by omega, small⟩
    dsimp only
    omega
  · refine ⟨state.ivCount, ?_, rfl, rfl, by omega, by omega, small⟩
    have left : ((length - sum : ℕ) : ℤ) - (done + count : ℕ) = (length - sum - (done + count) : ℕ) := by
      rw [Nat.cast_sub (by omega : done + count ≤ length - sum)]
    dsimp only
    rw [left, toSize_natCast (by omega)]
    omega

/-- The totals after each `writev` that sends bytes add up to less than the length, or all is sent. -/
def TotalsFit (length : ℕ) : ℕ → ℕ → List WritevResult → Prop
  | _, _, [] => True
  | done, sum, .sent count :: rest =>
      (done + count = length ∨ sum + (done + count) < length) ∧
        TotalsFit length (done + count) (sum + (done + count)) rest
  | done, sum, _ :: rest => TotalsFit length done sum rest

instance (length : ℕ) : ∀ done sum results, Decidable (TotalsFit length done sum results)
  | _, _, [] => isTrue trivial
  | done, sum, .sent count :: rest =>
      have := instDecidableTotalsFit length (done + count) (sum + (done + count)) rest
      inferInstanceAs (Decidable (_ ∧ _))
  | done, sum, .again :: rest => instDecidableTotalsFit length done sum rest
  | done, sum, .error :: rest => instDecidableTotalsFit length done sum rest

/-- A running response in one iovec offers bytes as long as the totals have not used it up. -/
theorem OneIovec.offers_iff {transfer : Transfer} {length done sum : ℕ}
    (state : OneIovec transfer.conn length done sum) (running : ¬transfer.Over) (more : done < length) :
    transfer.Offers ↔ sum < length := by
  have offered := state.offered_length
  constructor
  · intro offers
    have some : 0 < transfer.conn.offered.length := by
      apply List.length_pos_iff.mpr
      exact offers running (by rw [state.bytesToSend]; omega)
    omega
  · intro left _ _ none
    rw [none, List.length_nil] at offered
    omega

/-- A response that is over takes no further `writev`. -/
theorem Transfer.writeRun_over {transfer final : Transfer} {results : List WritevResult}
    (isOver : transfer.Over) (ran : run Transfer.writeStep transfer results = some final) : results = [] := by
  cases results with
  | nil => rfl
  | cons result rest =>
    obtain ⟨next, taken, _⟩ := (run_cons_eq_some Transfer.writeStep).mp ran
    exact absurd isOver (Transfer.writeStep_eq_some taken).1

/-- In a run of one iovec, bytes are offered throughout exactly if the totals fit. -/
theorem OneIovec.throughout_iff {transfer final : Transfer} {length done sum : ℕ}
    {results : List WritevResult} (state : OneIovec transfer.conn length done sum) (offers : transfer.Offers)
    (ran : run Transfer.writeStep transfer results = some final) :
    Throughout Transfer.writeStep Transfer.Offers transfer results ↔ TotalsFit length done sum results := by
  induction results generalizing transfer done sum with
  | nil => exact iff_of_true (throughout_nil.mpr offers) trivial
  | cons result results ih =>
    obtain ⟨next, taken, later⟩ := (run_cons_eq_some Transfer.writeStep).mp ran
    rw [throughout_cons taken, and_iff_right offers]
    obtain ⟨running, allowed, begun, rfl⟩ := Transfer.writeStep_eq_some taken
    cases result with
    | again =>
      exact ih state (fun alive left => offers running left) later
    | error =>
      obtain rfl := Transfer.writeRun_over (by exact ⟨by simp [writePass], by simp [writePass]⟩) later
      refine iff_of_true (throughout_nil.mpr (Transfer.offers_of_over ?_)) trivial
      exact ⟨by simp [writePass], by simp [writePass]⟩
    | sent count =>
      have advanced := state.advance allowed.1
      have inside := advanced.inside
      have toSend := advanced.bytesToSend
      rw [TotalsFit]
      rcases Transfer.pass_sent transfer.conn (transfer.sent ++ transfer.taken (.sent count)) count with
        ⟨left, passed⟩ | ⟨finished, isOver⟩
      · rw [passed] at later ⊢
        have alive : ¬Transfer.Over ⟨transfer.conn.advanceIovecs count,
            transfer.sent ++ transfer.taken (.sent count), none⟩ := fun isOver => isOver.1 rfl
        have next := advanced.offers_iff alive (by omega)
        constructor
        · intro always
          have now := always [] results _ rfl rfl
          exact ⟨Or.inr (next.mp now), (ih advanced now later).mp always⟩
        · rintro ⟨short | fits, rest⟩
          · omega
          · exact (ih advanced (next.mpr fits) later).mpr rest
      · obtain rfl := Transfer.writeRun_over isOver later
        refine iff_of_true (throughout_nil.mpr (Transfer.offers_of_over isOver)) ⟨Or.inl (by omega), trivial⟩

/-! ## With a file -/

/-- A response in two iovecs: the first is no longer than a header, and one of them has bytes. -/
structure TwoIovecs (conn : HttpConn) : Prop where
  ivCount : conn.ivCount = 2
  header : conn.iv0.len ≤ writeBufferSize
  bytesHaveSend : 0 ≤ conn.bytesHaveSend
  total : conn.bytesHaveSend + conn.bytesToSend < 2 ^ 31
  nonempty : 0 < conn.iv0.len + conn.iv1.len

theorem TwoIovecs.offers {transfer : Transfer} (state : TwoIovecs transfer.conn) : transfer.Offers := by
  intro _ _ none
  have nonempty := state.nonempty
  have length := congrArg List.length none
  rw [offered, state.ivCount] at length
  simp only [List.take_succ_cons, List.take_zero, List.flatMap_cons, List.flatMap_nil, List.append_nil,
    List.length_append, cells_length, List.length_nil] at length
  omega

/-- What is left is offered in the second iovec, or some of the header is. -/
theorem TwoIovecs.advance {conn : HttpConn} (state : TwoIovecs conn) {count : ℕ}
    (left : 0 < (conn.advanceIovecs count).bytesToSend) : TwoIovecs (conn.advanceIovecs count) := by
  have header := state.header
  have haveSend := state.bytesHaveSend
  have total := state.total
  have toSend : (conn.advanceIovecs count).bytesToSend = conn.bytesToSend - count := by
    rw [advanceIovecs]
    dsimp only
    split_ifs <;> rfl
  rw [toSend] at left
  obtain ⟨sent, sentIs⟩ := Int.eq_ofNat_of_zero_le (show 0 ≤ conn.bytesHaveSend + count by omega)
  obtain ⟨rest, restIs⟩ := Int.eq_ofNat_of_zero_le (show 0 ≤ conn.bytesToSend - count by omega)
  have room : writeBufferSize = 1024 := rfl
  rw [advanceIovecs]
  dsimp only
  rw [sentIs, restIs, toSize_natCast (by omega), toSize_natCast (by omega)]
  split_ifs with reached
  · refine ⟨state.ivCount, Nat.zero_le _, ?_, ?_, ?_⟩
    · dsimp only
      omega
    · dsimp only
      omega
    · dsimp only
      omega
  · have size : (conn.iv0.len : ℤ) - sent = (conn.iv0.len - sent : ℕ) := by
      rw [Nat.cast_sub (by omega)]
    refine ⟨state.ivCount, ?_, ?_, ?_, ?_⟩
    · dsimp only
      rw [size, toSize_natCast (by omega)]
      omega
    · dsimp only
      omega
    · dsimp only
      omega
    · dsimp only
      rw [size, toSize_natCast (by omega)]
      omega

/-- In a run of two iovecs, bytes are offered throughout. -/
theorem TwoIovecs.throughout {transfer final : Transfer} {results : List WritevResult}
    (state : TwoIovecs transfer.conn) (ran : run Transfer.writeStep transfer results = some final) :
    Throughout Transfer.writeStep Transfer.Offers transfer results := by
  induction results generalizing transfer with
  | nil => exact throughout_nil.mpr state.offers
  | cons result results ih =>
    obtain ⟨next, taken, later⟩ := (run_cons_eq_some Transfer.writeStep).mp ran
    rw [throughout_cons taken, and_iff_right state.offers]
    obtain ⟨running, allowed, begun, rfl⟩ := Transfer.writeStep_eq_some taken
    cases result with
    | again => exact ih state later
    | error =>
      obtain rfl := Transfer.writeRun_over (by exact ⟨by simp [writePass], by simp [writePass]⟩) later
      refine throughout_nil.mpr (Transfer.offers_of_over ?_)
      exact ⟨by simp [writePass], by simp [writePass]⟩
    | sent count =>
      rcases Transfer.pass_sent transfer.conn (transfer.sent ++ transfer.taken (.sent count)) count with
        ⟨left, passed⟩ | ⟨finished, isOver⟩
      · rw [passed] at later ⊢
        exact ih (state.advance left) later
      · obtain rfl := Transfer.writeRun_over isOver later
        exact throughout_nil.mpr (Transfer.offers_of_over isOver)

/-! ## Prepared responses -/

/-- A response without a file is in one iovec. -/
theorem errorPage_oneIovec {conn prepared : HttpConn} {status : ℤ} {title form : Bytes}
    (made : conn.errorPage status title form = (true, prepared)) (inside : conn.writeIdx < writeBufferSize)
    (unsent : conn.bytesHaveSend = 0) : OneIovec prepared prepared.writeIdx 0 0 := by
  have small : (((conn.addStatusLine status title).addHeaders form.length).addContent form).2.writeIdx <
      writeBufferSize :=
    addResponse_writeIdx_lt (addHeaders_writeIdx_lt (addResponse_writeIdx_lt inside _) _) _
  have kept := ((addResponse_sameFile conn _).trans (addHeaders_sameFile
    (conn.addStatusLine status title) form.length)).trans (addResponse_sameFile _ form)
  rw [errorPage] at made
  rw [addContent] at made small
  generalize ((conn.addStatusLine status title).addHeaders form.length).addResponse form = page
    at made small kept
  obtain ⟨added, page⟩ := page
  cases added with
  | false => cases made
  | true =>
    cases made
    refine ⟨rfl, rfl, ?_, ?_, le_rfl, Nat.zero_le _, small.trans (by decide)⟩
    · rw [Nat.cast_zero, ← unsent]
      exact kept.2.2.1
    · rw [Nat.cast_zero, sub_zero]
      rfl

/-- A response with a file is in two. -/
theorem fileRequest_twoIovecs {conn prepared : HttpConn}
    (made : conn.processWrite .fileRequest = (true, prepared)) (inside : conn.writeIdx < writeBufferSize)
    (unsent : conn.bytesHaveSend = 0) : TwoIovecs prepared := by
  have small := addHeaders_writeIdx_lt (addResponse_writeIdx_lt inside
    (ascii "HTTP/1.1 " ++ decimal 200 ++ ascii " " ++ ok200Title ++ ascii "\r\n"))
    (conn.addStatusLine 200 ok200Title).fileStat.size
  have withFile : prepared.ivCount = 2 ∧ prepared.writeIdx =
      ((conn.addStatusLine 200 ok200Title).addHeaders
        (conn.addStatusLine 200 ok200Title).fileStat.size).writeIdx := by
    rw [processWrite] at made
    dsimp only at made
    split_ifs at made
    · cases made
      exact ⟨rfl, rfl⟩
    · cases made
  obtain ⟨iv0, iv1, toSend, haveSend, nonempty⟩ := processWrite_file made withFile.1
  refine ⟨withFile.1, ?_, ?_, ?_, ?_⟩
  · rw [iv0, withFile.2]
    exact small.le
  · rw [haveSend, unsent]
  · rw [haveSend, unsent, toSend, zero_add]
    exact toInt_lt _
  · rw [iv0, iv1]
    dsimp only
    omega

/-- A prepared response is in one of the two. -/
theorem processWrite_iovecs {conn prepared : HttpConn} {ret : HttpCode}
    (made : conn.processWrite ret = (true, prepared)) (inside : conn.writeIdx < writeBufferSize)
    (unsent : conn.bytesHaveSend = 0) :
    TwoIovecs prepared ∨ OneIovec prepared prepared.writeIdx 0 0 := by
  cases ret with
  | internalError => exact Or.inr (errorPage_oneIovec (by rwa [processWrite] at made) inside unsent)
  | badRequest => exact Or.inr (errorPage_oneIovec (by rwa [processWrite] at made) inside unsent)
  | forbiddenRequest => exact Or.inr (errorPage_oneIovec (by rwa [processWrite] at made) inside unsent)
  | fileRequest => exact Or.inl (fileRequest_twoIovecs made inside unsent)
  | noRequest => cases made
  | getRequest => cases made
  | noResource => cases made
  | closedConnection => cases made

/-- The results of `writev` keep the iovecs of a prepared response filled: it has a file, or the totals
of its short writes fit. -/
def KeepsOffering (prepared : HttpConn) (results : List WritevResult) : Prop :=
  prepared.ivCount = 2 ∨ TotalsFit prepared.writeIdx 0 0 results

/-- A prepared response offers bytes throughout a run exactly if its results keep the iovecs filled. -/
theorem throughout_iff_keepsOffering {conn prepared : HttpConn} {ret : HttpCode}
    (made : conn.processWrite ret = (true, prepared)) (inside : conn.writeIdx < writeBufferSize)
    (unsent : conn.bytesHaveSend = 0) {results : List WritevResult} {final : Transfer}
    (ran : run Transfer.writeStep (Transfer.start prepared) results = some final) :
    Throughout Transfer.writeStep Transfer.Offers (Transfer.start prepared) results ↔
      KeepsOffering prepared results := by
  rcases processWrite_iovecs made inside unsent with state | state
  · exact iff_of_true (state.throughout ran) (Or.inl state.ivCount)
  · have other : prepared.ivCount ≠ 2 := by
      rw [state.ivCount]
      decide
    have offers : (Transfer.start prepared).Offers := by
      intro _ left none
      have offered : (Transfer.start prepared).conn.offered.length = prepared.writeIdx - 0 :=
        state.offered_length
      have toSend : (Transfer.start prepared).conn.bytesToSend = (prepared.writeIdx : ℤ) - (0 : ℕ) :=
        state.bytesToSend
      rw [none, List.length_nil] at offered
      omega
    rw [KeepsOffering, or_iff_right other]
    exact state.throughout_iff offers ran

/-! ## Every call returns -/

/-- A pass after which the loop goes on has sent what it took off, and bytes are left. -/
theorem Transfer.writeStep_goesOn {transfer next : Transfer} {result : WritevResult}
    (taken : transfer.writeStep result = some next) (goesOn : next.ended = none) :
    ∃ count, result = .sent count ∧ transfer.Allows (.sent count) ∧
      next.conn.bytesToSend = transfer.conn.bytesToSend - count ∧ 0 < next.conn.bytesToSend := by
  obtain ⟨_, allowed, _, rfl⟩ := writeStep_eq_some taken
  cases result with
  | again => cases goesOn
  | error => cases goesOn
  | sent count =>
    refine ⟨count, rfl, allowed, ?_⟩
    rcases pass_sent transfer.conn [] count with ⟨left, passed⟩ | ⟨_, isOver⟩
    · rw [passed]
      refine ⟨?_, left⟩
      dsimp only
      rw [advanceIovecs]
      dsimp only
      split_ifs <;> rfl
    · exact absurd goesOn isOver.1

/-- Where bytes are offered throughout, `writev` cannot be called for ever in one call of `write`. -/
theorem returns_of_offers {prepared : HttpConn}
    (exec : Execution Transfer.writeStep (Transfer.start prepared))
    (offers : ∀ time, (exec.state time).Offers) (begun : ℕ)
    (busy : ∀ time, begun ≤ time → exec.event time ≠ none) :
    ∃ time, begun < time ∧ (exec.state time).ended ≠ none := by
  by_contra never
  push Not at never
  have pass : ∀ time, begun ≤ time → ∃ count, (exec.state time).Allows (.sent count) ∧
      (exec.state (time + 1)).conn.bytesToSend = (exec.state time).conn.bytesToSend - count ∧
        0 < (exec.state (time + 1)).conn.bytesToSend := by
    intro time later
    obtain ⟨result, event⟩ := Option.ne_none_iff_exists'.mp (busy time later)
    obtain ⟨count, _, facts⟩ := Transfer.writeStep_goesOn (exec.steps time result event)
      (never (time + 1) (by omega))
    exact ⟨count, facts⟩
  have less : ∀ passes : ℕ, (exec.state (begun + 1 + passes)).conn.bytesToSend ≤
      (exec.state (begun + 1)).conn.bytesToSend - passes := by
    intro passes
    induction passes with
    | zero => simp
    | succ passes ih =>
      obtain ⟨_, _, _, left⟩ := pass (begun + passes) (by omega)
      obtain ⟨count, allowed, toSend, _⟩ := pass (begun + 1 + passes) (by omega)
      have running : ¬(exec.state (begun + 1 + passes)).Over :=
        fun isOver => isOver.1 (never _ (by omega))
      have some : count ≠ 0 := by
        intro none
        refine offers (begun + 1 + passes) running ?_ (allowed.2 none)
        rwa [Nat.add_right_comm]
      rw [← Nat.add_assoc]
      omega
  obtain ⟨enough, bound⟩ := Int.eq_ofNat_of_zero_le
    (show 0 ≤ (exec.state (begun + 1)).conn.bytesToSend by
      obtain ⟨_, _, _, left⟩ := pass begun le_rfl
      omega)
  obtain ⟨_, _, _, left⟩ := pass (begun + enough) (by omega)
  have last := less enough
  rw [Nat.add_right_comm] at last
  omega

/-- A response prepared by `process_write` on an initialised connection, sent by any number of calls of
`write`: while bytes are left `writev` is offered some, exactly if the response has a file or the totals
of its writes fit; and then every call of `write` returns. -/
theorem offers_iff_keepsOffering (conn prepared : HttpConn) (ret : HttpCode)
    (made : conn.processWrite ret = (true, prepared)) (inside : conn.writeIdx < writeBufferSize)
    (unsent : conn.bytesHaveSend = 0) :
    (∀ results final, run Transfer.writeStep (Transfer.start prepared) results = some final →
      (Throughout Transfer.writeStep Transfer.Offers (Transfer.start prepared) results ↔
        KeepsOffering prepared results)) ∧
    ∀ exec : Execution Transfer.writeStep (Transfer.start prepared),
      (∀ time, KeepsOffering prepared (exec.labels time)) → ∀ begun,
        (∀ time, begun ≤ time → exec.event time ≠ none) →
          ∃ time, begun < time ∧ (exec.state time).ended ≠ none := by
  refine ⟨fun results final ran => throughout_iff_keepsOffering made inside unsent ran, ?_⟩
  intro exec keeps
  apply returns_of_offers
  intro time
  have always := (throughout_iff_keepsOffering made inside unsent (exec.run_labels time)).mpr (keeps time)
  exact always (exec.labels time) [] _ (List.append_nil _).symm (exec.run_labels time)

/-- The page for a bad request, in one iovec of 112 bytes. -/
def badRequestPage : HttpConn := (HttpConn.blank.processWrite .badRequest).2

/-- One short write of it does no harm, however often the socket buffer is full. -/
theorem offers_iff_keepsOffering_badRequest :
    Throughout Transfer.writeStep Transfer.Offers (Transfer.start badRequestPage)
      [.sent 80, .again, .sent 32] :=
  ((offers_iff_keepsOffering HttpConn.blank badRequestPage .badRequest rfl (by decide) rfl).1
      [.sent 80, .again, .sent 32]
      ((run Transfer.writeStep (Transfer.start badRequestPage) [.sent 80, .again, .sent 32]).get
        (by decide +kernel)) (Option.some_get _).symm).mpr (Or.inr (by decide +kernel))

/-- Once its only iovec is used up, a response with bytes left stays so. -/
private theorem writeStep_usedUp {transfer : Transfer} (running : transfer.ended = none)
    (single : transfer.conn.ivCount = 1) (usedUp : transfer.conn.iv0.len = 0)
    (left : 0 < transfer.conn.bytesToSend) :
    ∃ next, transfer.writeStep (.sent 0) = some next ∧ next.ended = none ∧ next.conn.ivCount = 1 ∧
      next.conn.iv0.len = 0 ∧ 0 < next.conn.bytesToSend := by
  have offered : transfer.conn.offered = [] := by
    rw [HttpConn.offered, single, List.take_succ_cons, List.flatMap_cons, usedUp]
    rfl
  have usedUpAgain : (transfer.conn.advanceIovecs 0).ivCount = 1 ∧
      (transfer.conn.advanceIovecs 0).iv0.len = 0 ∧
      (transfer.conn.advanceIovecs 0).bytesToSend = transfer.conn.bytesToSend := by
    rw [advanceIovecs, if_pos (by rw [usedUp]; exact Nat.zero_le _)]
    exact ⟨single, rfl, sub_zero _⟩
  have passed : transfer.conn.writePass (.sent 0) = (none, transfer.conn.advanceIovecs 0) := by
    rcases Transfer.pass_sent transfer.conn [] 0 with ⟨_, passed⟩ | ⟨finished, _⟩
    · exact passed
    · omega
  rw [Transfer.writeStep, if_neg, passed]
  · exact ⟨_, rfl, rfl, usedUpAgain.1, usedUpAgain.2.1, usedUpAgain.2.2.symm ▸ left⟩
  · rintro (isOver | refused | ⟨again, _⟩)
    · exact isOver.1 running
    · exact refused ⟨Nat.zero_le _, fun _ => offered⟩
    · rw [running] at again
      cases again

/-- Two short writes of it, of 80 and 10 bytes: 22 bytes are left and `writev` is offered none, so that
it sends none for ever and the call does not return. -/
theorem badRequestPage_stuck :
    ∃ stuck, run Transfer.writeStep (Transfer.start badRequestPage) [.sent 80, .sent 10] = some stuck ∧
      ¬stuck.Offers ∧ ∀ passes, ∃ later,
        run Transfer.writeStep stuck (List.replicate passes (.sent 0)) = some later ∧ later.ended = none := by
  have forever : ∀ (passes : ℕ) (transfer : Transfer), transfer.ended = none → transfer.conn.ivCount = 1 →
      transfer.conn.iv0.len = 0 → 0 < transfer.conn.bytesToSend → ∃ later,
        run Transfer.writeStep transfer (List.replicate passes (.sent 0)) = some later ∧
          later.ended = none := by
    intro passes
    induction passes with
    | zero => exact fun transfer running _ _ _ => ⟨transfer, rfl, running⟩
    | succ passes ih =>
      intro transfer running single usedUp left
      obtain ⟨next, taken, running, single, usedUp, left⟩ := writeStep_usedUp running single usedUp left
      obtain ⟨later, ran, ended⟩ := ih next running single usedUp left
      exact ⟨later, (run_cons_eq_some Transfer.writeStep).mpr ⟨next, taken, ran⟩, ended⟩
  refine ⟨(run Transfer.writeStep (Transfer.start badRequestPage) [.sent 80, .sent 10]).get
    (by decide +kernel), (Option.some_get _).symm, by decide +kernel, fun passes => ?_⟩
  exact forever passes _ (by decide +kernel) (by decide +kernel) (by decide +kernel) (by decide +kernel)

end WebServ.Http
