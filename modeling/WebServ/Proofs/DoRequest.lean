import WebServ.Model.DoRequest
import Mathlib.Data.List.TakeWhile

/-! # What `do_request` does, step by step

Inversion lemmas for the parts of `do_request`: from a call that is defined, the values each part has
read and what it has changed. The properties of the whole function are assembled from them.
-/

namespace WebServ.Http

open WebServ.Text

/-- The copied bytes end before the first `stop`. -/
theorem ne_stop_of_copyUntil {size capacity offset : ℕ} {buffer : Buffer size} {stop : UInt8} {bytes : Bytes}
    (copied : copyUntil buffer stop capacity offset = some bytes) : ∀ value ∈ bytes, value ≠ stop := by
  induction capacity generalizing offset bytes with
  | zero => cases copied
  | succ capacity ih =>
    simp only [copyUntil, bind, Option.bind_eq_some_iff] at copied
    obtain ⟨value, _, copied⟩ := copied
    split_ifs at copied with isStop
    · cases copied
      exact fun _ member => absurd member List.not_mem_nil
    · obtain ⟨rest, others, rfl⟩ := Option.map_eq_some_iff.mp copied
      exact List.forall_mem_cons.mpr ⟨isStop, ih others⟩

/-- A C string is all of its visible part. -/
theorem visible_eq_self {text : Bytes} (nonzero : ∀ value ∈ text, value ≠ 0) : visible text = text :=
  List.takeWhile_eq_self_iff.mpr fun value member => bne_iff_ne.mpr (nonzero value member)

theorem visible_visible (text : Bytes) : visible (visible text) = visible text := by
  apply visible_eq_self
  intro value member
  have nonzero := List.mem_takeWhile_imp member
  exact bne_iff_ne.mp nonzero

namespace HttpConn

variable {tree : FileTree} {query : Bytes → ℤ} {registry : Registry} {conn : HttpConn} {outcome : Outcome}

/-- Name and password are C strings. -/
theorem credentials_visible {user : Credentials} (found : conn.credentials = some user) :
    visible user.name = user.name ∧ visible user.password = user.password := by
  simp only [credentials, bind, Option.bind_eq_some_iff] at found
  obtain ⟨_, _, name, _, password, copied, same⟩ := found
  cases same
  exact ⟨visible_visible name, visible_eq_self (ne_stop_of_copyUntil copied)⟩

/-- The parts of a defined call. -/
theorem doRequest_eq_some (ran : conn.doRequest tree query registry = some outcome) :
    ∃ realFile url behind action after again routed,
      conn.realFile.strcpy 0 docRoot = some realFile ∧ conn.url = some url ∧
      conn.behindSlash = some behind ∧ conn.readBuf.load? behind = some action ∧
      cgiPart query registry url action { conn with realFile } = some after ∧
      after.2.readBuf.load? behind = some again ∧ after.2.routeFile url again = some routed ∧
      routed.serveFile tree after.1 = some outcome := by
  simp only [doRequest, bind, Option.bind_eq_some_iff] at ran
  obtain ⟨realFile, copied, url, hasUrl, behind, found, action, first, after, answered, again, second,
    routed, routes, served⟩ := ran
  exact ⟨realFile, url, behind, action, after, again, routed, copied, hasUrl, found, first, answered,
    second, routes, served⟩

/-- Every system call is given the path built before, and the users stay as they are. -/
theorem serveFile_eq_some (served : conn.serveFile tree registry = some outcome) :
    ∃ path, conn.realFile.cstr 0 = some path ∧ outcome.registry = registry ∧
      (outcome.paths = [path] ∨ outcome.paths = [path, path]) := by
  simp only [serveFile, bind, Option.bind_eq_some_iff] at served
  obtain ⟨path, found, served⟩ := served
  refine ⟨path, found, ?_⟩
  split at served
  · cases served
    exact ⟨rfl, Or.inl rfl⟩
  · split_ifs at served <;> cases served
    · exact ⟨rfl, Or.inl rfl⟩
    · exact ⟨rfl, Or.inl rfl⟩
    · exact ⟨rfl, Or.inr rfl⟩

/-- The parts of a defined registration or login. -/
theorem cgiRequest_eq_some {url : ℕ} {action : UInt8} {after : Registry × HttpConn}
    (ran : cgiRequest query registry url action conn = some after) :
    ∃ realFile user readBuf, conn.copyAction url = some realFile ∧ conn.credentials = some user ∧
      after.2 = { conn with realFile, readBuf } ∧
      ((action = '3'.toUInt8 ∧ ∃ sql, sqlInsert user = some sql ∧
          after.1 = (registry.register user (query sql)).1 ∧
          conn.readBuf.strcpy url (registry.register user (query sql)).2 = some readBuf) ∨
        (action ≠ '3'.toUInt8 ∧ after.1 = registry ∧
          conn.readBuf.strcpy url (registry.login user) = some readBuf)) := by
  simp only [cgiRequest, bind, Option.bind_eq_some_iff] at ran
  obtain ⟨realFile, copied, user, found, ran⟩ := ran
  split_ifs at ran with isRegistration
  · simp only [Option.bind_eq_some_iff] at ran
    obtain ⟨sql, built, readBuf, stored, same⟩ := ran
    cases same
    exact ⟨realFile, user, readBuf, copied, found, rfl,
      Or.inl ⟨isRegistration, sql, built, rfl, stored⟩⟩
  · simp only [Option.bind_eq_some_iff] at ran
    obtain ⟨readBuf, stored, same⟩ := ran
    cases same
    exact ⟨realFile, user, readBuf, copied, found, rfl, Or.inr ⟨isRegistration, rfl, stored⟩⟩

/-- The file is a page of the server or the URL. -/
theorem routeFile_eq_some {url : ℕ} {action : UInt8} {routed : HttpConn}
    (ran : conn.routeFile url action = some routed) :
    (∃ page, routePage action = some page ∧
      conn.realFile.strncpy docRoot.length page page.length = some routed.realFile) ∨
    (routePage action = none ∧ ∃ text, conn.readBuf.cstr url = some text ∧
      conn.realFile.strncpy docRoot.length text (filenameLen - docRoot.length - 1) =
        some routed.realFile) := by
  rw [routeFile] at ran
  split at ran
  · next page isPage =>
    obtain ⟨_, stored, same⟩ := Option.bind_eq_some_iff.mp ran
    cases same
    exact Or.inl ⟨page, isPage, stored⟩
  · next noPage =>
    obtain ⟨text, found, ran⟩ := Option.bind_eq_some_iff.mp ran
    obtain ⟨_, stored, same⟩ := Option.bind_eq_some_iff.mp ran
    cases same
    exact Or.inr ⟨noPage, text, found, stored⟩

/-- Only the path is new. -/
theorem routeFile_frame {url : ℕ} {action : UInt8} {routed : HttpConn}
    (ran : conn.routeFile url action = some routed) :
    routed = { conn with realFile := routed.realFile } := by
  rw [routeFile] at ran
  split at ran
  · obtain ⟨_, _, same⟩ := Option.bind_eq_some_iff.mp ran
    cases same
    rfl
  · obtain ⟨_, _, ran⟩ := Option.bind_eq_some_iff.mp ran
    obtain ⟨_, _, same⟩ := Option.bind_eq_some_iff.mp ran
    cases same
    rfl

/-- The first copy of a login or registration goes behind the root. -/
theorem copyAction_eq_some {url : ℕ} {file : Buffer filenameLen}
    (copied : conn.copyAction url = some file) : ∃ text,
      conn.realFile.strncpy docRoot.length text (filenameLen - docRoot.length - 1) = some file := by
  simp only [copyAction, bind, Option.bind_eq_some_iff] at copied
  obtain ⟨_, _, _, _, _, _, text, _, stored⟩ := copied
  exact ⟨text, stored⟩

end HttpConn

/-! ## The path -/

theorem docRoot_length : docRoot.length = 28 := by decide

/-- The buffer of the path begins with the root and ends with a NUL. -/
structure Rooted (file : Buffer filenameLen) : Prop where
  root : ∀ index, (bound : index < docRoot.length) → file.byte index = docRoot[index]
  last : file.byte (filenameLen - 1) = 0

/-- A NUL-terminated string behind the root. -/
theorem Rooted.cstr {file : Buffer filenameLen} (rooted : Rooted file) {tail : Bytes}
    (short : docRoot.length + tail.length < filenameLen)
    (bytes : ∀ index, (bound : index < tail.length) → file.byte (docRoot.length + index) = tail[index])
    (nonzero : ∀ value ∈ tail, value ≠ 0) (last : file.byte (docRoot.length + tail.length) = 0) :
    file.cstr 0 = some (docRoot ++ tail) := by
  have rootNonzero : ∀ value ∈ docRoot, value ≠ 0 := by decide +kernel
  refine Buffer.cstr_eq_some_iff.mpr ⟨?_, ?_, ?_⟩
  · rw [List.length_append]
    omega
  · rwa [List.length_append, Nat.zero_add]
  · intro index bound
    rw [Nat.zero_add]
    by_cases inside : index < docRoot.length
    · rw [List.getElem_append_left inside]
      exact ⟨rooted.root index inside, rootNonzero _ (List.getElem_mem inside)⟩
    · obtain ⟨behind, rfl⟩ := Nat.exists_eq_add_of_le (Nat.le_of_not_lt inside)
      have inTail : behind < tail.length := by
        rw [List.length_append] at bound
        omega
      rw [List.getElem_append_right (Nat.le_add_right ..)]
      simp only [Nat.add_sub_cancel_left]
      exact ⟨bytes behind inTail, nonzero _ (List.getElem_mem inTail)⟩

/-- Writing between the root and the last byte. -/
theorem Rooted.write {file : Buffer filenameLen} (rooted : Rooted file) (bytes : Bytes)
    (short : docRoot.length + bytes.length < filenameLen) :
    Rooted (file.write docRoot.length bytes) where
  root index bound := by
    rw [Buffer.write_byte_outside _ _ (Or.inl bound)]
    exact rooted.root index bound
  last := by
    rw [Buffer.write_byte_outside _ _ (Or.inr (by omega))]
    exact rooted.last

/-- `strcpy(m_real_file, doc_root)` on the zeroed buffer. -/
theorem strcpy_docRoot {file : Buffer filenameLen}
    (stored : (Buffer.zero : Buffer filenameLen).strcpy 0 docRoot = some file) :
    Rooted file ∧ ∀ query, docRoot.length ≤ query → file.byte query = 0 := by
  obtain ⟨_, rfl⟩ := Buffer.write?_eq_some_iff.mp stored
  have zeros : ∀ query, docRoot.length ≤ query →
      ((Buffer.zero : Buffer filenameLen).write 0 (docRoot ++ [0])).byte query = 0 := by
    intro query behind
    by_cases terminator : query = docRoot.length
    · subst terminator
      decide
    · rw [Buffer.write_byte_outside]
      · rfl
      · rw [List.length_append, List.length_singleton]
        omega
  refine ⟨⟨fun index bound => ?_, zeros _ (by decide)⟩, zeros⟩
  have within : index < (docRoot ++ [0]).length := by
    rw [List.length_append]
    omega
  have inside := Buffer.write_byte_inside (Buffer.zero : Buffer filenameLen) 0 (docRoot ++ [0]) within
  rw [Nat.zero_add] at inside
  rw [inside, List.getElem_append_left bound]

/-- The room between the root and the last byte. -/
abbrev urlRoom : ℕ := filenameLen - docRoot.length - 1

/-- `strncpy` of at most `FILENAME_LEN - len - 1` bytes behind the root: the path is the root and what
fits of the string. -/
theorem Rooted.strncpy {file after : Buffer filenameLen} (rooted : Rooted file) {text : Bytes}
    (stored : file.strncpy docRoot.length text urlRoom = some after) :
    Rooted after ∧ ((∀ value ∈ text, value ≠ 0) → after.cstr 0 = some (docRoot ++ text.take urlRoom)) := by
  obtain ⟨_, rfl⟩ := Buffer.write?_eq_some_iff.mp stored
  have room : urlRoom = 171 := by decide
  have size : filenameLen = 200 := rfl
  have root := docRoot_length
  have length : (text.take urlRoom ++ List.replicate (urlRoom - text.length) 0).length = urlRoom := by
    rw [List.length_append, List.length_take, List.length_replicate]
    omega
  have after := rooted.write (text.take urlRoom ++ List.replicate (urlRoom - text.length) 0)
    (by rw [length]; decide)
  refine ⟨after, fun nonzero => after.cstr ?_ ?_ (fun value member => nonzero value (List.mem_of_mem_take member)) ?_⟩
  · rw [List.length_take]
    omega
  · intro index bound
    rw [Buffer.write_byte_inside _ _ _ (by rw [List.length_append]; omega), List.getElem_append_left bound]
  · by_cases fits : text.length < urlRoom
    · rw [Buffer.write_byte_inside _ _ _ (by rw [length, List.length_take]; omega),
        List.getElem_append_right le_rfl, List.getElem_replicate]
    · have full : (text.take urlRoom).length = urlRoom := by
        rw [List.length_take]
        omega
      rw [full]
      exact after.last

/-- `strncpy` of a page with its length, into zeros behind the root. -/
theorem Rooted.strncpy_page {file after : Buffer filenameLen} (rooted : Rooted file)
    (zeros : ∀ query, docRoot.length ≤ query → file.byte query = 0) {page : Bytes}
    (short : page.length < urlRoom) (nonzero : ∀ value ∈ page, value ≠ 0)
    (stored : file.strncpy docRoot.length page page.length = some after) :
    after.cstr 0 = some (docRoot ++ page) := by
  obtain ⟨_, rfl⟩ := Buffer.write?_eq_some_iff.mp stored
  have room : urlRoom = 171 := by decide
  have size : filenameLen = 200 := rfl
  have root := docRoot_length
  rw [Nat.sub_self, List.replicate_zero, List.append_nil, List.take_length]
  refine (rooted.write page (by omega)).cstr (by omega) ?_ nonzero ?_
  · intro index bound
    exact Buffer.write_byte_inside _ _ _ bound
  · rw [Buffer.write_byte_outside _ _ (Or.inr le_rfl)]
    exact zeros _ (Nat.le_add_right ..)

end WebServ.Http
