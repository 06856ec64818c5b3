import WebServ.Proofs.RequestedPage

/-! # Name, password and the INSERT

What the two loops of `do_request` cut out of `m_string`, and the texts it puts together in buffers of 200
bytes, as functions of the string at `m_string`, the name, the password and the URL.
-/

namespace WebServ.Http

open WebServ.Text

/-! ## The two loops -/

/-- The copied bytes, the stop behind them, and room for a NUL in its place. -/
theorem copyUntil_eq_some_iff {size capacity offset : ℕ} {buffer : Buffer size} {stop : UInt8}
    {bytes : Bytes} : copyUntil buffer stop capacity offset = some bytes ↔
      bytes.length < capacity ∧ offset + bytes.length < size ∧
        buffer.byte (offset + bytes.length) = stop ∧
        ∀ index, (bound : index < bytes.length) →
          buffer.byte (offset + index) = bytes[index] ∧ bytes[index] ≠ stop := by
  induction capacity generalizing offset bytes with
  | zero => simp [copyUntil]
  | succ capacity ih =>
    rw [copyUntil, Buffer.load?]
    simp only [bind, Option.bind_eq_some_iff, Option.ite_none_right_eq_some, Option.some.injEq]
    constructor
    · rintro ⟨_, ⟨inside, rfl⟩, copied⟩
      split_ifs at copied with isStop
      · cases copied
        exact ⟨Nat.succ_pos capacity, inside, isStop, fun index bound => absurd bound (Nat.not_lt_zero index)⟩
      · obtain ⟨rest, others, rfl⟩ := Option.map_eq_some_iff.mp copied
        obtain ⟨room, short, last, same⟩ := ih.mp others
        rw [Nat.add_assoc, Nat.add_comm 1] at short last
        refine ⟨Nat.succ_lt_succ room, short, last, fun index bound => ?_⟩
        cases index with
        | zero => exact ⟨rfl, isStop⟩
        | succ index =>
          have behind := same index (Nat.lt_of_succ_lt_succ bound)
          rwa [Nat.add_assoc, Nat.add_comm 1] at behind
    · rintro ⟨room, short, last, same⟩
      refine ⟨buffer.byte offset, ⟨by omega, rfl⟩, ?_⟩
      cases bytes with
      | nil => exact if_pos last
      | cons first rest =>
        obtain ⟨isFirst, notStop⟩ := same 0 (Nat.succ_pos _)
        rw [Nat.add_zero, List.getElem_cons_zero] at isFirst
        rw [List.getElem_cons_zero, ← isFirst] at notStop
        rw [List.length_cons, Nat.add_comm rest.length, ← Nat.add_assoc] at short last
        rw [if_neg notStop, isFirst, Option.map_eq_some_iff]
        refine ⟨rest, ih.mpr ⟨Nat.lt_of_succ_lt_succ room, short, last, fun index bound => ?_⟩, rfl⟩
        have behind := same (index + 1) (Nat.succ_lt_succ bound)
        rw [List.getElem_cons_succ] at behind
        rwa [Nat.add_comm index, ← Nat.add_assoc] at behind

/-- The copy of a word that ends at the stop. -/
theorem copyUntil_word {size capacity offset : ℕ} {buffer : Buffer size} {stop : UInt8}
    {word rest : Bytes} (read : buffer.cstr offset = some (word ++ stop :: rest)) (absent : stop ∉ word)
    (room : word.length < capacity) : copyUntil buffer stop capacity offset = some word := by
  obtain ⟨bound, _, bytes⟩ := Buffer.cstr_eq_some_iff.mp read
  rw [List.length_append, List.length_cons] at bound
  refine copyUntil_eq_some_iff.mpr ⟨room, by omega, ?_, fun index inside => ?_⟩
  · rw [(bytes word.length (by rw [List.length_append, List.length_cons]; omega)).1,
      List.getElem_append_right le_rfl]
    simp only [Nat.sub_self, List.getElem_cons_zero]
  · rw [(bytes index (by rw [List.length_append]; omega)).1, List.getElem_append_left inside]
    exact ⟨rfl, fun isStop => absent (isStop ▸ List.getElem_mem inside)⟩

/-- The copy of a whole string. -/
theorem copyUntil_zero {size capacity offset : ℕ} {buffer : Buffer size} {text : Bytes}
    (read : buffer.cstr offset = some text) (room : text.length < capacity) :
    copyUntil buffer 0 capacity offset = some text :=
  copyUntil_eq_some_iff.mpr ⟨room, Buffer.cstr_eq_some_iff.mp read⟩

/-- What is copied to a nonzero stop in a buffer that ends with the string's NUL is a word of the string. -/
theorem copyUntil_inside {size capacity offset : ℕ} {buffer : Buffer size} {stop : UInt8}
    {text bytes : Bytes} (read : buffer.cstr offset = some text) (ends : size = offset + text.length + 1)
    (nonzero : stop ≠ 0) (copied : copyUntil buffer stop capacity offset = some bytes) :
    ∃ rest, text = bytes ++ stop :: rest ∧ stop ∉ bytes ∧ bytes.length < capacity := by
  obtain ⟨room, short, last, same⟩ := copyUntil_eq_some_iff.mp copied
  obtain ⟨_, terminator, inString⟩ := Buffer.cstr_eq_some_iff.mp read
  have strict : bytes.length < text.length := by
    apply Nat.lt_of_le_of_ne (by omega)
    intro equal
    rw [equal, terminator] at last
    exact nonzero last.symm
  have prefixed : text.take bytes.length = bytes := by
    apply List.ext_getElem (by rw [List.length_take]; omega)
    intro index _ bound
    rw [List.getElem_take, ← (inString index (by omega)).1, (same index bound).1]
  have next : text[bytes.length] = stop := by rw [← (inString _ strict).1, last]
  refine ⟨text.drop (bytes.length + 1), ?_, ?_, room⟩
  · rw [← next, ← List.drop_eq_getElem_cons strict]
    exact (prefixed ▸ List.take_append_drop bytes.length text).symm
  · intro member
    obtain ⟨index, bound, isStop⟩ := List.mem_iff_getElem.mp member
    exact (same index bound).2 isStop

/-! ## The form -/

/-- The name: the bytes from the sixth on, before the first ampersand. -/
def formName (body : Bytes) : Bytes := (body.drop 5).takeWhile (· != '&'.toUInt8)

/-- The bytes from that ampersand on. -/
def formRest (body : Bytes) : Bytes := (body.drop 5).dropWhile (· != '&'.toUInt8)

/-- The password: the bytes from the tenth behind the ampersand on. -/
def formPassword (body : Bytes) : Bytes := (formRest body).drop 10

/-- The name ends, the password begins before the string is over, and both fit in 100 bytes. -/
def FormFits (body : Bytes) : Prop :=
  10 ≤ (formRest body).length ∧ (formName body).length < 100 ∧ (formPassword body).length < 100

instance (body : Bytes) : Decidable (FormFits body) := inferInstanceAs (Decidable (_ ∧ _ ∧ _))

/-- A word, an ampersand and the rest behind the first five bytes are the name and the rest. -/
theorem form_of_split {body name rest : Bytes} (split : body.drop 5 = name ++ '&'.toUInt8 :: rest)
    (absent : '&'.toUInt8 ∉ name) : formName body = name ∧ formRest body = '&'.toUInt8 :: rest := by
  have notStop : ∀ value ∈ name, (value != '&'.toUInt8) = true :=
    fun value member => bne_iff_ne.mpr fun isStop => absent (isStop ▸ member)
  rw [formName, formRest, split, List.takeWhile_append_of_pos notStop, List.dropWhile_append_of_pos notStop,
    List.takeWhile_cons_of_neg (by simp), List.dropWhile_cons_of_neg (by simp), List.append_nil]
  exact ⟨rfl, rfl⟩

/-- Where there is a rest, it begins with the ampersand that ends the name. -/
theorem split_of_formRest {body : Bytes} (present : formRest body ≠ []) :
    ∃ rest, formRest body = '&'.toUInt8 :: rest ∧ body.drop 5 = formName body ++ '&'.toUInt8 :: rest ∧
      '&'.toUInt8 ∉ formName body := by
  obtain ⟨first, rest, isRest⟩ := List.exists_cons_of_ne_nil present
  have stops := List.head_dropWhile_not (· != '&'.toUInt8) (l := body.drop 5) present
  have isStop : first = '&'.toUInt8 := by
    rw [formRest] at isRest
    simp only [isRest, List.head_cons, bne_eq_false_iff_eq] at stops
    exact stops
  subst isStop
  refine ⟨rest, isRest, ?_, fun member => ?_⟩
  · rw [← isRest]
    exact (List.takeWhile_append_dropWhile).symm
  · have notStop := List.mem_takeWhile_imp (p := fun value => value != '&'.toUInt8) member
    exact bne_iff_ne.mp notStop rfl

/-- The parts of the string have no NUL. -/
theorem form_nonzero {size string : ℕ} {buffer : Buffer size} {body : Bytes}
    (read : buffer.cstr string = some body) :
    (∀ value ∈ formName body, value ≠ 0) ∧ ∀ value ∈ formPassword body, value ≠ 0 := by
  have nonzero := Buffer.cstr_nonzero read
  refine ⟨fun value member => nonzero value ?_, fun value member => nonzero value ?_⟩
  · exact List.mem_of_mem_drop ((List.takeWhile_sublist _).subset member)
  · exact List.mem_of_mem_drop ((List.dropWhile_sublist _).subset (List.mem_of_mem_drop member))

/-- The two loops at a string in a buffer of any size. -/
def credentialsAt {size : ℕ} (buffer : Buffer size) (string : ℕ) : Option Credentials := do
  let name ← copyUntil buffer '&'.toUInt8 100 (string + 5)
  let password ← copyUntil buffer 0 100 (string + 5 + name.length + 10)
  some ⟨visible name, password⟩

theorem HttpConn.credentials_eq (conn : HttpConn) :
    conn.credentials = conn.string.bind (credentialsAt conn.readBuf) := rfl

/-- Name and password have no NUL. -/
theorem HttpConn.credentials_nonzero {conn : HttpConn} {user : Credentials}
    (found : conn.credentials = some user) :
    (∀ value ∈ user.name, value ≠ 0) ∧ ∀ value ∈ user.password, value ≠ 0 := by
  obtain ⟨name, password⟩ := HttpConn.credentials_visible found
  exact ⟨fun value member => bne_iff_ne.mp (List.takeWhile_eq_self_iff.mp name value member),
    fun value member => bne_iff_ne.mp (List.takeWhile_eq_self_iff.mp password value member)⟩

/-- A string that fits is cut into name and password. -/
theorem credentialsAt_of_fits {size string : ℕ} {buffer : Buffer size} {body : Bytes}
    (read : buffer.cstr string = some body) (fits : FormFits body) :
    credentialsAt buffer string = some ⟨formName body, formPassword body⟩ := by
  obtain ⟨long, shortName, shortPassword⟩ := fits
  have present : formRest body ≠ [] := List.ne_nil_of_length_pos (by omega)
  obtain ⟨rest, isRest, split, absent⟩ := split_of_formRest present
  have lengths := congrArg List.length split
  rw [isRest] at long
  rw [List.length_drop, List.length_append] at lengths
  have behindName : buffer.cstr (string + 5) = some (formName body ++ '&'.toUInt8 :: rest) := by
    rw [← split]
    exact Buffer.cstr_drop read (by omega)
  have behindForm : buffer.cstr (string + 5 + (formName body).length + 10) = some (formPassword body) := by
    rw [formPassword, isRest]
    exact Buffer.cstr_drop (Buffer.cstr_skip behindName) long
  simp only [credentialsAt, bind, copyUntil_word behindName absent shortName, Option.bind_some,
    copyUntil_zero behindForm shortPassword, visible_eq_self (form_nonzero read).1]

/-- In a buffer that ends with the string's NUL nothing else is. -/
theorem fits_of_credentialsAt {size string : ℕ} {buffer : Buffer size} {body : Bytes} {user : Credentials}
    (read : buffer.cstr string = some body) (ends : size = string + body.length + 1)
    (found : credentialsAt buffer string = some user) : FormFits body := by
  simp only [credentialsAt, bind, Option.bind_eq_some_iff] at found
  obtain ⟨name, copiedName, password, copiedPassword, _⟩ := found
  have inside := (copyUntil_eq_some_iff.mp copiedName).2.1
  have long : 5 ≤ body.length := by omega
  have length : (body.drop 5).length = body.length - 5 := List.length_drop
  obtain ⟨rest, split, absent, shortName⟩ :=
    copyUntil_inside (Buffer.cstr_drop read long) (by omega) (by decide) copiedName
  obtain ⟨isName, isRest⟩ := form_of_split split absent
  have lengths := congrArg List.length split
  rw [List.length_append, List.length_cons] at lengths
  have begins := (copyUntil_eq_some_iff.mp copiedPassword).2.1
  have enough : 10 ≤ (formRest body).length := by
    rw [isRest, List.length_cons]
    omega
  have behindForm : buffer.cstr (string + 5 + name.length + 10) = some (formPassword body) := by
    rw [formPassword, isRest]
    rw [isRest] at enough
    exact Buffer.cstr_drop (Buffer.cstr_skip (split ▸ Buffer.cstr_drop read long)) enough
  refine ⟨enough, by rwa [isName], ?_⟩
  obtain ⟨room, same⟩ := copyUntil_eq_some_iff.mp copiedPassword
  have isPassword : password = formPassword body :=
    Option.some.inj ((Buffer.cstr_eq_some_iff.mpr same).symm.trans behindForm)
  rwa [← isPassword]

/-! ## The texts -/

/-- The INSERT of a name and a password. -/
def insertText (name password : Bytes) : Bytes :=
  ascii "INSERT INTO user(username, passwd) VALUES(" ++
    [ascii "'", name, ascii "', '", password, ascii "')"].flatten

/-- The INSERT is put together as the concatenation, in the bytes its fixed parts leave of the 200. -/
theorem sqlInsert_eq {user : Credentials} (name : ∀ value ∈ user.name, value ≠ 0)
    (password : ∀ value ∈ user.password, value ≠ 0) :
    sqlInsert user =
      if user.name.length + user.password.length ≤ 150 then some (insertText user.name user.password)
      else none := by
  obtain ⟨head, stored⟩ : ∃ head, (Buffer.zero : Buffer 200).strcpy 0
      (ascii "INSERT INTO user(username, passwd) VALUES(") = some head :=
    ⟨_, Buffer.write?_eq_some (by decide)⟩
  have read : head.cstr 0 = some (ascii "INSERT INTO user(username, passwd) VALUES(") := by
    obtain ⟨_, rfl⟩ := Buffer.write?_eq_some_iff.mp stored
    exact Buffer.cstr_write _ _ _ (by decide) (by decide +kernel)
  have fixed : ∀ part ∈ [ascii "'", ascii "', '", ascii "')"], ∀ value ∈ part, value ≠ 0 := by
    decide +kernel
  have nonzero : ∀ part ∈ [ascii "'", user.name, ascii "', '", user.password, ascii "')"],
      ∀ value ∈ part, value ≠ 0 := by
    simp only [List.forall_mem_cons] at fixed ⊢
    exact ⟨fixed.1, name, fixed.2.1, password, fixed.2.2.1, fixed.2.2.2⟩
  have chain := Buffer.foldlM_strcat_cstr read nonzero
  have length : (ascii "INSERT INTO user(username, passwd) VALUES(").length +
      [ascii "'", user.name, ascii "', '", user.password, ascii "')"].flatten.length =
        user.name.length + user.password.length + 49 := by
    have first : (ascii "INSERT INTO user(username, passwd) VALUES(").length = 42 := by decide
    have second : (ascii "'").length = 1 := by decide
    have third : (ascii "', '").length = 4 := by decide
    have fourth : (ascii "')").length = 2 := by decide
    simp only [List.flatten_cons, List.flatten_nil, List.length_append, List.length_nil, first, second,
      third, fourth]
    omega
  rw [length] at chain
  have whole : sqlInsert user = if user.name.length + user.password.length + 49 < 200 then
      some (insertText user.name user.password) else none := by
    rw [insertText, ← chain]
    simp only [sqlInsert, bind, stored, Option.bind_some, List.foldlM_cons, List.foldlM_nil,
      Option.bind_assoc]
    rfl
  rw [whole]
  exact if_congr (by omega) rfl rfl

namespace HttpConn

/-- The URL without its second byte is put together in 200 bytes, and what is copied of it fits. -/
theorem copyAction_isSome_iff (conn : HttpConn) {url : ℕ} {text : Bytes}
    (read : conn.readBuf.cstr url = some text) (long : 2 ≤ text.length) :
    (conn.copyAction url).isSome ↔ text.length ≤ 200 := by
  have action : conn.readBuf.cstr (url + 2) = some (text.drop 2) := Buffer.cstr_drop read long
  obtain ⟨head, stored⟩ : ∃ head, (Buffer.zero : Buffer 200).strcpy 0 (ascii "/") = some head :=
    ⟨_, Buffer.write?_eq_some (by decide)⟩
  have slashed : head.cstr 0 = some (ascii "/") := by
    obtain ⟨_, rfl⟩ := Buffer.write?_eq_some_iff.mp stored
    exact Buffer.cstr_write _ _ _ (by decide) (by decide +kernel)
  have one : (ascii "/").length = 1 := by decide
  simp only [copyAction, action, stored, bind, Option.bind_some]
  rcases Buffer.strcat_cases slashed (Buffer.cstr_nonzero action) with
    ⟨short, after, appended, whole⟩ | ⟨overflows, undefined⟩
  · rw [one, List.length_drop] at short
    have root := docRoot_length
    have size : filenameLen = 200 := rfl
    rw [appended, Option.bind_some, whole, Option.bind_some, Buffer.strncpy, Buffer.write?, if_pos]
    · exact iff_of_true rfl (by omega)
    · rw [List.length_append, List.length_take, List.length_replicate]
      omega
  · rw [one, List.length_drop] at overflows
    rw [undefined]
    exact iff_of_false (by simp) (by omega)

end HttpConn

end WebServ.Http
