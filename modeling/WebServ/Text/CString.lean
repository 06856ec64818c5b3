import WebServ.Text.Buffer

/-! # The string functions of the C library

Each function is defined on the string at its pointer, so it is undefined (`none`) when no NUL lies
in reach. A search that fails returns the null pointer, the inner `none`. The lemmas give every
search in terms of the prefix it skips and the suffix it stops at.
-/

namespace WebServ.Text

namespace Buffer

variable {size : ℕ}

/-- `strpbrk`: the first byte of the string in `accept`; the inner `none` is the null pointer. -/
def strpbrk (buffer : Buffer size) (offset : ℕ) (accept : Bytes) : Option (Option ℕ) :=
  (buffer.cstr offset).map fun text => (text.findIdx? (accept.contains ·)).map (offset + ·)

/-- `strspn`: the length of the leading run of bytes in `accept`. -/
def strspn (buffer : Buffer size) (offset : ℕ) (accept : Bytes) : Option ℕ :=
  (buffer.cstr offset).map fun text => (text.takeWhile (accept.contains ·)).length

/-- `strchr` for a nonzero byte. -/
def strchr (buffer : Buffer size) (offset : ℕ) (value : UInt8) : Option (Option ℕ) :=
  (buffer.cstr offset).map fun text => (text.findIdx? (· == value)).map (offset + ·)

/-- The position after which `value` does not occur. -/
def lastIdx? (value : UInt8) : Bytes → Option ℕ
  | [] => none
  | first :: rest =>
      match lastIdx? value rest with
      | some index => some (index + 1)
      | none => if first = value then some 0 else none

/-- `strrchr` for a nonzero byte. -/
def strrchr (buffer : Buffer size) (offset : ℕ) (value : UInt8) : Option (Option ℕ) :=
  (buffer.cstr offset).map fun text => (lastIdx? value text).map (offset + ·)

/-- `strlen`. -/
def strlen (buffer : Buffer size) (offset : ℕ) : Option ℕ := (buffer.cstr offset).map List.length

/-- `tolower` in the C locale. -/
def toLower (value : UInt8) : UInt8 := if 65 ≤ value ∧ value ≤ 90 then value + 32 else value

/-- Equality up to letter case. -/
def sameCaseless (left right : Bytes) : Bool := left.map toLower == right.map toLower

/-- `strcasecmp(offset, literal) == 0`. -/
def strcasecmp (buffer : Buffer size) (offset : ℕ) (literal : Bytes) : Option Bool :=
  (buffer.cstr offset).map fun text => sameCaseless text literal

/-- `strncasecmp(offset, literal, count) == 0`. -/
def strncasecmp (buffer : Buffer size) (offset : ℕ) (literal : Bytes) (count : ℕ) : Option Bool :=
  (buffer.cstr offset).map fun text => sameCaseless (text.take count) (literal.take count)

/-- `strcpy` of a string without inner NULs. -/
def strcpy (buffer : Buffer size) (offset : ℕ) (source : Bytes) : Option (Buffer size) :=
  buffer.write? offset (source ++ [0])

/-- `strcat` of a string without inner NULs. -/
def strcat (buffer : Buffer size) (offset : ℕ) (source : Bytes) : Option (Buffer size) :=
  (buffer.strlen offset).bind fun length => buffer.strcpy (offset + length) source

/-- `strncpy`: `count` bytes are written, padded with NULs; a longer source is cut unterminated. -/
def strncpy (buffer : Buffer size) (offset : ℕ) (source : Bytes) (count : ℕ) : Option (Buffer size) :=
  buffer.write? offset (source.take count ++ List.replicate (count - source.length) 0)

/-- Appending leaves the string's own bytes and everything before them alone. -/
theorem strcat_byte {buffer after : Buffer size} {offset length query : ℕ} {source : Bytes}
    (found : buffer.strlen offset = some length) (appended : buffer.strcat offset source = some after)
    (before : query < offset + length) : after.byte query = buffer.byte query := by
  rw [strcat, found, Option.bind_some, strcpy, write?_eq_some_iff] at appended
  rw [← appended.2, write_byte_outside _ _ (Or.inl before)]

/-- `strcat` appends to a string at the start of a buffer, or writes beyond the end. -/
theorem strcat_cases {buffer : Buffer size} {text source : Bytes} (found : buffer.cstr 0 = some text)
    (nonzero : ∀ value ∈ source, value ≠ 0) :
    (text.length + source.length < size ∧
      ∃ after, buffer.strcat 0 source = some after ∧ after.cstr 0 = some (text ++ source)) ∨
    (size ≤ text.length + source.length ∧ buffer.strcat 0 source = none) := by
  have appended : buffer.strcat 0 source = buffer.write? text.length (source ++ [0]) := by
    rw [strcat, strlen, found, Option.map_some, Option.bind_some, Nat.zero_add, strcpy]
  rw [appended, write?, List.length_append, List.length_singleton]
  split_ifs with fits
  · refine Or.inl ⟨by omega, _, rfl, cstr_eq_some_iff.mpr ⟨?_, ?_, ?_⟩⟩
    · rw [List.length_append]
      omega
    · rw [Nat.zero_add, List.length_append]
      exact (cstr_eq_some_iff.mp (cstr_write buffer text.length source (by omega) nonzero)).2.1
    · intro index bound
      rw [Nat.zero_add]
      obtain ⟨_, _, old⟩ := cstr_eq_some_iff.mp found
      by_cases before : index < text.length
      · have same := old index before
        rw [Nat.zero_add] at same
        rwa [write_byte_outside _ _ (Or.inl before), List.getElem_append_left before]
      · obtain ⟨behind, rfl⟩ := Nat.exists_eq_add_of_le (Nat.le_of_not_lt before)
        rw [List.length_append] at bound
        have inSource : behind < source.length := by omega
        rw [write_byte_inside _ _ _ (by rw [List.length_append]; omega),
          List.getElem_append_left inSource, List.getElem_append_right (Nat.le_add_right ..)]
        simp only [Nat.add_sub_cancel_left]
        exact ⟨trivial, nonzero _ (List.getElem_mem inSource)⟩
  · exact Or.inr ⟨by omega, rfl⟩

/-- A text put together by `strcat` is the concatenation, if that and its NUL fit. -/
theorem foldlM_strcat_cstr {buffer : Buffer size} {text : Bytes} {sources : List Bytes}
    (found : buffer.cstr 0 = some text) (nonzero : ∀ source ∈ sources, ∀ value ∈ source, value ≠ 0) :
    (sources.foldlM (fun (sofar : Buffer size) source => sofar.strcat 0 source) buffer).bind (·.cstr 0) =
      if text.length + sources.flatten.length < size then some (text ++ sources.flatten) else none := by
  induction sources generalizing buffer text with
  | nil =>
    have bound := cstr_bound found
    rw [List.flatten_nil, List.length_nil, List.append_nil, if_pos (by omega)]
    exact found
  | cons source sources ih =>
    rw [List.foldlM_cons, List.flatten_cons, List.length_append]
    obtain ⟨first, others⟩ := List.forall_mem_cons.mp nonzero
    rcases strcat_cases found first with ⟨_, after, appended, read⟩ | ⟨long, overflow⟩
    · have rest := ih read others
      rw [List.length_append, Nat.add_assoc, List.append_assoc] at rest
      rw [appended]
      exact rest
    · rw [overflow, if_neg (by omega)]
      rfl

theorem lastIdx?_lt {value : UInt8} {text : Bytes} {index : ℕ}
    (found : lastIdx? value text = some index) : index < text.length := by
  induction text generalizing index with
  | nil => cases found
  | cons first rest ih =>
    rw [lastIdx?] at found
    cases later : lastIdx? value rest with
    | some position =>
      simp only [later, Option.some.injEq] at found
      rw [← found, List.length_cons]
      exact Nat.succ_lt_succ (ih later)
    | none =>
      simp only [later] at found
      split_ifs at found
      cases found
      exact Nat.succ_pos _

theorem mem_of_lastIdx? {value : UInt8} {text : Bytes} {index : ℕ}
    (found : lastIdx? value text = some index) : value ∈ text := by
  induction text generalizing index with
  | nil => cases found
  | cons first rest ih =>
    rw [lastIdx?] at found
    cases later : lastIdx? value rest with
    | some position => exact List.mem_cons_of_mem _ (ih later)
    | none =>
      simp only [later] at found
      split_ifs at found with same
      exact same ▸ List.mem_cons_self

theorem lastIdx?_of_mem {value : UInt8} {text : Bytes} (member : value ∈ text) :
    ∃ index, lastIdx? value text = some index := by
  induction text with
  | nil => cases member
  | cons first rest ih =>
    rw [lastIdx?]
    cases later : lastIdx? value rest with
    | some index => exact ⟨index + 1, rfl⟩
    | none =>
      rcases List.mem_cons.mp member with rfl | inside
      · exact ⟨0, if_pos rfl⟩
      · obtain ⟨index, found⟩ := ih inside
        rw [later] at found
        cases found

/-- A string and its NUL, byte by byte. -/
theorem load?_of_cstr {buffer : Buffer size} {offset index : ℕ} {text : Bytes}
    (found : buffer.cstr offset = some text) (inside : index ≤ text.length) :
    buffer.load? (offset + index) = some (text.getD index 0) := by
  obtain ⟨bound, last, bytes⟩ := cstr_eq_some_iff.mp found
  rw [load?, if_pos (by omega), Option.some.injEq, List.getD_eq_getElem?_getD]
  rcases Nat.lt_or_eq_of_le inside with within | atEnd
  · rw [(bytes index within).1, List.getElem?_eq_getElem within, Option.getD_some]
  · rw [atEnd, last, List.getElem?_eq_none le_rfl, Option.getD_none]

/-! ## Searches as prefix and suffix -/

section Search

variable {buffer : Buffer size} {offset : ℕ} {text word rest : Bytes} {separator : UInt8}

/-- A search stops after the longest prefix without a match. -/
theorem findIdx?_eq_split (stop : UInt8 → Bool) (text : Bytes) :
    text.findIdx? stop =
      match text.dropWhile (fun value => !stop value) with
      | [] => none
      | _ :: _ => some (text.takeWhile fun value => !stop value).length := by
  induction text with
  | nil => rfl
  | cons first tail ih =>
    cases stopped : stop first with
    | true => simp [List.findIdx?_cons, stopped]
    | false =>
      simp only [List.findIdx?_cons, stopped, Bool.false_eq_true, ↓reduceIte, ih, Bool.not_false,
        List.dropWhile_cons_of_pos, List.takeWhile_cons_of_pos, List.length_cons]
      cases tail.dropWhile fun value => !stop value <;> rfl

/-- A pointer behind a prefix of the string points to the rest of it. -/
theorem cstr_skip (found : buffer.cstr offset = some (word ++ rest)) :
    buffer.cstr (offset + word.length) = some rest := by
  have within : word.length ≤ (word ++ rest).length := by simp
  have dropped := cstr_drop found within
  rwa [List.drop_left] at dropped

/-- Overwriting a separator by a NUL leaves the word before it. -/
theorem cstr_cut_word (found : buffer.cstr offset = some (word ++ separator :: rest)) :
    (buffer.set (offset + word.length) 0).cstr offset = some word := by
  have within : word.length ≤ (word ++ separator :: rest).length := by simp
  have cut := cstr_set_cut found within
  rwa [List.take_left] at cut

/-- Overwriting a separator by a NUL leaves the string after it. -/
theorem cstr_cut_rest (found : buffer.cstr offset = some (word ++ separator :: rest)) :
    (buffer.set (offset + word.length) 0).cstr (offset + word.length + 1) = some rest := by
  have behind : buffer.cstr (offset + word.length + 1) = some rest :=
    cstr_skip (show buffer.cstr (offset + word.length) = some ([separator] ++ rest) from cstr_skip found)
  exact cstr_set_outside behind (Or.inl (by omega))

/-- Bytes followed by a NUL hold the string of the bytes before their first NUL. -/
theorem cstr_of_bytes (inside : offset + text.length < size)
    (byte : ∀ index, (bound : index < text.length) → buffer.byte (offset + index) = text[index])
    (last : buffer.byte (offset + text.length) = 0) :
    buffer.cstr offset = some (text.takeWhile (· != 0)) := by
  induction text generalizing offset with
  | nil => exact cstr_eq_some_iff.mpr ⟨inside, last, by simp⟩
  | cons first rest ih =>
    have head : buffer.byte offset = first := byte 0 (by simp)
    simp only [List.length_cons] at inside last
    by_cases zero : first = 0
    · rw [zero, List.takeWhile_cons_of_neg (by simp)]
      exact cstr_eq_some_iff.mpr ⟨by simp only [List.length_nil]; omega, head.trans zero, by simp⟩
    · rw [List.takeWhile_cons_of_pos (by simpa using zero), ← head]
      refine cstr_cons (ih (by omega) ?_ (by rwa [Nat.add_assoc, Nat.add_comm 1])) (head ▸ zero)
      intro index bound
      have shifted := byte (index + 1) (by simpa using bound)
      rw [List.getElem_cons_succ] at shifted
      simpa only [Nat.add_assoc, Nat.add_comm 1] using shifted

/-- A NUL ends a string in front of it. -/
theorem cstr_of_nul {place : ℕ} (before : offset ≤ place) (inside : place < size)
    (zero : buffer.byte place = 0) :
    ∃ text, buffer.cstr offset = some text ∧ offset + text.length ≤ place := by
  have between : offset + ((List.range' offset (place - offset)).map buffer.byte).length = place := by
    rw [List.length_map, List.length_range']
    omega
  refine ⟨((List.range' offset (place - offset)).map buffer.byte).takeWhile (· != 0),
    cstr_of_bytes (by omega) (by simp) (by rwa [between]), ?_⟩
  have short := (List.takeWhile_sublist (fun value : UInt8 => value != 0)
    (l := (List.range' offset (place - offset)).map buffer.byte)).length_le
  omega

/-- Before two NULs lies a string that leaves both of them behind it, unless it begins at the second. -/
theorem cstr_of_nuls {limit : ℕ} (before : offset < limit) (inside : limit ≤ size)
    (first : buffer.byte (limit - 2) = 0) (second : buffer.byte (limit - 1) = 0) :
    ∃ text, buffer.cstr offset = some text ∧ (text = [] ∨ offset + text.length + 2 ≤ limit) := by
  by_cases single : offset + 1 = limit
  · rw [← single, Nat.add_sub_cancel] at second
    obtain ⟨text, found, short⟩ := cstr_of_nul (le_refl offset) (by omega) second
    exact ⟨text, found, Or.inl (List.length_eq_zero_iff.mp (by omega))⟩
  · have early : offset ≤ limit - 2 := by omega
    obtain ⟨text, found, short⟩ := cstr_of_nul early (by omega) first
    exact ⟨text, found, Or.inr (by omega)⟩

theorem strpbrk_eq_null {accept : Bytes} (found : buffer.cstr offset = some text)
    (absent : text.dropWhile (fun value => !accept.contains value) = []) :
    buffer.strpbrk offset accept = some none := by
  simp only [strpbrk, found, Option.map_some, findIdx?_eq_split, absent, Option.map_none]

theorem strpbrk_eq_some {accept : Bytes} (found : buffer.cstr offset = some text)
    (present : text.dropWhile (fun value => !accept.contains value) = separator :: rest) :
    buffer.strpbrk offset accept =
      some (some (offset + (text.takeWhile fun value => !accept.contains value).length)) := by
  simp only [strpbrk, found, Option.map_some, findIdx?_eq_split, present]

theorem strchr_eq (value : UInt8) (found : buffer.cstr offset = some text) :
    buffer.strchr offset value =
      match text.dropWhile (· != value) with
      | [] => some none
      | _ :: _ => some (some (offset + (text.takeWhile (· != value)).length)) := by
  simp only [strchr, found, Option.map_some, findIdx?_eq_split]
  change some (Option.map _ (match text.dropWhile (· != value) with
    | [] => none
    | _ :: _ => some (text.takeWhile (· != value)).length)) = _
  cases text.dropWhile (· != value) <;> rfl

/-- Skipping a run of accepted bytes. -/
theorem strspn_skip (accept : Bytes) (found : buffer.cstr offset = some text) :
    buffer.strspn offset accept = some (text.takeWhile accept.contains).length ∧
      buffer.cstr (offset + (text.takeWhile accept.contains).length) =
        some (text.dropWhile accept.contains) := by
  refine ⟨by simp only [strspn, found, Option.map_some], ?_⟩
  apply cstr_skip
  rw [List.takeWhile_append_dropWhile, found]

theorem sameCaseless_length {left right : Bytes} (same : sameCaseless left right = true) :
    left.length = right.length := by
  have equal := congrArg List.length (eq_of_beq same)
  simpa only [List.length_map] using equal

end Search

end Buffer

end WebServ.Text
