import Mathlib.Data.List.Basic
import Mathlib.Algebra.Order.Ring.Int

/-! # Bounded C memory and NUL-terminated strings

A buffer is a fixed number of bytes addressed by offset. Loads and stores are partial: an offset
outside the buffer is undefined behaviour and yields `none`. A C string is the run of nonzero
bytes from an offset to the first NUL inside the buffer. The unchecked updates `set` and `write`
exist for reasoning: their checked counterparts agree with them.
-/

namespace WebServ.Text

abbrev Bytes := List UInt8

/-- The bytes of a string literal. -/
def ascii (text : String) : Bytes := text.toList.map (fun char => char.toNat.toUInt8)

/-- Memory of `size` bytes; offsets from `size` on carry no meaning. -/
@[ext] structure Buffer (size : ℕ) where
  byte : ℕ → UInt8

namespace Buffer

variable {size : ℕ}

/-- The result of `memset(buffer, 0, size)`. -/
def zero : Buffer size := ⟨fun _ => 0⟩

/-- Replace one byte. -/
def set (buffer : Buffer size) (offset : ℕ) (value : UInt8) : Buffer size :=
  ⟨Function.update buffer.byte offset value⟩

/-- Replace a consecutive run of bytes. -/
def write (buffer : Buffer size) (offset : ℕ) (bytes : Bytes) : Buffer size :=
  ⟨fun query => if offset ≤ query then bytes[query - offset]?.getD (buffer.byte query)
    else buffer.byte query⟩

/-- One checked load. -/
def load? (buffer : Buffer size) (offset : ℕ) : Option UInt8 :=
  if offset < size then some (buffer.byte offset) else none

/-- One checked store through a pointer that may lie anywhere. -/
def store? (buffer : Buffer size) (offset : ℤ) (value : UInt8) : Option (Buffer size) :=
  if 0 ≤ offset ∧ offset < size then some (buffer.set offset.toNat value) else none

/-- A checked copy of consecutive bytes. -/
def write? (buffer : Buffer size) (offset : ℕ) (bytes : Bytes) : Option (Buffer size) :=
  if offset + bytes.length ≤ size then some (buffer.write offset bytes) else none

theorem set_byte (buffer : Buffer size) (offset query : ℕ) (value : UInt8) :
    (buffer.set offset value).byte query = if query = offset then value else buffer.byte query := by
  simp only [set, Function.update_apply]

@[simp] theorem set_byte_self (buffer : Buffer size) (offset : ℕ) (value : UInt8) :
    (buffer.set offset value).byte offset = value := by
  rw [set_byte, if_pos rfl]

theorem set_byte_ne (buffer : Buffer size) {offset query : ℕ} (value : UInt8)
    (other : query ≠ offset) : (buffer.set offset value).byte query = buffer.byte query := by
  rw [set_byte, if_neg other]

theorem write_byte_outside (buffer : Buffer size) {offset query : ℕ} (bytes : Bytes)
    (outside : query < offset ∨ offset + bytes.length ≤ query) :
    (buffer.write offset bytes).byte query = buffer.byte query := by
  simp only [write]
  split
  · rw [List.getElem?_eq_none (by omega), Option.getD_none]
  · rfl

theorem write_byte_inside (buffer : Buffer size) (offset : ℕ) (bytes : Bytes) {index : ℕ}
    (bound : index < bytes.length) : (buffer.write offset bytes).byte (offset + index) = bytes[index] := by
  simp only [write, Nat.le_add_right, ↓reduceIte, Nat.add_sub_cancel_left,
    List.getElem?_eq_getElem bound, Option.getD_some]

/-- A byte after a write is written or old. -/
theorem write_byte_mem (buffer : Buffer size) (offset query : ℕ) (bytes : Bytes) :
    (buffer.write offset bytes).byte query ∈ bytes ∨
      (buffer.write offset bytes).byte query = buffer.byte query := by
  by_cases inside : offset ≤ query ∧ query < offset + bytes.length
  · obtain ⟨index, rfl⟩ := Nat.exists_eq_add_of_le inside.1
    have bound : index < bytes.length := by omega
    rw [write_byte_inside _ _ _ bound]
    exact Or.inl (List.getElem_mem bound)
  · exact Or.inr (write_byte_outside _ _ (by omega))

theorem store?_eq_some {buffer : Buffer size} {offset : ℕ} {value : UInt8} (bound : offset < size) :
    buffer.store? offset value = some (buffer.set offset value) := by
  rw [store?, if_pos ⟨by omega, by omega⟩, Int.toNat_natCast]

theorem write?_eq_some {buffer : Buffer size} {offset : ℕ} {bytes : Bytes}
    (bound : offset + bytes.length ≤ size) :
    buffer.write? offset bytes = some (buffer.write offset bytes) := by
  rw [write?, if_pos bound]

theorem write?_eq_some_iff {buffer after : Buffer size} {offset : ℕ} {bytes : Bytes} :
    buffer.write? offset bytes = some after ↔
      offset + bytes.length ≤ size ∧ buffer.write offset bytes = after := by
  rw [write?, Option.ite_none_right_eq_some, Option.some.injEq]

/-! ## C strings -/

/-- The nonzero bytes from `offset` on, looking at `fuel` bytes at most. -/
def scan (byte : ℕ → UInt8) : ℕ → ℕ → Option Bytes
  | 0, _ => none
  | fuel + 1, offset =>
      if byte offset = 0 then some [] else (scan byte fuel (offset + 1)).map (byte offset :: ·)

/-- The C string at `offset`, if a NUL terminates it inside the buffer. -/
def cstr (buffer : Buffer size) (offset : ℕ) : Option Bytes :=
  scan buffer.byte (size - offset) offset

private theorem scan_eq_some_iff (byte : ℕ → UInt8) (fuel offset : ℕ) (text : Bytes) :
    scan byte fuel offset = some text ↔
      text.length < fuel ∧ byte (offset + text.length) = 0 ∧
        ∀ index, (bound : index < text.length) →
          byte (offset + index) = text[index] ∧ text[index] ≠ 0 := by
  induction fuel generalizing offset text with
  | zero => simp [scan]
  | succ fuel ih =>
    by_cases stop : byte offset = 0
    · rw [scan, if_pos stop]
      constructor
      · intro found
        cases found
        exact ⟨by simp, stop, by simp⟩
      · rintro ⟨_, _, nonzero⟩
        cases text with
        | nil => rfl
        | cons first rest =>
          have head := nonzero 0 (by simp)
          exact absurd (head.1.symm.trans stop) head.2
    · rw [scan, if_neg stop, Option.map_eq_some_iff]
      constructor
      · rintro ⟨rest, found, rfl⟩
        obtain ⟨short, last, nonzero⟩ := (ih _ _).mp found
        refine ⟨by simp only [List.length_cons]; omega, ?_, ?_⟩
        · simpa only [List.length_cons, Nat.add_comm 1, Nat.add_assoc] using last
        · intro index bound
          cases index with
          | zero => exact ⟨rfl, stop⟩
          | succ index =>
            simpa only [List.getElem_cons_succ, Nat.add_comm 1, Nat.add_assoc]
              using nonzero index (by simpa using bound)
      · rintro ⟨short, last, nonzero⟩
        cases text with
        | nil => exact absurd last stop
        | cons first rest =>
          refine ⟨rest, (ih _ _).mpr ⟨by simpa using short, ?_, ?_⟩, ?_⟩
          · simpa only [List.length_cons, Nat.add_comm 1, Nat.add_assoc] using last
          · intro index bound
            have shifted := nonzero (index + 1) (by simpa using bound)
            rw [List.getElem_cons_succ] at shifted
            rwa [Nat.add_assoc, Nat.add_comm 1]
          · have head := (nonzero 0 (by simp)).1
            simp only [Nat.add_zero, List.getElem_cons_zero] at head
            rw [head]

/-- The string at an offset: its bytes are nonzero and the NUL after them is in the buffer. -/
theorem cstr_eq_some_iff {buffer : Buffer size} {offset : ℕ} {text : Bytes} :
    buffer.cstr offset = some text ↔
      offset + text.length < size ∧ buffer.byte (offset + text.length) = 0 ∧
        ∀ index, (bound : index < text.length) →
          buffer.byte (offset + index) = text[index] ∧ text[index] ≠ 0 := by
  rw [cstr, scan_eq_some_iff]
  constructor
  · rintro ⟨short, rest⟩
    exact ⟨by omega, rest⟩
  · rintro ⟨short, rest⟩
    exact ⟨by omega, rest⟩

theorem cstr_bound {buffer : Buffer size} {offset : ℕ} {text : Bytes}
    (found : buffer.cstr offset = some text) : offset + text.length < size :=
  (cstr_eq_some_iff.mp found).1

theorem cstr_nonzero {buffer : Buffer size} {offset : ℕ} {text : Bytes}
    (found : buffer.cstr offset = some text) : ∀ value ∈ text, value ≠ 0 := by
  intro value member
  obtain ⟨index, bound, rfl⟩ := List.mem_iff_getElem.mp member
  exact ((cstr_eq_some_iff.mp found).2.2 index bound).2

/-- Nonzero bytes at the offset begin the string. -/
theorem prefix_of_cstr {buffer : Buffer size} {offset : ℕ} {word text : Bytes}
    (found : buffer.cstr offset = some text) (nonzero : ∀ value ∈ word, value ≠ 0)
    (byte : ∀ index, (bound : index < word.length) → buffer.byte (offset + index) = word[index]) :
    word <+: text := by
  obtain ⟨_, last, inner⟩ := cstr_eq_some_iff.mp found
  have long : word.length ≤ text.length := by
    by_contra short
    have within : text.length < word.length := by omega
    exact nonzero _ (List.getElem_mem within) ((byte _ within).symm.trans last)
  rw [List.prefix_iff_eq_take]
  apply List.ext_getElem
  · rw [List.length_take]
    omega
  · intro index bound _
    rw [List.getElem_take, ← byte index bound]
    exact (inner index (by omega)).1

/-- Buffers that agree on a string and its NUL hold the same string there. -/
theorem cstr_congr {buffer other : Buffer size} {offset : ℕ} {text : Bytes}
    (found : buffer.cstr offset = some text)
    (same : ∀ query, offset ≤ query → query ≤ offset + text.length →
      other.byte query = buffer.byte query) : other.cstr offset = some text := by
  obtain ⟨bound, last, nonzero⟩ := cstr_eq_some_iff.mp found
  refine cstr_eq_some_iff.mpr ⟨bound, ?_, ?_⟩
  · rw [same _ (by omega) le_rfl, last]
  · intro index inside
    rw [same _ (by omega) (by omega)]
    exact nonzero index inside

/-- A pointer moved inside a string points to the rest of it. -/
theorem cstr_drop {buffer : Buffer size} {offset count : ℕ} {text : Bytes}
    (found : buffer.cstr offset = some text) (bound : count ≤ text.length) :
    buffer.cstr (offset + count) = some (text.drop count) := by
  obtain ⟨inside, last, nonzero⟩ := cstr_eq_some_iff.mp found
  have length : count + (text.drop count).length = text.length := by
    rw [List.length_drop]; omega
  refine cstr_eq_some_iff.mpr ⟨by omega, ?_, ?_⟩
  · rw [Nat.add_assoc, length, last]
  · intro index short
    rw [Nat.add_assoc, List.getElem_drop]
    exact nonzero (count + index) (by omega)

/-- Writing a NUL inside a string cuts it there. -/
theorem cstr_set_cut {buffer : Buffer size} {offset count : ℕ} {text : Bytes}
    (found : buffer.cstr offset = some text) (bound : count ≤ text.length) :
    (buffer.set (offset + count) 0).cstr offset = some (text.take count) := by
  obtain ⟨inside, _, nonzero⟩ := cstr_eq_some_iff.mp found
  have length : (text.take count).length = count := by rw [List.length_take]; omega
  refine cstr_eq_some_iff.mpr ⟨by omega, ?_, ?_⟩
  · rw [length, set_byte_self]
  · intro index short
    rw [set_byte_ne _ _ (by omega), List.getElem_take]
    exact nonzero index (by omega)

/-- A store before a string or after its NUL leaves it alone. -/
theorem cstr_set_outside {buffer : Buffer size} {offset query : ℕ} {value : UInt8} {text : Bytes}
    (found : buffer.cstr offset = some text)
    (outside : query < offset ∨ offset + text.length < query) :
    (buffer.set query value).cstr offset = some text :=
  cstr_congr found fun _ _ _ => set_byte_ne _ _ (by omega)

/-- A nonzero byte before a string lengthens it. -/
theorem cstr_cons {buffer : Buffer size} {offset : ℕ} {text : Bytes}
    (found : buffer.cstr (offset + 1) = some text) (nonzero : buffer.byte offset ≠ 0) :
    buffer.cstr offset = some (buffer.byte offset :: text) := by
  obtain ⟨bound, last, inner⟩ := cstr_eq_some_iff.mp found
  refine cstr_eq_some_iff.mpr ⟨by simp only [List.length_cons]; omega, ?_, ?_⟩
  · simpa only [List.length_cons, Nat.add_assoc, Nat.add_comm 1] using last
  · intro index short
    cases index with
    | zero => exact ⟨rfl, nonzero⟩
    | succ index =>
      have shifted := inner index (by simpa using short)
      rw [Nat.add_assoc, Nat.add_comm 1] at shifted
      rwa [List.getElem_cons_succ]

/-- The first byte of a string, or the NUL of an empty one. -/
theorem cstr_byte {buffer : Buffer size} {offset : ℕ} {text : Bytes}
    (found : buffer.cstr offset = some text) : buffer.byte offset = text.headD 0 := by
  obtain ⟨_, last, nonzero⟩ := cstr_eq_some_iff.mp found
  cases text with
  | nil => exact last
  | cons first rest => exact (nonzero 0 (by simp)).1

/-- A string written with its NUL is read back. -/
theorem cstr_write (buffer : Buffer size) (offset : ℕ) (text : Bytes)
    (bound : offset + text.length < size) (nonzero : ∀ value ∈ text, value ≠ 0) :
    (buffer.write offset (text ++ [0])).cstr offset = some text := by
  refine cstr_eq_some_iff.mpr ⟨bound, ?_, ?_⟩
  · rw [write_byte_inside _ _ _ (by simp)]
    simp
  · intro index short
    rw [write_byte_inside _ _ _ (by simp only [List.length_append]; omega), List.getElem_append_left short]
    exact ⟨rfl, nonzero _ (List.getElem_mem short)⟩

end Buffer

end WebServ.Text
