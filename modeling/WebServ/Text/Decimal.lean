import WebServ.Text.Integer
import Mathlib.Tactic.Lift

/-! # Decimal texts

The text of a number consists of digits, with a minus sign in front of a negative one; its length is the
number of digits, and it determines the number.
-/

namespace WebServ.Text

/-- The byte of a decimal digit. -/
def IsDigit (value : UInt8) : Prop := 48 ≤ value ∧ value ≤ 57

instance (value : UInt8) : Decidable (IsDigit value) := inferInstanceAs (Decidable (_ ∧ _))

theorem decimal_natCast (value : ℕ) :
    decimal value = (Nat.toDigits 10 value).map (fun char => char.toNat.toUInt8) := by
  rw [decimal, if_neg (by omega), Int.natAbs_natCast]

private theorem isDigit_toUInt8 {char : Char} (digit : char.isDigit) : IsDigit char.toNat.toUInt8 := by
  have bounds := digit
  simp only [Char.isDigit, Bool.and_eq_true, decide_eq_true_eq, UInt32.le_iff_toNat_le] at bounds
  have low : 48 ≤ char.toNat := bounds.1
  have high : char.toNat ≤ 57 := bounds.2
  have small : char.toNat.toUInt8.toNat = char.toNat := by
    rw [Nat.toUInt8_eq, UInt8.toNat_ofNat']
    omega
  constructor
  · rw [UInt8.le_iff_toNat_le, small]
    exact low
  · rw [UInt8.le_iff_toNat_le, small]
    exact high

theorem isDigit_of_mem_decimal {value : ℕ} {digit : UInt8} (member : digit ∈ decimal value) :
    IsDigit digit := by
  rw [decimal_natCast, List.mem_map] at member
  obtain ⟨char, member, rfl⟩ := member
  exact isDigit_toUInt8 (Nat.isDigit_of_mem_toDigits (by decide) (by decide) member)

/-- A negative number has a minus sign besides. -/
theorem mem_decimal {value : ℤ} {byte : UInt8} (member : byte ∈ decimal value) :
    byte = 45 ∨ IsDigit byte := by
  have digits : decimal value.natAbs = (Nat.toDigits 10 value.natAbs).map
      (fun char => char.toNat.toUInt8) := decimal_natCast _
  rw [decimal] at member
  rw [← digits] at member
  split_ifs at member
  · rcases List.mem_cons.mp member with minus | digit
    · exact Or.inl minus
    · exact Or.inr (isDigit_of_mem_decimal digit)
  · exact Or.inr (isDigit_of_mem_decimal member)

theorem decimal_length_le_iff {value digits : ℕ} (positive : 0 < digits) :
    (decimal value).length ≤ digits ↔ value < 10 ^ digits := by
  rw [decimal_natCast, List.length_map]
  exact Nat.length_toDigits_le_iff (by decide) positive

theorem decimal_length_le {value : ℤ} {digits : ℕ} (positive : 0 < digits) (low : 0 ≤ value)
    (high : value < 10 ^ digits) : (decimal value).length ≤ digits := by
  lift value to ℕ using low
  exact (decimal_length_le_iff positive).mpr (by exact_mod_cast high)

theorem decimal_length_natAbs {value : ℤ} {digits : ℕ} (positive : 0 < digits)
    (high : value.natAbs < 10 ^ digits) : (decimal value).length ≤ digits + 1 := by
  have short := (decimal_length_le_iff positive).mpr high
  rw [decimal_natCast, List.length_map] at short
  rw [decimal]
  split_ifs
  · simp only [List.length_cons, List.length_map]
    omega
  · rw [List.length_map]
    omega

/-- The text of an `int`. -/
theorem decimal_toInt_length_le (value : ℤ) : (decimal (toInt value)).length ≤ 11 := by
  have low := Int.le_bmod (x := value) (by decide : 0 < 2 ^ 32)
  have high := toInt_lt value
  rw [← toInt] at low
  exact decimal_length_natAbs (by decide) (by omega)

private theorem digitsValue_map {digits : List Char} (areDigits : ∀ char ∈ digits, char.isDigit) (value : ℕ) :
    digitsValue value (digits.map fun char => char.toNat.toUInt8) = Nat.ofDigitChars 10 digits value := by
  induction digits generalizing value with
  | nil => rfl
  | cons char rest ih =>
    obtain ⟨digit, others⟩ := List.forall_mem_cons.mp areDigits
    have bounds : 48 ≤ char.toNat.toUInt8 ∧ char.toNat.toUInt8 ≤ 57 := isDigit_toUInt8 digit
    have code : char.toNat.toUInt8.toNat = char.toNat := by
      simp only [Char.isDigit, Bool.and_eq_true, decide_eq_true_eq, UInt32.le_iff_toNat_le] at digit
      have high : char.toNat ≤ 57 := digit.2
      rw [Nat.toUInt8_eq, UInt8.toNat_ofNat']
      omega
    rw [List.map_cons, digitsValue, if_pos bounds, ih others, code, Nat.ofDigitChars_cons, Nat.mul_comm]
    rfl

/-- The text of a number reads as the number. -/
theorem digitsValue_decimal (value : ℕ) : digitsValue 0 (decimal value) = value := by
  rw [decimal_natCast, digitsValue_map, Nat.ofDigitChars_ten_toDigits]
  exact fun _ member => Nat.isDigit_of_mem_toDigits (by decide) (by decide) member

private theorem map_digits_injective {left right : List Char} (isLeft : ∀ char ∈ left, char.isDigit)
    (isRight : ∀ char ∈ right, char.isDigit)
    (same : left.map (fun char => char.toNat.toUInt8) = right.map (fun char => char.toNat.toUInt8)) :
    left = right := by
  induction left generalizing right with
  | nil => exact (List.map_eq_nil_iff.mp same.symm).symm
  | cons first rest ih =>
    cases right with
    | nil => cases same
    | cons second others =>
      obtain ⟨head, tail⟩ := List.cons.inj same
      have bounds : ∀ char : Char, char.isDigit → char.toNat < 256 := by
        intro char digit
        simp only [Char.isDigit, Bool.and_eq_true, decide_eq_true_eq, UInt32.le_iff_toNat_le] at digit
        have high : char.toNat ≤ 57 := digit.2
        omega
      have codes := congrArg UInt8.toNat head
      simp only [Nat.toUInt8_eq, UInt8.toNat_ofNat'] at codes
      rw [Nat.mod_eq_of_lt (bounds _ (isLeft _ List.mem_cons_self)),
        Nat.mod_eq_of_lt (bounds _ (isRight _ List.mem_cons_self))] at codes
      rw [Char.toNat_inj.mp codes, ih (fun char member => isLeft char (List.mem_cons_of_mem _ member))
        (fun char member => isRight char (List.mem_cons_of_mem _ member)) tail]

/-- The text determines the number. -/
theorem decimal_injective {first second : ℕ} (same : decimal (first : ℤ) = decimal (second : ℤ)) :
    first = second := by
  rw [decimal_natCast, decimal_natCast] at same
  have digits : ∀ value : ℕ, ∀ char ∈ Nat.toDigits 10 value, char.isDigit :=
    fun _ _ member => Nat.isDigit_of_mem_toDigits (by decide) (by decide) member
  have texts := map_digits_injective (digits first) (digits second) same
  rw [← Nat.ofDigitChars_ten_toDigits (n := first), texts, Nat.ofDigitChars_ten_toDigits]

end WebServ.Text
