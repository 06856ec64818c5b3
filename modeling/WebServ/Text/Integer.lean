import WebServ.Text.CString
import Mathlib.Algebra.Order.Ring.Int

/-! # Machine integers and their decimal text

Signed and unsigned conversions of the platform (32-bit `int`, 64-bit `long` and `size_t`), the
`%d` conversion of the formatted output functions, and `atol`. Out-of-range results of `atol` are
clamped to the range of `long`, as the C library's `strtol` does.
-/

namespace WebServ.Text

/-- Conversion to a 32-bit `int`. -/
def toInt (value : ℤ) : ℤ := value.bmod (2 ^ 32)

/-- Conversion to a 64-bit `size_t`. -/
def toSize (value : ℤ) : ℕ := (value % 2 ^ 64).toNat

theorem toInt_of_bounds {value : ℤ} (low : -2 ^ 31 ≤ value) (high : value < 2 ^ 31) :
    toInt value = value := by
  rw [toInt, Int.bmod_eq_iff (by decide)]
  omega

theorem toInt_natCast {value : ℕ} (bound : value < 2 ^ 31) : toInt value = value :=
  toInt_of_bounds (by omega) (by omega)

theorem toInt_lt (value : ℤ) : toInt value < 2 ^ 31 := by
  have bound := Int.bmod_lt (x := value) (by decide : 0 < 2 ^ 32)
  rw [toInt]
  omega

theorem toSize_natCast {value : ℕ} (bound : value < 2 ^ 64) : toSize value = value := by
  rw [toSize]
  omega

/-- The text of the `%d` conversion. -/
def decimal (value : ℤ) : Bytes :=
  let digits := (Nat.toDigits 10 value.natAbs).map (fun char => char.toNat.toUInt8)
  if value < 0 then 45 :: digits else digits

/-- `isspace` in the C locale. -/
def isSpace (value : UInt8) : Bool := value == 32 || (9 ≤ value && value ≤ 13)

/-- The number written by the leading decimal digits. -/
def digitsValue (value : ℕ) : Bytes → ℕ
  | [] => value
  | digit :: rest =>
      if 48 ≤ digit ∧ digit ≤ 57 then digitsValue (value * 10 + (digit.toNat - 48)) rest else value

/-- `atol`: white space, an optional sign, digits; the result is clamped to a 64-bit `long`. -/
def atol (text : Bytes) : ℤ :=
  match text.dropWhile isSpace with
  | [] => 0
  | sign :: digits =>
      if sign = 45 then max (-2 ^ 63) (-(digitsValue 0 digits : ℤ))
      else if sign = 43 then min (2 ^ 63 - 1) (digitsValue 0 digits)
      else min (2 ^ 63 - 1) (digitsValue 0 (sign :: digits))

example : atol (ascii " 42abc") = 42 ∧ decimal (-305) = ascii "-305" := by decide

end WebServ.Text
