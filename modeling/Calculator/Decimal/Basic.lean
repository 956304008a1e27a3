/-!
# Decimals

A decimal is a natural number of units of a power of ten. Every finite double is one, and the
double that a decimal stands for is the one nearest to it, ties going to the even significand.
Numbers enter and leave the calculator through this type.
-/

namespace Calculator

/-- The number `digits · 10 ^ exponent`. -/
structure Decimal where
  digits : Nat
  exponent : Int
deriving DecidableEq

namespace Decimal

/-! ### Normal form -/

/-- Drop the zeros at the end of the digits, raising the exponent to match. Two decimals of the
same value trim to the same decimal. -/
def trim (d : Decimal) : Decimal :=
  if d.digits = 0 then ⟨0, 0⟩
  else if d.digits % 10 = 0 then trim ⟨d.digits / 10, d.exponent + 1⟩
  else d
termination_by d.digits

theorem trim_of_digits_eq_zero {d : Decimal} (h : d.digits = 0) : d.trim = ⟨0, 0⟩ := by
  rw [trim, if_pos h]

theorem trim_of_dvd {d : Decimal} (h : d.digits ≠ 0) (h10 : d.digits % 10 = 0) :
    d.trim = trim ⟨d.digits / 10, d.exponent + 1⟩ := by
  rw [trim, if_neg h, if_pos h10]

theorem trim_of_not_dvd {d : Decimal} (h10 : d.digits % 10 ≠ 0) : d.trim = d := by
  rw [trim, if_neg (by omega), if_neg h10]

/-- Trimming leaves zero, or digits that do not end in a zero. -/
theorem trim_eq_zero_or_not_dvd (d : Decimal) : d.trim = ⟨0, 0⟩ ∨ d.trim.digits % 10 ≠ 0 := by
  fun_induction trim d with
  | case1 => exact .inl rfl
  | case2 _ _ _ ih => exact ih
  | case3 _ _ h => exact .inr h

@[simp] theorem trim_trim (d : Decimal) : d.trim.trim = d.trim := by
  rcases trim_eq_zero_or_not_dvd d with h | h
  · rw [h, trim_of_digits_eq_zero rfl]
  · exact trim_of_not_dvd h

/-- A zero written at the end of the digits does not count. -/
theorem trim_mul_ten (n : Nat) (e : Int) : trim ⟨n * 10, e⟩ = trim ⟨n, e + 1⟩ := by
  by_cases h : n = 0
  · simp [h, trim_of_digits_eq_zero]
  · rw [trim_of_dvd (Nat.mul_ne_zero h (by decide)) (Nat.mul_mod_left n 10)]
    simp

/-! ### Doubles -/

/-- The double nearest to a decimal. -/
def toFloat (d : Decimal) : Float :=
  .ofModel (.ofScientific d.trim.digits d.trim.exponent)

@[simp] theorem toFloat_trim (d : Decimal) : d.trim.toFloat = d.toFloat := by
  simp [toFloat]

/-- Write `significand · 2 ^ exponent` out in decimal: a negative power of two is as many powers
of five, that many places after the point. -/
def ofBinary (significand : Nat) : (exponent : Int) → Decimal
  | .ofNat k => ⟨significand * Nat.pow 2 k, 0⟩
  | .negSucc k => ⟨significand * Nat.pow 5 (k + 1), .negSucc k⟩

end Decimal

end Calculator
