import Calculator.Decimal.Basic

/-!
# Positional notation

A decimal is written with its digits in their places: zeros fill the places up to the point, and
no exponent is ever written. A whole number has no point, and a fraction has at least one digit
on either side of it.
-/

namespace Calculator.Decimal

/-- The digits of `n`, with zeros in front up to a length of `width`. -/
def padded (width n : Nat) : List Char :=
  let digits := Nat.toDigits 10 n
  List.replicate (width - digits.length) '0' ++ digits

/-- Write a decimal in positional notation. -/
def positional (d : Decimal) : List Char :=
  match d.exponent with
  | .ofNat k => Nat.toDigits 10 d.digits ++ List.replicate k '0'
  | .negSucc k =>
    let places := k + 1
    let digits := padded (places + 1) d.digits
    digits.take (digits.length - places) ++ '.' :: digits.drop (digits.length - places)

theorem le_length_padded (width n : Nat) : width ≤ (padded width n).length := by
  simp only [padded, List.length_append, List.length_replicate]
  omega

/-- Zeros in front of the digits do not change the number. -/
theorem ofDigitChars_padded (width n : Nat) : Nat.ofDigitChars 10 (padded width n) 0 = n := by
  simp [padded, Nat.ofDigitChars_append, Nat.ofDigitChars_replicate_zero,
    Nat.ofDigitChars_ten_toDigits]

end Calculator.Decimal
