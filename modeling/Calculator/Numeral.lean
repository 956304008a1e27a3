import Calculator.Number

/-!
# Numerals

The grammar of the texts that read as a number. A numeral is an optional sign followed by a word
(`inf`, `infinity` or `nan`, in capitals or not) or by digits with at most one point among them
and at least one digit, after which an exponent may follow: an `e`, an optional sign and at least
one digit. Digits are the ten ASCII ones, and nothing else may stand before, between or after
these parts.
-/

namespace Calculator.Numeral

/-- Take a sign off the front, telling whether it is a minus sign. -/
def sign : List Char → Bool × List Char
  | '-' :: cs => (true, cs)
  | '+' :: cs => (false, cs)
  | cs => (false, cs)

/-- The exponent that ends a decimal; the empty text is the exponent zero. -/
def exponent? : List Char → Option Int
  | [] => some 0
  | c :: cs =>
    let (negative, digits) := sign cs
    if (c = 'e' ∨ c = 'E') ∧ digits ≠ [] ∧ digits.all Char.isDigit then
      let size : Int := Nat.ofDigitChars 10 digits 0
      some (if negative then -size else size)
    else
      none

/-- The digits after the point, if there is a point, and the text behind them. -/
def fraction : List Char → List Char × List Char
  | '.' :: cs => (cs.takeWhile Char.isDigit, cs.dropWhile Char.isDigit)
  | cs => ([], cs)

/-- The decimal that a text without a sign spells in digits. -/
def decimal? (cs : List Char) : Option Decimal :=
  let whole := cs.takeWhile Char.isDigit
  let (places, rest) := fraction (cs.dropWhile Char.isDigit)
  if whole ++ places = [] then none
  else (exponent? rest).map fun e => ⟨Nat.ofDigitChars 10 (whole ++ places) 0, e - places.length⟩

/-- The number that a word names. -/
def word? (cs : List Char) : Option Number :=
  let lower := cs.map Char.toLower
  if lower = ['i', 'n', 'f'] ∨ lower = ['i', 'n', 'f', 'i', 'n', 'i', 't', 'y'] then
    some Number.infinity
  else if lower = ['n', 'a', 'n'] then some Number.nan
  else none

/-- The number that a text without a sign spells. -/
def unsigned? (cs : List Char) : Option Number :=
  (word? cs).or ((decimal? cs).map Decimal.toFloat)

/-- The number that a list of characters spells. -/
def read? (cs : List Char) : Option Number :=
  let (negative, size) := sign cs
  (unsigned? size).map fun x => if negative then -x else x

end Calculator.Numeral

namespace Calculator

/-- The number that a text spells, if it is a numeral. -/
def Number.ofText? (s : String) : Option Number :=
  Numeral.read? s.toList

end Calculator
