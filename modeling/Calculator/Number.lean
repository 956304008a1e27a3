import Calculator.Decimal.Shortest
import Calculator.Decimal.Positional

/-!
# Numbers

The calculator computes with doubles. A number is written as the shortest decimal that reads back
as it, in positional notation; the three numbers that are no decimal have words of their own.
-/

namespace Calculator

/-- A double-precision number. -/
abbrev Number : Type := Float

namespace Number

/-- What a decimal above the range of the doubles reads as. -/
def infinity : Number := .ofBits 0x7ff0000000000000

/-- The number that stands for no number. -/
def nan : Number := .ofBits 0x7ff8000000000000

/-- The sign in front of a number; zero has one as well. -/
def signText : Float.Model.UnpackedFloat.Sign → List Char
  | .negative => ['-']
  | .positive => []

/-- The characters that a number is written with. -/
def write (x : Number) : List Char :=
  match x.toModel.unpack with
  | .notANumber => ['N', 'a', 'N']
  | .infinity s => signText s ++ ['i', 'n', 'f']
  | .zero s => signText s ++ ['0']
  | .finite s significand exponent h =>
    let size : Number := .ofModel (.pack (.finite .positive significand exponent h))
    signText s ++ (Decimal.shortest size (.ofBinary significand exponent)).positional

/-- The text of a number. -/
def text (x : Number) : String := .ofList x.write

@[simp] theorem toList_text (x : Number) : x.text.toList = x.write := by
  simp [text]

end Number

end Calculator
