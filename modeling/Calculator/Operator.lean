import Calculator.Number

/-!
# Operators

The four operations of arithmetic on doubles. Division refuses a divisor that equals zero, of
either sign; nothing else is refused, so an infinity or a number that is none may come out.
-/

namespace Calculator

/-- The four operations. -/
inductive Operator where
  | add
  | sub
  | mul
  | div
deriving DecidableEq

namespace Operator

/-- The character that an operator is written with. -/
def symbol : Operator → Char
  | .add => '+'
  | .sub => '-'
  | .mul => '*'
  | .div => '/'

/-- The operator that a character stands for. -/
def ofSymbol? : Char → Option Operator
  | '+' => some .add
  | '-' => some .sub
  | '*' => some .mul
  | '/' => some .div
  | _ => none

/-- The text of an operator. -/
def text (op : Operator) : String := .singleton op.symbol

/-- Whether the operator adds or subtracts. Such an operator takes all that follows it as its
right operand, the others take the next value only. -/
def isAdditive : Operator → Bool
  | .add | .sub => true
  | .mul | .div => false

/-- Apply an operator to two numbers; there is no quotient by zero. -/
def apply : Operator → Number → Number → Option Number
  | .add, x, y => some (x + y)
  | .sub, x, y => some (x - y)
  | .mul, x, y => some (x * y)
  | .div, x, y => if y == 0 then none else some (x / y)

@[simp] theorem ofSymbol?_symbol (op : Operator) : ofSymbol? op.symbol = some op := by
  cases op <;> rfl

theorem ofSymbol?_eq_some_iff {c : Char} {op : Operator} :
    ofSymbol? c = some op ↔ c = op.symbol := by
  constructor
  · fun_cases ofSymbol? c <;> simp_all [symbol] <;> rintro rfl <;> rfl
  · rintro rfl
    exact ofSymbol?_symbol op

/-- Only a division by zero has no result. -/
theorem apply_eq_none_iff {op : Operator} {x y : Number} :
    op.apply x y = none ↔ op = .div ∧ (y == 0) = true := by
  cases op <;> simp [apply]

end Operator

end Calculator
