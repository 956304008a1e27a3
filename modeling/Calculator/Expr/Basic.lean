import Calculator.Operator
import Calculator.Span

/-!
# Expressions

An expression is a number or an operator with two operands. Each operator keeps the span of the
text that it was read from. The text of an expression has the operator first and a pair of
parentheses around it and its operands; spans do not show there.
-/

namespace Calculator

/-- An arithmetic expression. -/
inductive Expr where
  | number (value : Number)
  | binary (op : Operator) (left right : Expr) (span : Span)
deriving DecidableEq

namespace Expr

/-- Compare expressions as the arithmetic compares numbers: positive and negative zero are equal,
and the number that is none differs from itself. Spans count. -/
def beq : Expr → Expr → Bool
  | .number x, .number y => x == y
  | .binary op l r sp, .binary op' l' r' sp' =>
    op == op' && beq l l' && beq r r' && sp == sp'
  | _, _ => false

instance : BEq Expr := ⟨beq⟩

@[simp] theorem beq_number (x y : Number) : (number x == number y) = (x == y) := by
  simp [BEq.beq, beq]

theorem beq_binary (op op' : Operator) (l r l' r' : Expr) (sp sp' : Span) :
    (binary op l r sp == binary op' l' r' sp') =
      (op == op' && l == l' && r == r' && sp == sp') := by
  rfl

/-! ### Text -/

/-- Write an expression in front of other characters. -/
def writeBefore : Expr → List Char → List Char
  | .number x, cs => x.write ++ cs
  | .binary op l r _, cs =>
    '(' :: op.symbol :: ' ' :: l.writeBefore (' ' :: r.writeBefore (')' :: cs))

/-- The characters that an expression is written with. -/
def write (e : Expr) : List Char := e.writeBefore []

theorem writeBefore_eq (e : Expr) (cs : List Char) : e.writeBefore cs = e.write ++ cs := by
  induction e generalizing cs with
  | number x => simp [write, writeBefore]
  | binary op l r sp ihl ihr =>
    simp only [write, writeBefore]
    rw [ihl, ihr, ihl (' ' :: _), ihr [')']]
    simp

@[simp] theorem write_number (x : Number) : (number x).write = x.write := by
  simp [write, writeBefore]

@[simp] theorem write_binary (op : Operator) (l r : Expr) (sp : Span) :
    (binary op l r sp).write =
      '(' :: op.symbol :: ' ' :: (l.write ++ ' ' :: (r.write ++ [')'])) := by
  simp only [write, writeBefore]
  rw [writeBefore_eq l, writeBefore_eq r]
  rfl

/-- The text of an expression. -/
def text (e : Expr) : String := .ofList e.write

@[simp] theorem toList_text (e : Expr) : e.text.toList = e.write := by
  simp [text]

end Expr

end Calculator
