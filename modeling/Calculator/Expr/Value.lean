import Calculator.Diagnostic
import Calculator.Expr.Basic

/-!
# The value of an expression

An expression is reduced to a number from the leaves up, the left operand before the right one.
The one thing that can go wrong is a division by zero; the first one met in that order is the one
that is reported.
-/

namespace Calculator

/-- A division whose divisor came out as zero. -/
structure DivisionByZero where
  /-- Where the division sign stands. -/
  operator : Span
  /-- The value of the left operand. -/
  dividend : Number
  /-- The text of the whole expression, if it is known. -/
  source : Option String
deriving DecidableEq

namespace DivisionByZero

/-- Attach the text of the whole expression. -/
def withSource (e : DivisionByZero) (source : String) : DivisionByZero :=
  { e with source := some source }

/-- The report on a division by zero. -/
def diagnostic (e : DivisionByZero) : Diagnostic where
  message := "division by zero"
  place := e.operator
  label := "this division"
  help := some "the right-hand side of `/` evaluated to exactly zero"
  code := none
  cause := none
  source := e.source

end DivisionByZero

namespace Expr

/-- Reduce an expression to a number. -/
def eval : Expr → Except DivisionByZero Number
  | .number x => .ok x
  | .binary op l r span =>
    match l.eval with
    | .error e => .error e
    | .ok x =>
      match r.eval with
      | .error e => .error e
      | .ok y =>
        match op.apply x y with
        | none => .error ⟨span, x, none⟩
        | some z => .ok z

@[simp] theorem eval_number (x : Number) : (number x).eval = .ok x := rfl

theorem eval_binary_of_left_error {op : Operator} {l r : Expr} {span : Span} {e : DivisionByZero}
    (h : l.eval = .error e) : (binary op l r span).eval = .error e := by
  simp [eval, h]

theorem eval_binary_of_right_error {op : Operator} {l r : Expr} {span : Span} {x : Number}
    {e : DivisionByZero} (hl : l.eval = .ok x) (hr : r.eval = .error e) :
    (binary op l r span).eval = .error e := by
  simp [eval, hl, hr]

theorem eval_binary_of_apply_none {op : Operator} {l r : Expr} {span : Span} {x y : Number}
    (hl : l.eval = .ok x) (hr : r.eval = .ok y) (h : op.apply x y = none) :
    (binary op l r span).eval = .error ⟨span, x, none⟩ := by
  simp [eval, hl, hr, h]

theorem eval_binary_of_apply_some {op : Operator} {l r : Expr} {span : Span} {x y z : Number}
    (hl : l.eval = .ok x) (hr : r.eval = .ok y) (h : op.apply x y = some z) :
    (binary op l r span).eval = .ok z := by
  simp [eval, hl, hr, h]

/-- No text is attached to the failure of an expression by itself. -/
theorem source_of_eval {t : Expr} {e : DivisionByZero} (h : t.eval = .error e) :
    e.source = none := by
  fun_induction eval t with grind

end Expr

end Calculator
