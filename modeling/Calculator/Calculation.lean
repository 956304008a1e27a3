import Calculator.Expr.Value
import Calculator.Log
import Calculator.Parsing.Machine

/-!
# Calculation

A text is read as an expression, and the expression is reduced to a number; either can fail. The
log of a calculation tells what was read, token by token, then the expression, then its value, and
breaks off where the calculation does.
-/

namespace Calculator

/-- Why a text has no value. -/
inductive Failure where
  | malformed (error : SyntaxError)
  | divisionByZero (error : DivisionByZero)
deriving DecidableEq

/-- The report on a failure. -/
def Failure.diagnostic : Failure → Diagnostic
  | .malformed e => e.diagnostic
  | .divisionByZero e => e.diagnostic

/-- The value of an expression that was read from a text. -/
def Expr.evalIn (source : String) (e : Expr) : Except Failure Number :=
  match e.eval with
  | .ok x => .ok x
  | .error d => .error (.divisionByZero (d.withSource source))

/-- The value of a text. -/
def calculate (s : String) : Except Failure Number :=
  match (parse s).result with
  | .ok e => e.evalIn s
  | .error e => .error (.malformed e)

/-! ### Log -/

/-- The records of what was noted while reading a text. -/
def Parse.log (p : Parse) : List Log.Record :=
  p.trace.toList.map fun event => ⟨.trace, "calc::parse", event.text⟩

/-- The records of an expression and of its value, if it has one. -/
def Expr.log (e : Expr) : List Log.Record :=
  ⟨.debug, "calc", "parsed " ++ e.text⟩ ::
    match e.eval with
    | .ok x => [⟨.debug, "calc", e.text ++ " = " ++ x.text⟩]
    | .error _ => []

/-- The records of a calculation. -/
def calculationLog (s : String) : List Log.Record :=
  (parse s).log ++
    match (parse s).result with
    | .ok e => e.log
    | .error _ => []

end Calculator
