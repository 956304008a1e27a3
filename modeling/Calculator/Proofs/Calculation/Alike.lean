import Calculator.Calculation
import Calculator.Proofs.Parsing.Simulation

/-!
# Calculations that are alike

Calculations on two texts are alike if they give the same number or the same failure, the place
and the text in it apart. They are as soon as the texts are read as expressions that evaluate
alike, or are rejected alike.
-/

namespace Calculator

variable {R : Span → Span → Prop} {s s' : String}

/-- Outcomes of calculations on two texts: the same number, or failures that differ in the place
and in the text only. -/
inductive OutcomeAlike (R : Span → Span → Prop) (s s' : String) :
    Except Failure Number → Except Failure Number → Prop where
  | ok (x : Number) : OutcomeAlike R s s' (.ok x) (.ok x)
  | malformed {t t' : Token} (fault : SyntaxError.Fault) (h : t.Alike R t') :
      OutcomeAlike R s s' (.error (.malformed ⟨fault, t, s⟩)) (.error (.malformed ⟨fault, t', s'⟩))
  | divisionByZero {sp sp' : Span} (x : Number) (h : R sp sp') :
      OutcomeAlike R s s' (.error (.divisionByZero ⟨sp, x, some s⟩))
        (.error (.divisionByZero ⟨sp', x, some s'⟩))

lemma evalIn_alike {e e' : Expr} (h : e.EvalAlike R e') :
    OutcomeAlike R s s' (e.evalIn s) (e'.evalIn s') := by
  rw [Expr.EvalAlike] at h
  rw [Expr.evalIn, Expr.evalIn]
  generalize e.eval = x, e'.eval = x' at h
  cases h with
  | ok x => exact .ok x
  | error x hsp => exact .divisionByZero x hsp

/-- Texts that are read alike are calculated alike. -/
theorem calculate_alike
    (h : Parsing.ResultAlike R (Expr.EvalAlike R) s s' (parse s).result (parse s').result) :
    OutcomeAlike R s s' (calculate s) (calculate s') := by
  rw [calculate, calculate]
  generalize (parse s).result = x, (parse s').result = x' at h
  cases h with
  | ok he => exact evalIn_alike he
  | error fault ht => exact .malformed fault ht

end Calculator
