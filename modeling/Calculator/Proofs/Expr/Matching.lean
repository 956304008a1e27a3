import Calculator.Expr.Value
import Mathlib.Tactic.Lemma

/-!
# Expressions that match

Two expressions match if they have the same operators in the same places. How their numbers are
related to one another, and how their spans are, is left open. As long as the operators respect the
relation between numbers, matching expressions have related values, or are blamed for the same
division with related dividends (`Expr.Matches.eval`).
-/

namespace Calculator

/-- Operators that are applied to related numbers give related numbers, or refuse both. -/
def Operator.Respects (N : Number → Number → Prop) : Prop :=
  ∀ (op : Operator) (x x' y y' : Number), N x x' → N y y' →
    Option.Rel N (op.apply x y) (op.apply x' y')

/-- The same operands give the same result. -/
lemma Operator.respects_of_eq {N : Number → Number → Prop} (hN : ∀ x y, N x y ↔ x = y) :
    Respects N := by
  intro op x x' y y' hx hy
  obtain rfl := (hN x x').1 hx
  obtain rfl := (hN y y').1 hy
  cases op.apply x y with
  | none => exact .none
  | some z => exact .some ((hN z z).2 rfl)

namespace Expr

variable {N N' : Number → Number → Prop} {R : Span → Span → Prop} {a b c l l' r r' : Expr}
  {op : Operator} {sp sp' : Span}

/-- The expressions have the same shape and the same operators, with numbers related by `N` and
spans related by `R`. -/
inductive Matches (N : Number → Number → Prop) (R : Span → Span → Prop) : Expr → Expr → Prop where
  | number {x y : Number} (h : N x y) : Matches N R (.number x) (.number y)
  | binary {l l' r r' : Expr} {sp sp' : Span} (op : Operator) (hl : Matches N R l l')
      (hr : Matches N R r r') (hsp : R sp sp') :
      Matches N R (.binary op l r sp) (.binary op l' r' sp')

lemma Matches.mono (hN : ∀ x y, N x y → N' x y) (h : Matches N R a b) : Matches N' R a b := by
  induction h with
  | number h => exact .number (hN _ _ h)
  | binary op hl hr hsp ihl ihr => exact .binary op ihl ihr hsp

lemma Matches.symm (hN : ∀ x y, N x y → N y x) (hR : ∀ sp sp', R sp sp' → R sp' sp)
    (h : Matches N R a b) : Matches N R b a := by
  induction h with
  | number h => exact .number (hN _ _ h)
  | binary op hl hr hsp ihl ihr => exact .binary op ihl ihr (hR _ _ hsp)

lemma Matches.trans (hN : ∀ x y z, N x y → N y z → N x z)
    (hR : ∀ sp sp' sp'', R sp sp' → R sp' sp'' → R sp sp'') (h : Matches N R a b)
    (h' : Matches N R b c) : Matches N R a c := by
  induction h generalizing c with
  | number h =>
    cases h' with
    | number h' => exact .number (hN _ _ _ h h')
  | binary op hl hr hsp ihl ihr =>
    cases h' with
    | binary _ hl' hr' hsp' => exact .binary op (ihl hl') (ihr hr') (hR _ _ _ hsp hsp')

/-! ### Evaluation -/

/-- Evaluations with related values, or with related dividends at a division by zero whose spans
are related as well. -/
inductive ValueMatches (N : Number → Number → Prop) (R : Span → Span → Prop) :
    Except DivisionByZero Number → Except DivisionByZero Number → Prop where
  | ok {x y : Number} (h : N x y) : ValueMatches N R (.ok x) (.ok y)
  | error {x y : Number} {sp sp' : Span} (h : N x y) (hsp : R sp sp') :
      ValueMatches N R (.error ⟨sp, x, none⟩) (.error ⟨sp', y, none⟩)

/-- The operands are looked at in the same order on both sides, so that the first division by
zero is the same. -/
lemma valueMatches_binary (hN : Operator.Respects N) (hl : ValueMatches N R l.eval l'.eval)
    (hr : ValueMatches N R r.eval r'.eval) (hsp : R sp sp') :
    ValueMatches N R (binary op l r sp).eval (binary op l' r' sp').eval := by
  generalize hx : l.eval = x, hx' : l'.eval = x' at hl
  cases hl with
  | error h hsp =>
    rw [eval_binary_of_left_error hx, eval_binary_of_left_error hx']
    exact .error h hsp
  | @ok x x' hxx =>
    generalize hy : r.eval = y, hy' : r'.eval = y' at hr
    cases hr with
    | error h hsp =>
      rw [eval_binary_of_right_error hx hy, eval_binary_of_right_error hx' hy']
      exact .error h hsp
    | @ok y y' hyy =>
      have happly := hN op x x' y y' hxx hyy
      generalize hz : op.apply x y = z, hz' : op.apply x' y' = z' at happly
      cases happly with
      | none =>
        rw [eval_binary_of_apply_none hx hy hz, eval_binary_of_apply_none hx' hy' hz']
        exact .error hxx hsp
      | some h =>
        rw [eval_binary_of_apply_some hx hy hz, eval_binary_of_apply_some hx' hy' hz']
        exact .ok h

/-- Matching expressions evaluate to related values, or fail at the same division. -/
theorem Matches.eval (hN : Operator.Respects N) (h : Matches N R a b) :
    ValueMatches N R a.eval b.eval := by
  induction h with
  | number h => exact .ok h
  | binary op hl hr hsp ihl ihr => exact valueMatches_binary hN ihl ihr hsp

end Expr

end Calculator
