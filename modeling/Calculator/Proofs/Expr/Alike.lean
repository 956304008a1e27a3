import Calculator.Proofs.Expr.Matching

/-!
# Expressions that are alike

Two texts may give expressions that differ in the places of their operators only. Which places
correspond to one another is left open here: it is a relation `R` between spans. Expressions that
are alike evaluate alike (`Expr.Alike.evalAlike`); if a division by zero comes up, it is the same
division in both.
-/

namespace Calculator.Expr

variable {R : Span → Span → Prop} {E : Expr → Expr → Prop}
variable {e e' l l' r r' : Expr} {op : Operator} {sp sp' : Span}

/-- A relation between expressions that goes along with putting them together. -/
structure IsCongruence (R : Span → Span → Prop) (E : Expr → Expr → Prop) : Prop where
  number (x : Number) : E (.number x) (.number x)
  binary {l l' r r' : Expr} {sp sp' : Span} (op : Operator) (hl : E l l') (hr : E r r')
    (hsp : R sp sp') : E (.binary op l r sp) (.binary op l' r' sp')

/-- Expressions that are equal up to the places of their operators. -/
inductive Alike (R : Span → Span → Prop) : Expr → Expr → Prop where
  | number (x : Number) : Alike R (.number x) (.number x)
  | binary {l l' r r' : Expr} {sp sp' : Span} (op : Operator) (hl : Alike R l l')
      (hr : Alike R r r') (hsp : R sp sp') : Alike R (.binary op l r sp) (.binary op l' r' sp')

lemma isCongruence_alike : IsCongruence R (Alike R) where
  number := .number
  binary := .binary

lemma IsCongruence.of_alike (hE : IsCongruence R E) (h : Alike R e e') : E e e' := by
  induction h with
  | number x => exact hE.number x
  | binary op hl hr hsp ihl ihr => exact hE.binary op ihl ihr hsp

/-! ### Evaluation -/

/-- Evaluations with the same value, or with the same dividend at a division by zero. -/
inductive ValueAlike (R : Span → Span → Prop) :
    Except DivisionByZero Number → Except DivisionByZero Number → Prop where
  | ok (x : Number) : ValueAlike R (.ok x) (.ok x)
  | error (x : Number) {sp sp' : Span} (h : R sp sp') :
      ValueAlike R (.error ⟨sp, x, none⟩) (.error ⟨sp', x, none⟩)

/-- Expressions that evaluate alike. -/
def EvalAlike (R : Span → Span → Prop) (e e' : Expr) : Prop :=
  ValueAlike R e.eval e'.eval

lemma evalAlike_of_eval {x : Number} (h : e.eval = .ok x) (h' : e'.eval = .ok x) :
    EvalAlike R e e' := by
  rw [EvalAlike, h, h']
  exact .ok x

/-- Values that are alike are related values, the relation being equality. -/
lemma valueAlike_iff {x y : Except DivisionByZero Number} :
    ValueAlike R x y ↔ ValueMatches Eq R x y := by
  constructor
  · rintro (x | ⟨x, h⟩)
    · exact .ok rfl
    · exact .error rfl h
  · rintro (⟨⟨⟩⟩ | ⟨⟨⟩, h⟩)
    · exact .ok _
    · exact .error _ h

lemma evalAlike_binary (hl : EvalAlike R l l') (hr : EvalAlike R r r') (hsp : R sp sp') :
    EvalAlike R (.binary op l r sp) (.binary op l' r' sp') := by
  rw [EvalAlike, valueAlike_iff] at hl hr ⊢
  exact valueMatches_binary (Operator.respects_of_eq fun _ _ => Iff.rfl) hl hr hsp

lemma isCongruence_evalAlike : IsCongruence R (EvalAlike R) where
  number x := .ok x
  binary _ hl hr hsp := evalAlike_binary hl hr hsp

/-- Expressions that are alike evaluate alike. -/
theorem Alike.evalAlike (h : Alike R e e') : EvalAlike R e e' :=
  isCongruence_evalAlike.of_alike h

end Calculator.Expr
