import Calculator.Proofs.Number.Comparison
import Calculator.Proofs.Parsing.Traversal

/-!
# Divisions by zero

An expression has no value exactly if one of its divisions has operands with values and a divisor
that is zero. Such a division has no other one in its operands, so that the first of them from left
to right is also the first that is met when the operands are reduced one after the other; this is
the one that is blamed. Without such a division the value is what the arithmetic of doubles gives,
from the leaves up.
-/

namespace Calculator

variable {e l r p : Expr} {op : Operator} {span : Span} {d : DivisionByZero} {x y : Number}

/-- The operation on doubles that an operator stands for, where no divisor is refused. -/
def Operator.arith : Operator → Number → Number → Number
  | .add, x, y => x + y
  | .sub, x, y => x - y
  | .mul, x, y => x * y
  | .div, x, y => x / y

lemma Operator.apply_eq_some_iff {z : Number} :
    op.apply x y = some z ↔ ¬ (op = .div ∧ (y == 0) = true) ∧ z = op.arith x y := by
  have hsome (w : Number) : some w = some z ↔ z = w := by rw [Option.some.injEq, eq_comm]
  cases op with
  | add => simp [apply, arith, hsome]
  | sub => simp [apply, arith, hsome]
  | mul => simp [apply, arith, hsome]
  | div =>
    rw [apply]
    split <;> simp_all [arith]

namespace Expr

/-- What the operators of an expression make of its numbers, from the leaves up. -/
def value : Expr → Number
  | .number x => x
  | .binary op l r _ => op.arith l.value r.value

/-- The parts of an expression from left to right: each one stands behind the parts of its left
operand and before those of its right operand. -/
def parts : Expr → List Expr
  | .number x => [.number x]
  | .binary op l r span => l.parts ++ .binary op l r span :: r.parts

/-- The expression is a division of two operands that have values, that of the right one being
zero. This is what is to be said of it. -/
inductive IsZeroDivision : Expr → DivisionByZero → Prop where
  | quotient {l r : Expr} {x y : Number} (span : Span) (hl : l.eval = .ok x) (hr : r.eval = .ok y)
      (hy : y = 0 ∨ y = -0) : IsZeroDivision (.binary .div l r span) ⟨span, x, none⟩

/-! ### One division by zero -/

lemma IsZeroDivision.unique {d' : DivisionByZero} (h : p.IsZeroDivision d)
    (h' : p.IsZeroDivision d') : d = d' := by
  cases h with
  | quotient span hl hr hy =>
    cases h' with
    | quotient _ hl' hr' hy' =>
      rw [hl] at hl'
      cases hl'
      rfl

/-- A division by zero has operands with values, and no value itself. -/
lemma IsZeroDivision.of_binary (h : (binary op l r span).IsZeroDivision d) :
    (∃ x, l.eval = .ok x) ∧ (∃ y, r.eval = .ok y) ∧ (binary op l r span).eval = .error d := by
  cases h with
  | quotient _ hl hr hy =>
    refine ⟨⟨_, hl⟩, ⟨_, hr⟩, eval_binary_of_apply_none hl hr ?_⟩
    exact Operator.apply_eq_none_iff.2 ⟨rfl, Number.beq_zero_iff.2 hy⟩

lemma not_isZeroDivision_number : ¬ (number x).IsZeroDivision d := by
  rintro ⟨⟩

/-! ### The first division by zero -/

/-- In an expression with a value there is no division by zero, and the value is computed from
those of the leaves. -/
theorem of_eval_eq_ok (h : e.eval = .ok x) :
    (∀ p ∈ e.parts, ∀ d, ¬ p.IsZeroDivision d) ∧ x = e.value := by
  fun_induction eval e generalizing x with
  | case1 y =>
    cases h
    exact ⟨List.forall_mem_singleton.2 fun d => not_isZeroDivision_number, rfl⟩
  | case2 => cases h
  | case3 => cases h
  | case4 => cases h
  | case5 op l r span y hl z hr w hw ihl ihr =>
    cases h
    obtain ⟨hleft, rfl⟩ := ihl hl
    obtain ⟨hright, rfl⟩ := ihr hr
    obtain ⟨-, hvalue⟩ := Operator.apply_eq_some_iff.1 hw
    refine ⟨List.forall_mem_append.2 ⟨hleft, List.forall_mem_cons.2 ⟨?_, hright⟩⟩, hvalue⟩
    intro d hd
    have heval := hd.of_binary.2.2
    rw [eval_binary_of_apply_some hl hr hw] at heval
    cases heval

/-- The division that is blamed is the first one by zero. If it is in the right operand, then there
is none in the left one, and the expression itself is none. -/
theorem exists_split_of_eval_eq_error (h : e.eval = .error d) :
    ∃ us p vs, e.parts = us ++ p :: vs ∧ p.IsZeroDivision d ∧
      ∀ u ∈ us, ∀ d', ¬ u.IsZeroDivision d' := by
  fun_induction eval e with
  | case1 => cases h
  | case2 op l r span d' hl ihl =>
    cases h
    obtain ⟨us, p, vs, hparts, hp, hus⟩ := ihl hl
    exact ⟨us, p, vs ++ .binary op l r span :: r.parts, by simp [parts, hparts], hp, hus⟩
  | case3 op l r span x hl d' hr ihl ihr =>
    cases h
    obtain ⟨us, p, vs, hparts, hp, hus⟩ := ihr hr
    refine ⟨l.parts ++ .binary op l r span :: us, p, vs, by simp [parts, hparts], hp, ?_⟩
    refine List.forall_mem_append.2 ⟨(of_eval_eq_ok hl).1, List.forall_mem_cons.2 ⟨?_, hus⟩⟩
    intro d' hd'
    obtain ⟨-, ⟨y, hy⟩, -⟩ := hd'.of_binary
    rw [hr] at hy
    cases hy
  | case4 op l r span x hl y hr hz ihl ihr =>
    cases h
    obtain ⟨rfl, hy⟩ := Operator.apply_eq_none_iff.1 hz
    exact ⟨l.parts, _, r.parts, rfl, .quotient span hl hr (Number.beq_zero_iff.1 hy),
      (of_eval_eq_ok hl).1⟩
  | case5 => cases h

lemma find?_parts [DecidablePred fun q : Expr => ∃ d, q.IsZeroDivision d] {us vs : List Expr}
    (hparts : e.parts = us ++ p :: vs) (hp : p.IsZeroDivision d)
    (hus : ∀ u ∈ us, ∀ d', ¬ u.IsZeroDivision d') :
    e.parts.find? (fun q => ∃ d, q.IsZeroDivision d) = some p := by
  rw [List.find?_eq_some_iff_append]
  exact ⟨by simpa using ⟨d, hp⟩, us, vs, hparts, by simpa using hus⟩

theorem eval_eq_error_iff : e.eval = .error d ↔
    ∃ us p vs, e.parts = us ++ p :: vs ∧ p.IsZeroDivision d ∧
      ∀ u ∈ us, ∀ d', ¬ u.IsZeroDivision d' := by
  constructor
  · exact exists_split_of_eval_eq_error
  · rintro ⟨us, p, vs, hparts, hp, hus⟩
    have hmem : p ∈ e.parts := by
      rw [hparts]
      exact List.mem_append_right us List.mem_cons_self
    cases heval : e.eval with
    | ok x => exact absurd hp ((of_eval_eq_ok heval).1 p hmem d)
    | error d' =>
      obtain ⟨us', p', vs', hparts', hp', hus'⟩ := exists_split_of_eval_eq_error heval
      classical
      have hfind := find?_parts hparts hp hus
      rw [find?_parts hparts' hp' hus'] at hfind
      cases hfind
      rw [hp'.unique hp]

theorem exists_eval_eq_error_iff :
    (∃ d, e.eval = .error d) ↔ ∃ p ∈ e.parts, ∃ d, p.IsZeroDivision d := by
  constructor
  · rintro ⟨d, h⟩
    obtain ⟨us, p, vs, hparts, hp, -⟩ := eval_eq_error_iff.1 h
    exact ⟨p, by simp [hparts], d, hp⟩
  · rintro ⟨p, hmem, d, hp⟩
    cases h : e.eval with
    | ok x => exact absurd hp ((of_eval_eq_ok h).1 p hmem d)
    | error d' => exact ⟨d', rfl⟩

theorem eval_eq_ok_iff :
    e.eval = .ok x ↔ (∀ p ∈ e.parts, ∀ d, ¬ p.IsZeroDivision d) ∧ x = e.value := by
  constructor
  · exact of_eval_eq_ok
  · rintro ⟨hparts, rfl⟩
    cases h : e.eval with
    | ok x => rw [(of_eval_eq_ok h).2]
    | error d =>
      obtain ⟨p, hmem, d, hp⟩ := exists_eval_eq_error_iff.1 ⟨d, h⟩
      exact absurd hp (hparts p hmem d)

/-! ### Operators in their text -/

/-- The operator at the root of an expression, with its span. -/
def root? : Expr → Option (Operator × Span)
  | .number _ => none
  | .binary op _ _ span => some (op, span)

lemma filterMap_root?_parts (e : Expr) : e.parts.filterMap root? = e.operators := by
  induction e with
  | number x => rfl
  | binary op l r span ihl ihr => simp [parts, operators, root?, ihl, ihr]

lemma IsZeroDivision.root?_eq (h : p.IsZeroDivision d) : p.root? = some (.div, d.operator) := by
  cases h
  rfl

end Expr

/-- An expression fails if and only if one of its divisions has operands with values and a divisor
that is zero. The first such division from left to right is blamed; in an expression that was read
from a text, its sign comes before the signs of all others of this sort. -/
theorem eval_eq_error_iff_parts :
    (∀ e : Expr, (∃ d, e.eval = .error d) ↔ ∃ p ∈ e.parts, ∃ d, p.IsZeroDivision d) ∧
    (∀ (e : Expr) (d : DivisionByZero), e.eval = .error d ↔
      ∃ us p vs, e.parts = us ++ p :: vs ∧ p.IsZeroDivision d ∧
        ∀ u ∈ us, ∀ d', ¬ u.IsZeroDivision d') ∧
    (∀ (e : Expr) (x : Number), e.eval = .ok x ↔
      (∀ p ∈ e.parts, ∀ d, ¬ p.IsZeroDivision d) ∧ x = e.value) ∧
    ∀ (s : String) (e : Expr) (d : DivisionByZero), (parse s).result = .ok e →
      e.eval = .error d → ∃ us p vs, e.parts = us ++ p :: vs ∧ p.IsZeroDivision d ∧
        ∀ q ∈ us ++ vs, ∀ d', q.IsZeroDivision d' → d.operator.offset < d'.operator.offset := by
  refine ⟨fun e => Expr.exists_eval_eq_error_iff, fun e d => Expr.eval_eq_error_iff,
    fun e x => Expr.eval_eq_ok_iff, ?_⟩
  intro s e d hs h
  obtain ⟨us, p, vs, hparts, hp, hus⟩ := Expr.eval_eq_error_iff.1 h
  refine ⟨us, p, vs, hparts, hp, ?_⟩
  intro q hq d' hd'
  rcases List.mem_append.1 hq with hq | hq
  · exact absurd hd' (hus q hq d')
  · have hpairwise := operators_pairwise hs
    rw [← e.filterMap_root?_parts, List.pairwise_filterMap, hparts, List.pairwise_append,
      List.pairwise_cons] at hpairwise
    exact hpairwise.2.1.1 q hq _ hp.root?_eq _ hd'.root?_eq

theorem eval_eq_error_iff_parts_quotients :
    ∃ e, (parse "6/(3-3)-1/0").result = .ok e ∧ e.eval = .error ⟨⟨1, 1⟩, 6, none⟩ ∧
      ∃ us p vs, e.parts = us ++ p :: vs ∧ p.IsZeroDivision ⟨⟨1, 1⟩, 6, none⟩ ∧
        ∀ q ∈ us ++ vs, ∀ d', q.IsZeroDivision d' → 1 < d'.operator.offset := by
  let e : Expr := .binary .sub
    (.binary .div (.number 6) (.binary .sub (.number 3) (.number 3) ⟨4, 1⟩) ⟨1, 1⟩)
    (.binary .div (.number 1) (.number 0) ⟨9, 1⟩) ⟨7, 1⟩
  have hs : (parse "6/(3-3)-1/0").result = .ok e := by decide +kernel
  have h : e.eval = .error ⟨⟨1, 1⟩, 6, none⟩ := by decide +kernel
  exact ⟨e, hs, h, eval_eq_error_iff_parts.2.2.2 _ e _ hs h⟩

end Calculator
