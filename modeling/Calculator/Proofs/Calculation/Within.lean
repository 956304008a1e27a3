import Calculator.Calculation
import Calculator.Proofs.Parsing.Grammar

/-!
# Texts within others

Where a text stands in another one, its tokens are further on, and so is the expression that they
derive. It has the same value there. A failure is the same one, too, but its place is further on,
and it carries the other text.
-/

namespace Calculator

variable {s t : String} {e : Expr} {c : Parsing.Category} {ts : List Token} {n : Nat}

/-! ### Places further on -/

/-- The same stretch further on in a text. -/
def Span.shift (n : Nat) (sp : Span) : Span :=
  { sp with offset := sp.offset + n }

/-- The same division by zero further on in a text. -/
def DivisionByZero.shift (n : Nat) (d : DivisionByZero) : DivisionByZero :=
  { d with operator := d.operator.shift n }

/-- The failure of a text that starts at the byte `n` of the text `s`. -/
def Failure.within (s : String) (n : Nat) : Failure → Failure
  | .malformed e => .malformed { e with token := e.token.shift n, source := s }
  | .divisionByZero d => .divisionByZero ((d.shift n).withSource s)

/-- The value of a text that comes after another one within the text `s`. -/
def calculateWithin (s before t : String) : Except Failure Number :=
  (calculate t).mapError (Failure.within s before.utf8ByteSize)

/-! ### Expressions further on -/

namespace Expr

/-- The same expression further on in a text. -/
def shift (n : Nat) : Expr → Expr
  | .number x => .number x
  | .binary op l r span => .binary op (l.shift n) (r.shift n) (span.shift n)

@[simp] lemma shift_zero (e : Expr) : e.shift 0 = e := by
  induction e with
  | number x => rfl
  | binary op l r span ihl ihr => rw [shift, ihl, ihr, Span.shift, Nat.add_zero]

lemma eval_shift (n : Nat) (e : Expr) :
    (e.shift n).eval = e.eval.mapError (DivisionByZero.shift n) := by
  fun_induction eval e with
  | case1 x => rfl
  | case2 op l r span d hl ihl =>
    rw [hl] at ihl
    exact eval_binary_of_left_error ihl
  | case3 op l r span x hl d hr ihl ihr =>
    rw [hl] at ihl
    rw [hr] at ihr
    exact eval_binary_of_right_error ihl ihr
  | case4 op l r span x hl y hr hz ihl ihr =>
    rw [hl] at ihl
    rw [hr] at ihr
    exact eval_binary_of_apply_none ihl ihr hz
  | case5 op l r span x hl y hr z hz ihl ihr =>
    rw [hl] at ihl
    rw [hr] at ihr
    exact eval_binary_of_apply_some ihl ihr hz

lemma evalIn_shift (n : Nat) (s t : String) (e : Expr) :
    (e.shift n).evalIn s = (e.evalIn t).mapError (Failure.within s n) := by
  rw [evalIn, evalIn, eval_shift]
  cases e.eval <;> rfl

end Expr

namespace Parsing

/-- Tokens further on derive the same expression, further on. -/
lemma Derives.shift (h : Derives c ts e) (n : Nat) :
    Derives c (ts.map (Token.shift n)) (e.shift n) := by
  induction h with
  | number ht hx => exact .number ht hx
  | group hl h hr ih =>
    rw [List.map_cons, List.map_append]
    exact .group hl ih hr
  | ofValue h ih => exact .ofValue ih
  | mul hl ht hop hr ihl ihr =>
    rw [List.map_append, List.map_cons]
    exact ihl.mul ht hop ihr
  | ofTerm h ih => exact .ofTerm ih
  | add hl ht hop hr ihl ihr =>
    rw [List.map_append, List.map_cons]
    exact ihl.add ht hop ihr

end Parsing

/-! ### Values -/

lemma calculate_of_derives (h : Parsing.Derives c (Cursor.ofText t).lexemes e) :
    calculate t = e.evalIn t := by
  rw [calculate, Parsing.parse_eq_ok_iff.2 h.expression]

/-- The expression of a text, evaluated where the text stands within another. -/
lemma evalIn_shift_of_derives (h : Parsing.Derives c (Cursor.ofText t).lexemes e)
    (s before : String) : (e.shift before.utf8ByteSize).evalIn s = calculateWithin s before t := by
  rw [calculateWithin, calculate_of_derives h, ← Expr.evalIn_shift]

lemma evalIn_of_derives (h : Parsing.Derives c (Cursor.ofText t).lexemes e) (s : String) :
    e.evalIn s = calculateWithin s "" t := by
  rw [← evalIn_shift_of_derives h, String.utf8ByteSize_empty, Expr.shift_zero]

/-- What an operator that has its place in the text `s` makes of two numbers. -/
def Operator.applyWithin (s : String) (place : Span) (op : Operator) (x y : Number) :
    Except Failure Number :=
  match op.apply x y with
  | some z => .ok z
  | none => .error (.divisionByZero ⟨place, x, some s⟩)

/-- The left operand fails first, then the right one, and then the operator. -/
lemma Expr.evalIn_binary (s : String) (op : Operator) (l r : Expr) (span : Span) :
    (binary op l r span).evalIn s =
      l.evalIn s >>= fun x => r.evalIn s >>= fun y => op.applyWithin s span x y := by
  rw [evalIn, evalIn, evalIn]
  cases hl : l.eval with
  | error d => rw [eval_binary_of_left_error hl]; rfl
  | ok x =>
    cases hr : r.eval with
    | error d => rw [eval_binary_of_right_error hl hr]; rfl
    | ok y =>
      change _ = op.applyWithin s span x y
      rw [Operator.applyWithin]
      cases hz : op.apply x y with
      | none => rw [eval_binary_of_apply_none hl hr hz]; rfl
      | some z => rw [eval_binary_of_apply_some hl hr hz]

/-- A text that is read as an expression fails with a division by zero only. -/
lemma exists_divisionByZero {f : Failure} (ht : ∃ e, (parse t).result = .ok e)
    (h : calculate t = .error f) : ∃ d, f = .divisionByZero d := by
  obtain ⟨e, he⟩ := ht
  rw [calculate, he] at h
  change e.evalIn t = .error f at h
  rw [Expr.evalIn] at h
  split at h
  · cases h
  · cases h
    exact ⟨_, rfl⟩

end Calculator
