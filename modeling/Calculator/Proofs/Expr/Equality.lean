import Calculator.Proofs.Expr.Matching
import Calculator.Proofs.Number.Comparison
import Calculator.Proofs.Parsing.Traversal

/-!
# Equality of expressions

Expressions are equal if they match with equal numbers and the same spans. This is an equivalence
on the expressions whose numbers are all numbers. Equal expressions may have values that differ,
but no further than in the sign of a zero: a zero of either sign is refused as a divisor, and
nothing else tells the two zeros apart. The number that is none does not occur in equal
expressions, yet it may come out of both.
-/

namespace Calculator

/-- Equal operands have equal results. A divisor could tell the zeros apart, but neither of them is
divided by. -/
theorem Operator.respects_equal : Respects Number.Equal := by
  intro op x x' y y' hx hy
  cases op with
  | add =>
    exact .some
      (Number.equal_of_upToZero (keepsUpToZero_add _ _ _ _ hx.upToZero hy.upToZero))
  | sub =>
    exact .some
      (Number.equal_of_upToZero (keepsUpToZero_sub _ _ _ _ hx.upToZero hy.upToZero))
  | mul =>
    exact .some
      (Number.equal_of_upToZero (keepsUpToZero_mul _ _ _ _ hx.upToZero hy.upToZero))
  | div =>
    rw [apply, apply]
    rcases Number.equal_iff.1 hy with rfl | ⟨rfl, rfl⟩ | ⟨rfl, rfl⟩
    · split
      · exact .none
      · exact .some (Number.equal_of_upToZero (div_upToZero hx.upToZero _))
    · exact .none
    · exact .none

namespace Expr

variable {N : Number → Number → Prop} {R : Span → Span → Prop} {a b c : Expr}

/-- An expression matches itself if its numbers are related to themselves. -/
lemma matches_self_iff (hR : ∀ sp, R sp sp) :
    Matches N R a a ↔ ∀ x, .number x ∈ a.inOrder → N x x := by
  induction a with
  | number x =>
    constructor
    · rintro ⟨h⟩ y hy
      simp only [inOrder, List.mem_singleton, Item.number.injEq] at hy
      rwa [hy]
    · intro h
      exact .number (h x (by simp [inOrder]))
  | binary op l r sp ihl ihr =>
    have hitems : (∀ x, .number x ∈ (binary op l r sp).inOrder → N x x) ↔
        (∀ x, .number x ∈ l.inOrder → N x x) ∧ ∀ x, .number x ∈ r.inOrder → N x x := by
      simp [inOrder, or_imp, forall_and]
    rw [hitems, ← ihl, ← ihr]
    constructor
    · rintro (_ | ⟨_, hl, hr, -⟩)
      exact ⟨hl, hr⟩
    · rintro ⟨hl, hr⟩
      exact .binary op hl hr (hR sp)

lemma beq_iff_matches : (a == b) = true ↔ a.Matches (fun x y => (x == y) = true) Eq b := by
  induction a generalizing b with
  | number x =>
    cases b with
    | number y =>
      rw [beq_number]
      constructor
      · exact fun h => .number h
      · rintro ⟨h⟩
        exact h
    | binary => exact iff_of_false nofun nofun
  | binary op l r sp ihl ihr =>
    cases b with
    | number => exact iff_of_false nofun nofun
    | binary op' l' r' sp' =>
      simp only [beq_binary, Bool.and_eq_true, beq_iff_eq, ihl, ihr]
      constructor
      · rintro ⟨⟨⟨rfl, hl⟩, hr⟩, rfl⟩
        exact .binary op hl hr rfl
      · rintro (_ | ⟨_, hl, hr, rfl⟩)
        exact ⟨⟨⟨rfl, hl⟩, hr⟩, rfl⟩

/-- The numbers of an expression decide whether it is equal to itself. -/
lemma beq_self_iff : (a == a) = true ↔ ∀ x, .number x ∈ a.inOrder → x.isNaN = false := by
  rw [beq_iff_matches, matches_self_iff fun sp => rfl]
  simp only [Float.beq_self_iff, Float.isNaN_eq_decide_eq_nan, decide_eq_false_iff_not]

/-- Equality is symmetric and transitive. -/
instance : PartialEquivBEq Expr where
  symm h := beq_iff_matches.2 ((beq_iff_matches.1 h).symm (fun _ _ => PartialEquivBEq.symm)
    fun _ _ => Eq.symm)
  trans h h' := beq_iff_matches.2 ((beq_iff_matches.1 h).trans
    (fun _ _ _ => PartialEquivBEq.trans) (fun _ _ _ => Eq.trans) (beq_iff_matches.1 h'))

lemma valueMatches_of_beq (h : (a == b) = true) :
    ValueMatches Number.Equal Eq a.eval b.eval :=
  ((beq_iff_matches.1 h).mono fun _ _ => Or.inl).eval Operator.respects_equal

/-- Expressions are equal if and only if they have the same shape, operators and spans, and numbers
that compare as equal. Equal expressions both have values, which compare as equal or are both no
number, or both are blamed for the same division, with dividends that are so. Equality is symmetric
and transitive, and an expression equals itself if and only if all its numbers are numbers. -/
theorem eval_of_beq :
    (∀ a b : Expr, (a == b) = true ↔ a.Matches (fun x y => (x == y) = true) Eq b) ∧
    (∀ a b : Expr, (a == b) = true → ValueMatches Number.Equal Eq a.eval b.eval) ∧
    (∀ a b : Expr, (a == b) = (b == a)) ∧
    (∀ a b c : Expr, (a == b) = true → (b == c) = true → (a == c) = true) ∧
    ∀ a : Expr, (a == a) = true ↔ ∀ x, .number x ∈ a.inOrder → x.isNaN = false :=
  ⟨fun _ _ => beq_iff_matches, fun _ _ => valueMatches_of_beq, fun _ _ => BEq.comm,
    fun _ _ _ => PartialEquivBEq.trans, fun _ => beq_self_iff⟩

/-- Two divisions by zero that are equal, though their dividends differ in sign. -/
theorem eval_of_beq_zeros :
    let a : Expr := .binary .div (.number 0) (.number (-0)) ⟨1, 1⟩
    let b : Expr := .binary .div (.number (-0)) (.number 0) ⟨1, 1⟩
    a.eval = .error ⟨⟨1, 1⟩, 0, none⟩ ∧ b.eval = .error ⟨⟨1, 1⟩, -0, none⟩ ∧
      (a == b) = true ∧ (b == a) = true ∧ (a == a) = true ∧
        ValueMatches Number.Equal Eq a.eval b.eval := by
  intro a b
  have hab : (a == b) = true := by decide +kernel
  have hba : (b == a) = true := by decide +kernel
  exact ⟨by decide +kernel, by decide +kernel, hab, hba, eval_of_beq.2.2.2.1 a b a hab hba,
    eval_of_beq.2.1 a b hab⟩

end Expr

end Calculator
