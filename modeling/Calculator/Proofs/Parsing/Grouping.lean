import Calculator.Proofs.Parsing.Grammar
import Calculator.Proofs.Token.Nesting

/-!
# Groups in expressions

In tokens that derive something all parentheses match. Without a pair of matching ones they still
derive an expression (`Derives.exists_unwrap`), but one that needs fewer pairs: no expression is
derived from tokens with fewer pairs of parentheses than it needs (`Derives.pairs_le`).
-/

namespace Calculator

/-! ### Parentheses that are needed -/

namespace Expr

/-- The expression is a sum or a difference. -/
def isAdditive : Expr → Bool
  | .number _ => false
  | .binary op _ _ _ => op.isAdditive

@[simp] lemma isAdditive_binary (op : Operator) (left right : Expr) (span : Span) :
    (binary op left right span).isAdditive = op.isAdditive := rfl

/-- The expression is more than a number. -/
def isBinary : Expr → Bool
  | .number _ => false
  | .binary _ _ _ _ => true

/-- How many pairs of parentheses it takes to write an expression. -/
def pairs : Expr → Nat
  | .number _ => 0
  | .binary op left right _ =>
    left.pairs + left.isAdditive.toNat +
      (right.pairs + (!op.isAdditive && right.isBinary).toNat)

lemma toNat_isAdditive_le (e : Expr) : e.isAdditive.toNat ≤ e.isBinary.toNat := by
  cases e with
  | number x => exact Nat.le_refl 0
  | binary op left right span => exact Bool.toNat_le op.isAdditive

end Expr

/-- How many groups are opened in a list of tokens. -/
def Token.groups (ts : List Token) : Nat :=
  ts.countP fun t => t.kind = .leftParen

lemma Token.groups_append (ts us : List Token) : groups (ts ++ us) = groups ts + groups us :=
  List.countP_append

lemma Token.groups_cons_of_ne {t : Token} (h : t.kind ≠ .leftParen) (ts : List Token) :
    groups (t :: ts) = groups ts := by
  simp [groups, h]

lemma Token.groups_enclose {l r : Token} (hl : l.kind = .leftParen) (hr : r.kind = .rightParen)
    (ts us : List Token) : groups (l :: (ts ++ r :: us)) = groups ts + groups us + 1 := by
  simp [groups, hl, hr]

/-- A pair of parentheses less. -/
lemma Token.Unwraps.groups_eq {ts vs zs : List Token} (h : Unwraps ts vs zs) :
    groups ts = groups zs + 1 := by
  obtain ⟨us, l, r, ws, rfl, rfl, hl, hr, -⟩ := h
  rw [groups_append, groups_enclose hl hr, groups_append, groups_append]
  rfl

namespace Parsing

variable {c : Category} {ts us vs zs : List Token} {t l r : Token} {e left right : Expr}
  {op : Operator}

lemma nesting_of_operator (h : t.kind = .operator op) : t.nesting = 0 := by
  rw [Token.nesting, h]
  rfl

theorem Nests.balanced (h : Nests ts e) : Balanced Token.nesting ts := by
  induction h with
  | number ht hx =>
    apply Balanced.singleton
    rw [Token.nesting, ht]
    rfl
  | group hl h hr ih =>
    exact ih.enclose (Token.nesting_leftParen hl) (Token.nesting_rightParen hr)
  | binary hl ht hr ihl ihr =>
    have := (Balanced.singleton (nesting_of_operator ht)).append ihr
    exact ihl.append this

lemma Derives.balanced (h : Derives c ts e) : Balanced Token.nesting ts :=
  h.nests.balanced

/-- The pairs of parentheses around a whole expression by which it gets into a category. -/
def Category.pairs : Category → Expr → Nat
  | .value, e => e.isBinary.toNat
  | .term, e => e.isAdditive.toNat
  | .expression, _ => 0

/-- Tokens have no fewer groups than what they derive has need of. -/
theorem Derives.pairs_le (h : Derives c ts e) : e.pairs + c.pairs e ≤ Token.groups ts := by
  induction h with
  | number ht hx => exact Nat.zero_le _
  | @group l r ts e hl h hr ih =>
    have hle : e.isBinary.toNat ≤ 1 := e.isBinary.toNat_le
    rw [Token.groups_enclose hl hr]
    simp only [Category.pairs] at ih ⊢
    omega
  | @ofValue ts e h ih =>
    have hle := e.toNat_isAdditive_le
    simp only [Category.pairs] at ih ⊢
    omega
  | mul hl ht hop hr ihl ihr =>
    rw [Token.groups_append, Token.groups_cons_of_ne (by simp [ht])]
    simp only [Category.pairs] at ihl ihr
    simp only [Category.pairs, Expr.pairs, Expr.isAdditive_binary, hop, Bool.not_false,
      Bool.true_and, Bool.toNat_false]
    omega
  | ofTerm h ih =>
    simp only [Category.pairs] at ih ⊢
    omega
  | add hl ht hop hr ihl ihr =>
    rw [Token.groups_append, Token.groups_cons_of_ne (by simp [ht])]
    simp only [Category.pairs] at ihl ihr
    simp only [Category.pairs, Expr.pairs, hop, Bool.not_true, Bool.false_and, Bool.toNat_false]
    omega

/-! ### Taking parentheses away -/

/-- A `*` or `/` in front of a term takes the first value of it, and what it gives is the start of
the term. -/
lemma Derives.exists_mul (h : Derives .term us right) (hl : Derives .term ts left)
    (ht : t.kind = .operator op) (hop : op.isAdditive = false) :
    ∃ e, Derives .term (ts ++ t :: us) e := by
  generalize hc : Category.term = c at h
  induction h with
  | number => cases hc
  | group => cases hc
  | ofValue h => exact ⟨_, hl.mul ht hop h⟩
  | @mul us vs t' op' left' right' hl' ht' hop' hr' ihl ihr =>
    obtain ⟨e, he⟩ := ihl hc
    have := he.mul ht' hop' hr'
    exact ⟨_, by simpa using this⟩
  | ofTerm => cases hc
  | add => cases hc

/-- Any operator joins a term and an expression to an expression. -/
lemma Derives.exists_prepend (h : Derives .expression us right) (hl : Derives .term ts left)
    (ht : t.kind = .operator op) : ∃ e, Derives .expression (ts ++ t :: us) e := by
  cases hop : op.isAdditive with
  | true => exact ⟨_, hl.add ht hop h⟩
  | false =>
    cases h with
    | ofTerm h =>
      obtain ⟨e, he⟩ := h.exists_mul hl ht hop
      exact ⟨e, .ofTerm he⟩
    | add hl' ht' hop' hr' =>
      obtain ⟨e, he⟩ := hl'.exists_mul hl ht hop
      have := he.add ht' hop' hr'
      exact ⟨_, by simpa using this⟩

/-- Any operator joins two expressions to one. -/
theorem Derives.exists_join (h : Derives .expression ts left) (ht : t.kind = .operator op)
    (hr : Derives .expression us right) : ∃ e, Derives .expression (ts ++ t :: us) e := by
  generalize hc : Category.expression = c at h
  induction h with
  | number => cases hc
  | group => cases hc
  | ofValue => cases hc
  | mul => cases hc
  | ofTerm h ih => exact hr.exists_prepend h ht
  | add hl' ht' hop' hr' ihl ihr =>
    obtain ⟨e, he⟩ := ihr hc
    have := hl'.add ht' hop' he
    exact ⟨_, by simpa using this⟩

/-- Without a pair of its parentheses whatever derives something derives an expression. -/
theorem Derives.exists_unwrap (h : Derives c ts e) (hts : Token.Unwraps ts vs zs) :
    ∃ e', Derives .expression zs e' := by
  induction h generalizing zs with
  | number ht hx => exact absurd hts Token.not_unwraps_singleton
  | group hl h hr ih =>
    rcases hts.of_enclose h.balanced with ⟨-, rfl⟩ | ⟨ys, hys, rfl⟩
    · exact ⟨_, h⟩
    · obtain ⟨e', he⟩ := ih hys
      exact ⟨e', (Derives.group hl he hr).expression⟩
  | ofValue h ih => exact ih hts
  | mul hl ht hop hr ihl ihr =>
    rcases hts.of_append (by simp [ht]) (by simp [ht]) hl.balanced with
      ⟨ys, hys, rfl⟩ | ⟨ys, hys, rfl⟩
    · obtain ⟨e', he⟩ := ihl hys
      exact he.exists_join ht hr.expression
    · obtain ⟨e', he⟩ := ihr hys
      exact he.exists_prepend hl ht
  | ofTerm h ih => exact ih hts
  | add hl ht hop hr ihl ihr =>
    rcases hts.of_append (by simp [ht]) (by simp [ht]) hl.balanced with
      ⟨ys, hys, rfl⟩ | ⟨ys, hys, rfl⟩
    · obtain ⟨e', he⟩ := ihl hys
      exact he.exists_join ht hr
    · obtain ⟨e', he⟩ := ihr hys
      exact he.exists_prepend hl ht

end Parsing

end Calculator
