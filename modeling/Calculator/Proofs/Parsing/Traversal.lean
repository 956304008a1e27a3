import Calculator.Proofs.Calculation.Report

/-!
# The order of an expression

From left to right an expression shows the numbers and the operators of its text, in the order in
which they stand there, each of them once and nothing besides. So whatever is on the left of an
operator in the expression is on its left in the text as well, however deep it is nested.
-/

namespace Calculator

variable {s : String} {t : Token} {ts : List Token} {d e l r : Expr} {op : Operator} {span : Span}

/-! ### From left to right -/

namespace Expr

/-- A number or an operator that an expression is made of. -/
inductive Item where
  | number (value : Number)
  | operator (op : Operator) (span : Span)

/-- What an expression is made of, from left to right. -/
def inOrder : Expr → List Item
  | .number x => [.number x]
  | .binary op l r span => l.inOrder ++ .operator op span :: r.inOrder

/-- The parts of an expression are itself and the parts of its operands. -/
inductive IsPart : Expr → Expr → Prop where
  | refl (e : Expr) : IsPart e e
  | left (op : Operator) {d l : Expr} (r : Expr) (span : Span) (h : IsPart d l) :
      IsPart d (.binary op l r span)
  | right (op : Operator) {d r : Expr} (l : Expr) (span : Span) (h : IsPart d r) :
      IsPart d (.binary op l r span)

/-- The operators of a part stand together. -/
lemma IsPart.operators_isInfix (h : IsPart d e) : d.operators <:+: e.operators := by
  induction h with
  | refl e => exact List.infix_rfl
  | left op r span h ih => exact ih.trans (List.prefix_append _ _).isInfix
  | @right op d r l span h ih =>
    have hsuffix : r.operators <:+ (Expr.binary op l r span).operators :=
      (List.suffix_cons (op, span) r.operators).trans (List.suffix_append l.operators _)
    exact ih.trans hsuffix.isInfix

end Expr

/-- What an expression has from a token: the number that it spells, or the operator that it is,
with the span of the token. -/
inductive Token.Gives (t : Token) : Expr.Item → Prop where
  | number {x : Number} (ht : t.kind = .number) (hx : Number.ofText? t.literal = some x) :
      Gives t (.number x)
  | operator {op : Operator} (ht : t.kind = .operator op) : Gives t (.operator op t.span)

/-- The token is a number or an operator. -/
def Token.isItem (t : Token) : Bool :=
  t.kind = .number ∨ t.kind.operator?.isSome

/-- An expression has all of its tokens but the parentheses, in the same order. -/
theorem Parsing.Nests.inOrder (h : Nests ts e) :
    List.Forall₂ Token.Gives (ts.filter Token.isItem) e.inOrder := by
  induction h with
  | number ht hx =>
    rw [List.filter_cons_of_pos (by simp [Token.isItem, ht]), List.filter_nil]
    exact .cons (.number ht hx) .nil
  | group hl h hr ih =>
    simpa [Token.isItem, hl, hr, Token.Kind.operator?] using ih
  | binary hl ht hr ihl ihr =>
    rw [List.filter_append,
      List.filter_cons_of_pos (by simp [Token.isItem, ht, Token.Kind.operator?])]
    exact List.rel_append ihl (.cons (.operator ht) ihr)

/-! ### Operators in their text -/

lemma filter_isItem_lexemes (s : String) :
    (Cursor.ofText s).lexemes.filter Token.isItem = (Token.tokens s).filter Token.isItem := by
  rw [Cursor.lexemes, Token.tokens_eq, List.filter_filter]
  apply List.filter_congr
  intro t _
  rw [Bool.and_eq_left_iff_imp]
  intro ht
  have hne : t.kind ≠ .whitespace ∧ t.kind ≠ .eof := by
    constructor
    · intro hk
      simp [Token.isItem, hk, Token.Kind.operator?] at ht
    · intro hk
      simp [Token.isItem, hk, Token.Kind.operator?] at ht
  simpa using hne

/-- The later an operator comes in an expression, the later it stands in the text. -/
lemma operators_pairwise (h : (parse s).result = .ok e) :
    e.operators.Pairwise fun p q => p.2.offset < q.2.offset := by
  rw [(Parsing.parse_eq_ok_iff.1 h).nests.operators_eq]
  refine ((Cursor.tokens_pairwise s.toList 0).filter _).filterMap _ ?_
  intro t u hlt p hp q hq
  obtain ⟨-, ht⟩ := Token.operator?_eq_some_iff.1 hp
  obtain ⟨-, hu⟩ := Token.operator?_eq_some_iff.1 hq
  rw [← ht, ← hu]
  exact hlt

/-- An operator has the span of its own sign. -/
lemma isStretch_of_mem_operators (h : (parse s).result = .ok e) (hop : (op, span) ∈ e.operators) :
    span.length = 1 ∧ IsStretch s span.offset (span.offset + span.length) op.text := by
  rw [(Parsing.parse_eq_ok_iff.1 h).nests.operators_eq, List.mem_filterMap] at hop
  obtain ⟨t, ht, hop⟩ := hop
  obtain ⟨hk, rfl⟩ := Token.operator?_eq_some_iff.1 hop
  obtain ⟨hstretch, hfits⟩ := Token.isStretch_of_mem_visible (Token.mem_visible_iff.2 (.inl ht))
  rw [hk] at hfits
  have hlit : t.literal = op.text := hfits
  rw [hlit] at hstretch
  constructor
  · rw [Token.span, hlit]
    cases op <;> rfl
  · rw [Token.span, hlit]
    exact hstretch

/-- An expression that was read has the numbers and the operators of its text from left to right,
each operator with the span of its sign. So the spans increase, and the operators of the operands
are on both sides of the one between them. -/
theorem inOrder_of_parse_eq_ok (s : String) (e : Expr) (h : (parse s).result = .ok e) :
    List.Forall₂ Token.Gives ((Token.tokens s).filter Token.isItem) e.inOrder ∧
    (e.operators.Pairwise fun p q => p.2.offset < q.2.offset) ∧
    (e.operators.map Prod.snd).Nodup ∧
    (∀ op span, (op, span) ∈ e.operators →
      span.length = 1 ∧ IsStretch s span.offset (span.offset + span.length) op.text) ∧
    ∀ op l r span, Expr.IsPart (.binary op l r span) e →
      (∀ p ∈ l.operators, p.2.offset + p.2.length ≤ span.offset) ∧
        ∀ p ∈ r.operators, span.offset + span.length ≤ p.2.offset := by
  have hpairwise := operators_pairwise h
  refine ⟨?_, hpairwise, ?_, ?_, ?_⟩
  · rw [← filter_isItem_lexemes]
    exact (Parsing.parse_eq_ok_iff.1 h).nests.inOrder
  · rw [List.nodup_iff_pairwise_ne, List.pairwise_map]
    apply hpairwise.imp
    intro p q hlt heq
    exact hlt.ne (congrArg Span.offset heq)
  · intro op span hop
    exact isStretch_of_mem_operators h hop
  · intro op l r span hpart
    have hlist := hpart.operators_isInfix
    have hlength {p : Operator × Span} (hp : p ∈ (Expr.binary op l r span).operators) :
        p.2.length = 1 :=
      (isStretch_of_mem_operators h (hlist.mem hp)).1
    have hpart := hpairwise.sublist hlist.sublist
    rw [Expr.operators, List.pairwise_append, List.pairwise_cons] at hpart
    obtain ⟨-, ⟨hright, -⟩, hleft⟩ := hpart
    constructor
    · intro p hp
      rw [hlength (List.mem_append_left _ hp)]
      exact hleft p hp _ List.mem_cons_self
    · intro p hp
      rw [hlength (p := (op, span)) (List.mem_append_right _ List.mem_cons_self)]
      exact hright p hp

theorem inOrder_of_parse_eq_ok_group :
    (parse "(7-2)*3").result =
        .ok (.binary .mul (.binary .sub (.number 7) (.number 2) ⟨2, 1⟩) (.number 3) ⟨5, 1⟩) ∧
      List.Forall₂ Token.Gives ((Token.tokens "(7-2)*3").filter Token.isItem)
        [.number 7, .operator .sub ⟨2, 1⟩, .number 2, .operator .mul ⟨5, 1⟩, .number 3] := by
  have h : (parse "(7-2)*3").result =
      .ok (.binary .mul (.binary .sub (.number 7) (.number 2) ⟨2, 1⟩) (.number 3) ⟨5, 1⟩) := by
    decide +kernel
  exact ⟨h, (inOrder_of_parse_eq_ok _ _ h).1⟩

end Calculator
