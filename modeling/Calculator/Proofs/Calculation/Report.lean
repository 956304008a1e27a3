import Calculator.Calculation
import Calculator.Proofs.Parsing.Grammar
import Calculator.Proofs.Parsing.Rejection
import Calculator.Proofs.Token.Partition

/-!
# What a report points at

A failed calculation is reported with the whole text and with one place in it. What stands there is
just what the report is about: the token at which the text was rejected, or the sign of the division
that has no value. Places are carried along from the tokens: a token covers its literal, and the
operators of an expression have the spans of the tokens they were read from.
-/

namespace Calculator

variable {s : String} {t : Token} {ts : List Token}

/-! ### Operators in an expression -/

/-- The operators of an expression from left to right, each with its span. -/
def Expr.operators : Expr → List (Operator × Span)
  | .number _ => []
  | .binary op l r span => l.operators ++ (op, span) :: r.operators

/-- A division by zero is one of the divisions of the expression. -/
lemma Expr.mem_operators_of_eval {e : Expr} {d : DivisionByZero} (h : e.eval = .error d) :
    (.div, d.operator) ∈ e.operators := by
  fun_induction eval e with
  | case1 x => cases h
  | case2 op l r span d' hl ih =>
    cases h
    exact List.mem_append_left _ (ih hl)
  | case3 op l r span x hl d' hr ihl ihr =>
    cases h
    exact List.mem_append_right _ (List.mem_cons_of_mem _ (ihr hr))
  | case4 op l r span x hl y hr hz ihl ihr =>
    cases h
    rw [(Operator.apply_eq_none_iff.1 hz).1]
    exact List.mem_append_right _ List.mem_cons_self
  | case5 => cases h

/-- The operator that a token stands for, with the span of the token. -/
def Token.operator? (t : Token) : Option (Operator × Span) :=
  t.kind.operator?.map fun op => (op, t.span)

lemma Token.operator?_eq_some_iff {op : Operator} {span : Span} :
    t.operator? = some (op, span) ↔ t.kind = .operator op ∧ t.span = span := by
  rw [Token.operator?]
  cases t.kind <;> simp [Token.Kind.operator?]

/-- The operators of an expression are those among its tokens, in the same order. -/
theorem Parsing.Nests.operators_eq {e : Expr} (h : Nests ts e) :
    e.operators = ts.filterMap Token.operator? := by
  have hsome {t : Token} {op : Operator} (ht : t.kind = .operator op) :
      t.operator? = some (op, t.span) := Token.operator?_eq_some_iff.2 ⟨ht, rfl⟩
  induction h with
  | number ht hx => simp [Expr.operators, Token.operator?, Token.Kind.operator?, ht]
  | group hl h hr ih => simp [Token.operator?, Token.Kind.operator?, hl, hr, ih]
  | binary hl ht hr ihl ihr => simp [Expr.operators, hsome ht, ihl, ihr]

/-! ### Reports -/

/-- The stretch of a text that a report points at is `w`. -/
def Diagnostic.PointsAt (d : Diagnostic) (s w : String) : Prop :=
  IsStretch s d.place.offset (d.place.offset + d.place.length) w

/-- The report on a syntax error points at the token at which the text was rejected. -/
lemma pointsAt_of_parse {e : SyntaxError} (h : (parse s).result = .error e) :
    e.source = s ∧ e.diagnostic.PointsAt s e.token.literal ∧
      (e.token.literal = "" ↔ e.diagnostic.place.offset = s.utf8ByteSize) ∧
      (e.token.literal = "" → e.diagnostic.message = "unexpected token `<eof>`") := by
  obtain ⟨hsource, us, vs, st, hvisible, -, hfeed⟩ := Parsing.parse_eq_error_iff.1 h
  have hmem : e.token ∈ Token.visible s := by
    rw [hvisible]
    exact List.mem_append_right us List.mem_cons_self
  refine ⟨hsource, (Token.isStretch_of_mem_visible hmem).1, Token.literal_eq_empty_iff hmem, ?_⟩
  intro hempty
  have hk : e.token.kind = .eof := by
    by_contra hk
    exact (Token.isStretch_of_mem_visible hmem).2.ne_empty hk hempty
  obtain ⟨x, hx⟩ := Parsing.Stack.fault_of_eof hfeed hk
  simp only [SyntaxError.diagnostic, SyntaxError.message, hx, hempty]
  rfl

/-- The report on a division by zero points at its sign. -/
lemma pointsAt_of_eval {e : Expr} {d : DivisionByZero} (h : (parse s).result = .ok e)
    (hd : e.eval = .error d) : d.diagnostic.PointsAt s "/" := by
  obtain ⟨ts, t, hs, -, hderives⟩ := Parsing.exists_derives_of_parse h
  have hop := Expr.mem_operators_of_eval hd
  rw [hderives.nests.operators_eq, List.mem_filterMap] at hop
  obtain ⟨u, hu, hop⟩ := hop
  obtain ⟨hk, hspan⟩ := Token.operator?_eq_some_iff.1 hop
  have hmem : u ∈ Token.visible s := by
    rw [hs]
    exact List.mem_append_left [t] hu
  obtain ⟨hstretch, hfits⟩ := Token.isStretch_of_mem_visible hmem
  rw [hk] at hfits
  have hlit : u.literal = "/" := hfits
  rw [Diagnostic.PointsAt, DivisionByZero.diagnostic, ← hspan, ← hlit]
  exact hstretch

/-- The report on a failed calculation has the whole text attached and points at a stretch of it,
the literal of the token that was refused or the sign of the division that failed. -/
theorem report_of_calculate_eq_error (s : String) (f : Failure) (h : calculate s = .error f) :
    f.diagnostic.namedSource = some ("<expression>", s) ∧
    ((∃ e, f = .malformed e ∧ (parse s).result = .error e ∧
        f.diagnostic.PointsAt s e.token.literal ∧
        (e.token.literal = "" ↔ f.diagnostic.place.offset = s.utf8ByteSize) ∧
        (e.token.literal = "" → f.diagnostic.message = "unexpected token `<eof>`")) ∨
      ∃ e d, f = .divisionByZero (d.withSource s) ∧ (parse s).result = .ok e ∧
        e.eval = .error d ∧ d.source = none ∧ f.diagnostic.PointsAt s "/") := by
  rw [calculate] at h
  cases hs : (parse s).result with
  | error e =>
    -- the text is no expression
    rw [hs] at h
    cases h
    obtain ⟨hsource, hpoints, hempty, hmessage⟩ := pointsAt_of_parse hs
    constructor
    · simp [Diagnostic.namedSource, Failure.diagnostic, SyntaxError.diagnostic, hsource,
        Diagnostic.sourceName]
    · exact .inl ⟨e, rfl, rfl, hpoints, hempty, hmessage⟩
  | ok e =>
    rw [hs] at h
    simp only [Expr.evalIn] at h
    cases hd : e.eval with
    | ok x =>
      rw [hd] at h
      cases h
    | error d =>
      -- the expression has no value, and the text is attached on the way out
      rw [hd] at h
      cases h
      have hpoints := pointsAt_of_eval hs hd
      exact ⟨rfl, .inr ⟨e, d, rfl, rfl, hd, Expr.source_of_eval hd, hpoints⟩⟩

theorem report_of_calculate_eq_error_accent :
    calculate "1 é" = .error (.malformed ⟨.missingOperator, ⟨.text, "é", 2⟩, "1 é"⟩) ∧
      (Failure.malformed ⟨.missingOperator, ⟨.text, "é", 2⟩, "1 é"⟩).diagnostic.PointsAt "1 é"
        "é" := by
  have h : calculate "1 é" = .error (.malformed ⟨.missingOperator, ⟨.text, "é", 2⟩, "1 é"⟩) := by
    decide +kernel
  refine ⟨h, ?_⟩
  rcases (report_of_calculate_eq_error _ _ h).2 with ⟨e, ⟨⟩, -, hpoints, -⟩ | ⟨e, d, ⟨⟩, -⟩
  exact hpoints

end Calculator
