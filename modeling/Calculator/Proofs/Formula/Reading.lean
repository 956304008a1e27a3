import Calculator.Proofs.Formula.Writing
import Calculator.Proofs.Token.Numeral

/-!
# Reading formulas

A formula is read back from every text that it is written with, in whatever parentheses its parts
stand and wherever there are blanks: the pieces of the text derive an expression with the operators
and the numbers of the formula (`Formula.Writes.exists_derives`).
-/

namespace Calculator

open Parsing

variable {f : Formula} {ps : List Piece} {s : String} {e e' : Expr}

/-! ### What a formula denotes -/

lemma Literal.exists_value (l : Literal) : ∃ x, Number.ofText? l.text = some x := by
  obtain ⟨c, hc, hdigit⟩ := l.exists_digit
  have hplain : isPlainNumeral l.text.toList = true := by
    have := l.isNumeralText
    rwa [← String.ofList_toList (s := l.text), isNumeralText_iff] at this
  have hpoint : l.text.toList ≠ ['.'] := by
    intro hpoint
    rw [hpoint, List.mem_singleton] at hc
    rw [hc] at hdigit
    exact absurd hdigit (by decide)
  rw [← Option.ne_none_iff_exists', Number.ofText?, ne_eq,
    Numeral.read?_eq_none_iff_of_plain hplain (List.ne_nil_of_mem hc)]
  exact hpoint

namespace Formula

/-- The expression that a formula stands for, wherever its operators stand. -/
inductive Denotes : Formula → Expr → Prop where
  | literal {l : Literal} {x : Number} (hx : Number.ofText? l.text = some x) :
      Denotes (.literal l) (.number x)
  | binary (op : Operator) (span : Span) {left right : Formula} {l r : Expr} (hl : Denotes left l)
      (hr : Denotes right r) : Denotes (.binary op left right) (.binary op l r span)

lemma Denotes.of_alike {R : Span → Span → Prop} (h : f.Denotes e) (he : e.Alike R e') :
    f.Denotes e' := by
  induction h generalizing e' with
  | literal hx =>
    cases he with
    | number x => exact .literal hx
  | binary op span hl hr ihl ihr =>
    cases he with
    | binary op hl' hr' hsp => exact .binary op _ (ihl hl') (ihr hr')

/-- The category of a formula without parentheses around it. -/
def category : Formula → Category
  | .literal _ => .value
  | .binary op _ _ => if op.isAdditive then .expression else .term

end Formula

/-- A piece as a token, which stands nowhere in particular. -/
def Piece.token (p : Piece) : Token :=
  ⟨p.kind, p.text, 0⟩

lemma Parsing.Derives.of_value {ts : List Token} (h : Derives .value ts e) (c : Category) :
    Derives c ts e := by
  cases c with
  | value => exact h
  | term => exact .ofValue h
  | expression => exact h.expression

lemma Parsing.Derives.enclose {c : Category} (h : Derives c (ps.map Piece.token) e) :
    Derives .value ((Piece.leftParen :: (ps ++ [.rightParen])).map Piece.token) e := by
  rw [List.map_cons, List.map_append]
  exact .group rfl h.expression rfl

namespace Formula

/-- A formula that is no sum or difference, or is in parentheses, is a term. -/
lemma derives_term (h : Derives f.category (ps.map Piece.token) e) :
    Derives .term ((Piece.enclose f.isAdditive ps).map Piece.token) e := by
  cases hf : f.isAdditive with
  | true => exact .ofValue h.enclose
  | false =>
    cases f with
    | literal l => exact .ofValue h
    | binary op left right =>
      rw [isAdditive] at hf
      rw [category, hf] at h
      exact h

/-- A numeral, or an operation in parentheses, is a value. -/
lemma derives_value (h : Derives f.category (ps.map Piece.token) e) :
    Derives .value ((Piece.enclose f.isBinary ps).map Piece.token) e := by
  cases f with
  | literal l => exact h
  | binary op left right => exact h.enclose

/-- The pieces that write a formula derive what it denotes. -/
theorem Writes.exists_derives (h : f.Writes ps) :
    ∃ e, Derives f.category (ps.map Piece.token) e ∧ f.Denotes e := by
  induction h with
  | literal l =>
    obtain ⟨x, hx⟩ := l.exists_value
    exact ⟨.number x, .number rfl hx, .literal hx⟩
  | @binary op left right ps qs hl hr ihl ihr =>
    obtain ⟨l, hdl, hl⟩ := ihl
    obtain ⟨r, hdr, hr⟩ := ihr
    refine ⟨.binary op l r (Piece.operator op).token.span, ?_, .binary op _ hl hr⟩
    rw [List.map_append, List.map_cons, category]
    cases hop : op.isAdditive with
    | true => exact (derives_term hdl).add rfl hop hdr.expression
    | false => exact (derives_term hdl).mul rfl hop (derives_value hdr)
  | enclosed h ih =>
    obtain ⟨e, hd, he⟩ := ih
    exact ⟨e, hd.enclose.of_value _, he⟩

end Formula

lemma Piece.content_token (ps : List Piece) :
    Token.content (ps.map Piece.token) = ps.map fun p => (p.kind, p.text) := by
  rw [Token.content, List.map_map]
  rfl

/-- What the pieces of a text derive is read from it, but for the places of the operators. -/
lemma Spaced.exists_parse {c : Category} (h : Spaced ps s) (hps : ps.IsChain Piece.Meets)
    (hd : Derives c (ps.map Piece.token) e) :
    ∃ e', (parse s).result = .ok e' ∧ e.Alike (fun _ _ => True) e' := by
  have hcontent : Token.content (Cursor.ofText s).lexemes = Token.content (ps.map Piece.token) := by
    rw [Piece.content_token, ← h.content_eq hps]
    rfl
  obtain ⟨e', hd', ha⟩ := hd.expression.of_content hcontent
  exact ⟨e', parse_eq_ok_iff.2 hd', ha⟩

lemma Formula.Writes.exists_parse (h : f.Writes ps) (hs : Spaced ps s) :
    ∃ e, (parse s).result = .ok e ∧ f.Denotes e := by
  obtain ⟨e, hd, he⟩ := h.exists_derives
  obtain ⟨e', hparse, ha⟩ := hs.exists_parse h.isChain hd
  exact ⟨e', hparse, he.of_alike ha⟩

end Calculator
