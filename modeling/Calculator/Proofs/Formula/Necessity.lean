import Calculator.Proofs.Calculation.Report
import Calculator.Proofs.Formula.Reading
import Calculator.Proofs.Parsing.Grouping

/-!
# Parentheses that cannot be left out

A formula is written with the parentheses that it needs, and without any pair of them its text is
read as an expression of another shape. For an expression of the same shape, with the same operators
in the same order, needs as many pairs as before, and now there is one pair less.
-/

namespace Calculator

open Parsing

variable {f : Formula} {p q : Piece} {ps us vs ws : List Piece} {e e' : Expr}

/-! ### Shapes -/

/-- What is left of an expression when operators and numbers are not looked at. -/
inductive Shape where
  | leaf
  | node (left right : Shape)
deriving DecidableEq

def Expr.shape : Expr → Shape
  | .number _ => .leaf
  | .binary _ left right _ => .node left.shape right.shape

def Formula.shape : Formula → Shape
  | .literal _ => .leaf
  | .binary _ left right => .node left.shape right.shape

lemma Expr.Alike.shape_eq {R : Span → Span → Prop} (h : e.Alike R e') : e.shape = e'.shape := by
  induction h with
  | number x => rfl
  | binary op hl hr hsp ihl ihr => rw [shape, shape, ihl, ihr]

lemma Expr.length_operators_eq (h : e.shape = e'.shape) :
    e.operators.length = e'.operators.length := by
  induction e generalizing e' with
  | number x =>
    cases e' with
    | number x' => rfl
    | binary op' left' right' span' => cases h
  | binary op left right span ihl ihr =>
    cases e' with
    | number x' => cases h
    | binary op' left' right' span' =>
      obtain ⟨hl, hr⟩ := Shape.node.inj h
      simp [operators, ihl hl, ihr hr]

/-- Expressions that agree in shape and operators need parentheses in the same places. -/
lemma Expr.pairs_eq (h : e.shape = e'.shape) (hop : e.operators = e'.operators) :
    e.pairs = e'.pairs ∧ e.isAdditive = e'.isAdditive ∧ e.isBinary = e'.isBinary := by
  induction e generalizing e' with
  | number x =>
    cases e' with
    | number x' => exact ⟨rfl, rfl, rfl⟩
    | binary op' left' right' span' => cases h
  | binary op left right span ihl ihr =>
    cases e' with
    | number x' => cases h
    | binary op' left' right' span' =>
      obtain ⟨hl, hr⟩ := Shape.node.inj h
      obtain ⟨hopl, htail⟩ := List.append_inj hop (length_operators_eq hl)
      obtain ⟨hroot, hopr⟩ := List.cons.inj htail
      obtain ⟨rfl, rfl⟩ := Prod.mk.inj hroot
      obtain ⟨hpl, hal, hbl⟩ := ihl hl hopl
      obtain ⟨hpr, har, hbr⟩ := ihr hr hopr
      rw [pairs, pairs, hpl, hal, hpr, hbr]
      exact ⟨rfl, rfl, rfl⟩

/-! ### Formulas and their expressions -/

namespace Formula

lemma Denotes.shape_eq (h : f.Denotes e) : e.shape = f.shape := by
  induction h with
  | literal hx => rfl
  | binary op span hl hr ihl ihr => rw [Expr.shape, shape, ihl, ihr]

lemma Denotes.isAdditive_eq (h : f.Denotes e) : e.isAdditive = f.isAdditive := by
  cases h with
  | literal hx => rfl
  | binary op span hl hr => rfl

lemma Denotes.isBinary_eq (h : f.Denotes e) : e.isBinary = f.isBinary := by
  cases h with
  | literal hx => rfl
  | binary op span hl hr => rfl

end Formula

/-! ### Counting pairs -/

lemma Piece.groups_enclose (b : Bool) (ps : List Piece) :
    Token.groups ((enclose b ps).map token) = Token.groups (ps.map token) + b.toNat := by
  cases b with
  | false => rfl
  | true =>
    have hmap : (enclose true ps).map token =
        token .leftParen :: (ps.map token ++ [token .rightParen]) := by
      rw [enclose, if_pos rfl, List.map_cons, List.map_append]
      rfl
    rw [hmap, Token.groups_enclose rfl rfl]
    rfl

/-- A formula is written with as many pairs of parentheses as its expression needs. -/
theorem Formula.Denotes.groups_pieces (h : f.Denotes e) :
    Token.groups (f.pieces.map Piece.token) = e.pairs := by
  induction h with
  | literal hx => rfl
  | @binary op span left right l r hl hr ihl ihr =>
    have hop : (Piece.token (.operator op)).kind ≠ .leftParen := by simp [Piece.token, Piece.kind]
    rw [pieces, List.map_append, List.map_cons, Token.groups_append,
      Token.groups_cons_of_ne hop, Piece.groups_enclose, Piece.groups_enclose, ihl, ihr,
      ← hl.isAdditive_eq, ← hr.isBinary_eq]
    rfl

lemma Token.Unwraps.filterMap_operator? {ts vs zs : List Token} (h : Unwraps ts vs zs) :
    zs.filterMap operator? = ts.filterMap operator? := by
  obtain ⟨us, l, r, ws, rfl, rfl, hl, hr, -⟩ := h
  simp [operator?, Kind.operator?, hl, hr]

/-- Where there are no more parentheses than are needed, a pair less makes another shape. -/
theorem Parsing.Derives.shape_ne {c d : Category} {ts vs zs : List Token} (h : Derives c ts e)
    (hts : Token.Unwraps ts vs zs) (h' : Derives d zs e') (hpairs : Token.groups ts = e.pairs) :
    e'.shape ≠ e.shape := by
  intro hshape
  have hop : e'.operators = e.operators := by
    rw [h'.nests.operators_eq, h.nests.operators_eq, hts.filterMap_operator?]
  have heq := (Expr.pairs_eq hshape hop).1
  have hle := h'.pairs_le
  have hgroups := hts.groups_eq
  omega

/-! ### Parentheses in a text -/

/-- How a character changes the level. -/
def charNesting : Char → Int
  | '(' => 1
  | ')' => -1
  | _ => 0

lemma charNesting_of_ofSymbol? {c : Char} {kind : Token.Kind}
    (h : Token.Kind.ofSymbol? c = some kind) : charNesting c = kind.nesting := by
  revert h
  fun_cases Token.Kind.ofSymbol? c with
  | case1 =>
    rintro ⟨⟩
    rfl
  | case2 =>
    rintro ⟨⟩
    rfl
  | case3 =>
    rw [Option.map_eq_some_iff]
    rintro ⟨op, hop, rfl⟩
    rw [Operator.ofSymbol?_eq_some_iff] at hop
    subst hop
    cases op <;> rfl

namespace Piece

/-- The characters of pieces. -/
def chars (ps : List Piece) : List Char :=
  ps.flatMap fun p => p.text.toList

lemma chars_cons (p : Piece) (ps : List Piece) : chars (p :: ps) = p.text.toList ++ chars ps :=
  List.flatMap_cons

lemma chars_append (ps qs : List Piece) : chars (ps ++ qs) = chars ps ++ chars qs :=
  List.flatMap_append

lemma toList_join (ps : List Piece) : (String.join (ps.map text)).toList = chars ps := by
  rw [String.toList_join, List.flatMap_map]
  rfl

lemma charNesting_of_mem {c : Char} (hc : c ∈ p.text.toList) :
    charNesting c = p.token.nesting := by
  cases p with
  | literal l =>
    have hplain := l.isNumeralText.1 c hc
    fun_cases charNesting c with
    | case1 => exact absurd hplain (by decide)
    | case2 => exact absurd hplain (by decide)
    | case3 => rfl
  | operator op => exact charNesting_of_ofSymbol? (ofSymbol?_of_mem (by simp) hc)
  | leftParen => exact charNesting_of_ofSymbol? (ofSymbol?_of_mem (by simp) hc)
  | rightParen => exact charNesting_of_ofSymbol? (ofSymbol?_of_mem (by simp) hc)

lemma depth_text (p : Piece) : depth charNesting p.text.toList = p.token.nesting := by
  cases p with
  | literal l =>
    have hflat : Balanced charNesting l.text.toList := by
      apply Balanced.of_forall
      intro c hc
      exact charNesting_of_mem (p := .literal l) hc
    exact hflat.depth_eq
  | operator op => cases op <;> decide
  | leftParen => decide
  | rightParen => decide

lemma eq_of_nesting_eq (h : q.token.nesting = p.token.nesting) (hp : p.token.nesting ≠ 0) :
    q = p := by
  cases p with
  | literal l => exact absurd rfl hp
  | operator op => exact absurd rfl hp
  | leftParen =>
    cases q with
    | leftParen => rfl
    | _ => cases h
  | rightParen =>
    cases q with
    | rightParen => rfl
    | _ => cases h

/-- A parenthesis cuts the pieces of a text in two. -/
lemma exists_split {c : Char} {cs ds : List Char} (hp : p.text.toList = [c])
    (hne : p.token.nesting ≠ 0) (h : chars ps = cs ++ c :: ds) :
    ∃ us vs, ps = us ++ p :: vs ∧ chars us = cs ∧ chars vs = ds := by
  induction ps generalizing cs with
  | nil => simp [chars] at h
  | cons q ps ih =>
    rw [chars_cons] at h
    rcases List.append_eq_append_iff.1 h with ⟨as, rfl, has⟩ | ⟨as, hq, has⟩
    · obtain ⟨us, vs, rfl, rfl, rfl⟩ := ih has
      exact ⟨q :: us, vs, rfl, rfl, rfl⟩
    · cases as with
      | nil =>
        have hps : chars ps = [] ++ c :: ds := has.symm
        obtain ⟨us, vs, rfl, hus, rfl⟩ := ih hps
        refine ⟨q :: us, vs, rfl, ?_, rfl⟩
        rw [chars_cons, hus, hq, List.append_nil, List.append_nil]
      | cons a as =>
        -- the piece that has the character in it has no other characters
        obtain ⟨rfl, rfl⟩ := List.cons.inj has
        have hnesting : q.token.nesting = p.token.nesting := by
          rw [← charNesting_of_mem (c := c) (p := q) (by simp [hq]),
            ← charNesting_of_mem (c := c) (p := p) (by simp [hp])]
        obtain rfl := eq_of_nesting_eq hnesting hne
        rw [hp] at hq
        rcases List.append_eq_singleton_iff.1 hq.symm with ⟨rfl, hnil⟩ | ⟨-, ⟨⟩⟩
        obtain rfl := (List.cons.inj hnil).2
        exact ⟨[], ps, rfl, rfl, rfl⟩

/-- Two values still do not follow directly on each other when a pair of parentheses is left
out. -/
lemma isChain_unwrap (h : (us ++ .leftParen :: (vs ++ .rightParen :: ws)).IsChain Meets) :
    (us ++ (vs ++ ws)).IsChain Meets := by
  obtain ⟨hus, hrest, hleft⟩ := List.isChain_append.1 h
  obtain ⟨hvs, hws, -⟩ := List.isChain_append.1 (List.isChain_cons.1 hrest).2
  obtain ⟨hright, hws⟩ := List.isChain_cons.1 hws
  refine List.isChain_append.2 ⟨hus, List.isChain_append.2 ⟨hvs, hws, ?_⟩, ?_⟩
  · intro p _ q hq
    exact meets_of_not_starts p (hright q hq rfl)
  · intro p hp q _
    apply meets_of_not_ends
    by_contra hends
    cases hleft p hp _ rfl (by simpa using hends)

lemma unwraps_map (hvs : Balanced Token.nesting (vs.map token)) :
    Token.Unwraps ((us ++ .leftParen :: (vs ++ .rightParen :: ws)).map token) (vs.map token)
      ((us ++ (vs ++ ws)).map token) := by
  refine ⟨us.map token, token .leftParen, token .rightParen, ws.map token, ?_, ?_, rfl, rfl, hvs⟩
  · simp
  · simp

end Piece

/-- A pair of parentheses in a text is one among its pieces. -/
lemma Formula.exists_pieces_eq {a b c : String} (h : f.text = a ++ "(" ++ b ++ ")" ++ c)
    (hb : Balanced charNesting b.toList) :
    ∃ us vs ws, f.pieces = us ++ .leftParen :: (vs ++ .rightParen :: ws) ∧
      Balanced Token.nesting (vs.map Piece.token) ∧ Spaced (us ++ (vs ++ ws)) (a ++ b ++ c) := by
  have hchars : Piece.chars f.pieces = a.toList ++ '(' :: (b.toList ++ ')' :: c.toList) := by
    rw [← Piece.toList_join, ← Formula.text, h]
    simp
  obtain ⟨us, xs, hpieces, hus, hxs⟩ := Piece.exists_split (p := .leftParen) rfl (by decide) hchars
  obtain ⟨vs, ws, rfl, hvs, hws⟩ := Piece.exists_split (p := .rightParen) rfl (by decide) hxs
  refine ⟨us, vs, ws, hpieces, ?_, ?_⟩
  · rw [← hvs] at hb
    exact hb.map_of_flatMap Piece.depth_text
  · have hjoin : a ++ b ++ c = .join ((us ++ (vs ++ ws)).map Piece.text) := by
      rw [← String.toList_inj, Piece.toList_join, Piece.chars_append, Piece.chars_append, hus, hvs,
        hws]
      simp
    rw [hjoin]
    exact spaced_join _

/-- Without a pair of its parentheses the text of a formula is read as another shape. -/
lemma Formula.exists_parse_unwrap {a b c : String} (h : f.text = a ++ "(" ++ b ++ ")" ++ c)
    (hb : Balanced charNesting b.toList) :
    ∃ e, (parse (a ++ b ++ c)).result = .ok e ∧ e.shape ≠ f.shape := by
  obtain ⟨us, vs, ws, hpieces, hvs, hspaced⟩ := exists_pieces_eq h hb
  have hchain := f.writes_pieces.isChain
  obtain ⟨e, hd, he⟩ := f.writes_pieces.exists_derives
  have hpairs := he.groups_pieces
  rw [hpieces] at hchain hd hpairs
  have hunwraps : Token.Unwraps _ _ ((us ++ (vs ++ ws)).map Piece.token) := Piece.unwraps_map hvs
  obtain ⟨e', hd'⟩ := hd.exists_unwrap hunwraps
  obtain ⟨e'', hparse, ha⟩ := hspaced.exists_parse (Piece.isChain_unwrap hchain) hd'
  refine ⟨e'', hparse, ?_⟩
  rw [← ha.shape_eq, ← he.shape_eq]
  exact hd.shape_ne hunwraps hd' hpairs

/-- A formula is read from its text, and from every other text in which it has more parentheses than
it needs or blanks between its pieces. Without a pair of the parentheses that it needs its text is
read as well, but not in the same shape. -/
theorem Formula.exists_parse_text :
    (∀ f : Formula, ∃ e, (parse f.text).result = .ok e ∧ f.Denotes e) ∧
    (∀ (f : Formula) (ps : List Piece) (s : String), f.Writes ps → Spaced ps s →
      ∃ e, (parse s).result = .ok e ∧ f.Denotes e) ∧
    ∀ (f : Formula) (a b c : String), f.text = a ++ "(" ++ b ++ ")" ++ c →
      Balanced charNesting b.toList →
      ∃ e, (parse (a ++ b ++ c)).result = .ok e ∧ e.shape ≠ f.shape := by
  refine ⟨?_, ?_, ?_⟩
  · intro f
    exact f.writes_pieces.exists_parse (spaced_join f.pieces)
  · intro f ps s h hs
    exact h.exists_parse hs
  · intro f a b c h hb
    exact exists_parse_unwrap h hb

theorem Formula.exists_parse_text_product :
    ∃ f : Formula, f.text = "2*(3*4)" ∧
      (∃ e, (parse "\n2*((3*4))").result = .ok e ∧ f.Denotes e) ∧
      ∃ e, (parse ("2*" ++ "3*4" ++ "")).result = .ok e ∧ e.shape ≠ f.shape := by
  have digit (c : Char) (hc : c.isDigit = true) : ∃ l : Literal, l.text = .singleton c := by
    refine ⟨⟨.singleton c, ⟨?_, ?_⟩, c, ?_, hc⟩, rfl⟩
    · simp [hc]
    · rw [String.toList_singleton]
      exact List.count_le_length
    · simp
  obtain ⟨l, hl⟩ := digit '2' rfl
  obtain ⟨m, hm⟩ := digit '3' rfl
  obtain ⟨n, hn⟩ := digit '4' rfl
  have htext : (binary .mul (.literal l) (.binary .mul (.literal m) (.literal n))).text =
      "2*(3*4)" := by
    simp [text, pieces, Piece.enclose, isAdditive, isBinary, Operator.isAdditive, Piece.text, hl,
      hm, hn, Operator.text, Operator.symbol]
  have hwrites := Writes.binary .mul (.literal l)
    (.enclosed (.binary .mul (.literal m) (.literal n)))
  have hblank : IsWhiteSpace "\n" := by simp [IsWhiteSpace, isBlank]
  have hspaced := Spaced.cons (p := .literal l) hblank (spaced_join
    (.operator .mul :: Piece.enclose true (Piece.enclose true
      [.literal m, .operator .mul, .literal n])))
  have hwritten : "\n" ++ l.text ++ .join ((.operator .mul :: Piece.enclose true (Piece.enclose true
      [.literal m, .operator .mul, .literal n])).map Piece.text) = "\n2*((3*4))" := by
    simp [Piece.enclose, Piece.text, hl, hm, hn, Operator.text, Operator.symbol]
  refine ⟨_, htext, ?_, ?_⟩
  · rw [← hwritten]
    exact exists_parse_text.2.1 _ _ _ hwrites hspaced
  · apply exists_parse_text.2.2 _ "2*" "3*4" "" htext
    apply Balanced.of_forall
    simp [charNesting]

end Calculator
