import Calculator.Proofs.Calculation.WhiteSpace
import Calculator.Proofs.Token.Partition

/-!
# Writing formulas

A formula is written as a row of pieces: numerals, signs of operations and parentheses. It needs
parentheses around a sum or a difference on the left of any sign, and around any operation on the
right of `*` and `/`. Parts of it may stand in more parentheses than are needed, and blanks between
the pieces do not matter: the pieces are found again as the tokens of the text.
-/

namespace Calculator

/-! ### Formulas -/

/-- A numeral made up of digits, with at most one point among them. -/
structure Literal where
  text : String
  isNumeralText : IsNumeralText text
  exists_digit : ∃ c ∈ text.toList, c.isDigit = true

/-- Operations on numerals. -/
inductive Formula where
  | literal (l : Literal)
  | binary (op : Operator) (left right : Formula)

/-- What formulas are written with. -/
inductive Piece where
  | literal (l : Literal)
  | operator (op : Operator)
  | leftParen
  | rightParen

namespace Piece

def text : Piece → String
  | .literal l => l.text
  | .operator op => op.text
  | .leftParen => "("
  | .rightParen => ")"

/-- The kind of token that a piece is. -/
def kind : Piece → Token.Kind
  | .literal _ => .number
  | .operator op => .operator op
  | .leftParen => .leftParen
  | .rightParen => .rightParen

/-- Put pieces in parentheses where these are needed. -/
def enclose (needed : Bool) (ps : List Piece) : List Piece :=
  if needed then .leftParen :: (ps ++ [.rightParen]) else ps

end Piece

namespace Formula

/-- The formula is a sum or a difference. -/
def isAdditive : Formula → Bool
  | .literal _ => false
  | .binary op _ _ => op.isAdditive

/-- The formula is more than a numeral. -/
def isBinary : Formula → Bool
  | .literal _ => false
  | .binary _ _ _ => true

/-- The pieces of a formula, with the parentheses that it needs and no others. -/
def pieces : Formula → List Piece
  | .literal l => [.literal l]
  | .binary op left right =>
    Piece.enclose left.isAdditive left.pieces ++
      .operator op :: Piece.enclose (!op.isAdditive && right.isBinary) right.pieces

/-- The text of a formula, without blanks. -/
def text (f : Formula) : String :=
  .join (f.pieces.map Piece.text)

/-- The pieces write a formula: besides the parentheses that are needed there may be others around
any part of it. -/
inductive Writes : Formula → List Piece → Prop where
  | literal (l : Literal) : Writes (.literal l) [.literal l]
  | binary (op : Operator) {left right : Formula} {ps qs : List Piece} (hl : Writes left ps)
      (hr : Writes right qs) :
      Writes (.binary op left right)
        (Piece.enclose left.isAdditive ps ++
          .operator op :: Piece.enclose (!op.isAdditive && right.isBinary) qs)
  | enclosed {f : Formula} {ps : List Piece} (h : Writes f ps) :
      Writes f (.leftParen :: (ps ++ [.rightParen]))

lemma writes_pieces (f : Formula) : f.Writes f.pieces := by
  induction f with
  | literal l => exact .literal l
  | binary op left right ihl ihr => exact .binary op ihl ihr

end Formula

/-- Pieces one after the other, with blanks before, between and behind them. -/
inductive Spaced : List Piece → String → Prop where
  | nil {w : String} (hw : IsWhiteSpace w) : Spaced [] w
  | cons {p : Piece} {ps : List Piece} {w s : String} (hw : IsWhiteSpace w) (h : Spaced ps s) :
      Spaced (p :: ps) (w ++ p.text ++ s)

lemma isWhiteSpace_empty : IsWhiteSpace "" := by
  intro c hc
  simp at hc

lemma spaced_join (ps : List Piece) : Spaced ps (.join (ps.map Piece.text)) := by
  induction ps with
  | nil => exact .nil isWhiteSpace_empty
  | cons p ps ih =>
    have := Spaced.cons (p := p) isWhiteSpace_empty ih
    simpa using this

/-! ### Neighbours -/

variable {f : Formula} {p q : Piece} {ps : List Piece} {s : String}

namespace Piece

/-- A value may start here. -/
def starts : Piece → Bool
  | .literal _ | .leftParen => true
  | .operator _ | .rightParen => false

/-- A value may end here. -/
def ends : Piece → Bool
  | .literal _ | .rightParen => true
  | .operator _ | .leftParen => false

/-- The two may be neighbours: no value follows directly on another. -/
def Meets (p q : Piece) : Prop :=
  p.ends = true → q.starts = false

lemma meets_of_not_ends (hp : p.ends = false) (q : Piece) : p.Meets q := by
  simp [Meets, hp]

lemma meets_of_not_starts (p : Piece) (hq : q.starts = false) : p.Meets q := by
  simp [Meets, hq]

lemma isChain_enclose (b : Bool) (h : ps.IsChain Meets) : (enclose b ps).IsChain Meets := by
  cases b with
  | false => exact h
  | true =>
    rw [enclose, if_pos rfl, List.isChain_cons]
    refine ⟨?_, ?_⟩
    · intro q _
      exact meets_of_not_ends rfl q
    · refine List.isChain_append.2 ⟨h, List.isChain_singleton _, ?_⟩
      rintro p _ q ⟨⟩
      exact meets_of_not_starts p rfl

end Piece

lemma Formula.Writes.isChain (h : f.Writes ps) : ps.IsChain Piece.Meets := by
  induction h with
  | literal l => exact List.isChain_singleton _
  | binary op hl hr ihl ihr =>
    refine List.isChain_append.2 ⟨Piece.isChain_enclose _ ihl, ?_, ?_⟩
    · rw [List.isChain_cons]
      refine ⟨?_, Piece.isChain_enclose _ ihr⟩
      intro q _
      exact Piece.meets_of_not_ends rfl q
    · rintro p _ q ⟨⟩
      exact Piece.meets_of_not_starts p rfl
  | enclosed h ih => exact Piece.isChain_enclose true ih

/-! ### Pieces as tokens -/

lemma Literal.isWordText (l : Literal) : IsWordText l.text := by
  constructor
  · intro hempty
    obtain ⟨c, hc, -⟩ := l.exists_digit
    simp [hempty] at hc
  · intro c hc hmem
    have hapart : ∀ d ∈ [' ', '\t', '\n', '(', ')', '+', '-', '*', '/'],
        ¬ (d.isDigit = true ∨ d = '.') := by simp
    exact hapart c hmem (l.isNumeralText.1 c hc)

lemma Literal.content_text (l : Literal) :
    Cursor.content l.text.toList = [(.number, l.text)] := by
  have hword := l.isWordText
  rw [← String.ofList_toList (s := l.text), isWordText_iff] at hword
  have htokens := Cursor.tokens_word_run (n := 0) (b := []) hword.1 hword.2 (by simp [StartsIn])
  rw [List.append_nil] at htokens
  simp [Cursor.content, Cursor.lexemes, htokens, Token.content, Cursor.ofWord_toList,
    l.isNumeralText]

namespace Piece

/-- A piece that is no literal is a symbol. -/
lemma ofSymbol?_of_mem {c : Char} (h : ∀ l, p ≠ .literal l) (hc : c ∈ p.text.toList) :
    Token.Kind.ofSymbol? c = some p.kind := by
  cases p with
  | literal l => exact absurd rfl (h l)
  | operator op =>
    obtain rfl : c = op.symbol := by simpa [text, Operator.text] using hc
    cases op <;> rfl
  | leftParen =>
    obtain rfl : c = '(' := by simpa [text] using hc
    rfl
  | rightParen =>
    obtain rfl : c = ')' := by simpa [text] using hc
    rfl

lemma not_isWordChar (h : ∀ l, p ≠ .literal l) : ∀ c ∈ p.text.toList, isWordChar c = false := by
  intro c hc
  exact not_isWordChar_of_ofSymbol? (ofSymbol?_of_mem h hc)

/-- A piece by itself is one token. -/
lemma content_text (p : Piece) : Cursor.content p.text.toList = [(p.kind, p.text)] := by
  cases p with
  | literal l => exact l.content_text
  | operator op => cases op <;> decide +kernel
  | leftParen => decide +kernel
  | rightParen => decide +kernel

end Piece

lemma Spaced.not_startsIn (h : Spaced ps s) (hps : ∀ q ∈ ps.head?, q.starts = false) :
    ¬ StartsIn isWordChar s.toList := by
  intro hstart
  obtain ⟨c, cs, hcs, hc⟩ := hstart.exists_cons
  suffices hc' : isWordChar c = false from Bool.false_ne_true (hc'.symm.trans hc)
  cases h with
  | nil hw =>
    apply not_isWordChar_of_isBlank
    exact hw c (by simp [hcs])
  | @cons q ps w s hw h =>
    -- the first character is one of the white space or one of the first piece, which is no word
    have hq : ∀ l, q ≠ .literal l := by
      rintro l rfl
      exact Bool.false_ne_true (hps _ rfl).symm
    have hne : w.toList ++ q.text.toList ≠ [] := by
      intro hnil
      have hcontent := q.content_text
      rw [(List.append_eq_nil_iff.1 hnil).2] at hcontent
      simp [Cursor.content, Token.content] at hcontent
    obtain ⟨d, ds, hds⟩ := List.exists_cons_of_ne_nil hne
    rw [String.toList_append, String.toList_append, hds] at hcs
    obtain ⟨rfl, -⟩ := List.cons.inj hcs
    have hmem : d ∈ w.toList ++ q.text.toList := by
      rw [hds]
      exact List.mem_cons_self
    rcases List.mem_append.1 hmem with hd | hd
    · exact not_isWordChar_of_isBlank (hw d hd)
    · exact Piece.not_isWordChar hq d hd

/-- The tokens of a text are the pieces that it was written with. -/
theorem Spaced.content_eq (h : Spaced ps s) (hps : ps.IsChain Piece.Meets) :
    Cursor.content s.toList = ps.map fun p => (p.kind, p.text) := by
  induction h with
  | nil hw => exact Cursor.content_of_blank hw
  | @cons p ps w s hw h ih =>
    rw [List.isChain_cons] at hps
    have hblank : ¬ Joined isWordChar w.toList (p.text.toList ++ s.toList) := by
      rintro ⟨hend, -⟩
      refine not_endsIn_of_forall ?_ hend
      intro c hc
      exact not_isWordChar_of_isBlank (hw c hc)
    -- only a numeral ends in a word, and no numeral follows on one
    have hpiece : ¬ Joined isWordChar p.text.toList s.toList := by
      rintro ⟨hend, hstart⟩
      by_cases hp : ∃ l, p = .literal l
      · obtain ⟨l, rfl⟩ := hp
        refine h.not_startsIn ?_ hstart
        intro q hq
        exact hps.1 q hq rfl
      · exact not_endsIn_of_forall (Piece.not_isWordChar (not_exists.1 hp)) hend
    rw [String.toList_append, String.toList_append, List.append_assoc,
      Cursor.content_append hblank, Cursor.content_of_blank hw, Cursor.content_append hpiece,
      p.content_text, ih hps.2]
    rfl

end Calculator
