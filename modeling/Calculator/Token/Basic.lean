import Calculator.Numeral
import Calculator.Operator
import Calculator.Span

/-!
# Tokens

The smallest meaningful pieces of an expression, each with the text it was read from and the place
where that text starts. Blanks between the pieces are a kind of token, and so is the end of the
text; neither has a literal.
-/

namespace Calculator

/-- What a token is. -/
inductive Token.Kind where
  | eof
  | whitespace
  | text
  | number
  | leftParen
  | rightParen
  | operator (op : Operator)
deriving DecidableEq

/-- A piece of an expression. -/
structure Token where
  kind : Token.Kind
  literal : String
  /-- Where the token starts, in bytes. -/
  offset : Nat
deriving DecidableEq

namespace Token

/-! ### Kinds -/

/-- The operator that a token of this kind stands for. -/
def Kind.operator? : Kind → Option Operator
  | .operator op => some op
  | _ => none

/-- The kind of a token that is one character long. -/
def Kind.ofSymbol? : Char → Option Kind
  | '(' => some .leftParen
  | ')' => some .rightParen
  | c => (Operator.ofSymbol? c).map .operator

/-- The name of a kind in a list of tokens. -/
def Kind.label : Kind → String
  | .eof => "EOF"
  | .whitespace => "WS"
  | .text => "TEXT"
  | .number => "NUMBER"
  | .leftParen => "LEFT_PAREN"
  | .rightParen => "RIGHT_PAREN"
  | .operator .add => "PLUS"
  | .operator .sub => "MINUS"
  | .operator .mul => "STAR"
  | .operator .div => "SLASH"

/-! ### Tokens -/

/-- The stretch of text that the literal of a token covers. -/
def span (t : Token) : Span :=
  ⟨t.offset, t.literal.utf8ByteSize⟩

/-- The number that a token spells, if it is a number token. -/
def value? (t : Token) : Option Number :=
  match t.kind with
  | .number => Number.ofText? t.literal
  | _ => none

/-- What is written of a token between its name and its value: its literal, or nothing at all for
the two kinds that have none. -/
def literalText (t : Token) : String :=
  match t.kind with
  | .eof | .whitespace => ""
  | _ => t.literal

/-- The text of a token in a list of tokens: the name of its kind, its literal, and the number it
spells or `null`. -/
def text (t : Token) : String :=
  t.kind.label ++ " " ++ t.literalText ++ " " ++ (t.value?.map Number.text).getD "null"

@[simp] theorem text_eof (n : Nat) (s : String) : text ⟨.eof, s, n⟩ = "EOF  null" := rfl

@[simp] theorem text_whitespace (n : Nat) (s : String) :
    text ⟨.whitespace, s, n⟩ = "WS  null" := rfl

end Token

end Calculator
