import Calculator.Diagnostic
import Calculator.Token.Basic

/-!
# Syntax errors

An expression is rejected at one of its tokens. The error says what is wrong with that token, and
its report marks the token in the whole text.
-/

namespace Calculator

/-- What an unexpected token stands in place of. -/
inductive SyntaxError.Expected where
  | operand
  | closingParen
deriving DecidableEq

/-- What is wrong with a token. -/
inductive SyntaxError.Fault where
  | unexpected (expected : Expected)
  | missingOperator
  | trailing
  | invalidNumber
deriving DecidableEq

/-- A text that is not an expression, with the token that shows it. -/
structure SyntaxError where
  fault : SyntaxError.Fault
  token : Token
  /-- The whole text. -/
  source : String
deriving DecidableEq

namespace SyntaxError

/-- The words for what was expected. -/
def Expected.text : Expected → String
  | .operand => "a number or `(`"
  | .closingParen => "`)`"

/-- A literal in quotation marks; the end of the text, which has none, goes by a name. -/
def quoted (literal : String) : String :=
  "`" ++ (if literal = "" then "<eof>" else literal) ++ "`"

/-- The message of a syntax error. -/
def message (e : SyntaxError) : String :=
  match e.fault with
  | .unexpected _ => "unexpected token " ++ quoted e.token.literal
  | .missingOperator => "missing operator, we found " ++ quoted e.token.literal ++ " instead"
  | .trailing => "token " ++ quoted e.token.literal ++ " after parsing not expected"
  | .invalidNumber => "`" ++ e.token.literal ++ "` is not a valid number"

/-- What is said about the token in a report. -/
def Fault.label : Fault → String
  | .unexpected _ => "here"
  | .missingOperator => "expected an operator before this"
  | .trailing => "the expression already ended"
  | .invalidNumber => "this numeric literal"

/-- The advice in a report. -/
def Fault.help : Fault → Option String
  | .unexpected expected => some ("expected " ++ expected.text ++ " here")
  | .missingOperator => some "put one of `+`, `-`, `*` or `/` between the two operands"
  | .trailing => some "remove everything after the end of the expression"
  | .invalidNumber => none

/-- The code of a fault that has one. -/
def Fault.code : Fault → Option String
  | .invalidNumber => some "calc::invalid_number"
  | _ => none

/-- The reason behind a fault, where there is one. -/
def Fault.cause : Fault → Option String
  | .invalidNumber => some "invalid float literal"
  | _ => none

/-- The report on a syntax error. -/
def diagnostic (e : SyntaxError) : Diagnostic where
  message := e.message
  place := e.token.span
  label := e.fault.label
  help := e.fault.help
  code := e.fault.code
  cause := e.fault.cause
  source := some e.source

end SyntaxError

end Calculator
