import Calculator.Span

/-!
# Diagnostics

What is told about a failure: a message, the stretch of text it is about and what is wrong there,
and, where there is more to say, a piece of advice, a code, a cause, and the whole text.
-/

namespace Calculator

/-- A report on a failure. -/
structure Diagnostic where
  message : String
  /-- The stretch of text that the failure is about. -/
  place : Span
  /-- What is said about that stretch. -/
  label : String
  help : Option String
  code : Option String
  cause : Option String
  /-- The text in which the place is to be found. -/
  source : Option String
deriving DecidableEq

/-- The name under which the text of an expression is shown in a report. -/
def Diagnostic.sourceName : String := "<expression>"

/-- The text that goes with a report, together with its name. -/
def Diagnostic.namedSource (d : Diagnostic) : Option (String × String) :=
  d.source.map fun s => (sourceName, s)

end Calculator
