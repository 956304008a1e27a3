/-!
# The expression among the arguments

The arguments that make up the expression are those from the first one that is not an option to be
passed over. A pair of dashes is no option, so it stays in the expression, even where it served to
end the options.
-/

namespace Calculator.CommandLine

/-- Whether an argument consists of options that go with an expression. -/
def isFlag (arg : String) : Bool :=
  if arg = "--tokens" ∨ arg = "--tree" ∨ arg = "--verbose" then true
  else
    match arg.toList with
    | '-' :: c :: cs => (c :: cs).all fun d => d = 't' ∨ d = 'p' ∨ d = 'v'
    | _ => false

/-- The arguments from the first one that is not an option. -/
def expressionArguments (args : List String) : List String :=
  args.dropWhile isFlag

/-- The expression that the arguments make up, joined by single spaces. -/
def expression (args : List String) : String :=
  " ".intercalate (expressionArguments args)

end Calculator.CommandLine
