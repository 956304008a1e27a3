import Calculator.Calculation
import Calculator.CommandLine.Expression
import Calculator.CommandLine.Options
import Calculator.Token.Stream

/-!
# Running the program

The outcome of a run as a value: the exit code, what is written to the standard output, the
records that were logged, and the failure to be reported, if there is one.
-/

namespace Calculator.CommandLine

/-- What a run leaves behind. -/
structure Outcome where
  exitCode : Nat
  output : String
  log : List Log.Record
  failure : Option Failure

/-- A text as a line of its own. -/
def line (s : String) : String := s ++ "\n"

/-- The name and the version of the program. -/
def versionText : String := line "calc 0.1.0"

/-- What the program does and which options it has, line by line. -/
def helpLines : List String :=
  ["Evaluates an arithmetic expression given on the command line",
    "",
    "Usage: calc [OPTIONS] <EXPRESSION>...",
    "",
    "Arguments:",
    "  <EXPRESSION>...  The expression; all arguments are joined with single spaces",
    "",
    "Options:",
    "  -t, --tokens      Print the token stream instead of evaluating",
    "  -p, --tree        Print the parsed expression tree before the result",
    "  -v, --verbose...  Increase logging verbosity (-v info, -vv debug, -vvv trace)",
    "  -h, --help        Print help",
    "  -V, --version     Print version"]

/-- What is written when help is asked for. -/
def helpText : String := .join (helpLines.map line)

/-- The limit on what is logged. -/
def Options.limit (o : Options) : Log.Level :=
  match o.verbosity with
  | 0 => .warn
  | 1 => .info
  | 2 => .debug
  | _ => .trace

/-- List the tokens of an expression, one to a line. -/
def listTokens (s : String) : Outcome where
  exitCode := 0
  output := .join ((Token.tokens s).map fun t => line t.text)
  log := []
  failure := none

/-- Write a value, or report that there is none. What is written before it is given. -/
def conclude (output : String) (log : List Log.Record) : Except Failure Number → Outcome
  | .ok x => ⟨0, output ++ line x.text, log, none⟩
  | .error e => ⟨1, output, log, some e⟩

/-- Write the value of an expression. -/
def writeValue (s : String) : Outcome :=
  conclude "" (calculationLog s) (calculate s)

/-- Write an expression out, and then its value. -/
def writeTree (s : String) : Outcome :=
  match (parse s).result with
  | .ok e => conclude (line e.text) (parse s).log (e.evalIn s)
  | .error e => conclude "" (parse s).log (.error (.malformed e))

/-- Do what the options ask for with an expression. The choice of tokens goes before that of the
tree. -/
def evaluate (o : Options) (s : String) : Outcome :=
  let outcome :=
    if o.tokens then listTokens s
    else if o.tree then writeTree s
    else writeValue s
  let opening : Log.Record := ⟨.info, "calc", "evaluating `" ++ s ++ "`"⟩
  { outcome with log := Log.filter (some o.limit) (opening :: outcome.log) }

/-- Run the program with some arguments. -/
def run (args : List String) : Outcome :=
  match Request.ofArguments args with
  | .help => ⟨0, helpText, [], none⟩
  | .version => ⟨0, versionText, [], none⟩
  | .misuse => ⟨2, "", [], none⟩
  | .calculate o _ => evaluate o (expression args)

end Calculator.CommandLine
