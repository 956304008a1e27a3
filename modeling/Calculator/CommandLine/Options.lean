/-!
# Options

Options stand in front of the expression and nowhere else. The first argument that is no option
starts the expression, and all that follows belongs to it. One pair of dashes may stand between
the two and is dropped. Asking for help or for the version, or asking in a wrong way, ends the
reading at once.
-/

namespace Calculator.CommandLine

/-- An option. None of them takes a value. -/
inductive Flag where
  | tokens
  | tree
  | verbose
  | help
  | version
deriving DecidableEq

/-- The option that a letter stands for behind a single dash. -/
def Flag.ofLetter? : Char → Option Flag
  | 't' => some .tokens
  | 'p' => some .tree
  | 'v' => some .verbose
  | 'h' => some .help
  | 'V' => some .version
  | _ => none

/-- The option that a name stands for behind two dashes. -/
def Flag.ofName? (name : List Char) : Option Flag :=
  if name = "tokens".toList then some .tokens
  else if name = "tree".toList then some .tree
  else if name = "verbose".toList then some .verbose
  else if name = "help".toList then some .help
  else if name = "version".toList then some .version
  else none

/-- What an argument is, as long as options are read. -/
inductive Argument where
  | flags (fs : List Flag)
  /-- An option with a value that it does not take. -/
  | valued
  /-- The pair of dashes that ends the options. -/
  | separator
  /-- The start of the expression. -/
  | operand
deriving DecidableEq

/-- Recognise an argument. Letters behind a single dash may be joined, but only if every one of
them is an option. -/
def Argument.ofText (arg : String) : Argument :=
  match arg.toList with
  | ['-', '-'] => .separator
  | '-' :: '-' :: cs =>
    match Flag.ofName? (cs.takeWhile (· ≠ '=')) with
    | some f => if '=' ∈ cs then .valued else .flags [f]
    | none => .operand
  | '-' :: c :: cs =>
    match (c :: cs).mapM Flag.ofLetter? with
    | some fs => .flags fs
    | none => .operand
  | _ => .operand

/-- What the options ask for. -/
structure Options where
  /-- List the tokens of the expression in place of its value. -/
  tokens : Bool
  /-- Write the expression out before its value. -/
  tree : Bool
  /-- How much to tell on the way. -/
  verbosity : UInt8
deriving DecidableEq

/-- Nothing is asked for. -/
def Options.none : Options := ⟨false, false, 0⟩

/-- What the arguments as a whole ask for. -/
inductive Request where
  | help
  | version
  | misuse
  | calculate (options : Options) (operands : List String)
deriving DecidableEq

/-- Count once more, as far as the count goes. -/
def oneMore (n : UInt8) : UInt8 :=
  if n = 255 then n else n + 1

/-- Take in one option. Only `verbose` may be given more than once. -/
def Options.add (o : Options) : Flag → Except Request Options
  | .tokens => if o.tokens then .error .misuse else .ok { o with tokens := true }
  | .tree => if o.tree then .error .misuse else .ok { o with tree := true }
  | .verbose => .ok { o with verbosity := oneMore o.verbosity }
  | .help => .error .help
  | .version => .error .version

/-- Take in options one after another. -/
def Options.addAll (o : Options) : List Flag → Except Request Options
  | [] => .ok o
  | f :: fs =>
    match o.add f with
    | .ok o => o.addAll fs
    | .error request => .error request

/-- Read the arguments that are left, after the options seen so far. -/
def Options.read (o : Options) : List String → Request
  | [] => .misuse
  | arg :: args =>
    match Argument.ofText arg with
    | .flags fs =>
      match o.addAll fs with
      | .ok o => o.read args
      | .error request => request
    | .valued => .misuse
    | .separator => if args = [] then .misuse else .calculate o args
    | .operand => .calculate o (arg :: args)

/-- Read the arguments of a program. -/
def Request.ofArguments (args : List String) : Request :=
  Options.none.read args

end Calculator.CommandLine
