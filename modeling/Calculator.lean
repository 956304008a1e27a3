import Calculator.Main
import Calculator.Proofs.Token.Calls
import Calculator.Proofs.Token.Locality
import Calculator.Proofs.Token.Nesting
import Calculator.Proofs.Token.Numeral
import Calculator.Proofs.Token.Partition
import Calculator.Proofs.Token.Seam
import Calculator.Proofs.Token.Words
import Calculator.Proofs.Number.Comparison
import Calculator.Proofs.Number.Reading
import Calculator.Proofs.Number.Text
import Calculator.Proofs.Formula.Necessity
import Calculator.Proofs.Parsing.Conventional
import Calculator.Proofs.Parsing.Counter
import Calculator.Proofs.Parsing.Grammar
import Calculator.Proofs.Parsing.Numbers
import Calculator.Proofs.Parsing.Rejection
import Calculator.Proofs.Parsing.Tracing
import Calculator.Proofs.Parsing.Traversal
import Calculator.Proofs.Parsing.ViablePrefix
import Calculator.Proofs.Calculation.Chain
import Calculator.Proofs.Calculation.Log
import Calculator.Proofs.Calculation.Parentheses
import Calculator.Proofs.Calculation.Report
import Calculator.Proofs.Calculation.WhiteSpace
import Calculator.Proofs.CommandLine.Agreement
import Calculator.Proofs.CommandLine.Arguments
import Calculator.Proofs.CommandLine.Meaning
import Calculator.Proofs.CommandLine.Rules
import Calculator.Proofs.Decimal.Exact
import Calculator.Proofs.Expr.Equality
import Calculator.Proofs.Expr.Text
import Calculator.Proofs.Expr.ZeroDivision
import Calculator.Proofs.Calculation.Output
import Calculator.Proofs.CommandLine.TokenList
import Calculator.Proofs.CommandLine.Cutting
import Calculator.Proofs.Parsing.Descent
import Calculator.Proofs.Parsing.Moments
import Calculator.Proofs.Token.Scanner
import Calculator.Proofs.Parsing.Pushback
import Calculator.Proofs.Parsing.Budget
import Calculator.Proofs.Parsing.Frames
