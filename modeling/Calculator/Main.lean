import Calculator.CommandLine.Run

/-!
# The program

Writes the outcome of a run: values go to the standard output, the log and reports on failures to
the standard error.
-/

namespace Calculator

/-- The lines of a report. -/
def Diagnostic.lines (d : Diagnostic) : List String :=
  let place := "  at byte " ++ toString d.place.offset ++ ": " ++ d.label
  ("Error: " ++ d.message) :: place :: (d.help.map ("  help: " ++ ·)).toList

end Calculator

open Calculator

/-- Run the program. -/
def main (args : List String) : IO UInt32 := do
  let outcome := CommandLine.run args
  let stdout ← IO.getStdout
  let stderr ← IO.getStderr
  stderr.putStr (Log.text outcome.log)
  stdout.putStr outcome.output
  for failure in outcome.failure do
    for line in failure.diagnostic.lines do
      stderr.putStrLn line
  if outcome.exitCode = 2 then
    stderr.putStrLn "error: no valid use of the options; see --help"
  return outcome.exitCode.toUInt32
