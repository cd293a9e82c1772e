import StackFront.Demo.CommandLine

/-!
# The program

Runs the demonstration on the arguments of the command line. The log and the diagnostics go to
standard error, the listing to standard output.
-/

open StackFront

/-- The entry point. A fault ends the program with its message and a code of its own. -/
def main (args : List String) : IO UInt32 := do
  let outcome := Demo.respond (Demo.readArguments .none args)
  let err ← IO.getStderr
  for r in outcome.records do
    err.putStrLn s!"[{r.level.word} {r.area.path}] {r.message}"
  match outcome.result with
  | .ok answer =>
    for line in answer.diagnostics do
      err.putStr line
    IO.print answer.output
    return answer.exit.toUInt32
  | .error fault =>
    err.putStrLn fault.message
    return 101
