/-
# The program

Reads the arguments and the environment, executes the command, prints what it has to print,
and writes the journal to standard error.
-/
import DiningRing.CommandLine.Execution
import DiningRing.Journal.Filter
import DiningRing.Journal.Line

namespace DiningRing

/-- Looks up the variables of the environment that configure a ring. -/
def readEnvironment : IO Environment := do
  let lookup (name : String) : IO Variable := do
    match ← IO.getEnv name with
    | some text => return .text text
    | none => return .unset
  return ⟨← lookup "SYMPOSIUM_SEATS", ← lookup "SYMPOSIUM_EAT_MS", ← lookup "SYMPOSIUM_THINK_MS",
    ← lookup "SYMPOSIUM_PLAN"⟩

/-- Waits for the program to be interrupted. -/
partial def park : IO Unit := do
  IO.sleep 1000
  park

end DiningRing

open DiningRing in
/-- The program. -/
def main (args : List String) : IO UInt32 := do
  match CommandLine.read false (args.map .text) with
  | .error .about =>
    IO.println "Usage: symposium [--json-logs] <run|simulate|explore|help> [options]"
    return 0
  | .error .usage =>
    IO.eprintln "error: invalid arguments; see symposium --help"
    return 2
  | .ok command =>
    match CommandLine.execute (← readEnvironment) command with
    | none =>
      park
      return 0
    | some execution =>
      let filter := ((← IO.getEnv "RUST_LOG").map Journal.Filter.ofText).getD .fallback
      IO.print execution.output
      for entry in execution.fullJournal.through filter do
        IO.eprintln (if args.contains "--json-logs" then entry.jsonLine else entry.plainLine)
      return execution.exitCode.toUInt32
