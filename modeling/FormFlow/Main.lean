import FormFlow.Command

/-!
# The command line

Reads a document from standard input and prints the answer to the command that the arguments name.
-/

namespace FormFlow

/-- Reads what is left of a stream. -/
partial def readRest (stream : IO.FS.Stream) (before : String) : IO String := do
  let line ← stream.getLine
  if line.isEmpty then return before else readRest stream (before ++ line)

end FormFlow

open FormFlow

def main (arguments : List String) : IO UInt32 := do
  match Command.ofArguments? arguments with
  | none =>
    IO.eprint Command.usage
    return 2
  | some command =>
    match command.run (← readRest (← IO.getStdin) "") with
    | .ok text =>
      IO.print text
      return 0
    | .error message =>
      IO.eprintln ("\nError: " ++ message)
      return 1
