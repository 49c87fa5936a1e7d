import Highlight.Command.Outcome

/-!
# The command line

Looks up the file that the arguments name, prints what the command comes to, and exits with its
code. Errors go to the error stream, each with the ones that caused it below.
-/

namespace Highlight.Command

/-- Looks up a file. -/
def lookUp (path : String) : IO File := do
  try
    return .bytes (← IO.FS.readBinFile path)
  catch
    | .noFileOrDirectory .. => return .missing
    | e => return .unreadable (toString e)

/-- Runs a command line and returns its exit code. -/
def execute (args : List String) : IO UInt32 := do
  let file ← match (Request.ofArguments args).map Request.source with
    | some (.file path) => lookUp path
    | _ => pure .missing
  let outcome := run (fun _ => file) args
  (← IO.getStdout).putStr outcome.text
  for message in outcome.errors do
    (← IO.getStderr).putStrLn message
  return UInt32.ofNat outcome.exit

end Highlight.Command

def main (args : List String) : IO UInt32 :=
  Highlight.Command.execute args
