import BoxScript.CommandLine

/-!
# The program

Reads the file that the command line names, and prints what the command answers.
-/

set_option autoImplicit false

namespace BoxScript

/-- The text of the file at a path. -/
def readFile (path : String) : IO (Except Unreadable String) := do
  try
    return decodeFile (← IO.FS.readBinFile path)
  catch
    | .noFileOrDirectory _ _ _ => return .error .missing
    | failure => return .error (.other (toString failure))

def commandNamed? : String → Option Command
  | "run" => some .run
  | "check" => some .check
  | "tokens" => some .tokens
  | _ => none

/-- Prints an answer and gives its exit code. -/
def Report.print (report : Report) : IO UInt32 := do
  IO.print report.output
  IO.eprint report.errors
  return report.code.toUInt32

end BoxScript

open BoxScript in
def main (arguments : List String) : IO UInt32 := do
  match arguments with
  | [word, path] =>
    match commandNamed? word with
    | some command => (command.execute path (← readFile path)).print
    | none =>
      IO.eprintln s!"unknown command {word}: expected run, check or tokens"
      return 2
  | _ =>
    IO.eprintln "usage: boxscript (run | check | tokens) FILE"
    return 2
