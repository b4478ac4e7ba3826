import BoxScript.Run

/-!
# The command line

What each command answers for a file: an exit code, and the texts for the standard output and the
standard error stream. Errors are shown with an excerpt of the file, under the last part of its
path.
-/

set_option autoImplicit false

namespace BoxScript

/-- The commands: run a program, only check it, or print its tokens. -/
inductive Command
  | run | check | tokens
  deriving Repr, DecidableEq

/-- Why a file has no text. -/
inductive Unreadable
  | missing
  | notText
  | other (reason : String)
  deriving Repr, DecidableEq

def Unreadable.reason : Unreadable → String
  | missing => "No such file or directory (os error 2)"
  | notText => "stream did not contain valid UTF-8"
  | other reason => reason

/-- The text of a file with given bytes. -/
def decodeFile (bytes : ByteArray) : Except Unreadable String :=
  match String.fromUTF8? bytes with
  | some text => .ok text
  | none => .error .notText

/-- What a command leaves behind. -/
structure Report where
  code : Nat
  output : String
  errors : String
  deriving Repr, DecidableEq

/-- What a command leaves behind that is out of fuel, with a code of its own. -/
def Report.outOfFuel (output : String) : Report := ⟨3, output, "out of fuel\n"⟩

/-- The last part of a path, or the whole path if that names no file. -/
def fileName (path : String) : String :=
  let parts := (path.splitOn "/").filter fun part => part ≠ "" && part ≠ "."
  match parts.getLast? with
  | none | some ".." => path
  | some name => name

namespace Failure

/-- A failure as the command line reports it. Semantic errors are counted after the last one. -/
def report (failure : Failure) (source : List Char) : String :=
  let shown := String.join (failure.diagnostics.map (·.render source))
  match failure with
  | rejected _ => shown ++ failure.message ++ "\n"
  | _ => shown

end Failure

/-- A token as the command line lists it. -/
def Token.listed (token : Token) : String := token.kind.name ++ " " ++ token.text ++ "\n"

namespace Command

/-- The answer of a command for a file with a given text. -/
def answer (command : Command) (file : String) (source : List Char) : Report :=
  let refused (failure : Failure) (output : String) : Report :=
    match failure with
    | .unparsed => .outOfFuel output
    | failure => ⟨1, output, failure.report source⟩
  match command with
  | tokens =>
    match tokenize file source with
    | .error error => refused (.malformed error) ""
    | .ok list => ⟨0, String.join (list.map Token.listed), ""⟩
  | check =>
    match checkSource file source with
    | .error failure => refused failure ""
    | .ok _ => ⟨0, "", ""⟩
  | run =>
    match runSource ampleFuel file source (.fresh .unlimited) with
    | (.finished _, machine) => ⟨0, machine.output.text, ""⟩
    | (.failed failure, machine) => refused failure machine.output.text
    | (.outOfFuel, machine) => .outOfFuel machine.output.text

/-- The answer of a command for the file at a path. -/
def execute (command : Command) (path : String) (contents : Except Unreadable String) : Report :=
  match contents with
  | .error failure => ⟨1, "", s!"Error: could not read {path}: {failure.reason}\n"⟩
  | .ok text => command.answer (fileName path) text.toList

end Command

end BoxScript
