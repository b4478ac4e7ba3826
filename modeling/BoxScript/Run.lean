import BoxScript.Eval
import BoxScript.Syntax.Parser
import BoxScript.Token.Lexer
import BoxScript.Typing

/-!
# Running programs

The way from a source to a result: the source is cut into tokens, parsed, analyzed, and run. Each
stage may fail, and a `Failure` holds the errors of the first one that does.
-/

set_option autoImplicit false

namespace BoxScript

/-- Why a source has no result. The parser is given fuel enough, so that no source is left
unparsed. -/
inductive Failure
  | malformed (error : SyntaxError)
  | unparsed
  | rejected (errors : List SemanticError)
  | aborted (error : RuntimeError)

namespace Failure

def message : Failure → String
  | malformed error => s!"syntax error: {error.cause.message}"
  | unparsed => "out of fuel"
  | rejected errors => s!"{errors.length} semantic error(s)"
  | aborted error => s!"runtime error: {error.cause.message}"

/-- The errors as they are shown. -/
def diagnostics : Failure → List Diagnostic
  | malformed error => [error.diagnostic]
  | unparsed => []
  | rejected errors => errors.map SemanticError.diagnostic
  | aborted error => [error.diagnostic]

end Failure

/-- The program that the source in a file spells. -/
def readProgram (file : String) (source : List Char) : Except Parse.Stop Program :=
  match tokenize file source with
  | .error error => .error (.error error)
  | .ok tokens => parse file tokens

/-- The program that the source in a file spells, if it is well typed, with its annotations. -/
def checkSource (file : String) (source : List Char) :
    Except Failure (Program × Annotations) :=
  match readProgram file source with
  | .error (.error error) => .error (.malformed error)
  | .error .outOfFuel => .error .unparsed
  | .ok program =>
    match analyze program with
    | .error errors => .error (.rejected errors)
    | .ok notes => .ok (program, notes)

/-! ## Runs -/

/-- The value that a builtin name is bound to. -/
def DeclKind.builtinValue? : DeclKind → Option Value
  | builtinType ty => some (.type (.builtin ty))
  | builtinFunction f => some (.builtin f)
  | _ => none

namespace Eval

/-- Binds the builtins in a frame. -/
def defineBuiltins (frame : FrameId) : List (String × DeclKind) → Eval Unit
  | [] => return ()
  | (name, kind) :: rest => do
    if let some value := kind.builtinValue? then update (·.define frame name none value)
    defineBuiltins frame rest

/-- Makes the outermost frame, which binds the builtins, and the one of a program inside it. -/
def rootFrame : Eval FrameId := do
  let outer ← change (·.newFrame ⟨[], none, none⟩)
  defineBuiltins outer SymbolTable.builtins
  change (·.newChild outer)

/-- Makes the frames that a program runs in, and binds what its top level declares. -/
def start (notes : Annotations) (p : Program) : Eval FrameId := do
  let root ← rootFrame
  declareAll notes root p.body
  return root

/-- Runs a program. Its result is what its top level returns, or Void. -/
def program (notes : Annotations) (fuel : Nat) (p : Program) : Eval Value := do
  let root ← start notes p
  return (← evaluate notes fuel (.sequence root p.body)).value

end Eval

/-- A machine before a run. -/
def Machine.fresh (output : Sink) : Machine := ⟨.empty, output⟩

/-- How a run ends: with a value, with a failure, or not within its fuel. -/
inductive Outcome
  | finished (value : Value)
  | failed (failure : Failure)
  | outOfFuel

/-- Runs a program under annotations on a machine. -/
def runProgram (fuel : Nat) (notes : Annotations) (program : Program) (machine : Machine) :
    Outcome × Machine :=
  match (Eval.program notes fuel program).run machine with
  | .ok value machine => (.finished value, machine)
  | .error (.failed error) machine => (.failed (.aborted error), machine)
  | .error .outOfFuel machine => (.outOfFuel, machine)

/-- Checks the source in a file and runs it on a machine. -/
def runSource (fuel : Nat) (file : String) (source : List Char) (machine : Machine) :
    Outcome × Machine :=
  match checkSource file source with
  | .error failure => (.failed failure, machine)
  | .ok (program, notes) => runProgram fuel notes program machine

/-- Fuel for a run that is meant to go on to its end. -/
def ampleFuel : Nat := 1 <<< 62

end BoxScript
