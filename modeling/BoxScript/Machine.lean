import BoxScript.Error.Execution
import BoxScript.Heap.Text
import BoxScript.Sink

/-!
# The machine

The state of a run, and the steps that change it. A computation of the monad `Eval` ends with a
result or halts, with an error or for want of fuel; whichever it is, the machine keeps what was done
until then.
-/

set_option autoImplicit false

namespace BoxScript

/-- The heap of a run and what it has printed. -/
structure Machine where
  heap : Heap
  output : Sink

/-- Why a run halts before its end. -/
inductive Halt
  | failed (error : RuntimeError)
  | outOfFuel
  deriving Repr, DecidableEq

/-- A computation on a machine. -/
abbrev Eval := EStateM Halt Machine

namespace Eval

/-- Halts with an error. -/
def fail {α : Type} (cause : RuntimeError.Cause) (span : Span) : Eval α :=
  throw (.failed ⟨cause, span⟩)

/-- Halts because of a state that the analysis rules out. -/
def fault {α : Type} (reason : Fault) (span : Span) : Eval α := fail (.fault reason) span

/-- Goes on with a result, or halts with an error. -/
def lift {α : Type} (result : Except RuntimeError.Cause α) (span : Span) : Eval α :=
  match result with
  | .ok value => return value
  | .error cause => fail cause span

/-- Something about the heap. -/
def inspect {α : Type} (question : Heap → α) : Eval α :=
  modifyGet fun machine => (question machine.heap, machine)

/-- A step on the heap with a result. -/
def change {α : Type} (step : Heap → α × Heap) : Eval α :=
  modifyGet fun machine =>
    let (result, heap) := step machine.heap
    (result, { machine with heap := heap })

/-- A step on the heap. -/
def update (step : Heap → Heap) : Eval Unit :=
  modify fun machine => { machine with heap := step machine.heap }

/-- The text of a value. A value that contains itself has none, and no amount of fuel gives it
one. -/
def textOf (value : Value) : Eval String := do
  match ← inspect (·.text? value) with
  | some text => return text
  | none => throw .outOfFuel

/-- Writes a piece of text. -/
def write (piece : String) (span : Span) : Eval Unit := do
  let taken ← modifyGet fun machine =>
    let (taken, output) := machine.output.write piece
    (taken, { machine with output := output })
  if taken then return () else fault (.outputRefused Sink.refusal) span

/-- Writes a text and ends the line. -/
def writeLine (line : String) (span : Span) : Eval Unit := do
  write line span
  write "\n" span

/-- The error of a name without a value. -/
def slotError {α : Type} (error : SlotError) (name : String) (span : Span) : Eval α :=
  match error with
  | .uninitialised => fail (.uninitialised name) span
  | .unbound => fault (.undefinedName name) span

end Eval

end BoxScript
