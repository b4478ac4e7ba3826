import BoxScript.Decimal.Integer
import BoxScript.Diagnostic
import BoxScript.Syntax.Operator
import BoxScript.Value.Kind

/-!
# Runtime errors

Why a run ends early. Some errors are the program's: a null reference, an index out of bounds, a
division by zero, a variable read too early. A `Fault` is a state that no accepted program reaches:
a value of a shape, or a name without a binding, that the analysis rules out.
-/

set_option autoImplicit false

namespace BoxScript

/-- What a program was doing with a value that may be `null`. -/
inductive Use
  | indexing
  | assigningElement
  | calling
  | readingField (name : String)
  | assigningField (name : String)
  | readingMember (name : String)
  | assigningMember (name : String)
  deriving Repr, DecidableEq

def Use.text : Use → String
  | indexing => "indexing an array"
  | assigningElement => "assigning into an array"
  | calling => "calling a function"
  | readingField name => s!"accessing field `{name}`"
  | assigningField name => s!"assigning field `{name}`"
  | readingMember name => s!"accessing box member `{name}`"
  | assigningMember name => s!"assigning attribute `{name}`"

/-- The states that the analysis of a program rules out, and the refusal of its output. -/
inductive Fault
  | unresolvedName (name : String)
  | undefinedName (name : String)
  | notAType (name : String)
  | notAStruct (name : String)
  | notABox (name : String)
  | noMethod (name : String)
  | methodOutsideBox (name : String)
  | notABool (kind : ValueKind)
  | prefixOperand (op : PrefixOp) (kind : ValueKind)
  | binaryOperands (op : BinaryOp) (left right : ValueKind)
  | notArithmetic (op : BinaryOp)
  | indexNotInt (kind : ValueKind)
  | notAnArray (use : Use) (kind : ValueKind)
  | noField (name : String)
  | noFieldOn (name : String) (kind : ValueKind)
  | fieldTarget (kind : ValueKind)
  | noAttribute (name : String)
  | noAttributeTarget (name : String)
  | noMemberOn (name : String) (kind : ValueKind)
  | invalidTarget
  | notCallable (kind : ValueKind)
  | argumentCount (function : String) (count : Nat)
  | outputRefused (reason : String)
  deriving Repr, DecidableEq

def Fault.text : Fault → String
  | unresolvedName name => s!"unresolved name `{name}`"
  | undefinedName name => s!"undefined name `{name}`"
  | notAType name => s!"`{name}` is not a type"
  | notAStruct name => s!"`{name}` is not a struct"
  | notABox name => s!"`{name}` is not a box"
  | noMethod name => s!"no method `{name}` on receiver"
  | methodOutsideBox name => s!"method `{name}` used outside of a box"
  | notABool kind => s!"expected a Bool, got {kind.name}"
  | prefixOperand op kind => s!"cannot apply `{op.text}` to {kind.name}"
  | binaryOperands op left right => s!"cannot {op.verb} {left.name} with {right.name}"
  | notArithmetic op => s!"`{op.text}` is not an arithmetic operator"
  | indexNotInt kind => s!"array index is a {kind.name}"
  | notAnArray use kind => s!"{use.text} a {kind.name}"
  | noField name => s!"no field `{name}`"
  | noFieldOn name kind => s!"no field `{name}` on a {kind.name}"
  | fieldTarget kind => s!"cannot assign a field of a {kind.name}"
  | noAttribute name => s!"no attribute `{name}`"
  | noAttributeTarget name => s!"no attribute `{name}` to assign"
  | noMemberOn name kind => s!"no box member `{name}` on a {kind.name}"
  | invalidTarget => "invalid assignment target"
  | notCallable kind => s!"cannot call a {kind.name}"
  | argumentCount function count => s!"`{function}` called with {count} arguments"
  | outputRefused reason => s!"could not write output: {reason}"

/-- The causes of runtime errors. -/
inductive RuntimeError.Cause
  | nullReference (use : Use)
  | indexOutOfBounds (index : Int64) (length : Nat)
  | divisionByZero
  | uninitialised (name : String)
  | fault (reason : Fault)
  deriving Repr, DecidableEq

/-- A runtime error and the span of the node that raised it. -/
structure RuntimeError where
  cause : RuntimeError.Cause
  span : Span
  deriving Repr, DecidableEq

namespace RuntimeError.Cause

def name : Cause → String
  | nullReference _ => "NullReference"
  | indexOutOfBounds _ _ => "IndexOutOfBounds"
  | divisionByZero => "DivisionByZero"
  | uninitialised _ => "UninitialisedVariable"
  | fault _ => "InterpreterError"

def message : Cause → String
  | nullReference use => s!"null reference while {use.text}"
  | indexOutOfBounds index length =>
    "index " ++ String.ofList (Decimal.ofInt index.toInt) ++
      s!" out of bounds for array of length {length}"
  | divisionByZero => "division by zero"
  | uninitialised name => s!"variable `{name}` used before its declaration was executed"
  | fault reason => s!"interpreter invariant violated: {reason.text}"

def tip : Cause → String
  | cause@(fault _) => s!"{cause.message} (this should have been rejected by the type checker)"
  | cause => cause.message

end RuntimeError.Cause

/-- How a runtime error is shown. -/
def RuntimeError.diagnostic (error : RuntimeError) : Diagnostic :=
  ⟨error.cause.name, error.cause.message, some error.cause.tip, error.span.start⟩

end BoxScript
