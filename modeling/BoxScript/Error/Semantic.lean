import BoxScript.Diagnostic
import BoxScript.Ty

/-!
# Semantic errors

Why a well-formed program is not accepted: names that are declared twice, too late or not at all,
and types that do not fit. An error holds its cause; the wording is in `message` and `tip`.
-/

set_option autoImplicit false

namespace BoxScript

/-- The two operators of member access: `.` for fields, `#` for the members of boxes. -/
inductive MemberAccess
  | field | boxMember
  deriving Repr, DecidableEq

def MemberAccess.text : MemberAccess → String
  | field => "field"
  | boxMember => "box member"

/-- What could not be resolved: a name, the member of a box, or all that a rule stands for, when
it waits for facts that never come. -/
inductive Reference
  | symbol (name : String)
  | member (box name : String)
  | stuck (rule : String)
  deriving Repr, DecidableEq

def Reference.text : Reference → String
  | symbol name => name
  | member box name => s!"{box}#{name}"
  | stuck rule => s!"{rule} (cycle or unresolved dependency)"

/-- The statements with a condition. -/
inductive Conditional
  | if | while
  deriving Repr, DecidableEq

def Conditional.text : Conditional → String
  | .if => "If"
  | .while => "While"

/-- The ways in which types fail to fit. -/
inductive Mismatch
  | initializer (name : String) (expected actual : Ty)
  | cannotInfer (name : String) (ty : Ty)
  | condition (statement : Conditional) (ty : Ty)
  | returnValue (expected actual : Ty)
  | returnNothing (expected : Ty)
  | notAType (name : String)
  | notAStruct (name : String)
  | notABox (name : String)
  | emptyArrayFor (expected : Ty)
  | emptyArray
  | elements (first second : Ty)
  | notOperand (ty : Ty)
  | negateOperand (ty : Ty)
  | operands (op : BinaryOp) (left right : Ty)
  | relationalOperand (ty : Ty)
  | logicalOperand (ty : Ty)
  | assigned (value target : Ty)
  | notCallable (ty : Ty)
  | argumentCount (expected actual : Nat)
  | argument (index : Nat) (expected actual : Ty)
  | notIndexable (ty : Ty)
  | indexNotInt
  | missingField (field struct : String)
  | fieldOf (field : String) (ty : Ty)
  deriving Repr

def Mismatch.text : Mismatch → String
  | initializer name expected actual =>
    s!"incompatible initializer type provided for variable `{name}`: " ++
      s!"expected {expected.text} but got {actual.text}"
  | cannotInfer name ty =>
    s!"Cannot infer the type of variable `{name}` from a {ty.text} initializer"
  | condition statement ty =>
    s!"{statement.text} statement with a non-boolean condition of type: {ty.text}"
  | returnValue expected actual =>
    s!"Incompatible return type, expected {expected.text} but got {actual.text}"
  | returnNothing expected => s!"Return without value in a function returning {expected.text}"
  | notAType name => s!"`{name}` does not name a type"
  | notAStruct name => s!"`{name}` does not name a struct"
  | notABox name => s!"`{name}` does not name a box"
  | emptyArrayFor expected =>
    s!"Trying to use an empty array literal where {expected.text} is expected"
  | emptyArray => "Cannot infer the type of an empty array literal"
  | elements first second =>
    s!"Could not find common supertype in array literal: {first.text} and {second.text}"
  | notOperand ty => s!"Trying to negate type: {ty.text}"
  | negateOperand ty => s!"Trying to negate a non-numeric type: {ty.text}"
  | operands op left right => s!"Trying to {op.verb} {left.text} with {right.text}"
  | relationalOperand ty =>
    s!"Attempting to perform arithmetic comparison on non-numeric type: {ty.text}"
  | logicalOperand ty =>
    s!"Attempting to perform binary logic on non-boolean type: {ty.text}"
  | assigned value target =>
    s!"Trying to assign a value of type {value.text} to a non-compatible lvalue of type " ++
      s!"{target.text}."
  | notCallable ty => s!"Trying to call a non-function expression of type {ty.text}"
  | argumentCount expected actual =>
    s!"wrong number of arguments, expected {expected} but got {actual}"
  | argument index expected actual =>
    s!"argument {index}: expected {expected.text} but got {actual.text}"
  | notIndexable ty => s!"Trying to index a non-array expression of type {ty.text}"
  | indexNotInt => "Indexing an array using a non-Int-valued expression"
  | missingField field struct => s!"Trying to access missing field {field} on struct {struct}"
  | fieldOf field ty => s!"Trying to access field {field} on an expression of type {ty.text}"

/-- The causes of semantic errors. -/
inductive SemanticError.Cause
  | duplicate (name : String)
  | unresolved (reference : Reference)
  | usedBeforeDeclaration (name : String)
  | mismatch (reason : Mismatch)
  | incomparable (left right : Ty)
  | invalidTarget
  | missingReturn (function : String)
  | wrongAccess (member : String) (ty : Ty) (access : MemberAccess)
  deriving Repr

/-- A semantic error and the span it concerns. -/
structure SemanticError where
  cause : SemanticError.Cause
  span : Span
  deriving Repr

namespace SemanticError.Cause

def name : Cause → String
  | duplicate _ => "DuplicateDeclaration"
  | unresolved _ => "UnresolvedReference"
  | usedBeforeDeclaration _ => "UsedBeforeDeclaration"
  | mismatch _ => "TypeMismatch"
  | incomparable _ _ => "IncomparableTypes"
  | invalidTarget => "InvalidLvalue"
  | missingReturn _ => "MissingReturn"
  | wrongAccess _ _ _ => "WrongAccessOperator"

def message : Cause → String
  | duplicate name =>
    s!"Declaration of `{name}` conflicts with an earlier declaration in the same scope"
  | unresolved reference => s!"Could not resolve: {reference.text}"
  | usedBeforeDeclaration name => s!"Variable used before declaration: {name}"
  | mismatch reason => reason.text
  | incomparable left right =>
    s!"Trying to compare incomparable types {left.text} and {right.text}"
  | invalidTarget => "Trying to assign a value to a non-compatible lvalue."
  | missingReturn function => s!"Missing return in function `{function}`"
  | wrongAccess _ ty access =>
    s!"Trying to access a {access.text} on an expression of type {ty.text}"

/-- The tip says what to change where that is known, and otherwise repeats the message. -/
def tip : Cause → String
  | usedBeforeDeclaration name => s!"move the declaration of `{name}` before its use"
  | wrongAccess member _ .field => s!"box members are accessed with `#`, try `#{member}`"
  | wrongAccess member _ .boxMember => s!"`#` only applies to boxes, try `.{member}`"
  | cause => cause.message

end SemanticError.Cause

/-- How a semantic error is shown. -/
def SemanticError.diagnostic (error : SemanticError) : Diagnostic :=
  ⟨error.cause.name, error.cause.message, some error.cause.tip, error.span.start⟩

end BoxScript
