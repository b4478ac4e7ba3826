import BoxScript.Fact.Store

/-!
# Rules

A rule answers questions from the answers to other questions. It is attempted against a fact store
and comes to one of three ends: it completes with answers to write and errors to report, it waits
for a question that has no slot yet, or it is dropped because it read a poisoned slot.

Rules are mostly given by a `Script`, whose only look at the store is to read one question at a
time. A script that reads an unanswered question goes no further, and what it wrote and reported
before is forgotten (`Script.attempt`).
-/

set_option autoImplicit false

namespace BoxScript

/-- What an attempt at a rule came to. -/
inductive Attempt
  | completed (writes : List (FactKey × FactValue)) (errors : List SemanticError)
  | missing (key : FactKey)
  | poisoned
  deriving Repr

namespace Attempt

/-- Puts a write in front of those of a completed attempt. -/
def addWrite (key : FactKey) (value : FactValue) : Attempt → Attempt
  | completed writes errors => completed ((key, value) :: writes) errors
  | other => other

/-- Puts an error in front of those of a completed attempt. -/
def addError (error : SemanticError) : Attempt → Attempt
  | completed writes errors => completed writes (error :: errors)
  | other => other

end Attempt

/-- A rule: the questions it is to answer, what it stands for in the error that reports it stuck,
and the attempt at it. -/
structure Rule where
  produces : List FactKey
  what : String
  span : Span
  attempt : SymbolTable → FactStore → Attempt

/-- The steps of a rule that ends with a result. `drop` ends it like the read of a poisoned slot. -/
inductive Script (α : Type)
  | done (result : α)
  | read (key : FactKey) (next : FactValue → Script α)
  | write (key : FactKey) (value : FactValue) (next : Script α)
  | report (error : SemanticError) (next : Script α)
  | drop

namespace Script

/-- One script after another. -/
def bind {α β : Type} : Script α → (α → Script β) → Script β
  | done result, f => f result
  | read key next, f => read key fun value => (next value).bind f
  | write key value next, f => write key value (next.bind f)
  | report error next, f => report error (next.bind f)
  | drop, _ => drop

instance : Monad Script where
  pure := done
  bind := bind

/-- Runs a script against a store. -/
def attempt (facts : FactStore) : Script Unit → Attempt
  | done _ => .completed [] []
  | read key next =>
    match facts.get? key with
    | none => .missing key
    | some .poisoned => .poisoned
    | some (.known value) => (next value).attempt facts
  | write key value next => (next.attempt facts).addWrite key value
  | report error next => (next.attempt facts).addError error
  | drop => .poisoned

/-! ## Reading and writing by kind -/

/-- Reads the type of an expression or annotation. An answer of another sort counts as poisoned,
here and in the other readers. -/
def typeOf (node : NodeId) : Script Ty :=
  read ⟨node, .type⟩ fun
    | .type ty => done ty
    | _ => drop

/-- Reads the type of what a node declares. -/
def declTypeOf (node : NodeId) : Script Ty :=
  read ⟨node, .declType⟩ fun
    | .type ty => done ty
    | _ => drop

/-- Reads the declaration that a reference means. -/
def declOf (node : NodeId) : Script DeclId :=
  read ⟨node, .decl⟩ fun
    | .decl id => done id
    | _ => drop

/-- Reads whether a statement always returns. -/
def returnsOf (node : NodeId) : Script Bool :=
  read ⟨node, .returns⟩ fun
    | .flag value => done value
    | _ => drop

def setType (node : NodeId) (ty : Ty) : Script Unit :=
  write ⟨node, .type⟩ (.type ty) (done ())

def setDeclType (node : NodeId) (ty : Ty) : Script Unit :=
  write ⟨node, .declType⟩ (.type ty) (done ())

def setDecl (node : NodeId) (id : DeclId) : Script Unit :=
  write ⟨node, .decl⟩ (.decl id) (done ())

def setReturns (node : NodeId) (value : Bool) : Script Unit :=
  write ⟨node, .returns⟩ (.flag value) (done ())

/-- Reports an error. -/
def error (cause : SemanticError.Cause) (span : Span) : Script Unit :=
  report ⟨cause, span⟩ (done ())

end Script

/-- The rule that a script gives. -/
def Rule.ofScript (produces : List FactKey) (what : String) (span : Span)
    (script : SymbolTable → Script Unit) : Rule :=
  ⟨produces, what, span, fun symbols facts => (script symbols).attempt facts⟩

end BoxScript
