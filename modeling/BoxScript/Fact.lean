import BoxScript.Scope

/-!
# Facts

What the analysis finds out about the nodes of a program: the type of an expression or annotation,
the declaration that a reference means, the type of what a node declares, and whether a statement
always returns.
-/

set_option autoImplicit false

namespace BoxScript

/-- The kinds of fact about a node. -/
inductive FactKind
  | type | decl | declType | returns
  deriving Repr, DecidableEq

/-- A question about a node. -/
structure FactKey where
  node : NodeId
  kind : FactKind
  deriving Repr, DecidableEq

/-- The answer to a question. -/
inductive FactValue
  | type (ty : Ty)
  | decl (id : DeclId)
  | flag (value : Bool)
  deriving Repr

/-- The state of a question that has come up: it is answered, or will never be, because the rule
that was to answer it failed. -/
inductive Slot
  | known (value : FactValue)
  | poisoned
  deriving Repr

end BoxScript
