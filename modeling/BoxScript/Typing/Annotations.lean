import BoxScript.Fact.Store

/-!
# Annotations

The result of a successful analysis: the facts about the nodes of a program, and the symbol table
that they refer to.
-/

set_option autoImplicit false

namespace BoxScript

structure Annotations where
  facts : FactStore
  symbols : SymbolTable

namespace Annotations

/-- The type under one of the two kinds of type fact. -/
def typeFact? (notes : Annotations) (node : NodeId) (kind : FactKind) : Option Ty :=
  match notes.facts.known? ⟨node, kind⟩ with
  | some (.type ty) => some ty
  | _ => none

/-- The type of an expression or annotation. -/
def typeOf? (notes : Annotations) (node : NodeId) : Option Ty := notes.typeFact? node .type

/-- The type of what a node declares. -/
def declType? (notes : Annotations) (node : NodeId) : Option Ty := notes.typeFact? node .declType

/-- The declaration that a reference means. -/
def declOf? (notes : Annotations) (node : NodeId) : Option Declaration :=
  match notes.facts.known? ⟨node, .decl⟩ with
  | some (.decl id) => notes.symbols.decls[id]?
  | _ => none

/-- Whether a statement always returns. -/
def returns? (notes : Annotations) (node : NodeId) : Option Bool :=
  match notes.facts.known? ⟨node, .returns⟩ with
  | some (.flag value) => some value
  | _ => none

end Annotations

end BoxScript
