import BoxScript.Error.Semantic

/-!
# Scopes and declarations

A symbol table keeps all scopes and declarations of a program, each under a number of its own in
the order of creation. A scope knows the scope around it, the names declared in it, and the order
of their declarations. A name is looked up from its scope outwards (`SymbolTable.lookup`): in the
scopes whose statements run in order, a declaration is passed over if it only becomes visible after
the place of the reference.
-/

set_option autoImplicit false

namespace BoxScript

abbrev ScopeId := Nat

abbrev DeclId := Nat

/-- What a scope belongs to. The builtin scope holds the builtin types and functions. -/
inductive ScopeKind
  | builtin | root | block | function | struct | box
  deriving Repr, DecidableEq

/-- Whether the names of a scope become visible one after another. -/
def ScopeKind.isSequential : ScopeKind → Bool
  | root | block | function => true
  | builtin | struct | box => false

/-- The builtin functions. -/
inductive Builtin
  | print
  deriving Repr, DecidableEq

namespace Builtin

def name : Builtin → String
  | print => "print"

def signature : Builtin → Ty
  | print => .function [.string] .string

end Builtin

/-- What a declaration declares. -/
inductive DeclKind
  | var | param | function | struct | box | field | attr | method
  | builtinType (ty : Ty)
  | builtinFunction (function : Builtin)
  deriving Repr

/-- Whether a reference to the declaration names a type rather than a value. -/
def DeclKind.isType : DeclKind → Bool
  | struct | box | builtinType _ => true
  | _ => false

/-- A declaration: its name and kind, the node that makes it (builtins have none), the scope it
belongs to, the position from which references may mean it, and its span. -/
structure Declaration where
  name : String
  kind : DeclKind
  node : Option NodeId
  scope : ScopeId
  visibleFrom : Nat
  span : Span
  deriving Repr

/-- The nominal type that a struct or box declares. -/
def Declaration.namedType? (decl : Declaration) : Option Ty :=
  match decl.kind, decl.node with
  | .struct, some node => some (.struct ⟨decl.name, node⟩)
  | .box, some node => some (.box ⟨decl.name, node⟩)
  | _, _ => none

/-- A scope: its kind, the scope around it, its names with what they declare, and the order in which
they are declared. -/
structure Scope where
  kind : ScopeKind
  parent : Option ScopeId
  names : List (String × DeclId)
  order : List DeclId
  deriving Repr

/-- The scopes and declarations of a program, and the member scopes of its structs and boxes. -/
structure SymbolTable where
  scopes : Array Scope
  decls : Array Declaration
  memberScopes : List (NodeId × ScopeId)
  deriving Repr

namespace SymbolTable

def empty : SymbolTable := ⟨#[], #[], []⟩

/-- The scope of the builtin types and functions. -/
def builtinScope : ScopeId := 0

/-- Opens a scope. -/
def pushScope (table : SymbolTable) (kind : ScopeKind) (parent : Option ScopeId) :
    ScopeId × SymbolTable :=
  (table.scopes.size, { table with scopes := table.scopes.push ⟨kind, parent, [], []⟩ })

/-- The declaration of a name in a scope itself. -/
def declaredIn? (table : SymbolTable) (scope : ScopeId) (name : String) : Option DeclId :=
  table.scopes[scope]?.bind (·.names.lookup name)

/-- Declares a name in a scope, unless the scope has the name already. -/
def declare (table : SymbolTable) (scope : ScopeId) (name : String) (kind : DeclKind)
    (node : Option NodeId) (visibleFrom : Nat) (span : Span) :
    Except SemanticError.Cause (DeclId × SymbolTable) :=
  if (table.declaredIn? scope name).isSome then .error (.duplicate name)
  else
    let id := table.decls.size
    .ok (id, { table with
      decls := table.decls.push ⟨name, kind, node, scope, visibleFrom, span⟩
      scopes := table.scopes.modify scope fun s =>
        { s with names := s.names ++ [(name, id)], order := s.order ++ [id] } })

/-! ## Lookup -/

/-- A scope and those around it, from the inside out. A chain without repetition is no longer than
the table. -/
def chainFrom (table : SymbolTable) : Nat → ScopeId → List ScopeId
  | 0, _ => []
  | fuel + 1, scope =>
    match table.scopes[scope]? with
    | none => []
    | some s =>
      scope :: match s.parent with
        | none => []
        | some parent => chainFrom table fuel parent

def chain (table : SymbolTable) (scope : ScopeId) : List ScopeId :=
  table.chainFrom table.scopes.size scope

/-- Whether a declaration found in a scope may be meant by a reference at a position. -/
def isVisible (table : SymbolTable) (scope : ScopeId) (decl : DeclId) (position : Nat) : Bool :=
  match table.scopes[scope]?, table.decls[decl]? with
  | some s, some d => !s.kind.isSequential || d.visibleFrom ≤ position
  | _, _ => false

/-- The first visible declaration of a name along a chain of scopes. `passed` tells whether one was
passed over on the way. -/
def lookupAlong (table : SymbolTable) (name : String) (position : Nat) :
    Bool → List ScopeId → Except SemanticError.Cause DeclId
  | true, [] => .error (.usedBeforeDeclaration name)
  | false, [] => .error (.unresolved (.symbol name))
  | passed, scope :: outer =>
    match table.declaredIn? scope name with
    | none => table.lookupAlong name position passed outer
    | some decl =>
      if table.isVisible scope decl position then .ok decl
      else table.lookupAlong name position true outer

/-- The declaration that a name means at a position in a scope. -/
def lookup (table : SymbolTable) (scope : ScopeId) (name : String) (position : Nat) :
    Except SemanticError.Cause DeclId :=
  table.lookupAlong name position false (table.chain scope)

/-! ## Members -/

/-- Makes a scope the member scope of a struct or box. -/
def setMembers (table : SymbolTable) (owner : NodeId) (scope : ScopeId) : SymbolTable :=
  { table with memberScopes := (owner, scope) :: table.memberScopes }

/-- The members of a struct or box in the order of their declaration. -/
def members (table : SymbolTable) (owner : NodeId) : List Declaration :=
  match (table.memberScopes.lookup owner).bind fun scope => table.scopes[scope]? with
  | none => []
  | some scope => scope.order.filterMap fun id => table.decls[id]?

/-- The member of a struct or box with a given name. -/
def lookupMember? (table : SymbolTable) (owner : NodeId) (name : String) : Option DeclId :=
  (table.memberScopes.lookup owner).bind fun scope => table.declaredIn? scope name

/-! ## Builtins -/

/-- The names of the builtin scope. -/
def builtins : List (String × DeclKind) :=
  [("Int", .builtinType .int), ("Float", .builtinType .float), ("Bool", .builtinType .bool),
   ("String", .builtinType .string), ("Void", .builtinType .void), ("Type", .builtinType .type),
   (Builtin.print.name, .builtinFunction .print)]

/-- Adds builtins to the builtin scope. Their names are distinct, so each gets its declaration. -/
def declareBuiltins (table : SymbolTable) : List (String × DeclKind) → SymbolTable
  | [] => table
  | (name, kind) :: rest =>
    match table.declare builtinScope name kind none 0 .none with
    | .ok (_, table) => table.declareBuiltins rest
    | .error _ => table.declareBuiltins rest

/-- The table that every program starts from. -/
def initial : SymbolTable :=
  (empty.pushScope .builtin none).2.declareBuiltins builtins

end SymbolTable

end BoxScript
