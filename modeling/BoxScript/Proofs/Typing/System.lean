import BoxScript.Proofs.Rules.Characterization
import BoxScript.Proofs.Typing.Independence

/-!
# The type system

What a well typed program is, by one rule for each construct of the language. The rules follow the
tree of the program and say nothing of an order in which types are found, of questions that wait for
each other, or of errors.

The judgements are relative to annotations, which play two parts. They are the context: the symbol
table, in which names are looked up where they stand, and the types of what is declared. And they
are what is assigned: each rule asks that the type, the declaration or the return flag of its own
node is noted. What is noted of a node inside is never used for its type; that comes from the
judgement about the node.

A judgement about an expression has the type that is expected of the expression, if one is. It is
passed on to array literals, since one without elements has no other type to take.

Scopes are known by their numbers, in the order in which the constructs that open them stand in the
program. A judgement about statements has the number of the first scope inside them and the number
of the first scope after them.
-/

set_option autoImplicit false

namespace BoxScript

variable (notes : Annotations)

/-! ## Annotations -/

/-- A written type denotes a type in a scope. -/
inductive Denotes (scope : ScopeId) : TypeExpr → Ty → Prop
  | named {mark : Mark} {name : String} {id : DeclId} {decl : Declaration} {ty : Ty} :
      notes.Finds scope name mark.span.start.offset id decl → decl.denoted? = some ty →
      notes.typeOf? mark.id = some ty → Denotes scope (.named mark name) ty
  | array {mark : Mark} {component : TypeExpr} {ty : Ty} :
      Denotes scope component ty → notes.typeOf? mark.id = some (.array ty) →
      Denotes scope (.array mark component) (.array ty)

/-- A parameter, a field or an attribute has the type that is written for it. -/
structure TypedName.Declares (scope : ScopeId) (name : TypedName) (ty : Ty) : Prop where
  written : Denotes notes scope name.type ty
  noted : notes.declType? name.mark.id = some ty

/-! ## Operators -/

/-- What a prefix operator makes of a type. -/
inductive PrefixOp.Gives : PrefixOp → Ty → Ty → Prop
  | not : Gives .not .bool .bool
  | negate {ty : Ty} : ty.isNumeric = true → Gives .negate ty ty

/-- What a binary operator makes of two types. -/
inductive BinaryOp.Gives : BinaryOp → Ty → Ty → Ty → Prop
  | text {left right : Ty} : left = .string ∨ right = .string → left ≠ .void → right ≠ .void →
      Gives .add left right .string
  | int {op : BinaryOp} : op.opClass = .arithmetic → Gives op .int .int .int
  | float {op : BinaryOp} {left right : Ty} : op.opClass = .arithmetic →
      left.isNumeric = true → right.isNumeric = true → left = .float ∨ right = .float →
      Gives op left right .float
  | relational {op : BinaryOp} {left right : Ty} : op.opClass = .relational →
      left.isNumeric = true → right.isNumeric = true → Gives op left right .bool
  | logical {op : BinaryOp} : op.opClass = .logical → Gives op .bool .bool .bool
  | equality {op : BinaryOp} {left right : Ty} : op.opClass = .equality →
      left.isComparableWith right = true → Gives op left right .bool

/-! ## Expressions -/

/-- A name that is found among the members of a struct or box. -/
structure Annotations.HasMember (owner : NodeId) (name : String) (id : DeclId)
    (decl : Declaration) : Prop where
  looked : notes.symbols.lookupMember? owner name = some id
  present : notes.symbols.decls[id]? = some decl

mutual

/-- An expression has a type in a scope, where a type may be expected of it. -/
inductive HasType (scope : ScopeId) : Option Ty → Expr → Ty → Prop
  | intro {expected : Option Ty} {e : Expr} {ty : Ty} :
      ExprRule scope expected e ty → notes.typeOf? e.id = some ty → HasType scope expected e ty

/-- The rules for the forms of expressions. -/
inductive ExprRule (scope : ScopeId) : Option Ty → Expr → Ty → Prop
  | int {expected : Option Ty} {mark : Mark} {value : Int64} :
      ExprRule scope expected (.int mark value) .int
  | float {expected : Option Ty} {mark : Mark} {value : Float} :
      ExprRule scope expected (.float mark value) .float
  | string {expected : Option Ty} {mark : Mark} {value : String} :
      ExprRule scope expected (.string mark value) .string
  | bool {expected : Option Ty} {mark : Mark} {value : Bool} :
      ExprRule scope expected (.bool mark value) .bool
  | null {expected : Option Ty} {mark : Mark} : ExprRule scope expected (.null mark) .null
  | symbol {expected : Option Ty} {mark : Mark} {name : String} {id : DeclId}
      {decl : Declaration} {ty : Ty} :
      notes.Finds scope name mark.span.start.offset id decl → decl.type? notes = some ty →
      notes.declId? mark.id = some id → ExprRule scope expected (.symbol mark name) ty
  | emptyArray {mark : Mark} {component : Ty} :
      ExprRule scope (some (.array component)) (.array mark []) (.array component)
  | array {expected : Option Ty} {mark : Mark} {first : Expr} {rest : List Expr}
      {ty component : Ty} :
      HasType scope (expected.bind Ty.component?) first ty →
      HaveCommonType scope (expected.bind Ty.component?) ty rest component →
      ExprRule scope expected (.array mark (first :: rest)) (.array component)
  | paren {expected : Option Ty} {mark : Mark} {inner : Expr} {ty : Ty} :
      HasType scope expected inner ty → ExprRule scope expected (.paren mark inner) ty
  | unary {expected : Option Ty} {mark : Mark} {op : PrefixOp} {operand : Expr} {ty result : Ty} :
      HasType scope none operand ty → op.Gives ty result →
      ExprRule scope expected (.unary mark op operand) result
  | binary {expected : Option Ty} {mark : Mark} {op : BinaryOp} {left right : Expr}
      {leftType rightType result : Ty} :
      HasType scope none left leftType → HasType scope none right rightType →
      op.Gives leftType rightType result →
      ExprRule scope expected (.binary mark op left right) result
  | assign {expected : Option Ty} {mark : Mark} {target value : Expr} {targetType valueType : Ty} :
      HasType scope none target targetType → IsPlace scope target →
      HasType scope (some targetType) value valueType →
      valueType.isAssignableTo targetType = true →
      ExprRule scope expected (.assign mark target value) targetType
  | call {expected : Option Ty} {mark : Mark} {callee : Expr} {given : List Expr}
      {params : List Ty} {result : Ty} :
      HasType scope none callee (.function params result) → Fit scope params given →
      ExprRule scope expected (.call mark callee given) result
  | index {expected : Option Ty} {mark : Mark} {owner place : Expr} {component : Ty} :
      HasType scope none owner (.array component) → HasType scope none place .int →
      ExprRule scope expected (.index mark owner place) component
  | length {expected : Option Ty} {mark : Mark} {receiver : Expr} {component : Ty} :
      HasType scope none receiver (.array component) →
      ExprRule scope expected (.field mark receiver "length") .int
  | field {expected : Option Ty} {mark : Mark} {receiver : Expr} {name : String}
      {named : NamedType} {id : DeclId} {decl : Declaration} {ty : Ty} :
      HasType scope none receiver (.struct named) → notes.HasMember named.decl name id decl →
      decl.node.bind notes.declType? = some ty →
      notes.declId? mark.id = some id → ExprRule scope expected (.field mark receiver name) ty
  | member {expected : Option Ty} {mark : Mark} {receiver : Expr} {name : String}
      {named : NamedType} {id : DeclId} {decl : Declaration} {ty : Ty} :
      HasType scope none receiver (.box named) → notes.HasMember named.decl name id decl →
      decl.node.bind notes.declType? = some ty →
      notes.declId? mark.id = some id → ExprRule scope expected (.member mark receiver name) ty
  | constructor {expected : Option Ty} {mark : Mark} {name : String} {id : DeclId}
      {decl : Declaration} {named : NamedType} {fields : List Ty} :
      notes.Finds scope name mark.span.start.offset id decl →
        decl.namedType? = some (.struct named) →
      List.Forall₂ (fun field ty => field.node.bind notes.declType? = some ty)
        (notes.symbols.members named.decl) fields →
      notes.declId? mark.id = some id →
      ExprRule scope expected (.constructor mark name) (.function fields (.struct named))
  | create {expected : Option Ty} {mark : Mark} {name : String} {id : DeclId}
      {decl : Declaration} {named : NamedType} :
      notes.Finds scope name mark.span.start.offset id decl → decl.namedType? = some (.box named) →
      notes.declId? mark.id = some id →
      ExprRule scope expected (.create mark name) (.box named)

/-- An expression that can be assigned to: a name of a variable, a parameter or an attribute, an
element of an array, a field of a struct, or an attribute of a box. -/
inductive IsPlace (scope : ScopeId) : Expr → Prop
  | symbol {mark : Mark} {name : String} {id : DeclId} {decl : Declaration} :
      notes.Finds scope name mark.span.start.offset id decl →
      decl.kind = .var ∨ decl.kind = .param ∨ decl.kind = .attr →
      IsPlace scope (.symbol mark name)
  | index {mark : Mark} {owner place : Expr} : IsPlace scope (.index mark owner place)
  | field {mark : Mark} {receiver : Expr} {name : String} {named : NamedType} :
      HasType scope none receiver (.struct named) → IsPlace scope (.field mark receiver name)
  | member {mark : Mark} {receiver : Expr} {name : String} {named : NamedType} {id : DeclId}
      {decl : Declaration} :
      HasType scope none receiver (.box named) → notes.HasMember named.decl name id decl →
      decl.kind = .attr → IsPlace scope (.member mark receiver name)
  | paren {mark : Mark} {inner : Expr} :
      IsPlace scope inner → IsPlace scope (.paren mark inner)

/-- A type and those of further elements have a common supertype, found from left to right. -/
inductive HaveCommonType (scope : ScopeId) : Option Ty → Ty → List Expr → Ty → Prop
  | nil {expected : Option Ty} {ty : Ty} : HaveCommonType scope expected ty [] ty
  | cons {expected : Option Ty} {ty other common component : Ty} {e : Expr} {rest : List Expr} :
      HasType scope expected e other → ty.commonSupertype? other = some common →
      HaveCommonType scope expected common rest component →
      HaveCommonType scope expected ty (e :: rest) component

/-- As many arguments as parameters, each of a type that is assignable to that of its parameter. -/
inductive Fit (scope : ScopeId) : List Ty → List Expr → Prop
  | nil : Fit scope [] []
  | cons {param ty : Ty} {params : List Ty} {e : Expr} {rest : List Expr} :
      HasType scope (some param) e ty → ty.isAssignableTo param = true →
      Fit scope params rest → Fit scope (param :: params) (e :: rest)

end

/-! ## Return analysis -/

mutual

/-- Whether a statement returns on every way through it. -/
def Stmt.alwaysReturns : Stmt → Bool
  | .block b => b.alwaysReturns
  | .ifElse _ _ thenBody (some elseBody) => thenBody.alwaysReturns && elseBody.alwaysReturns
  | .return _ _ => true
  | _ => false

/-- Whether a block returns on every way through it: its last statement does. -/
def Block.alwaysReturns : Block → Bool
  | ⟨_, body⟩ => Stmt.lastReturns body

/-- Whether the last of some statements returns on every way through it. -/
def Stmt.lastReturns : List Stmt → Bool
  | [] => false
  | [s] => s.alwaysReturns
  | _ :: s :: rest => Stmt.lastReturns (s :: rest)

end

/-! ## Statements -/

/-- What is around a statement: the program alone, or a function with the result type that is
written for it. -/
inductive Around
  | program
  | function (written : Option Ty)

namespace Around

/-- What a `return` has to give a value of. A function without a written result gives Void. -/
def result? : Around → Option Ty
  | program => none
  | function written => some (written.getD .void)

/-- What is expected of the value of a `return`. -/
def expected : Around → Option Ty
  | program => none
  | function written => written

end Around

/-- A variable has the type that is written for it, or that of its initializer. -/
inductive VariableTyped (scope : ScopeId) : VariableDecl → Prop
  | plain {mark : Mark} {name : String} {written : TypeExpr} {ty : Ty} :
      Denotes notes scope written ty → notes.declType? mark.id = some ty →
      VariableTyped scope ⟨mark, name, .typed written none⟩
  | initialized {mark : Mark} {name : String} {written : TypeExpr} {value : Expr} {ty actual : Ty} :
      Denotes notes scope written ty → HasType notes scope (some ty) value actual →
      actual.isAssignableTo ty = true → notes.declType? mark.id = some ty →
      VariableTyped scope ⟨mark, name, .typed written (some value)⟩
  | inferred {mark : Mark} {name : String} {value : Expr} {ty : Ty} :
      HasType notes scope none value ty → ty ≠ .null → ty ≠ .void →
      notes.declType? mark.id = some ty → VariableTyped scope ⟨mark, name, .inferred value⟩

/-- The result type that is written for a function, if one is. -/
inductive ResultWritten (scope : ScopeId) : Option TypeExpr → Option Ty → Prop
  | absent : ResultWritten scope none none
  | present {type : TypeExpr} {ty : Ty} :
      Denotes notes scope type ty → ResultWritten scope (some type) (some ty)

mutual

/-- A statement is well typed in a scope. -/
inductive StmtTyped : ScopeId → ScopeId → Around → Stmt → ScopeId → Prop
  | intro {scope next later : ScopeId} {around : Around} {s : Stmt} :
      StmtRule scope next around s later → notes.returns? s.id = some s.alwaysReturns →
      StmtTyped scope next around s later

/-- The rules for the forms of statements. -/
inductive StmtRule : ScopeId → ScopeId → Around → Stmt → ScopeId → Prop
  | block {scope next later : ScopeId} {around : Around} {mark : Mark} {body : List Stmt} :
      StmtsTyped next (next + 1) around body later →
      StmtRule scope next around (.block ⟨mark, body⟩) later
  | expression {scope next : ScopeId} {around : Around} {mark : Mark} {e : Expr} {ty : Ty} :
      HasType notes scope none e ty → StmtRule scope next around (.expression mark e) next
  | var {scope next : ScopeId} {around : Around} {decl : VariableDecl} :
      VariableTyped notes scope decl → StmtRule scope next around (.var decl) next
  | function {scope next later : ScopeId} {around : Around} {decl : FunctionDecl} :
      FunctionTyped scope next decl later → StmtRule scope next around (.function decl) later
  | struct {scope next : ScopeId} {around : Around} {decl : StructDecl} :
      (∀ field ∈ decl.fields, ∃ ty, field.Declares notes scope ty) →
      StmtRule scope next around (.struct decl) (next + 1)
  | box {scope next later : ScopeId} {around : Around} {mark : Mark} {name : String}
      {members : List Member} :
      MembersTyped scope next (next + 1) members later →
      StmtRule scope next around (.box ⟨mark, name, members⟩) later
  | ifThen {scope next later : ScopeId} {around : Around} {mark : Mark} {condition : Expr}
      {thenBody : Stmt} :
      HasType notes scope none condition .bool → BranchTyped scope next around thenBody later →
      StmtRule scope next around (.ifElse mark condition thenBody none) later
  | ifElse {scope next middle later : ScopeId} {around : Around} {mark : Mark} {condition : Expr}
      {thenBody elseBody : Stmt} :
      HasType notes scope none condition .bool → BranchTyped scope next around thenBody middle →
      BranchTyped scope middle around elseBody later →
      StmtRule scope next around (.ifElse mark condition thenBody (some elseBody)) later
  | while {scope next later : ScopeId} {around : Around} {mark : Mark} {condition : Expr}
      {body : Stmt} :
      HasType notes scope none condition .bool → BranchTyped scope next around body later →
      StmtRule scope next around (.while mark condition body) later
  | returnNothing {scope next : ScopeId} {around : Around} {mark : Mark} :
      (∀ result ∈ around.result?, result = .void) →
      StmtRule scope next around (.return mark none) next
  | return {scope next : ScopeId} {around : Around} {mark : Mark} {value : Expr} {ty : Ty} :
      HasType notes scope around.expected value ty →
      (∀ result ∈ around.result?, ty.isAssignableTo result = true) →
      StmtRule scope next around (.return mark (some value)) next

/-- The body of a branch or loop is well typed. If it is no block, it has a scope of its own. -/
inductive BranchTyped : ScopeId → ScopeId → Around → Stmt → ScopeId → Prop
  | block {scope next later : ScopeId} {around : Around} {b : Block} :
      StmtTyped scope next around (.block b) later → BranchTyped scope next around (.block b) later
  | alone {scope next later : ScopeId} {around : Around} {s : Stmt} :
      (∀ b, s ≠ .block b) → StmtTyped next (next + 1) around s later →
      BranchTyped scope next around s later

/-- Statements are well typed one after another. -/
inductive StmtsTyped : ScopeId → ScopeId → Around → List Stmt → ScopeId → Prop
  | nil {scope next : ScopeId} {around : Around} : StmtsTyped scope next around [] next
  | cons {scope next middle later : ScopeId} {around : Around} {s : Stmt} {rest : List Stmt} :
      StmtTyped scope next around s middle → StmtsTyped scope middle around rest later →
      StmtsTyped scope next around (s :: rest) later

/-- A function or a method is well typed. Its type comes from its annotations, which belong to the
scope around it. A function that has to give a value always returns. -/
inductive FunctionTyped : ScopeId → ScopeId → FunctionDecl → ScopeId → Prop
  | intro {scope next later : ScopeId} {mark : Mark} {name : String} {parameters : List TypedName}
      {result : Option TypeExpr} {body : Block} {params : List Ty} {written : Option Ty} :
      List.Forall₂ (TypedName.Declares notes scope) parameters params →
      ResultWritten notes scope result written →
      notes.declType? mark.id = some (.function params (written.getD .void)) →
      StmtTyped next (next + 1) (.function written) (.block body) later →
      written.getD .void = .void ∨ body.alwaysReturns = true →
      FunctionTyped scope next ⟨mark, name, parameters, result, body⟩ later

/-- The members of a box are well typed. The types of attributes belong to the scope around the
box. -/
inductive MembersTyped : ScopeId → ScopeId → ScopeId → List Member → ScopeId → Prop
  | nil {scope inner next : ScopeId} : MembersTyped scope inner next [] next
  | attr {scope inner next later : ScopeId} {decl : TypedName} {ty : Ty} {rest : List Member} :
      decl.Declares notes scope ty → MembersTyped scope inner next rest later →
      MembersTyped scope inner next (.attr decl :: rest) later
  | meth {scope inner next middle later : ScopeId} {decl : FunctionDecl} {rest : List Member} :
      FunctionTyped inner next decl middle → MembersTyped scope inner middle rest later →
      MembersTyped scope inner next (.meth decl :: rest) later

end

/-! ## Distinct names -/

/-- The name that a statement declares in the scope that it stands in. -/
def Stmt.declaredName? : Stmt → Option String
  | .var decl => some decl.name
  | .function decl => some decl.name
  | .struct decl => some decl.name
  | .box decl => some decl.name
  | _ => none

mutual

/-- No scope inside a statement has a name twice. -/
def Stmt.NamesDistinct : Stmt → Prop
  | .block b => b.NamesDistinct
  | .expression _ _ => True
  | .var _ => True
  | .function decl => decl.NamesDistinct
  | .struct decl => (decl.fields.map TypedName.name).Nodup
  | .box decl => decl.NamesDistinct
  | .ifElse _ _ thenBody none => thenBody.NamesDistinct
  | .ifElse _ _ thenBody (some elseBody) => thenBody.NamesDistinct ∧ elseBody.NamesDistinct
  | .while _ _ body => body.NamesDistinct
  | .return _ _ => True

def Block.NamesDistinct : Block → Prop
  | ⟨_, body⟩ => (body.filterMap Stmt.declaredName?).Nodup ∧ Stmt.AllNamesDistinct body

def Stmt.AllNamesDistinct : List Stmt → Prop
  | [] => True
  | s :: rest => s.NamesDistinct ∧ Stmt.AllNamesDistinct rest

def FunctionDecl.NamesDistinct : FunctionDecl → Prop
  | ⟨_, _, parameters, _, body⟩ => (parameters.map TypedName.name).Nodup ∧ body.NamesDistinct

def BoxDecl.NamesDistinct : BoxDecl → Prop
  | ⟨_, _, members⟩ => (members.map Member.name).Nodup ∧ Member.AllNamesDistinct members

def Member.AllNamesDistinct : List Member → Prop
  | [] => True
  | .attr _ :: rest => Member.AllNamesDistinct rest
  | .meth decl :: rest => decl.NamesDistinct ∧ Member.AllNamesDistinct rest

end

/-! ## Programs -/

/-- Annotations are what the type system assigns to a program: they refer to the symbol table of the
program, no scope has a name twice, and the statements are well typed in the root scope, which is
the first after that of the builtins. -/
structure Program.WellTyped (program : Program) : Prop where
  symbols : notes.symbols = program.symbols
  distinct : Block.NamesDistinct program
  typed : ∃ later, StmtsTyped notes 1 2 .program program.body later

end BoxScript
