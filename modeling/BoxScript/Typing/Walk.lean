import BoxScript.Typing.Rules

/-!
# The walk over a program

The analysis of a program goes over its tree once. It opens a scope for each block, body, function,
struct and box, declares the names in it, and comes by each annotation, expression and statement,
whose type is known at once or follows by a rule. `Walk.program` lists these steps in their order.
Functions, structs and boxes are declared before the statements around them are gone through, so
they can be used before their place; a variable is declared after its initializer.

Scopes are numbered in the order in which they are opened. The functions here take the scope that
they are in and, where they open scopes, the number of the next one.
-/

set_option autoImplicit false

namespace BoxScript

/-- A step of the walk: a scope opens, a name is declared in a scope, a scope becomes the member
scope of a struct or box, an annotation or an expression is come by whose parts are done, a rule is
collected, or a statement is known to return always or not. -/
inductive Step
  | openScope (scope : ScopeId) (kind : ScopeKind) (parent : ScopeId)
  | declare (scope : ScopeId) (name : String) (kind : DeclKind) (mark : Mark) (visibleFrom : Nat)
  | setMembers (owner : NodeId) (scope : ScopeId)
  | typeExpr (scope : ScopeId) (type : TypeExpr)
  | expr (scope : ScopeId) (expectation : Expectation) (e : Expr)
  | rule (rule : Rule)
  | returns (mark : Mark) (value : Bool)

/-! ## What follows from a step -/

/-- The rule of an annotation. -/
def TypeExpr.rule (scope : ScopeId) : TypeExpr → Rule
  | .named mark name => .typeName mark name scope
  | .array mark component => .arrayType mark component.id

/-- How an expression gets its type. -/
inductive Finding
  | known (ty : Ty)
  | rule (rule : Rule)

/-- The type of a literal is known, and any other expression has a rule. -/
def Expr.finding (scope : ScopeId) (expectation : Expectation) : Expr → Finding
  | .int _ _ => .known .int
  | .float _ _ => .known .float
  | .string _ _ => .known .string
  | .bool _ _ => .known .bool
  | .null _ => .known .null
  | .symbol mark name => .rule (.symbol mark name scope)
  | .array mark elements => .rule (.array mark (elements.map Expr.id) expectation)
  | .paren mark inner => .rule (.paren mark inner.id)
  | .unary mark op operand => .rule (.unary mark op operand.id)
  | .binary mark op left right => .rule (.binary mark op left.id right.id)
  | .assign mark target value => .rule (.assign mark target value.id)
  | .call mark callee arguments => .rule (.call mark callee arguments)
  | .index mark owner place => .rule (.index mark owner place)
  | .field mark receiver name => .rule (.field mark receiver.id name)
  | .member mark receiver name => .rule (.member mark receiver.id name)
  | .constructor mark name => .rule (.constructor mark name scope)
  | .create mark name => .rule (.create mark name scope)

namespace Step

/-- The rules that a step collects. -/
def rules : Step → List Rule
  | typeExpr scope type => [type.rule scope]
  | expr scope expectation e =>
    match e.finding scope expectation with
    | .known _ => []
    | .rule found => [found]
  | rule collected => [collected]
  | _ => []

/-- The facts that a step knows at once. -/
def facts : Step → List (FactKey × FactValue)
  | expr scope expectation e =>
    match e.finding scope expectation with
    | .known ty => [(⟨e.id, .type⟩, .type ty)]
    | .rule _ => []
  | returns mark value => [(⟨mark.id, .returns⟩, .flag value)]
  | _ => []

/-- Whether a step opens a scope. -/
def isOpening : Step → Bool
  | openScope _ _ _ => true
  | _ => false

/-- The number of scopes that steps open. -/
def opened (steps : List Step) : Nat := steps.countP isOpening

end Step

namespace Walk

/-! ## Types -/

def typeExpr (scope : ScopeId) : TypeExpr → List Step
  | .named mark name => [.typeExpr scope (.named mark name)]
  | .array mark component => typeExpr scope component ++ [.typeExpr scope (.array mark component)]

/-- A name with its written type declares something of that type. -/
def annotated (name : TypedName) (what : String) : Step :=
  .rule (.annotated name.mark.id name.type.id what name.mark.span)

/-! ## Expressions -/

mutual

def expr (scope : ScopeId) (expectation : Expectation) : Expr → List Step
  | .array mark elements =>
    exprs scope (.element expectation) elements ++ [.expr scope expectation (.array mark elements)]
  | .paren mark inner =>
    expr scope expectation inner ++ [.expr scope expectation (.paren mark inner)]
  | .unary mark op operand =>
    expr scope .none operand ++ [.expr scope expectation (.unary mark op operand)]
  | .binary mark op left right =>
    expr scope .none left ++ expr scope .none right ++
      [.expr scope expectation (.binary mark op left right)]
  | .assign mark target value =>
    expr scope .none target ++ expr scope (.type target.id) value ++
      [.expr scope expectation (.assign mark target value)]
  | .call mark callee given =>
    expr scope .none callee ++ arguments scope callee.id 0 given ++
      [.expr scope expectation (.call mark callee given)]
  | .index mark owner place =>
    expr scope .none owner ++ expr scope .none place ++
      [.expr scope expectation (.index mark owner place)]
  | .field mark receiver name =>
    expr scope .none receiver ++ [.expr scope expectation (.field mark receiver name)]
  | .member mark receiver name =>
    expr scope .none receiver ++ [.expr scope expectation (.member mark receiver name)]
  | e => [.expr scope expectation e]

/-- Expressions of which the same is expected. -/
def exprs (scope : ScopeId) (expectation : Expectation) : List Expr → List Step
  | [] => []
  | e :: rest => expr scope expectation e ++ exprs scope expectation rest

/-- The arguments of a call, from the one with number `index` on. -/
def arguments (scope : ScopeId) (callee : NodeId) (index : Nat) : List Expr → List Step
  | [] => []
  | e :: rest => expr scope (.param callee index) e ++ arguments scope callee (index + 1) rest

end

/-! ## Declarations -/

/-- Declares the functions, structs and boxes among statements. -/
def hoist (scope : ScopeId) : List Stmt → List Step
  | [] => []
  | .function decl :: rest => .declare scope decl.name .function decl.mark 0 :: hoist scope rest
  | .struct decl :: rest => .declare scope decl.name .struct decl.mark 0 :: hoist scope rest
  | .box decl :: rest => .declare scope decl.name .box decl.mark 0 :: hoist scope rest
  | _ :: rest => hoist scope rest

def varDecl (scope : ScopeId) (decl : VariableDecl) : List Step :=
  let declared : List Step :=
    [.declare scope decl.name .var decl.mark decl.mark.span.stop.offset, .returns decl.mark false]
  match decl.form with
  | .typed type none =>
    typeExpr scope type ++ declared ++ [annotated ⟨decl.mark, decl.name, type⟩ (what decl)]
  | .typed type (some value) =>
    typeExpr scope type ++ expr scope (.type type.id) value ++ declared ++
      [annotated ⟨decl.mark, decl.name, type⟩ (what decl),
       .rule (.initializer decl.name type.id value)]
  | .inferred value =>
    expr scope .none value ++ declared ++ [.rule (.inferred decl.mark decl.name value.id)]
where
  what (decl : VariableDecl) : String := s!"type of variable `{decl.name}`"

/-- The fields of a struct. -/
def fields (scope members : ScopeId) (owner : String) : List TypedName → List Step
  | [] => []
  | field :: rest =>
    typeExpr scope field.type ++
      [.declare members field.name .field field.mark 0,
       annotated field s!"type of field `{owner}.{field.name}`"] ++
      fields scope members owner rest

def struct (scope next : ScopeId) (decl : StructDecl) : List Step :=
  [.returns decl.mark false, .openScope next .struct scope] ++
    fields scope next decl.name decl.fields ++ [.setMembers decl.mark.id next]

/-- The types of parameters belong to the scope around the function. -/
def parameterTypes (scope : ScopeId) : List TypedName → List Step
  | [] => []
  | parameter :: rest => typeExpr scope parameter.type ++ parameterTypes scope rest

def parameters (scope : ScopeId) : List TypedName → List Step
  | [] => []
  | parameter :: rest =>
    [.declare scope parameter.name .param parameter.mark 0,
     annotated parameter s!"type of parameter `{parameter.name}`"] ++ parameters scope rest

/-- Declares the members of a box. -/
def declareMembers (members : ScopeId) : List Member → List Step
  | [] => []
  | .attr decl :: rest =>
    .declare members decl.name .attr decl.mark 0 :: declareMembers members rest
  | .meth decl :: rest =>
    .declare members decl.name .method decl.mark 0 :: declareMembers members rest

/-! ## Statements -/

/-- The scope of a branch or loop body. A body that is no block gets one of its own. -/
def bodyScope (scope next : ScopeId) : Stmt → ScopeId
  | .block _ => scope
  | _ => next

/-- Opens the scope of a branch or loop body, if it gets one. -/
def openBody (scope next : ScopeId) : Stmt → List Step
  | .block _ => []
  | s => .openScope next .block scope :: hoist next [s]

/-- What is expected of the value that a `return` gives: the result type of the function around
it. -/
def returnExpectation (enclosing : Option FunctionDecl) : Expectation :=
  match enclosing.bind (·.result) with
  | some type => .type type.id
  | none => .none

mutual

/-- A statement in a scope, inside the innermost of the functions around it. -/
def stmt (scope next : ScopeId) (enclosing : Option FunctionDecl) : Stmt → List Step
  | .block b => block scope next enclosing b
  | .expression mark e => expr scope .none e ++ [.returns mark false]
  | .var decl => varDecl scope decl
  | .function decl => function scope next decl ++ [.returns decl.mark false]
  | .struct decl => struct scope next decl
  | .box decl => box scope next decl
  | .ifElse mark condition thenBody none =>
    expr scope .none condition ++ [.rule (.condition .if condition)] ++
      openBody scope next thenBody ++
      stmt (bodyScope scope next thenBody) (next + Step.opened (openBody scope next thenBody))
        enclosing thenBody ++
      [.rule (.branchesReturn mark thenBody.id none)]
  | .ifElse mark condition thenBody (some elseBody) =>
    let first := openBody scope next thenBody ++
      stmt (bodyScope scope next thenBody) (next + Step.opened (openBody scope next thenBody))
        enclosing thenBody
    let next := next + Step.opened first
    expr scope .none condition ++ [.rule (.condition .if condition)] ++ first ++
      openBody scope next elseBody ++
      stmt (bodyScope scope next elseBody) (next + Step.opened (openBody scope next elseBody))
        enclosing elseBody ++
      [.rule (.branchesReturn mark thenBody.id (some elseBody.id))]
  | .while mark condition body =>
    expr scope .none condition ++ [.rule (.condition .while condition)] ++
      openBody scope next body ++
      stmt (bodyScope scope next body) (next + Step.opened (openBody scope next body))
        enclosing body ++
      [.returns mark false]
  | .return mark value =>
    (match value with
      | some value => expr scope (returnExpectation enclosing) value
      | none => []) ++
    .returns mark true ::
    (match enclosing with
      | some enclosing => [.rule (.returned mark value enclosing)]
      | none => [])

def block (scope next : ScopeId) (enclosing : Option FunctionDecl) : Block → List Step
  | ⟨mark, body⟩ =>
    .openScope next .block scope :: (hoist next body ++ stmts next (next + 1) enclosing body ++
      [.rule (.blockReturns mark (body.getLast?.map Stmt.id))])

def stmts (scope next : ScopeId) (enclosing : Option FunctionDecl) : List Stmt → List Step
  | [] => []
  | s :: rest =>
    let first := stmt scope next enclosing s
    first ++ stmts scope (next + Step.opened first) enclosing rest

def function (scope next : ScopeId) : FunctionDecl → List Step
  | decl@⟨_, _, _, _, body⟩ =>
    parameterTypes scope decl.parameters ++
      (match decl.result with
        | some type => typeExpr scope type
        | none => []) ++
      .openScope next .function scope :: (parameters next decl.parameters ++
      .rule (.signature decl) :: (block next (next + 1) (some decl) body ++
      (match decl.result with
        | some type => [.rule (.returnsAlways decl type.id)]
        | none => [])))

def box (scope next : ScopeId) : BoxDecl → List Step
  | ⟨mark, name, members⟩ =>
    [.returns mark false, .openScope next .box scope] ++ declareMembers next members ++
      [.setMembers mark.id next] ++ boxMembers scope next (next + 1) name members

/-- The members of a box. The types of attributes belong to the scope around the box. -/
def boxMembers (scope members next : ScopeId) (owner : String) : List Member → List Step
  | [] => []
  | .attr decl :: rest =>
    typeExpr scope decl.type ++ [annotated decl s!"type of attribute `{owner}#{decl.name}`"] ++
      boxMembers scope members next owner rest
  | .meth decl :: rest =>
    let first := function members next decl
    first ++ boxMembers scope members (next + Step.opened first) owner rest

end

/-- The whole program, in a root scope inside the builtin scope. -/
def program (body : List Stmt) : List Step :=
  .openScope 1 .root SymbolTable.builtinScope :: (hoist 1 body ++ stmts 1 2 none body)

end Walk

end BoxScript
