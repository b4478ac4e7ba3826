import BoxScript.Rule

/-!
# Typing rules

One rule for each construct of the language, as a script. Each answers the questions about its own
node from the answers about the nodes inside it, reports what does not fit there, and stays silent
about what is already wrong inside: a node without a type poisons the nodes around it.
-/

set_option autoImplicit false

namespace BoxScript

open Script

/-- Where an empty array literal takes its type from: nowhere, the type of a node (an annotation or
the target of an assignment), the parameter of a callee, or the elements of another expectation. -/
inductive Expectation
  | none
  | type (node : NodeId)
  | param (callee : NodeId) (index : Nat)
  | element (outer : Expectation)
  deriving Repr, DecidableEq

/-- The type that an expectation asks for. -/
def Expectation.resolve : Expectation → Script (Option Ty)
  | none => return Option.none
  | type node => some <$> typeOf node
  | param callee index => do
    match ← typeOf callee with
    | .function params _ => return params[index]?
    | _ => return Option.none
  | element outer => return (← outer.resolve).bind Ty.component?

namespace Rule

/-! ## References -/

/-- The declaration with a given number. -/
def declaration (symbols : SymbolTable) (id : DeclId) : Script Declaration :=
  match symbols.decls[id]? with
  | some decl => return decl
  | none => drop

/-- The declaration that a name means where it stands; an unknown name is reported. -/
def resolveName (symbols : SymbolTable) (scope : ScopeId) (name : String) (span : Span) :
    Script (Option (DeclId × Declaration)) :=
  match symbols.lookup scope name span.start.offset with
  | .ok id => return some (id, ← declaration symbols id)
  | .error cause => do
    error cause span
    return none

/-- The type of what a declaration declares. -/
def declaredType (decl : Declaration) : Script Ty :=
  match decl.node with
  | some node => declTypeOf node
  | none => drop

/-- A name: its declaration and its type. A name of a type has the type `Type`. -/
def symbol (mark : Mark) (name : String) (scope : ScopeId) : Rule :=
  .ofScript [⟨mark.id, .decl⟩, ⟨mark.id, .type⟩] s!"reference `{name}`" mark.span fun symbols => do
    match ← resolveName symbols scope name mark.span with
    | none => return ()
    | some (id, decl) =>
      let ty ← match decl.kind with
        | .builtinFunction function => pure function.signature
        | kind => if kind.isType then pure .type else declaredType decl
      setDecl mark.id id
      setType mark.id ty

/-- `$Name`: a function from the types of the fields to the struct. -/
def constructor (mark : Mark) (name : String) (scope : ScopeId) : Rule :=
  .ofScript [⟨mark.id, .type⟩, ⟨mark.id, .decl⟩] s!"constructor `${name}`" mark.span
    fun symbols => do
      match ← resolveName symbols scope name mark.span with
      | none => return ()
      | some (id, decl) =>
        match decl.namedType? with
        | some (.struct named) =>
          let fields ← (symbols.members named.decl).mapM declaredType
          setDecl mark.id id
          setType mark.id (.function fields (.struct named))
        | _ => error (.mismatch (.notAStruct name)) mark.span

/-- `create Name()`: the box. -/
def create (mark : Mark) (name : String) (scope : ScopeId) : Rule :=
  .ofScript [⟨mark.id, .type⟩, ⟨mark.id, .decl⟩] s!"creation of `{name}`" mark.span
    fun symbols => do
      match ← resolveName symbols scope name mark.span with
      | none => return ()
      | some (id, decl) =>
        match decl.namedType? with
        | some (.box named) =>
          setDecl mark.id id
          setType mark.id (.box named)
        | _ => error (.mismatch (.notABox name)) mark.span

/-- A name in an annotation: a builtin type, a struct or a box. -/
def typeName (mark : Mark) (name : String) (scope : ScopeId) : Rule :=
  .ofScript [⟨mark.id, .type⟩] s!"type `{name}`" mark.span fun symbols => do
    match ← resolveName symbols scope name mark.span with
    | none => return ()
    | some (_, decl) =>
      let named := match decl.kind with
        | .builtinType ty => some ty
        | _ => decl.namedType?
      match named with
      | some ty => setType mark.id ty
      | none => error (.mismatch (.notAType name)) mark.span

/-- `T[]`. -/
def arrayType (mark : Mark) (component : NodeId) : Rule :=
  .ofScript [⟨mark.id, .type⟩] "array type" mark.span fun _ => do
    setType mark.id (.array (← typeOf component))

/-! ## Expressions -/

/-- Parentheses. -/
def paren (mark : Mark) (inner : NodeId) : Rule :=
  .ofScript [⟨mark.id, .type⟩] "parenthesized expression" mark.span fun _ => do
    setType mark.id (← typeOf inner)

/-- The common type of elements, from left to right; two without one are reported. -/
def commonType (span : Span) : Ty → List NodeId → Script (Option Ty)
  | component, [] => return some component
  | component, element :: rest => do
    let ty ← typeOf element
    match component.commonSupertype? ty with
    | some common => commonType span common rest
    | none =>
      error (.mismatch (.elements component ty)) span
      return none

/-- An array literal: an array of the common type of its elements, or what is expected of it if it
has none. -/
def array (mark : Mark) (elements : List NodeId) (expectation : Expectation) : Rule :=
  .ofScript [⟨mark.id, .type⟩] "array literal" mark.span fun _ => do
    match elements with
    | [] =>
      match ← expectation.resolve with
      | some (.array component) => setType mark.id (.array component)
      | some other => error (.mismatch (.emptyArrayFor other)) mark.span
      | none => error (.mismatch .emptyArray) mark.span
    | first :: rest =>
      match ← commonType mark.span (← typeOf first) rest with
      | some component => setType mark.id (.array component)
      | none => return ()

/-- A prefix operator. -/
def unary (mark : Mark) (op : PrefixOp) (operand : NodeId) : Rule :=
  .ofScript [⟨mark.id, .type⟩] "unary expression" mark.span fun _ => do
    let ty ← typeOf operand
    match op with
    | .not =>
      if ty.same .bool then setType mark.id .bool
      else error (.mismatch (.notOperand ty)) mark.span
    | .negate =>
      if ty.isNumeric then setType mark.id ty
      else error (.mismatch (.negateOperand ty)) mark.span

/-- The type of a binary operation, or why its operands do not fit. A sum with a String on one side
is text, whatever is on the other side, unless that is Void. -/
def binaryType (op : BinaryOp) (left right : Ty) : Except SemanticError.Cause Ty :=
  match op.opClass with
  | .arithmetic =>
    if op = .add && (left.same .string || right.same .string) && !left.same .void &&
        !right.same .void then .ok .string
    else if left.isNumeric && right.isNumeric then
      .ok (if left.same .float || right.same .float then .float else .int)
    else .error (.mismatch (.operands op left right))
  | .relational =>
    match [left, right].find? (!·.isNumeric) with
    | some ty => .error (.mismatch (.relationalOperand ty))
    | none => .ok .bool
  | .logical =>
    match [left, right].find? (!·.same .bool) with
    | some ty => .error (.mismatch (.logicalOperand ty))
    | none => .ok .bool
  | .equality =>
    if left.isComparableWith right then .ok .bool else .error (.incomparable left right)

/-- A binary operator. -/
def binary (mark : Mark) (op : BinaryOp) (left right : NodeId) : Rule :=
  .ofScript [⟨mark.id, .type⟩] s!"`{op.text}` expression" mark.span fun _ => do
    let leftType ← typeOf left
    let rightType ← typeOf right
    match binaryType op leftType rightType with
    | .ok ty => setType mark.id ty
    | .error cause => error cause mark.span

/-- Whether an expression names a place that can be assigned to: a variable, parameter or attribute,
an element, a field (the length of an array is none), or an attribute of a box. -/
def isAssignable (symbols : SymbolTable) (target : Expr) : Script Bool := do
  match target.bare with
  | .symbol mark _ =>
    match (← declaration symbols (← declOf mark.id)).kind with
    | .var | .param | .attr => return true
    | _ => return false
  | .index _ _ _ => return true
  | .field _ receiver _ =>
    match ← typeOf receiver.id with
    | .array _ => return false
    | _ => return true
  | .member mark _ _ =>
    match (← declaration symbols (← declOf mark.id)).kind with
    | .attr => return true
    | _ => return false
  | _ => return false

/-- An assignment has the type of its target. -/
def assign (mark : Mark) (target : Expr) (value : NodeId) : Rule :=
  .ofScript [⟨mark.id, .type⟩] "assignment" mark.span fun symbols => do
    if !(← isAssignable symbols target) then error .invalidTarget target.span
    else
      let targetType ← typeOf target.id
      let valueType ← typeOf value
      if valueType.isAssignableTo targetType then setType mark.id targetType
      else error (.mismatch (.assigned valueType targetType)) mark.span

/-- Compares arguments with the types of their parameters; each that does not fit is reported. -/
def checkArguments : Nat → List Ty → List Expr → Script Unit
  | index, param :: params, argument :: rest => do
    let actual ← typeOf argument.id
    if !actual.isAssignableTo param then
      error (.mismatch (.argument index param actual)) argument.span
    checkArguments (index + 1) params rest
  | _, _, _ => return ()

/-- A call has the result type of its callee. -/
def call (mark : Mark) (callee : Expr) (arguments : List Expr) : Rule :=
  .ofScript [⟨mark.id, .type⟩] "call" mark.span fun _ => do
    match ← typeOf callee.id with
    | .function params result =>
      if params.length ≠ arguments.length then
        error (.mismatch (.argumentCount params.length arguments.length)) mark.span
      else
        checkArguments 0 params arguments
        setType mark.id result
    | ty => error (.mismatch (.notCallable ty)) callee.span

/-- An element of an array has its component type. -/
def index (mark : Mark) (array index : Expr) : Rule :=
  .ofScript [⟨mark.id, .type⟩] "array index" mark.span fun _ => do
    let arrayType ← typeOf array.id
    let indexType ← typeOf index.id
    match arrayType with
    | .array component =>
      if indexType.same .int then setType mark.id component
      else error (.mismatch .indexNotInt) index.span
    | ty => error (.mismatch (.notIndexable ty)) array.span

/-- Answers for a member access: the member's declaration and type. -/
def setMember (symbols : SymbolTable) (node : NodeId) (id : DeclId) : Script Unit := do
  let ty ← declaredType (← declaration symbols id)
  setDecl node id
  setType node ty

/-- `receiver.name`: a field of a struct, or the length of an array. -/
def field (mark : Mark) (receiver : NodeId) (name : String) : Rule :=
  .ofScript [⟨mark.id, .type⟩, ⟨mark.id, .decl⟩] s!"field `{name}`" mark.span fun symbols => do
    match ← typeOf receiver with
    | .struct named =>
      match symbols.lookupMember? named.decl name with
      | some id => setMember symbols mark.id id
      | none => error (.mismatch (.missingField name named.name)) mark.span
    | .box named => error (.wrongAccess name (.box named) .field) mark.span
    | .array component =>
      if name = "length" then setType mark.id .int
      else error (.mismatch (.fieldOf name (.array component))) mark.span
    | ty => error (.mismatch (.fieldOf name ty)) mark.span

/-- `receiver#name`: an attribute or method of a box. -/
def member (mark : Mark) (receiver : NodeId) (name : String) : Rule :=
  .ofScript [⟨mark.id, .type⟩, ⟨mark.id, .decl⟩] s!"box member `{name}`" mark.span
    fun symbols => do
      match ← typeOf receiver with
      | .box named =>
        match symbols.lookupMember? named.decl name with
        | some id => setMember symbols mark.id id
        | none => error (.unresolved (.member named.name name)) mark.span
      | ty => error (.wrongAccess name ty .boxMember) mark.span

/-! ## Declarations and statements -/

/-- What a node declares has the type of its annotation. -/
def annotated (node : NodeId) (type : NodeId) (what : String) (span : Span) : Rule :=
  .ofScript [⟨node, .declType⟩] what span fun _ => do
    setDeclType node (← typeOf type)

/-- An initializer fits the annotation of its variable. -/
def initializer (name : String) (type : NodeId) (value : Expr) : Rule :=
  .ofScript [] s!"initializer of `{name}`" value.span fun _ => do
    let expected ← typeOf type
    let actual ← typeOf value.id
    if !actual.isAssignableTo expected then
      error (.mismatch (.initializer name expected actual)) value.span

/-- A variable without an annotation has the type of its initializer, unless that is one of which no
other value is. -/
def inferred (mark : Mark) (name : String) (value : NodeId) : Rule :=
  .ofScript [⟨mark.id, .declType⟩] s!"type of variable `{name}`" mark.span fun _ => do
    match ← typeOf value with
    | .null => error (.mismatch (.cannotInfer name .null)) mark.span
    | .void => error (.mismatch (.cannotInfer name .void)) mark.span
    | ty => setDeclType mark.id ty

/-- The result type of a function; without an annotation it is Void. -/
def resultType (decl : FunctionDecl) : Script Ty :=
  match decl.result with
  | some type => typeOf type.id
  | none => return .void

/-- The type of a function, from its annotations alone. -/
def signature (decl : FunctionDecl) : Rule :=
  .ofScript [⟨decl.mark.id, .declType⟩] s!"signature of `{decl.name}`" decl.mark.span fun _ => do
    let params ← decl.parameters.mapM fun parameter => typeOf parameter.type.id
    setDeclType decl.mark.id (.function params (← resultType decl))

/-- A function that has to give a value returns on every way through its body. -/
def returnsAlways (decl : FunctionDecl) (result : NodeId) : Rule :=
  .ofScript [] s!"return analysis of `{decl.name}`" decl.mark.span fun _ => do
    if !(← typeOf result).same .void then
      if !(← returnsOf decl.body.mark.id) then
        error (.missingReturn decl.name) decl.mark.span

/-- A block returns if its last statement does. -/
def blockReturns (mark : Mark) (last : Option NodeId) : Rule :=
  .ofScript [⟨mark.id, .returns⟩] "return analysis of block" mark.span fun _ => do
    match last with
    | some last => setReturns mark.id (← returnsOf last)
    | none => setReturns mark.id false

/-- A condition is a Bool. -/
def condition (statement : Conditional) (e : Expr) : Rule :=
  .ofScript [] s!"{statement.text} condition" e.span fun _ => do
    let ty ← typeOf e.id
    if !ty.same .bool then error (.mismatch (.condition statement ty)) e.span

/-- An `if` returns if both branches do. -/
def branchesReturn (mark : Mark) (thenBody : NodeId) (elseBody : Option NodeId) : Rule :=
  .ofScript [⟨mark.id, .returns⟩] "return analysis of if" mark.span fun _ => do
    if ← returnsOf thenBody then
      match elseBody with
      | some elseBody => setReturns mark.id (← returnsOf elseBody)
      | none => setReturns mark.id false
    else setReturns mark.id false

/-- What a `return` gives fits the result type of the function around it. -/
def returned (mark : Mark) (value : Option Expr) (enclosing : FunctionDecl) : Rule :=
  .ofScript [] "return statement" mark.span fun _ => do
    let expected ← resultType enclosing
    match value with
    | some value =>
      let actual ← typeOf value.id
      if !actual.isAssignableTo expected then
        error (.mismatch (.returnValue expected actual)) value.span
    | none =>
      if !expected.same .void then error (.mismatch (.returnNothing expected)) mark.span

end Rule

end BoxScript
