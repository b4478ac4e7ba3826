import BoxScript.Machine
import BoxScript.Typing.Annotations
import BoxScript.Value.Operation

/-!
# Evaluation

What statements and expressions do. Statements run in a frame: entering a list of statements binds
the functions, structs and boxes declared in it and keeps a place for each of its variables. Blocks,
branches, loop bodies and calls have a frame of their own. The frame of a call lies inside the one
the function was declared in, or, for a method, inside the frame of its receiver.

The annotations of the analysis decide what depends on types: which Ints become Floats, whether `+`
concatenates, and whether a name means a method. Nothing else is read off them, so a program can be
run under any annotations. Under its own, a `Fault` is left to refused output, and to a method of an
outer box that is named inside an inner one, where the innermost receiver is of the inner box.

What there is to evaluate is a task. The clause for a task is a plan, whose steps are steps on the
machine and other tasks. Evaluation (`evaluate`) follows these plans and takes fuel, which bounds
how deep tasks lie inside one another.
-/

set_option autoImplicit false

namespace BoxScript

/-- How a statement ends. -/
inductive Completion
  | normal
  | returned (value : Value)

/-- The result of a call or program whose statements end in a certain way. -/
def Completion.value : Completion → Value
  | normal => .void
  | returned value => value

namespace Eval

/-! ## Names -/

/-- The declaring node of a name, `none` for a builtin. -/
def declNode (notes : Annotations) (node : NodeId) (name : String) (span : Span) :
    Eval (Option NodeId) :=
  match notes.declOf? node with
  | some decl => return decl.node
  | none => fault (.unresolvedName name) span

/-- Whether a reference means a method. -/
def isMethod (notes : Annotations) (node : NodeId) : Bool :=
  match notes.declOf? node with
  | some ⟨_, .method, _, _, _, _⟩ => true
  | _ => false

/-- A method of an instance. -/
def bindMethod (receiver : FrameId) (name : String) (span : Span) : Eval Value := do
  match ← inspect fun heap => (heap.class? receiver).bind (·.method? name) with
  | some decl => return .method receiver decl
  | none => fault (.noMethod name) span

/-- The value that a name is bound to. -/
def read (notes : Annotations) (frame : FrameId) (mark : Mark) (name : String) : Eval Value := do
  let decl ← declNode notes mark.id name mark.span
  match ← inspect (·.get frame name decl) with
  | .ok value => return value
  | .error error => slotError error name mark.span

/-- The value of a name. A method is bound to the receiver of the method that is running. -/
def symbol (notes : Annotations) (frame : FrameId) (mark : Mark) (name : String) : Eval Value := do
  if isMethod notes mark.id then
    match ← inspect (·.receiver? frame) with
    | some receiver => bindMethod receiver name mark.span
    | none => fault (.methodOutsideBox name) mark.span
  else read notes frame mark name

/-- The type that a name in a constructor or `create` means. -/
def typeNamed (notes : Annotations) (frame : FrameId) (mark : Mark) (name : String) :
    Eval TypeValue := do
  match ← read notes frame mark name with
  | .type value => return value
  | _ => fault (.notAType name) mark.span

def constructor (notes : Annotations) (frame : FrameId) (mark : Mark) (name : String) :
    Eval Value := do
  match ← typeNamed notes frame mark name with
  | .struct cls => return .constructor cls
  | _ => fault (.notAStruct name) mark.span

/-- A new instance of a box. -/
def create (notes : Annotations) (frame : FrameId) (mark : Mark) (name : String) :
    Eval Value := do
  match ← typeNamed notes frame mark name with
  | .box cls => return .box (← change (·.newInstance cls))
  | _ => fault (.notABox name) mark.span

/-! ## Declarations -/

def defineFunction (frame : FrameId) (decl : FunctionDecl) : Eval Unit := do
  let id ← change Heap.freshId
  update (·.define frame decl.name (some decl.mark.id) (.function ⟨id, decl, frame⟩))

/-- The noted type of what a node declares; Null if there is none. -/
def declaredType (notes : Annotations) (node : NodeId) : Ty := (notes.declType? node).getD .null

def defineStruct (notes : Annotations) (frame : FrameId) (decl : StructDecl) : Eval Unit := do
  let id ← change Heap.freshId
  let fields := decl.fields.map fun field => (field.name, declaredType notes field.mark.id)
  update (·.define frame decl.name (some decl.mark.id)
    (.type (.struct ⟨id, decl.mark.id, decl.name, fields⟩)))

def defineBox (notes : Annotations) (frame : FrameId) (decl : BoxDecl) : Eval Unit := do
  let id ← change Heap.freshId
  let attributes := decl.attributes.map fun attr =>
    ⟨attr.name, attr.mark.id, declaredType notes attr.mark.id⟩
  update (·.define frame decl.name (some decl.mark.id)
    (.type (.box ⟨id, decl.mark.id, decl.name, attributes, decl.methods, frame⟩)))

/-- Binds what statements declare ahead of running them. -/
def declareAll (notes : Annotations) (frame : FrameId) : List Stmt → Eval Unit
  | [] => return ()
  | s :: rest => do
    match s with
    | .function decl => defineFunction frame decl
    | .struct decl => defineStruct notes frame decl
    | .box decl => defineBox notes frame decl
    | .var decl => update (·.reserve frame decl.name decl.mark.id)
    | _ => pure ()
    declareAll notes frame rest

/-- Binds parameters to arguments. -/
def bindParameters (notes : Annotations) (frame : FrameId) : List (TypedName × Value) → Eval Unit
  | [] => return ()
  | (parameter, argument) :: rest => do
    update (·.define frame parameter.name (some parameter.mark.id)
      (argument.coerce (notes.declType? parameter.mark.id)))
    bindParameters notes frame rest

/-- Makes a frame inside another one for statements, and binds what they declare. -/
def enter (notes : Annotations) (outer : FrameId) (body : List Stmt) : Eval FrameId := do
  let frame ← change (·.newChild outer)
  declareAll notes frame body
  return frame

/-- Makes the frame of a call inside another one, and binds the parameters to the arguments. -/
def enterCall (notes : Annotations) (outer : FrameId) (parameters : List TypedName)
    (arguments : List Value) : Eval FrameId := do
  let frame ← change (·.newChild outer)
  bindParameters notes frame (parameters.zip arguments)
  return frame

/-! ## Parts of expressions -/

/-- The Bool that a condition or an operand of a logical operator has come to. -/
def expectBool (value : Value) (span : Span) : Eval Bool :=
  match value with
  | .bool value => return value
  | other => fault (.notABool other.kind) span

/-- A place in an array of a given length. -/
def expectIndex (value : Value) (length : Nat) (span : Span) : Eval Nat :=
  match value with
  | .int index =>
    if 0 ≤ index.toInt ∧ index.toInt < length then return index.toInt.toNat
    else fail (.indexOutOfBounds index length) span
  | other => fault (.indexNotInt other.kind) span

/-- The row of an array that is to be used. -/
def expectArray (value : Value) (use : Use) (span : Span) : Eval RowId :=
  match value with
  | .array row => return row
  | .null => fail (.nullReference use) span
  | other => fault (.notAnArray use other.kind) span

/-- The element of an array at an index. -/
def readElement (array index : Value) (span : Span) : Eval Value := do
  let row ← expectArray array .indexing span
  let elements ← inspect (·.row row)
  let place ← expectIndex index elements.size span
  return elements[place]?.getD .null

def assignElement (array index value : Value) (span : Span) : Eval Unit := do
  let row ← expectArray array .assigningElement span
  let length ← inspect fun heap => (heap.row row).size
  let place ← expectIndex index length span
  update (·.setItem row place value)

/-- The field of a struct, or the length of an array. -/
def readField (receiver : Value) (name : String) (span : Span) : Eval Value := do
  match receiver, name with
  | .array row, "length" =>
    let length ← inspect fun heap => (heap.row row).size
    return .int (Int64.ofNat length)
  | .struct cls row, name =>
    let fields ← inspect (·.row row)
    match (cls.fieldIndex? name).bind (fields[·]?) with
    | some value => return value
    | none => fault (.noField name) span
  | .null, name => fail (.nullReference (.readingField name)) span
  | other, name => fault (.noFieldOn name other.kind) span

def assignField (receiver : Value) (name : String) (value : Value) (span : Span) : Eval Unit :=
  match receiver with
  | .struct cls row =>
    match cls.fieldIndex? name with
    | some place => update (·.setItem row place value)
    | none => fault (.noField name) span
  | .null => fail (.nullReference (.assigningField name)) span
  | other => fault (.fieldTarget other.kind) span

/-- The method or attribute of an instance. -/
def readMember (notes : Annotations) (mark : Mark) (receiver : Value) (name : String) :
    Eval Value := do
  match receiver with
  | .box frame =>
    if isMethod notes mark.id then bindMethod frame name mark.span
    else
      match ← inspect (·.getLocal? frame name) with
      | some value => return value
      | none => fault (.noAttribute name) mark.span
  | .null => fail (.nullReference (.readingMember name)) mark.span
  | other => fault (.noMemberOn name other.kind) mark.span

def assignMember (receiver : Value) (name : String) (value : Value) (span : Span) :
    Eval Unit := do
  match receiver with
  | .box frame =>
    if ← change (·.assignLocal frame name value) then return ()
    else fault (.noAttributeTarget name) span
  | .null => fail (.nullReference (.assigningMember name)) span
  | _ => fault (.noAttributeTarget name) span

/-- A new struct from the arguments of its constructor. -/
def construct (cls : StructClass) (arguments : List Value) : Eval Value := do
  let fields := arguments.zipWith (fun value field => value.coerce (some field.2)) cls.fields
  return .struct cls (← change (·.newRow fields.toArray))

/-- A call of a builtin function. `print` writes its argument on a line and gives it back. -/
def callBuiltin (function : Builtin) (arguments : List Value) (span : Span) : Eval Value := do
  match function, arguments with
  | .print, [argument] =>
    writeLine (← textOf argument) span
    return argument
  | function, arguments => fault (.argumentCount function.name arguments.length) span

/-- The value of a binary operator on evaluated operands. If the analysis found the result to be a
String, the texts of the operands are joined. -/
def binary (notes : Annotations) (mark : Mark) (op : BinaryOp) (left right : Value) :
    Eval Value := do
  match op, notes.typeOf? mark.id with
  | .add, some .string => return .string ((← textOf left) ++ (← textOf right))
  | op, _ => lift (left.binary op right) mark.span

end Eval

/-! ## Tasks -/

/-- What there is to evaluate. -/
inductive Task
  | expr (frame : FrameId) (e : Expr)
  | exprs (frame : FrameId) (es : List Expr)
  | condition (frame : FrameId) (e : Expr)
  | assign (frame : FrameId) (mark : Mark) (target value : Expr)
  | call (callee : Value) (arguments : List Value) (span : Span)
  | invoke (decl : FunctionDecl) (outer : FrameId) (arguments : List Value) (span : Span)
  | block (outer : FrameId) (b : Block)
  | sequence (frame : FrameId) (body : List Stmt)
  | stmt (frame : FrameId) (s : Stmt)
  | loop (frame : FrameId) (test : Expr) (inner : Stmt)
  | body (outer : FrameId) (s : Stmt)

/-- What the evaluation of a task gives. -/
abbrev Task.Result : Task → Type
  | .expr _ _ | .assign _ _ _ _ | .call _ _ _ | .invoke _ _ _ _ => Value
  | .exprs _ _ => List Value
  | .condition _ _ => Bool
  | .block _ _ | .sequence _ _ | .stmt _ _ | .loop _ _ _ | .body _ _ => Completion

/-- A way to evaluate tasks. -/
abbrev Evaluator := (task : Task) → Eval task.Result

/-- What a task comes to: a result, or a step on the machine or another task and how to go on. -/
inductive Plan (α : Type) : Type 1
  | done (result : α)
  | act {β : Type} (step : Eval β) (next : β → Plan α)
  | ask (task : Task) (next : task.Result → Plan α)

namespace Plan

def bind {α β : Type} : Plan α → (α → Plan β) → Plan β
  | done result, f => f result
  | act step next, f => act step fun b => (next b).bind f
  | ask task next, f => ask task fun b => (next b).bind f

instance : Monad Plan where
  pure := done
  bind := bind

instance : MonadLift Eval Plan := ⟨fun step => act step done⟩

/-- The evaluation of a task. -/
def run (task : Task) : Plan task.Result := ask task done

/-- Follows a plan, where `evaluator` evaluates the tasks in it. -/
def follow {α : Type} (evaluator : Evaluator) : Plan α → Eval α
  | done result => return result
  | act step next => do (next (← step)).follow evaluator
  | ask task next => do (next (← evaluator task)).follow evaluator

end Plan

namespace Clause

open Eval Plan

variable (notes : Annotations)

/-! ## Expressions -/

def expr (frame : FrameId) : Expr → Plan Value
  | .int _ value => return .int value
  | .float _ value => return .float value
  | .string _ value => return .string value
  | .bool _ value => return .bool value
  | .null _ => return .null
  | .symbol mark name => symbol notes frame mark name
  | .array mark elements => do
    let component := (notes.typeOf? mark.id).bind Ty.component?
    let values ← run (.exprs frame elements)
    return .array (← change (·.newRow (values.map (·.coerce component)).toArray))
  | .paren _ inner => run (.expr frame inner)
  | .unary mark op operand => do
    let value ← run (.expr frame operand)
    lift (value.unary op) mark.span
  | .binary mark op left right => do
    match op with
    | .and =>
      if ← run (.condition frame left) then return .bool (← run (.condition frame right))
      else return .bool false
    | .or =>
      if ← run (.condition frame left) then return .bool true
      else return .bool (← run (.condition frame right))
    | op =>
      let a ← run (.expr frame left)
      let b ← run (.expr frame right)
      binary notes mark op a b
  | .assign mark target value => run (.assign frame mark target.bare value)
  | .call mark callee arguments => do
    let function ← run (.expr frame callee)
    let values ← run (.exprs frame arguments)
    run (.call function values mark.span)
  | .index mark array index => do
    let a ← run (.expr frame array)
    let i ← run (.expr frame index)
    readElement a i mark.span
  | .field mark receiver name => do
    let value ← run (.expr frame receiver)
    readField value name mark.span
  | .member mark receiver name => do
    let value ← run (.expr frame receiver)
    readMember notes mark value name
  | .constructor mark name => constructor notes frame mark name
  | .create mark name => create notes frame mark name

def exprs (frame : FrameId) : List Expr → Plan (List Value)
  | [] => return []
  | e :: rest => do
    let value ← run (.expr frame e)
    let values ← run (.exprs frame rest)
    return value :: values

def condition (frame : FrameId) (e : Expr) : Plan Bool := do
  let value ← run (.expr frame e)
  expectBool value e.span

/-- An assignment to a target without parentheses around it. The parts of the target are evaluated
before the value, and checked after it. -/
def assign (frame : FrameId) (mark : Mark) (target e : Expr) : Plan Value := do
  let ty := notes.typeOf? mark.id
  match target with
  | .symbol mark name =>
    let decl ← declNode notes mark.id name mark.span
    let value := (← run (.expr frame e)).coerce ty
    match ← change (·.assign frame name decl value) with
    | .ok () => return value
    | .error error => slotError error name mark.span
  | .index mark array index =>
    let a ← run (.expr frame array)
    let i ← run (.expr frame index)
    let value := (← run (.expr frame e)).coerce ty
    assignElement a i value mark.span
    return value
  | .field mark receiver name =>
    let owner ← run (.expr frame receiver)
    let value := (← run (.expr frame e)).coerce ty
    assignField owner name value mark.span
    return value
  | .member mark receiver name =>
    let owner ← run (.expr frame receiver)
    let value := (← run (.expr frame e)).coerce ty
    assignMember owner name value mark.span
    return value
  | other => fault .invalidTarget other.span

/-! ## Calls -/

def call (callee : Value) (arguments : List Value) (span : Span) : Plan Value :=
  match callee with
  | .function closure => run (.invoke closure.decl closure.frame arguments span)
  | .method receiver decl => run (.invoke decl receiver arguments span)
  | .constructor cls => construct cls arguments
  | .builtin function => callBuiltin function arguments span
  | .null => fail (.nullReference .calling) span
  | other => fault (.notCallable other.kind) span

/-- A call of a declared function or method whose frame lies inside `outer`. -/
def invoke (decl : FunctionDecl) (outer : FrameId) (arguments : List Value) (span : Span) :
    Plan Value := do
  if decl.parameters.length = arguments.length then
    let frame ← enterCall notes outer decl.parameters arguments
    let completion ← run (.block frame decl.body)
    let result := match notes.declType? decl.mark.id with
      | some (.function _ result) => some result
      | _ => none
    return completion.value.coerce result
  else fault (.argumentCount decl.name arguments.length) span

/-! ## Statements -/

/-- The statements of a block, in a frame of their own. -/
def block (outer : FrameId) (b : Block) : Plan Completion := do
  let frame ← enter notes outer b.body
  run (.sequence frame b.body)

/-- Statements one after another, up to the first that returns. -/
def sequence (frame : FrameId) : List Stmt → Plan Completion
  | [] => return .normal
  | s :: rest => do
    match ← run (.stmt frame s) with
    | .returned value => return .returned value
    | .normal => run (.sequence frame rest)

def varDecl (frame : FrameId) (decl : VariableDecl) : Plan Completion := do
  let ty := notes.declType? decl.mark.id
  let value ← match decl.value, ty with
    | some e, ty => do
      let value ← run (.expr frame e)
      pure (value.coerce ty)
    | none, some ty => change (·.default ty)
    | none, none => pure .null
  update (·.define frame decl.name (some decl.mark.id) value)
  return .normal

def stmt (frame : FrameId) : Stmt → Plan Completion
  | .block b => run (.block frame b)
  | .expression _ e => do
    let _ ← run (.expr frame e)
    return .normal
  | .var decl => varDecl notes frame decl
  | .function _ | .struct _ | .box _ => return .normal
  | .ifElse _ test thenBody elseBody => do
    if ← run (.condition frame test) then run (.body frame thenBody)
    else
      match elseBody with
      | some elseBody => run (.body frame elseBody)
      | none => return .normal
  | .while _ test inner => run (.loop frame test inner)
  | .return _ value => do
    match value with
    | some e => return .returned (← run (.expr frame e))
    | none => return .returned .void

/-- The rounds of a loop. -/
def loop (frame : FrameId) (test : Expr) (inner : Stmt) : Plan Completion := do
  if ← run (.condition frame test) then
    match ← run (.body frame inner) with
    | .returned value => return .returned value
    | .normal => run (.loop frame test inner)
  else return .normal

/-- The body of a branch or loop. One that is no block has a frame of its own too. -/
def body (outer : FrameId) : Stmt → Plan Completion
  | .block b => run (.block outer b)
  | s => do
    let frame ← enter notes outer [s]
    run (.sequence frame [s])

end Clause

/-- What a task comes to. -/
def clause (notes : Annotations) : (task : Task) → Plan task.Result
  | .expr frame e => Clause.expr notes frame e
  | .exprs frame es => Clause.exprs frame es
  | .condition frame e => Clause.condition frame e
  | .assign frame mark target value => Clause.assign notes frame mark target value
  | .call callee arguments span => Clause.call callee arguments span
  | .invoke decl outer arguments span => Clause.invoke notes decl outer arguments span
  | .block outer b => Clause.block notes outer b
  | .sequence frame body => Clause.sequence frame body
  | .stmt frame s => Clause.stmt notes frame s
  | .loop frame test inner => Clause.loop frame test inner
  | .body outer s => Clause.body notes outer s

/-- Evaluates a task in which tasks lie at most `fuel` deep inside one another. -/
def evaluate (notes : Annotations) : Nat → Evaluator
  | 0, _ => throw .outOfFuel
  | fuel + 1, task => (clause notes task).follow (evaluate notes fuel)

namespace Eval

/-- Statements in a frame, after binding what they declare. -/
def statements (notes : Annotations) (fuel : Nat) (frame : FrameId) (body : List Stmt) :
    Eval Completion := do
  declareAll notes frame body
  evaluate notes fuel (.sequence frame body)

end Eval

end BoxScript
