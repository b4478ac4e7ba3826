import BoxScript.Source.Span
import BoxScript.Syntax.Operator

/-!
# Syntax trees

The tree of a program. Every node, a type annotation, parameter or member as much as a statement or
expression, carries a mark: an identity of its own, by which facts about it are kept, and the span
it was read from. The program itself is a block with the identity zero.
-/

set_option autoImplicit false

namespace BoxScript

/-- The identity of a node. -/
abbrev NodeId := Nat

/-- What every node carries. -/
structure Mark where
  id : NodeId
  span : Span
  deriving Repr, DecidableEq, Inhabited

/-! ## Types -/

/-- A type as it is written: a name, or an array of a written type. -/
inductive TypeExpr
  | named (mark : Mark) (name : String)
  | array (mark : Mark) (component : TypeExpr)
  deriving Repr, DecidableEq, Inhabited

namespace TypeExpr

def mark : TypeExpr → Mark
  | named mark _ | array mark _ => mark

def id (type : TypeExpr) : NodeId := type.mark.id

def span (type : TypeExpr) : Span := type.mark.span

/-- The type as the source spells it. -/
def text : TypeExpr → String
  | named _ name => name
  | array _ component => component.text ++ "[]"

end TypeExpr

/-! ## Expressions -/

inductive Expr
  | int (mark : Mark) (value : Int64)
  | float (mark : Mark) (value : Float)
  | string (mark : Mark) (value : String)
  | bool (mark : Mark) (value : Bool)
  | null (mark : Mark)
  | symbol (mark : Mark) (name : String)
  | array (mark : Mark) (elements : List Expr)
  | paren (mark : Mark) (inner : Expr)
  | unary (mark : Mark) (op : PrefixOp) (operand : Expr)
  | binary (mark : Mark) (op : BinaryOp) (left right : Expr)
  | assign (mark : Mark) (target value : Expr)
  | call (mark : Mark) (callee : Expr) (arguments : List Expr)
  | index (mark : Mark) (array index : Expr)
  | field (mark : Mark) (receiver : Expr) (name : String)
  | member (mark : Mark) (receiver : Expr) (name : String)
  | constructor (mark : Mark) (name : String)
  | create (mark : Mark) (name : String)
  deriving Repr, Inhabited

namespace Expr

def mark : Expr → Mark
  | int mark _ | float mark _ | string mark _ | bool mark _ | null mark | symbol mark _
  | array mark _ | paren mark _ | unary mark _ _ | binary mark _ _ _ | assign mark _ _
  | call mark _ _ | index mark _ _ | field mark _ _ | member mark _ _ | constructor mark _
  | create mark _ => mark

def id (e : Expr) : NodeId := e.mark.id

def span (e : Expr) : Span := e.mark.span

/-- An expression without the parentheses around it. -/
def bare : Expr → Expr
  | paren _ inner => inner.bare
  | e => e

end Expr

/-! ## Statements -/

/-- A name with its written type: a parameter, a field or an attribute. -/
structure TypedName where
  mark : Mark
  name : String
  type : TypeExpr
  deriving Repr, DecidableEq, Inhabited

/-- What tells the type of a variable: a written type, with or without an initializer, or an
initializer alone. -/
inductive VariableForm
  | typed (type : TypeExpr) (value : Option Expr)
  | inferred (value : Expr)
  deriving Repr, Inhabited

/-- A variable. -/
structure VariableDecl where
  mark : Mark
  name : String
  form : VariableForm
  deriving Repr, Inhabited

namespace VariableDecl

/-- The written type of a variable. -/
def type (decl : VariableDecl) : Option TypeExpr :=
  match decl.form with
  | .typed type _ => some type
  | .inferred _ => none

/-- The initializer of a variable. -/
def value (decl : VariableDecl) : Option Expr :=
  match decl.form with
  | .typed _ value => value
  | .inferred value => some value

end VariableDecl

/-- A struct with its fields. -/
structure StructDecl where
  mark : Mark
  name : String
  fields : List TypedName
  deriving Repr, Inhabited

mutual

inductive Stmt
  | block (block : Block)
  | expression (mark : Mark) (value : Expr)
  | var (decl : VariableDecl)
  | function (decl : FunctionDecl)
  | struct (decl : StructDecl)
  | box (decl : BoxDecl)
  | ifElse (mark : Mark) (condition : Expr) (thenBody : Stmt) (elseBody : Option Stmt)
  | while (mark : Mark) (condition : Expr) (body : Stmt)
  | return (mark : Mark) (value : Option Expr)

structure Block where
  mark : Mark
  body : List Stmt

/-- A function or a method. Without a written result type its result is Void. -/
structure FunctionDecl where
  mark : Mark
  name : String
  parameters : List TypedName
  result : Option TypeExpr
  body : Block

/-- A box with its members in order. -/
structure BoxDecl where
  mark : Mark
  name : String
  members : List Member

inductive Member
  | attr (decl : TypedName)
  | meth (decl : FunctionDecl)

end

/-- The root of a program. Its statements run like those of a block; a `return` among them ends the
program. -/
abbrev Program := Block

namespace Stmt

def mark : Stmt → Mark
  | block b => b.mark
  | expression mark _ => mark
  | var decl => decl.mark
  | function decl => decl.mark
  | struct decl => decl.mark
  | box decl => decl.mark
  | ifElse mark _ _ _ => mark
  | .while mark _ _ => mark
  | .return mark _ => mark

def id (s : Stmt) : NodeId := s.mark.id

def span (s : Stmt) : Span := s.mark.span

/-- Whether a statement declares a name that is visible before it. -/
def isHoisted : Stmt → Bool
  | function _ | struct _ | box _ => true
  | _ => false

end Stmt

namespace Member

def mark : Member → Mark
  | attr decl => decl.mark
  | meth decl => decl.mark

def name : Member → String
  | attr decl => decl.name
  | meth decl => decl.name

end Member

namespace BoxDecl

def attributes (decl : BoxDecl) : List TypedName :=
  decl.members.filterMap fun
    | .attr decl => some decl
    | .meth _ => none

def methods (decl : BoxDecl) : List FunctionDecl :=
  decl.members.filterMap fun
    | .attr _ => none
    | .meth decl => some decl

end BoxDecl

end BoxScript
