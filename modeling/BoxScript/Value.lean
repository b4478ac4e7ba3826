import BoxScript.Scope
import BoxScript.Value.Kind

/-!
# Values

What expressions evaluate to. Numbers, Bools and texts are held by their value. Arrays, structs,
boxes and functions are shared: a value holds a reference, and two of them are equal if they refer
to the same thing. What never changes about a shared thing, such as the fields of a struct or the
body of a function, is held in the value beside the reference.
-/

set_option autoImplicit false

namespace BoxScript

/-- The number of a frame of variables. -/
abbrev FrameId := Nat

/-- The number of a row of values: the elements of an array or the fields of a struct. -/
abbrev RowId := Nat

/-- A function made by running its declaration: a number of its own, the declaration, and the frame
it was declared in. -/
structure Closure where
  id : Nat
  decl : FunctionDecl
  frame : FrameId

/-- A struct made by running its declaration: a number of its own, its name, and the names and types
of its fields. -/
structure StructClass where
  id : Nat
  decl : NodeId
  name : String
  fields : List (String × Ty)
  deriving Repr

/-- The place of a field among the fields. -/
def StructClass.fieldIndex? (cls : StructClass) (name : String) : Option Nat :=
  cls.fields.findIdx? (·.1 == name)

/-- An attribute of a box: its name, the node that declares it, and its type. -/
structure Attribute where
  name : String
  decl : NodeId
  type : Ty
  deriving Repr

/-- A box made by running its declaration: a number of its own, its name and members, and the frame
it was declared in. -/
structure BoxClass where
  id : Nat
  decl : NodeId
  name : String
  attributes : List Attribute
  methods : List FunctionDecl
  frame : FrameId

/-- The method of a box with a given name. -/
def BoxClass.method? (cls : BoxClass) (name : String) : Option FunctionDecl :=
  cls.methods.reverse.find? (·.name == name)

/-- What a type name evaluates to. -/
inductive TypeValue
  | builtin (ty : Ty)
  | struct (cls : StructClass)
  | box (cls : BoxClass)

namespace TypeValue

def name : TypeValue → String
  | builtin ty => ty.text
  | struct cls => cls.name
  | box cls => cls.name

/-- Builtin types are equal by what they are, the others by their number. -/
def same : TypeValue → TypeValue → Bool
  | builtin a, builtin b => a.same b
  | struct a, struct b => a.id == b.id
  | box a, box b => a.id == b.id
  | _, _ => false

end TypeValue

/-- The values. An instance of a box is the frame of its attributes, and a method is bound to such a
frame. -/
inductive Value
  | int (value : Int64)
  | float (value : Float)
  | bool (value : Bool)
  | string (value : String)
  | null
  | void
  | array (row : RowId)
  | struct (cls : StructClass) (row : RowId)
  | box (frame : FrameId)
  | function (closure : Closure)
  | method (receiver : FrameId) (decl : FunctionDecl)
  | constructor (cls : StructClass)
  | builtin (function : Builtin)
  | type (value : TypeValue)

instance : Inhabited Value := ⟨.null⟩

namespace Value

def kind : Value → ValueKind
  | int _ => .int
  | float _ => .float
  | bool _ => .bool
  | string _ => .string
  | null => .null
  | void => .void
  | array _ => .array
  | struct _ _ => .struct
  | box _ => .box
  | function _ | method _ _ | constructor _ | builtin _ => .function
  | type _ => .type

def isNull : Value → Bool
  | null => true
  | _ => false

/-- A value as it is stored in a slot of a type, if the type is known: an Int becomes a Float where
a Float is expected. -/
def coerce (value : Value) (ty : Option Ty) : Value :=
  match value, ty with
  | int n, some .float => float n.toFloat
  | value, _ => value

/-- Equality of values. Numbers are compared across Int and Float. -/
def equals : Value → Value → Bool
  | int a, int b => a == b
  | float a, float b => a == b
  | int a, float b | float b, int a => a.toFloat == b
  | bool a, bool b => a == b
  | string a, string b => a == b
  | null, null | void, void => true
  | array a, array b => a == b
  | struct _ a, struct _ b => a == b
  | box a, box b => a == b
  | function a, function b => a.id == b.id
  | method r a, method s b => r == s && a.mark.id == b.mark.id
  | constructor a, constructor b => a.id == b.id
  | builtin a, builtin b => a == b
  | type a, type b => a.same b
  | _, _ => false

end Value

end BoxScript
