import BoxScript.Syntax.Tree

/-!
# Static types

The types of expressions and declarations. Structs and boxes are nominal: two of them are the same
type if they come from the same declaration, whatever their names. `Ty.isAssignableTo` tells which
values fit a slot: an Int fits a Float slot, and `null` fits any slot of a reference type.
-/

set_option autoImplicit false

namespace BoxScript

/-- A struct or box type: the node that declares it, and its name for messages. -/
structure NamedType where
  name : String
  decl : NodeId
  deriving Repr, DecidableEq, Inhabited

/-- The types. `null` is the type of the literal, and `type` that of an expression that names a
type. -/
inductive Ty
  | int | float | bool | string | void | null | type
  | array (component : Ty)
  | struct (named : NamedType)
  | box (named : NamedType)
  | function (params : List Ty) (result : Ty)
  deriving Repr, Inhabited

namespace Ty

mutual

/-- Whether two types are the same, names aside. -/
def same : Ty → Ty → Bool
  | int, int | float, float | bool, bool | string, string | void, void | null, null
  | type, type => true
  | array a, array b => a.same b
  | struct a, struct b => a.decl == b.decl
  | box a, box b => a.decl == b.decl
  | function ps r, function qs s => sameAll ps qs && r.same s
  | _, _ => false

def sameAll : List Ty → List Ty → Bool
  | [], [] => true
  | a :: as, b :: bs => a.same b && sameAll as bs
  | _, _ => false

end

/-- The types of numbers. -/
def isNumeric : Ty → Bool
  | int | float => true
  | _ => false

/-- The types whose values may be `null`. -/
def isReference : Ty → Bool
  | string | null | type | array _ | struct _ | box _ | function _ _ => true
  | _ => false

/-- Whether a value of the type may be stored in a slot of type `target`. -/
def isAssignableTo (t target : Ty) : Bool :=
  t.same target || match t, target with
    | int, float => true
    | null, target => target.isReference
    | _, _ => false

/-- Whether values of the two types may be compared for equality. -/
def isComparableWith (a b : Ty) : Bool :=
  a.same b || (a.isNumeric && b.isNumeric) || (a.same null && b.isReference) ||
    (b.same null && a.isReference)

/-- The least type to which both types are assignable, if there is one. -/
def commonSupertype? (a b : Ty) : Option Ty :=
  if a.isAssignableTo b then some b else if b.isAssignableTo a then some a else none

/-- The type of the elements of an array. -/
def component? : Ty → Option Ty
  | array component => some component
  | _ => none

mutual

/-- A type as messages show it. -/
def text : Ty → String
  | int => "Int"
  | float => "Float"
  | bool => "Bool"
  | string => "String"
  | void => "Void"
  | null => "Null"
  | type => "Type"
  | array component => component.text ++ "[]"
  | struct named | box named => named.name
  | function params result => "(" ++ ", ".intercalate (texts params) ++ ") -> " ++ result.text

def texts : List Ty → List String
  | [] => []
  | t :: ts => t.text :: texts ts

end

end Ty

end BoxScript
