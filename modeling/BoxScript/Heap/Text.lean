import BoxScript.Decimal.Layout
import BoxScript.Heap
import BoxScript.Text.Quoted

/-!
# The text of values

How `print` and concatenation show a value. Arrays, structs and boxes are shown with all they
contain, so a value that contains itself has no text: `Heap.text?` gives `none` for it, and only
for it, because a chain of values inside one another without repetition is no longer than the heap.
-/

set_option autoImplicit false

namespace BoxScript

/-- Floats are written positionally from 1e-4 up to but not including 1e16, and otherwise with an
exponent after `e`. -/
def floatLayout : Decimal.Layout := ⟨-4, 16, 'e', "NaN".toList, "inf".toList⟩

def intText (value : Int64) : String := String.ofList (Decimal.ofInt value.toInt)

def floatText (value : Float) : String := String.ofList (floatLayout.text value)

/-- Named values between braces after the name of their struct or box. -/
def recordText (name : String) (entries : List (String × String)) : String :=
  match entries with
  | [] => name ++ " \x7b\x7d"
  | entries =>
    name ++ " \x7b " ++ ", ".intercalate (entries.map fun (field, text) => field ++ ": " ++ text) ++
      " \x7d"

namespace Heap

/-- The text of a bound method. -/
def methodText (heap : Heap) (receiver : FrameId) (decl : FunctionDecl) : String :=
  match heap.class? receiver with
  | some cls => "<meth " ++ cls.name ++ "#" ++ decl.name ++ ">"
  | none => "<meth " ++ decl.name ++ ">"

/-- The text of a value in which at most `fuel` values lie inside one another. -/
def textWithin? (heap : Heap) : Nat → Value → Option String
  | _, .int value => some (intText value)
  | _, .float value => some (floatText value)
  | _, .bool value => some (if value then "true" else "false")
  | _, .string value => some value
  | _, .null => some "null"
  | _, .void => some "void"
  | _, .function closure => some ("<fun " ++ closure.decl.name ++ ">")
  | _, .method receiver decl => some (heap.methodText receiver decl)
  | _, .constructor cls => some ("<fun $" ++ cls.name ++ ">")
  | _, .builtin function => some ("<fun " ++ function.name ++ ">")
  | _, .type value => some value.name
  | 0, _ => none
  | fuel + 1, .array row => do
    let texts ← (heap.row row).toList.mapM (heap.textWithin? fuel)
    return "[" ++ ", ".intercalate texts ++ "]"
  | fuel + 1, .struct cls row => do
    let texts ← (heap.row row).toList.mapM (heap.textWithin? fuel)
    return recordText cls.name ((cls.fields.map (·.1)).zip texts)
  | fuel + 1, .box frame =>
    match heap.class? frame with
    | none => some "<box>"
    | some cls => do
      let texts ← cls.attributes.mapM fun attr =>
        heap.textWithin? fuel ((heap.getLocal? frame attr.name).getD .null)
      return recordText cls.name ((cls.attributes.map (·.name)).zip texts)

/-- The text of a value. -/
def text? (heap : Heap) (value : Value) : Option String :=
  heap.textWithin? (heap.rows.size + heap.frames.size + 1) value

/-- A line about a frame: its names in order, its class, and whether a frame lies around it. -/
def describe (heap : Heap) (frame : FrameId) : String :=
  let names : List String := match heap.frames[frame]? with
    | some f => (f.names.map (·.1)).mergeSort
    | none => []
  let cls := match heap.class? frame with
    | some cls => "Some(" ++ Text.quoted cls.name ++ ")"
    | none => "None"
  let enclosed := (heap.frames[frame]?.bind (·.parent)).isSome
  "Environment \x7b names: [" ++ ", ".intercalate (names.map Text.quoted) ++ "], class: " ++ cls ++
    ", has_parent: " ++ (if enclosed then "true" else "false") ++ " \x7d"

end Heap

end BoxScript
