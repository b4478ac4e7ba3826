/-!
# Kinds of value

The kind of a value is what messages say about it: `Int`, `array`, `function` and so on.
-/

set_option autoImplicit false

namespace BoxScript

inductive ValueKind
  | int | float | bool | string | null | void | array | struct | box | function | type
  deriving Repr, DecidableEq

def ValueKind.name : ValueKind → String
  | int => "Int"
  | float => "Float"
  | bool => "Bool"
  | string => "String"
  | null => "Null"
  | void => "Void"
  | array => "array"
  | struct => "struct"
  | box => "box"
  | function => "function"
  | type => "Type"

end BoxScript
