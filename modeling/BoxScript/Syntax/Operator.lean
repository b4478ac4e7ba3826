/-!
# Operators

The prefix and binary operators, how they are written, and the word that a message uses for what a
binary operator does to its operands.
-/

set_option autoImplicit false

namespace BoxScript

inductive PrefixOp
  | not | negate
  deriving Repr, DecidableEq

def PrefixOp.text : PrefixOp → String
  | not => "!"
  | negate => "-"

inductive BinaryOp
  | add | subtract | multiply | divide | remainder
  | equal | notEqual
  | less | lessEqual | greater | greaterEqual
  | and | or
  deriving Repr, DecidableEq

/-- What a binary operator takes and gives: numbers to a number, numbers to a Bool, any two
comparable values to a Bool, or Bools to a Bool. -/
inductive BinaryOp.Class
  | arithmetic | relational | equality | logical
  deriving Repr, DecidableEq

namespace BinaryOp

def text : BinaryOp → String
  | add => "+"
  | subtract => "-"
  | multiply => "*"
  | divide => "/"
  | remainder => "%"
  | equal => "=="
  | notEqual => "!="
  | less => "<"
  | lessEqual => "<="
  | greater => ">"
  | greaterEqual => ">="
  | and => "&&"
  | or => "||"

def opClass : BinaryOp → Class
  | add | subtract | multiply | divide | remainder => .arithmetic
  | less | lessEqual | greater | greaterEqual => .relational
  | equal | notEqual => .equality
  | and | or => .logical

/-- The word for an operation in messages such as "Trying to add Int with Bool". -/
def verb : BinaryOp → String
  | add => "add"
  | subtract => "subtract"
  | multiply => "multiply"
  | divide => "divide"
  | remainder => "remainder"
  | equal | notEqual | less | lessEqual | greater | greaterEqual => "compare"
  | and | or => "combine"

end BinaryOp

end BoxScript
