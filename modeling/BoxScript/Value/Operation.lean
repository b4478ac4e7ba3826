import BoxScript.Decimal.Binary64
import BoxScript.Error.Execution
import BoxScript.Value

/-!
# Operations on values

What the operators do to values. Arithmetic on Ints wraps around at 64 bits, division of Ints cuts
toward zero and fails for a divisor of zero. If one operand is a Float, the other is converted.
-/

set_option autoImplicit false

namespace BoxScript

namespace Value

/-- The value of a prefix operator. -/
def unary (op : PrefixOp) (operand : Value) : Except RuntimeError.Cause Value :=
  match op, operand with
  | .not, bool value => .ok (bool !value)
  | .negate, int value => .ok (int (-value))
  | .negate, float value => .ok (float (-value))
  | op, operand => .error (.fault (.prefixOperand op operand.kind))

/-- The value of an arithmetic or relational operator on Ints. -/
def intBinary (op : BinaryOp) (a b : Int64) : Except RuntimeError.Cause Value :=
  match op with
  | .add => .ok (int (a + b))
  | .subtract => .ok (int (a - b))
  | .multiply => .ok (int (a * b))
  | .divide => if b = 0 then .error .divisionByZero else .ok (int (a / b))
  | .remainder => if b = 0 then .error .divisionByZero else .ok (int (a % b))
  | .less => .ok (bool (a < b))
  | .lessEqual => .ok (bool (a ≤ b))
  | .greater => .ok (bool (b < a))
  | .greaterEqual => .ok (bool (b ≤ a))
  | .equal | .notEqual | .and | .or => .error (.fault (.notArithmetic op))

/-- The value of an arithmetic or relational operator on Floats. -/
def floatBinary (op : BinaryOp) (a b : Float) : Except RuntimeError.Cause Value :=
  match op with
  | .add => .ok (float (a + b))
  | .subtract => .ok (float (a - b))
  | .multiply => .ok (float (a * b))
  | .divide => .ok (float (a / b))
  | .remainder => .ok (float (Decimal.remainder a b))
  | .less => .ok (bool (a < b))
  | .lessEqual => .ok (bool (a ≤ b))
  | .greater => .ok (bool (b < a))
  | .greaterEqual => .ok (bool (b ≤ a))
  | .equal | .notEqual | .and | .or => .error (.fault (.notArithmetic op))

/-- The value of a binary operator whose operands are both evaluated, concatenation aside. -/
def binary (op : BinaryOp) (left right : Value) : Except RuntimeError.Cause Value :=
  match op with
  | .equal => .ok (bool (left.equals right))
  | .notEqual => .ok (bool !left.equals right)
  | op =>
    match left, right with
    | int a, int b => intBinary op a b
    | int a, float b => floatBinary op a.toFloat b
    | float a, int b => floatBinary op a b.toFloat
    | float a, float b => floatBinary op a b
    | left, right => .error (.fault (.binaryOperands op left.kind right.kind))

end Value

end BoxScript
