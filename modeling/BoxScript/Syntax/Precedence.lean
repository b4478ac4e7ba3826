import BoxScript.Syntax.Operator
import BoxScript.Token

/-!
# Precedence

Which tokens start an expression, which tokens continue one, and how tightly the latter bind what
stands on their left. An operand takes in what follows it as long as that binds more tightly than
the place where the operand stands asks for.
-/

set_option autoImplicit false

namespace BoxScript

/-- How tightly operators bind, from the loosest on. -/
inductive BindingPower
  | default | assignment | logicalOr | logicalAnd | equality | relational | additive
  | multiplicative | unary | call | member | primary
  deriving Repr, DecidableEq

namespace BindingPower

def rank : BindingPower → Nat
  | default => 0
  | assignment => 1
  | logicalOr => 2
  | logicalAnd => 3
  | equality => 4
  | relational => 5
  | additive => 6
  | multiplicative => 7
  | unary => 8
  | call => 9
  | member => 10
  | primary => 11

end BindingPower

namespace TokenKind

/-- The binary operator that a token writes. -/
def binaryOp? : TokenKind → Option BinaryOp
  | plus => some .add
  | dash => some .subtract
  | star => some .multiply
  | slash => some .divide
  | percent => some .remainder
  | equals => some .equal
  | notEquals => some .notEqual
  | less => some .less
  | lessEquals => some .lessEqual
  | greater => some .greater
  | greaterEquals => some .greaterEqual
  | and => some .and
  | or => some .or
  | _ => none

/-- How tightly a token binds the expression on its left, if it continues one. -/
def power? : TokenKind → Option BindingPower
  | assignment => some .assignment
  | or => some .logicalOr
  | and => some .logicalAnd
  | equals | notEquals => some .equality
  | less | lessEquals | greater | greaterEquals => some .relational
  | plus | dash => some .additive
  | star | slash | percent => some .multiplicative
  | openParen | openBracket => some .call
  | dot | hash => some .member
  | _ => none

/-- Whether a token starts an expression. -/
def startsExpression : TokenKind → Bool
  | number | identifier | string | true | false | null | dash | not | openParen | openBracket
  | dollar | create => Bool.true
  | _ => Bool.false

end TokenKind

end BoxScript
