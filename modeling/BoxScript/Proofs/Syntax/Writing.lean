import BoxScript.Proofs.Syntax.Nodes

/-!
# Writing a tree

A tree is written as the pieces that its tokens are to tell (`Piece`): keywords and symbols, names,
and the values of literals. One semicolon stands after every statement, field and member
(`Stmt.pieces`, `Block.pieces`).

Nothing in the pieces tells how operands are grouped, so a tree can be read back only if its
operators are grouped as their precedence has it (`Expr.Grouped`): an operand whose own operator
binds too loosely stands in parentheses.
-/

set_option autoImplicit false

namespace BoxScript

/-! ## What a token tells -/

/-- What a token tells, apart from where it stands: a keyword or symbol, a name, or the value of a
literal. -/
inductive Piece
  | sign (kind : TokenKind)
  | identifier (name : String)
  | string (value : String)
  | int (value : Int64)
  | float (value : Float)

/-- What a token tells. A number that is out of range tells nothing. -/
def Token.piece? (token : Token) : Option Piece :=
  match token.kind with
  | .number =>
    if token.value.toList.contains '.' then (Decimal.readFloat? token.value.toList).map .float
    else (Decimal.readInt64? token.value.toList).map .int
  | .identifier => some (.identifier token.value)
  | .string => some (.string token.value)
  | kind => some (.sign kind)

/-- The piece after every statement, field and member. -/
def Piece.semicolon : Piece := .sign .semicolon

/-- Parts with commas between them. -/
def Piece.separated : List (List Piece) → List Piece
  | [] => []
  | [part] => part
  | part :: next :: parts => part ++ .sign .comma :: Piece.separated (next :: parts)

/-! ## Operators -/

def PrefixOp.kind : PrefixOp → TokenKind
  | not => .not
  | negate => .dash

def BinaryOp.kind : BinaryOp → TokenKind
  | add => .plus
  | subtract => .dash
  | multiply => .star
  | divide => .slash
  | remainder => .percent
  | equal => .equals
  | notEqual => .notEquals
  | less => .less
  | lessEqual => .lessEquals
  | greater => .greater
  | greaterEqual => .greaterEquals
  | and => .and
  | or => .or

/-- How tightly a binary operator binds its operands. -/
def BinaryOp.power : BinaryOp → BindingPower
  | or => .logicalOr
  | and => .logicalAnd
  | equal | notEqual => .equality
  | less | lessEqual | greater | greaterEqual => .relational
  | add | subtract => .additive
  | multiply | divide | remainder => .multiplicative

theorem BinaryOp.power?_kind (op : BinaryOp) : op.kind.power? = some op.power := by
  cases op <;> rfl

theorem BinaryOp.assignment_lt_power (op : BinaryOp) :
    BindingPower.assignment.rank < op.power.rank := by
  cases op <;> decide

theorem BinaryOp.power_lt_unary (op : BinaryOp) : op.power.rank < BindingPower.unary.rank := by
  cases op <;> decide

/-! ## Types and expressions -/

def TypeExpr.pieces : TypeExpr → List Piece
  | .named _ name => [.identifier name]
  | .array _ component => component.pieces ++ [.sign .openBracket, .sign .closeBracket]

mutual

def Expr.pieces : Expr → List Piece
  | .int _ value => [.int value]
  | .float _ value => [.float value]
  | .string _ value => [.string value]
  | .bool _ value => [.sign (if value then .true else .false)]
  | .null _ => [.sign .null]
  | .symbol _ name => [.identifier name]
  | .array _ elements =>
    .sign .openBracket :: (Piece.separated (Expr.piecesOfAll elements) ++ [.sign .closeBracket])
  | .paren _ inner => .sign .openParen :: (inner.pieces ++ [.sign .closeParen])
  | .unary _ op operand => .sign op.kind :: operand.pieces
  | .binary _ op left right => left.pieces ++ .sign op.kind :: right.pieces
  | .assign _ target value => target.pieces ++ .sign .assignment :: value.pieces
  | .call _ callee given =>
    callee.pieces ++
      .sign .openParen :: (Piece.separated (Expr.piecesOfAll given) ++ [.sign .closeParen])
  | .index _ owner place =>
    owner.pieces ++ .sign .openBracket :: (place.pieces ++ [.sign .closeBracket])
  | .field _ receiver name => receiver.pieces ++ [.sign .dot, .identifier name]
  | .member _ receiver name => receiver.pieces ++ [.sign .hash, .identifier name]
  | .constructor _ name => [.sign .dollar, .identifier name]
  | .create _ name =>
    [.sign .create, .identifier name, .sign .openParen, .sign .closeParen]

def Expr.piecesOfAll : List Expr → List (List Piece)
  | [] => []
  | e :: rest => e.pieces :: Expr.piecesOfAll rest

end

namespace Expr

/-- How tightly the outermost operator of an expression binds. -/
def rank : Expr → Nat
  | assign .. => BindingPower.assignment.rank
  | binary _ op _ _ => op.power.rank
  | unary .. => BindingPower.unary.rank
  | _ => BindingPower.primary.rank

/-- An expression whose operands are grouped as precedence has it. What stands on the left of a
binary operator binds at least as tightly, and what stands on its right more tightly. An assignment
stands on no left side, and no operator on the left of brackets, points and hashes. -/
def Grouped : Expr → Prop
  | binary _ op left right => op.power.rank ≤ left.rank ∧ op.power.rank < right.rank
  | assign _ target _ => BindingPower.assignment.rank < target.rank
  | unary _ _ operand => BindingPower.unary.rank ≤ operand.rank
  | call _ receiver _ | index _ receiver _ | field _ receiver _ | member _ receiver _ =>
    BindingPower.unary.rank < receiver.rank
  | _ => True

end Expr

/-! ## Declarations and statements -/

def TypedName.pieces (typed : TypedName) : List Piece :=
  .identifier typed.name :: .sign .colon :: typed.type.pieces

/-- The fields of a struct, each with its keyword and a semicolon. -/
def TypedName.piecesOfFields : List TypedName → List Piece
  | [] => []
  | field :: rest =>
    .sign .var :: (field.pieces ++ .semicolon :: TypedName.piecesOfFields rest)

def VariableForm.pieces : VariableForm → List Piece
  | .typed type none => .sign .colon :: type.pieces
  | .typed type (some value) =>
    .sign .colon :: (type.pieces ++ .sign .assignment :: value.pieces)
  | .inferred value => .sign .assignment :: value.pieces

/-- A written result type, if there is one. -/
def TypeExpr.piecesOfResult : Option TypeExpr → List Piece
  | none => []
  | some type => .sign .colon :: type.pieces

mutual

/-- A statement, without the semicolon after it. -/
def Stmt.pieces : Stmt → List Piece
  | .block b => b.pieces
  | .expression _ e => e.pieces
  | .var decl => .sign .var :: .identifier decl.name :: decl.form.pieces
  | .function decl => .sign .fun :: decl.pieces
  | .struct decl =>
    .sign .struct :: .identifier decl.name :: .sign .openCurly ::
      (TypedName.piecesOfFields decl.fields ++ [.sign .closeCurly])
  | .box decl => decl.pieces
  | .ifElse _ condition thenBody none =>
    .sign .if :: (condition.pieces ++ (thenBody.pieces ++ [.semicolon]))
  | .ifElse _ condition thenBody (some elseBody) =>
    .sign .if :: (condition.pieces ++ (thenBody.pieces ++ .semicolon :: .sign .else ::
      (elseBody.pieces ++ [.semicolon])))
  | .while _ condition body =>
    .sign .while :: (condition.pieces ++ (body.pieces ++ [.semicolon]))
  | .return _ none => [.sign .return]
  | .return _ (some value) => .sign .return :: value.pieces

def Block.pieces : Block → List Piece
  | ⟨_, body⟩ => .sign .openCurly :: (Stmt.piecesOfAll body ++ [.sign .closeCurly])

/-- Statements in their order, each with a semicolon after it. -/
def Stmt.piecesOfAll : List Stmt → List Piece
  | [] => []
  | s :: rest => s.pieces ++ .semicolon :: Stmt.piecesOfAll rest

/-- A function or method after its keyword. -/
def FunctionDecl.pieces : FunctionDecl → List Piece
  | ⟨_, name, parameters, result, body⟩ =>
    .identifier name :: .sign .openParen ::
      (Piece.separated (parameters.map TypedName.pieces) ++
        .sign .closeParen :: (TypeExpr.piecesOfResult result ++ body.pieces))

def BoxDecl.pieces : BoxDecl → List Piece
  | ⟨_, name, members⟩ =>
    .sign .box :: .identifier name :: .sign .openCurly ::
      (Member.piecesOfAll members ++ [.sign .closeCurly])

/-- The members of a box, each with its keyword and a semicolon. -/
def Member.piecesOfAll : List Member → List Piece
  | [] => []
  | .attr decl :: rest =>
    .sign .attr :: (decl.pieces ++ .semicolon :: Member.piecesOfAll rest)
  | .meth decl :: rest =>
    .sign .meth :: (decl.pieces ++ .semicolon :: Member.piecesOfAll rest)

end

/-! ## Trees with other marks -/

section Remarked

variable (f : Mark → Mark)

def TypeExpr.remarked : TypeExpr → TypeExpr
  | .named mark name => .named (f mark) name
  | .array mark component => .array (f mark) component.remarked

mutual

def Expr.remarked : Expr → Expr
  | .int mark value => .int (f mark) value
  | .float mark value => .float (f mark) value
  | .string mark value => .string (f mark) value
  | .bool mark value => .bool (f mark) value
  | .null mark => .null (f mark)
  | .symbol mark name => .symbol (f mark) name
  | .array mark elements => .array (f mark) (Expr.remarkedAll elements)
  | .paren mark inner => .paren (f mark) inner.remarked
  | .unary mark op operand => .unary (f mark) op operand.remarked
  | .binary mark op left right => .binary (f mark) op left.remarked right.remarked
  | .assign mark target value => .assign (f mark) target.remarked value.remarked
  | .call mark callee given => .call (f mark) callee.remarked (Expr.remarkedAll given)
  | .index mark owner place => .index (f mark) owner.remarked place.remarked
  | .field mark receiver name => .field (f mark) receiver.remarked name
  | .member mark receiver name => .member (f mark) receiver.remarked name
  | .constructor mark name => .constructor (f mark) name
  | .create mark name => .create (f mark) name

def Expr.remarkedAll : List Expr → List Expr
  | [] => []
  | e :: rest => e.remarked :: Expr.remarkedAll rest

end

def TypedName.remarked (typed : TypedName) : TypedName :=
  ⟨f typed.mark, typed.name, typed.type.remarked f⟩

def VariableForm.remarked : VariableForm → VariableForm
  | .typed type value => .typed (type.remarked f) (value.map (Expr.remarked f))
  | .inferred value => .inferred (value.remarked f)

mutual

def Stmt.remarked : Stmt → Stmt
  | .block b => .block b.remarked
  | .expression mark e => .expression (f mark) (e.remarked f)
  | .var ⟨mark, name, form⟩ => .var ⟨f mark, name, form.remarked f⟩
  | .function decl => .function decl.remarked
  | .struct ⟨mark, name, fields⟩ => .struct ⟨f mark, name, fields.map (TypedName.remarked f)⟩
  | .box decl => .box decl.remarked
  | .ifElse mark condition thenBody none =>
    .ifElse (f mark) (condition.remarked f) thenBody.remarked none
  | .ifElse mark condition thenBody (some elseBody) =>
    .ifElse (f mark) (condition.remarked f) thenBody.remarked (some elseBody.remarked)
  | .while mark condition body => .while (f mark) (condition.remarked f) body.remarked
  | .return mark value => .return (f mark) (value.map (Expr.remarked f))

def Block.remarked : Block → Block
  | ⟨mark, body⟩ => ⟨f mark, Stmt.remarkedAll body⟩

def Stmt.remarkedAll : List Stmt → List Stmt
  | [] => []
  | s :: rest => s.remarked :: Stmt.remarkedAll rest

def FunctionDecl.remarked : FunctionDecl → FunctionDecl
  | ⟨mark, name, parameters, result, body⟩ =>
    ⟨f mark, name, parameters.map (TypedName.remarked f), result.map (TypeExpr.remarked f),
      body.remarked⟩

def BoxDecl.remarked : BoxDecl → BoxDecl
  | ⟨mark, name, members⟩ => ⟨f mark, name, Member.remarkedAll members⟩

def Member.remarkedAll : List Member → List Member
  | [] => []
  | .attr decl :: rest => .attr (decl.remarked f) :: Member.remarkedAll rest
  | .meth decl :: rest => .meth decl.remarked :: Member.remarkedAll rest

end

end Remarked

end BoxScript
