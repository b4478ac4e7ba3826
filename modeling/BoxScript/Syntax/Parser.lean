import BoxScript.Decimal.Reading
import BoxScript.Syntax.Precedence
import BoxScript.Syntax.Stream

/-!
# Parsing

The grammar, by recursive descent. An expression is an operand, then operators and suffixes as long
as they bind more tightly than the place asks for (`Parser.expr`, `Parser.extend`). A statement
starts with its keyword or is an expression; a semicolon may follow each.

Each node takes its identity when it is complete, after all nodes inside it. The parsing functions
take fuel, one unit for each call inside a call. Between two calls that take no token there are few
others, so eight units for each token are enough; `Parser.fueled` provides them.
-/

set_option autoImplicit false

namespace BoxScript

namespace Parser

/-! ## Types -/

/-- The `[]` suffixes of a type, at most `fuel` of them. -/
def typeSuffixes : Nat → TypeExpr → Parse TypeExpr
  | 0, component => return component
  | fuel + 1, component => do
    if (← Parse.accept .openBracket) then
      let _ ← Parse.expect .closeBracket
      let mark ← Parse.markFrom component.span.start
      typeSuffixes fuel (.array mark component)
    else return component

/-- A type: a name and the suffixes that bind more tightly than `power`. -/
def typeExpr (power : BindingPower) : Parse TypeExpr := do
  let token ← Parse.current
  if token.kind ≠ .identifier then Parse.fail (.unwanted · .type)
  let _ ← Parse.advance
  let id ← Parse.freshId
  let name : TypeExpr := .named ⟨id, token.span⟩ token.value
  if BindingPower.call.rank ≤ power.rank then return name
  typeSuffixes (← get).tokens.length name

/-- A colon and a type, if there is a colon. -/
def typeAnnotation? : Parse (Option TypeExpr) := do
  if (← Parse.accept .colon) then
    let type ← typeExpr .default
    return some type
  else return none

/-- A name, a colon and a type; the node starts at `start`. -/
def typedName (start : Position) (name : String) : Parse TypedName := do
  let _ ← Parse.expect .colon
  let type ← typeExpr .default
  let mark ← Parse.markFrom start
  return ⟨mark, name, type⟩

/-! ## Expressions -/

/-- The number that a token denotes: with a point a Float, without one an Int. -/
def numeral? (mark : Mark) (text : String) : Option Expr :=
  if text.toList.contains '.' then (Decimal.readFloat? text.toList).map (.float mark)
  else (Decimal.readInt64? text.toList).map (.int mark)

/-- A literal or a name. -/
def primary : Parse Expr := do
  let token ← Parse.advance
  let id ← Parse.freshId
  let mark : Mark := ⟨id, token.span⟩
  match token.kind with
  | .number =>
    match numeral? mark token.value with
    | some e => return e
    | none => throw (.error ⟨.badNumber token.value, token.span.start⟩)
  | .identifier => return .symbol mark token.value
  | .string => return .string mark token.value
  | .true => return .bool mark true
  | .false => return .bool mark false
  | .null => return .null mark
  | _ => throw (.error ⟨.unexpected token.value, token.span.start⟩)

/-- `$Name`. -/
def constructor : Parse Expr := do
  let start := (← Parse.advance).span.start
  let name := (← Parse.expectFor .identifier .constructorName).value
  return .constructor (← Parse.markFrom start) name

/-- `create Name()`. -/
def create : Parse Expr := do
  let start := (← Parse.advance).span.start
  let name := (← Parse.expectFor .identifier .createdName).value
  let _ ← Parse.expect .openParen
  let _ ← Parse.expect .closeParen
  return .create (← Parse.markFrom start) name

mutual

/-- An expression whose operators bind more tightly than `power`. -/
def expr : Nat → BindingPower → Parse Expr
  | 0, _ => throw .outOfFuel
  | fuel + 1, power => do
    let left ← operand fuel
    extend fuel power left

/-- What an expression starts with: a literal, a name, a prefix operator with its operand, or
anything in brackets. -/
def operand : Nat → Parse Expr
  | 0 => throw .outOfFuel
  | fuel + 1 => do
    match (← Parse.current).kind with
    | .number | .identifier | .string | .true | .false | .null => primary
    | .dash => unary fuel .negate
    | .not => unary fuel .not
    | .openParen =>
      let start := (← Parse.advance).span.start
      let inner ← expr fuel .default
      let _ ← Parse.expect .closeParen
      return .paren (← Parse.markFrom start) inner
    | .openBracket =>
      let start := (← Parse.advance).span.start
      let elements ← arguments fuel .closeBracket
      return .array (← Parse.markFrom start) elements
    | .dollar => constructor
    | .create => create
    | _ => Parse.fail .unexpected

/-- A prefix operator and its operand. -/
def unary : Nat → PrefixOp → Parse Expr
  | 0, _ => throw .outOfFuel
  | fuel + 1, op => do
    let start := (← Parse.advance).span.start
    let inner ← expr fuel .unary
    return .unary (← Parse.markFrom start) op inner

/-- Takes in what follows an expression while it binds more tightly than `power`. -/
def extend : Nat → BindingPower → Expr → Parse Expr
  | 0, _, _ => throw .outOfFuel
  | fuel + 1, power, left => do
    match (← Parse.current).kind.power? with
    | none => return left
    | some next =>
      if next.rank ≤ power.rank then return left
      let longer ← suffix fuel next left
      extend fuel power longer

/-- The expression on the left with one operator or suffix more, which binds with `power`. -/
def suffix : Nat → BindingPower → Expr → Parse Expr
  | 0, _, _ => throw .outOfFuel
  | fuel + 1, power, left => do
    let token ← Parse.advance
    match token.kind with
    | .assignment =>
      let value ← expr fuel .default
      return .assign ⟨← Parse.freshId, left.span.through value.span⟩ left value
    | .openParen =>
      let given ← arguments fuel .closeParen
      return .call (← Parse.markFrom left.span.start) left given
    | .openBracket =>
      let index ← expr fuel .default
      let _ ← Parse.expect .closeBracket
      return .index (← Parse.markFrom left.span.start) left index
    | .dot =>
      let name := (← Parse.expectFor .identifier .fieldName).value
      return .field (← Parse.markFrom left.span.start) left name
    | .hash =>
      let name := (← Parse.expectFor .identifier .memberName).value
      return .member (← Parse.markFrom left.span.start) left name
    | kind =>
      match kind.binaryOp? with
      | none => throw (.error ⟨.unexpected token.value, token.span.start⟩)
      | some op =>
        let right ← expr fuel power
        return .binary ⟨← Parse.freshId, left.span.through right.span⟩ op left right

/-- Expressions with commas between them, up to and with the closing token. A comma may follow the
last one. -/
def arguments : Nat → TokenKind → Parse (List Expr)
  | 0, _ => throw .outOfFuel
  | fuel + 1, close => do
    if (← Parse.accept close) then return []
    let first ← expr fuel .default
    if (← Parse.accept .comma) then
      let others ← arguments fuel close
      return first :: others
    else
      let _ ← Parse.expect close
      return [first]

end

/-! ## Declarations -/

/-- Parameters with commas between them, up to and with the closing parenthesis, at most `fuel` of
them. A comma may follow the last one. -/
def parameters : Nat → Parse (List TypedName)
  | 0 => throw .outOfFuel
  | fuel + 1 => do
    if (← Parse.accept .closeParen) then return []
    let token ← Parse.expect .identifier
    let first ← typedName token.span.start token.value
    if (← Parse.accept .comma) then
      let others ← parameters fuel
      return first :: others
    else
      let _ ← Parse.expect .closeParen
      return [first]

/-- The fields of a struct, up to and with the closing brace, at most `fuel` of them. -/
def fields : Nat → Parse (List TypedName)
  | 0 => throw .outOfFuel
  | fuel + 1 => do
    if (← Parse.accept .closeCurly) then return []
    let start := (← Parse.expect .var).span.start
    let name := (← Parse.expect .identifier).value
    let first ← typedName start name
    let _ ← Parse.accept .semicolon
    let others ← fields fuel
    return first :: others

/-! ## Statements -/

mutual

/-- A statement, and the semicolon after it if there is one. -/
def stmt : Nat → Parse Stmt
  | 0 => throw .outOfFuel
  | fuel + 1 => do
    let result ← match (← Parse.current).kind with
      | .var => varDecl fuel
      | .fun => .function <$> function fuel
      | .struct => struct fuel
      | .box => box fuel
      | .if => ifElse fuel
      | .while => whileLoop fuel
      | .return => returned fuel
      | .openCurly => .block <$> block fuel
      | _ => do
        let e ← expr fuel .default
        pure (.expression ⟨← Parse.freshId, e.span⟩ e)
    let _ ← Parse.accept .semicolon
    return result

/-- `var name: Type = value`, where one of the type and the value may be missing. -/
def varDecl : Nat → Parse Stmt
  | 0 => throw .outOfFuel
  | fuel + 1 => do
    let start := (← Parse.advance).span.start
    let name := (← Parse.expectFor .identifier .variableName).value
    let type ← typeAnnotation?
    let value ← if (← Parse.accept .assignment) then some <$> expr fuel .default else pure none
    let form ← match type, value with
      | some type, value => pure (VariableForm.typed type value)
      | none, some value => pure (VariableForm.inferred value)
      | none, none => Parse.fail (.unwanted · .typeOrInitializer)
    return .var ⟨← Parse.markFrom start, name, form⟩

/-- `if condition then`, with or without `else`. -/
def ifElse : Nat → Parse Stmt
  | 0 => throw .outOfFuel
  | fuel + 1 => do
    let start := (← Parse.advance).span.start
    let condition ← expr fuel .default
    let thenBody ← stmt fuel
    let elseBody ← if (← Parse.accept .else) then some <$> stmt fuel else pure none
    return .ifElse (← Parse.markFrom start) condition thenBody elseBody

/-- `while condition body`. -/
def whileLoop : Nat → Parse Stmt
  | 0 => throw .outOfFuel
  | fuel + 1 => do
    let start := (← Parse.advance).span.start
    let condition ← expr fuel .default
    let body ← stmt fuel
    return .while (← Parse.markFrom start) condition body

/-- `return`, with a value if the next token starts an expression. -/
def returned : Nat → Parse Stmt
  | 0 => throw .outOfFuel
  | fuel + 1 => do
    let start := (← Parse.advance).span.start
    let value ← if (← Parse.current).kind.startsExpression then some <$> expr fuel .default
      else pure none
    return .return (← Parse.markFrom start) value

/-- Statements between braces. -/
def block : Nat → Parse Block
  | 0 => throw .outOfFuel
  | fuel + 1 => do
    let start := (← Parse.expect .openCurly).span.start
    let body ← statements fuel
    return ⟨← Parse.markFrom start, body⟩

/-- The statements of a block, up to and with the closing brace. -/
def statements : Nat → Parse (List Stmt)
  | 0 => throw .outOfFuel
  | fuel + 1 => do
    if (← Parse.accept .closeCurly) then return []
    if (← Parse.current).kind = .endOfFile then Parse.fail (.unwanted · .endOfBlock)
    let first ← stmt fuel
    let others ← statements fuel
    return first :: others

/-- A function or method from its keyword on. -/
def function : Nat → Parse FunctionDecl
  | 0 => throw .outOfFuel
  | fuel + 1 => do
    let start := (← Parse.advance).span.start
    let name := (← Parse.expectFor .identifier .functionName).value
    let _ ← Parse.expect .openParen
    let params ← parameters fuel
    let result ← typeAnnotation?
    let body ← block fuel
    return ⟨← Parse.markFrom start, name, params, result, body⟩

/-- `struct Name` and its fields. -/
def struct : Nat → Parse Stmt
  | 0 => throw .outOfFuel
  | fuel + 1 => do
    let start := (← Parse.advance).span.start
    let name := (← Parse.expectFor .identifier .structName).value
    let _ ← Parse.expect .openCurly
    let members ← fields fuel
    return .struct ⟨← Parse.markFrom start, name, members⟩

/-- `box Name` and its members. -/
def box : Nat → Parse Stmt
  | 0 => throw .outOfFuel
  | fuel + 1 => do
    let start := (← Parse.advance).span.start
    let name := (← Parse.expectFor .identifier .boxName).value
    let _ ← Parse.expect .openCurly
    let inside ← members fuel
    return .box ⟨← Parse.markFrom start, name, inside⟩

/-- The members of a box, up to and with the closing brace. -/
def members : Nat → Parse (List Member)
  | 0 => throw .outOfFuel
  | fuel + 1 => do
    match (← Parse.current).kind with
    | .closeCurly =>
      let _ ← Parse.advance
      return []
    | .attr =>
      let start := (← Parse.advance).span.start
      let name := (← Parse.expect .identifier).value
      let first ← typedName start name
      let _ ← Parse.accept .semicolon
      let others ← members fuel
      return .attr first :: others
    | .meth =>
      let first ← function fuel
      let _ ← Parse.accept .semicolon
      let others ← members fuel
      return .meth first :: others
    | _ => Parse.fail (.unwanted · .boxMember)

/-- The statements of a program, up to the end of the file. -/
def topLevel : Nat → Parse (List Stmt)
  | 0 => throw .outOfFuel
  | fuel + 1 => do
    if (← Parse.current).kind = .endOfFile then return []
    let first ← stmt fuel
    let others ← topLevel fuel
    return first :: others

end

/-- Parses with fuel enough for the tokens that are left. -/
def fueled {α : Type} (parse : Nat → Parse α) : Parse α := do
  parse (8 * ((← get).tokens.length + 1))

/-- The root block, from the start of the text to the start of the token of its end. -/
def program : Parse Program := do
  let start := (← get).previousEnd
  let body ← fueled topLevel
  return ⟨⟨0, start, (← Parse.current).span.start⟩, body⟩

end Parser

/-- The program that the tokens of a file make up, or why parsing stops. -/
def parse (file : String) (tokens : List Token) : Except Parse.Stop Program :=
  (Parser.program.run (Stream.ofTokens file tokens)).1

end BoxScript
