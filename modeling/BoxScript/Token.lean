import BoxScript.Source.Span

/-!
# Tokens

A token is a lexeme of a source text that means something to the grammar: its kind, its value and
the span it was read from. Keywords and symbols have one spelling each.
-/

set_option autoImplicit false

namespace BoxScript

/-- The kinds of token. -/
inductive TokenKind
  | endOfFile | number | string | identifier
  | openBracket | closeBracket | openCurly | closeCurly | openParen | closeParen
  | assignment | equals | not | notEquals
  | less | lessEquals | greater | greaterEquals
  | or | and
  | dot | hash | dollar | semicolon | colon | comma
  | plus | dash | slash | star | percent
  | var | fun | struct | box | attr | meth | create | return | if | else | while
  | true | false | null
  deriving Repr, DecidableEq, Inhabited

namespace TokenKind

/-- The name of a kind in messages and token listings. -/
def name : TokenKind → String
  | endOfFile => "EOF"
  | number => "Number"
  | string => "String"
  | identifier => "Identifier"
  | openBracket => "OpenBracket"
  | closeBracket => "CloseBracket"
  | openCurly => "OpenCurly"
  | closeCurly => "CloseCurly"
  | openParen => "OpenParen"
  | closeParen => "CloseParen"
  | assignment => "Assignment"
  | equals => "Equals"
  | not => "Not"
  | notEquals => "NotEquals"
  | less => "Less"
  | lessEquals => "LessEquals"
  | greater => "Greater"
  | greaterEquals => "GreaterEquals"
  | or => "Or"
  | and => "And"
  | dot => "Dot"
  | hash => "Hash"
  | dollar => "Dollar"
  | semicolon => "Semicolon"
  | colon => "Colon"
  | comma => "Comma"
  | plus => "Plus"
  | dash => "Dash"
  | slash => "Slash"
  | star => "Star"
  | percent => "Percent"
  | var => "Var"
  | .fun => "Fun"
  | struct => "Struct"
  | box => "Box"
  | attr => "Attr"
  | meth => "Meth"
  | create => "Create"
  | .return => "Return"
  | .if => "If"
  | .else => "Else"
  | .while => "While"
  | true => "True"
  | false => "False"
  | null => "Null"

/-- The one spelling of a keyword or symbol. The other kinds have none. -/
def spelling? : TokenKind → Option String
  | endOfFile | number | string | identifier => none
  | openBracket => some "["
  | closeBracket => some "]"
  | openCurly => some "\x7b"
  | closeCurly => some "\x7d"
  | openParen => some "("
  | closeParen => some ")"
  | assignment => some "="
  | equals => some "=="
  | not => some "!"
  | notEquals => some "!="
  | less => some "<"
  | lessEquals => some "<="
  | greater => some ">"
  | greaterEquals => some ">="
  | or => some "||"
  | and => some "&&"
  | dot => some "."
  | hash => some "#"
  | dollar => some "$"
  | semicolon => some ";"
  | colon => some ":"
  | comma => some ","
  | plus => some "+"
  | dash => some "-"
  | slash => some "/"
  | star => some "*"
  | percent => some "%"
  | var => some "var"
  | .fun => some "fun"
  | struct => some "struct"
  | box => some "box"
  | attr => some "attr"
  | meth => some "meth"
  | create => some "create"
  | .return => some "return"
  | .if => some "if"
  | .else => some "else"
  | .while => some "while"
  | true => some "true"
  | false => some "false"
  | null => some "null"

/-- The spelling of a keyword or symbol, empty for the other kinds. -/
def spelling (kind : TokenKind) : String := kind.spelling?.getD ""

/-- The reserved words. -/
def keywords : List TokenKind :=
  [var, .fun, struct, box, attr, meth, create, .return, .if, .else, .while, true, false, null]

/-- The symbols, in the order in which they are tried: a symbol comes before its beginnings. -/
def symbols : List TokenKind :=
  [openBracket, closeBracket, openCurly, closeCurly, openParen, closeParen, equals, notEquals, not,
   assignment, lessEquals, less, greaterEquals, greater, or, and, dot, hash, dollar, semicolon,
   colon, comma, plus, dash, slash, star, percent]

/-- Whether tokens of the kind differ in their values. -/
def hasValue : TokenKind → Bool
  | number | string | identifier => Bool.true
  | _ => Bool.false

end TokenKind

/-- A token: its kind, its value (the content of a string literal, the spelling of any other) and
where it was read. -/
structure Token where
  kind : TokenKind
  value : String
  span : Span
  deriving Repr, DecidableEq, Inhabited

namespace Token

/-- The token after the last character of a text. -/
def endOfFile (position : Position) : Token := ⟨.endOfFile, "EOF", ⟨position, position⟩⟩

/-- How a token listing shows a token. -/
def text (token : Token) : String :=
  if token.kind.hasValue then s!"{token.kind.name} ({token.value})" else token.kind.name

end Token

end BoxScript
