import BoxScript.Diagnostic
import BoxScript.Text.Quoted
import BoxScript.Token

/-!
# Syntax errors

Why a text is no program: a character that starts no lexeme, a token where none of its kind may
stand, or a number out of range.
-/

set_option autoImplicit false

namespace BoxScript

/-- What the grammar asks for at a place. -/
inductive Wanted
  | token (kind : TokenKind)
  | variableName
  | typeOrInitializer
  | functionName
  | structName
  | boxName
  | boxMember
  | endOfBlock
  | type
  | fieldName
  | memberName
  | constructorName
  | createdName
  deriving Repr, DecidableEq

namespace Wanted

/-- The wording of what is asked for. -/
def text : Wanted → String
  | token kind => s!"expected {kind.name}"
  | variableName => "expected identifier during variable declaration"
  | typeOrInitializer => "expected rhs or explicit type"
  | functionName => "expected function name"
  | structName => "expected struct name"
  | boxName => "expected box name"
  | boxMember => "expected `attr` or `meth` inside box"
  | endOfBlock => "expected `\x7d` to close the block"
  | type => "expected a type"
  | fieldName => "expected field name after `.`"
  | memberName => "expected attribute or method name after `#`"
  | constructorName => "expected struct name after `$`"
  | createdName => "expected box name after `create`"

end Wanted

/-- The causes of syntax errors, each with the text it arose at. -/
inductive SyntaxError.Cause
  | unrecognised (text : String)
  | unexpected (text : String)
  | unwanted (text : String) (wanted : Wanted)
  | badNumber (text : String)
  deriving Repr, DecidableEq

/-- A syntax error, at the start of the token or character that raised it. -/
structure SyntaxError where
  cause : SyntaxError.Cause
  position : Position
  deriving Repr, DecidableEq

namespace SyntaxError.Cause

def name : Cause → String
  | unrecognised _ => "UnrecognisedToken"
  | unexpected _ => "UnexpectedToken"
  | unwanted _ _ => "UnexpectedTokenDetailed"
  | badNumber _ => "NumberParseError"

/-- The text at which the error arose. -/
def text : Cause → String
  | unrecognised given | unexpected given | unwanted given _ | badNumber given => given

def message : Cause → String
  | unrecognised given => s!"unrecognised token: {Text.quoted given}"
  | unexpected given => s!"unexpected token: {Text.quoted given}"
  | unwanted given wanted => s!"unexpected token ({wanted.text}): {Text.quoted given}"
  | badNumber given => s!"error parsing number: {Text.quoted given}"

def tip : Cause → Option String
  | unrecognised _ => none
  | unexpected given => some s!"Unexpected token: `{given}`"
  | unwanted given wanted => some s!"Unexpected token: `{given}`, {wanted.text}"
  | badNumber given => some s!"Invalid number: `{given}`, is it above the integer limit?"

end SyntaxError.Cause

/-- How a syntax error is shown. -/
def SyntaxError.diagnostic (error : SyntaxError) : Diagnostic :=
  ⟨error.cause.name, error.cause.message, error.cause.tip, error.position⟩

end BoxScript
