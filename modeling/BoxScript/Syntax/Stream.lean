import BoxScript.Error.Syntax
import BoxScript.Syntax.Tree

/-!
# Token streams

The state of parsing: the tokens that are left, the end of the token taken last, and the identity
that the next node gets. A stream never moves past the token of the end of the file. `Parse` is the
monad of the parser; it keeps the stream as it was where parsing stopped.
-/

set_option autoImplicit false

namespace BoxScript

/-- The tokens that are left to parse, and what the nodes parsed from them need to know. -/
structure Stream where
  tokens : List Token
  previousEnd : Position
  nextId : NodeId
  deriving Repr

namespace Stream

/-- The stream of the tokens of a file. The identity zero is the root's. -/
def ofTokens (file : String) (tokens : List Token) : Stream := ⟨tokens, ⟨0, file⟩, 1⟩

/-- The token to be taken next. -/
def current (stream : Stream) : Token :=
  stream.tokens.headD (.endOfFile stream.previousEnd)

/-- Takes a token, unless the stream is at the end of the file. -/
def advance (stream : Stream) : Stream :=
  match stream.tokens with
  | [] => stream
  | token :: rest =>
    if token.kind = .endOfFile then stream
    else { stream with tokens := rest, previousEnd := token.span.stop }

end Stream

/-- Why parsing stops early. -/
inductive Parse.Stop
  | error (error : SyntaxError)
  | outOfFuel
  deriving Repr, DecidableEq

/-- The monad of the parser. -/
abbrev Parse := EStateM Parse.Stop Stream

namespace Parse

/-- The token to be taken next. -/
def current : Parse Token := return (← get).current

/-- Takes the next token. -/
def advance : Parse Token := do
  let token ← current
  modify Stream.advance
  return token

/-- Takes the next token if it is of the given kind, and tells whether it was. -/
def accept (kind : TokenKind) : Parse Bool := do
  if (← current).kind = kind then
    let _ ← advance
    return true
  else return false

/-- Ends parsing at the next token. -/
def fail {α : Type} (cause : String → SyntaxError.Cause) : Parse α := do
  let token ← current
  throw (.error ⟨cause token.value, token.span.start⟩)

/-- Takes the next token, which has to be of the given kind. -/
def expectFor (kind : TokenKind) (wanted : Wanted) : Parse Token := do
  if (← current).kind = kind then advance
  else fail (.unwanted · wanted)

/-- Takes the next token, which has to be of the given kind. -/
def expect (kind : TokenKind) : Parse Token := expectFor kind (.token kind)

/-- The identity for a node that ends here. -/
def freshId : Parse NodeId :=
  modifyGet fun stream => (stream.nextId, { stream with nextId := stream.nextId + 1 })

/-- The mark of a node that started at a position and ends with the token taken last. -/
def markFrom (start : Position) : Parse Mark := do
  let id ← freshId
  return ⟨id, start, (← get).previousEnd⟩

/-- What a step of the parser came to, and the stream after it. -/
def run {α : Type} (parse : Parse α) (stream : Stream) : Except Stop α × Stream :=
  match EStateM.run parse stream with
  | .ok a rest => (.ok a, rest)
  | .error stop rest => (.error stop, rest)

end Parse

end BoxScript
