import BoxScript.Error.Syntax
import BoxScript.Source.Cursor

/-!
# Reading tokens

A source text is cut into lexemes from its start on. The first character decides the class of the
next lexeme, which then takes all it can: words, numbers, string literals, symbols, and the white
space and comments between them, which leave no token. A character that starts no lexeme ends the
reading with an error. `lexeme?` reads one lexeme; `tokenize` goes on to the end of the text.
-/

set_option autoImplicit false

namespace BoxScript

namespace Lexer

/-! ## Character classes -/

/-- The characters that start a word. -/
def isWordStart (c : Char) : Bool := c.isAlpha || c = '_'

/-- The characters of which a word consists. -/
def isWordChar (c : Char) : Bool := c.isAlphanum || c = '_'

/-- The value of a hexadecimal digit of either case. -/
def hexValue? (c : Char) : Option Nat :=
  if '0' ≤ c ∧ c ≤ '9' then some (c.toNat - '0'.toNat)
  else if 'a' ≤ c ∧ c ≤ 'f' then some (c.toNat - 'a'.toNat + 10)
  else if 'A' ≤ c ∧ c ≤ 'F' then some (c.toNat - 'A'.toNat + 10)
  else none

/-! ## String literals -/

/-- What stands between an opening quote and the quote that closes it. A backslash takes the next
character with it, which must not be a newline. -/
def quotedBody? : List Char → Option (List Char)
  | [] => none
  | '"' :: _ => some []
  | '\\' :: c :: rest => if c = '\n' then none else (quotedBody? rest).map ('\\' :: c :: ·)
  | c :: rest => if c = '\\' then none else (quotedBody? rest).map (c :: ·)

/-- The string that the body of a literal denotes. A backslash before a character without a meaning
of its own stands for itself, and so does one before an `x` that no hexadecimal digit follows. -/
def unescape : List Char → List Char
  | [] => []
  | '\\' :: 'n' :: rest => '\n' :: unescape rest
  | '\\' :: 't' :: rest => '\t' :: unescape rest
  | '\\' :: 'r' :: rest => '\r' :: unescape rest
  | '\\' :: '0' :: rest => '\x00' :: unescape rest
  | '\\' :: '\\' :: rest => '\\' :: unescape rest
  | '\\' :: '"' :: rest => '"' :: unescape rest
  | '\\' :: 'x' :: first :: second :: rest =>
    match hexValue? first, hexValue? second with
    | some high, some low => Char.ofNat (16 * high + low) :: unescape rest
    | some low, none => Char.ofNat low :: unescape (second :: rest)
    | none, _ => '\\' :: 'x' :: unescape (first :: second :: rest)
  | '\\' :: 'x' :: first :: rest =>
    match hexValue? first with
    | some low => Char.ofNat low :: unescape rest
    | none => '\\' :: 'x' :: unescape (first :: rest)
  | c :: rest => c :: unescape rest

/-! ## Lexemes -/

/-- A lexeme: the text it takes, and the kind and value of its token if it leaves one. -/
structure Lexeme where
  text : List Char
  token : Option (TokenKind × String)
  deriving Repr, DecidableEq

/-- The kind of a word: a keyword or an identifier. -/
def wordKind (word : List Char) : TokenKind :=
  (TokenKind.keywords.find? (·.spelling.toList = word)).getD .identifier

def word (text : List Char) : Lexeme :=
  let word := text.takeWhile isWordChar
  ⟨word, some (wordKind word, String.ofList word)⟩

/-- Digits, and a point with more digits after it if there are any. -/
def number (text : List Char) : Lexeme :=
  let whole := text.takeWhile Char.isDigit
  let digits := match text.dropWhile Char.isDigit with
    | '.' :: rest =>
      let fraction := rest.takeWhile Char.isDigit
      if fraction = [] then whole else whole ++ '.' :: fraction
    | _ => whole
  ⟨digits, some (.number, String.ofList digits)⟩

/-- A string literal; `rest` is what follows its opening quote. -/
def literal? (rest : List Char) : Option Lexeme :=
  (quotedBody? rest).map fun body =>
    ⟨'"' :: body ++ ['"'], some (.string, String.ofList (unescape body))⟩

def symbol? (text : List Char) : Option Lexeme :=
  (TokenKind.symbols.find? (·.spelling.toList.isPrefixOf text)).map fun kind =>
    ⟨kind.spelling.toList, some (kind, kind.spelling)⟩

/-- The lexeme at the start of a text. -/
def lexeme? : List Char → Option Lexeme
  | [] => none
  | '/' :: '/' :: rest => some ⟨'/' :: '/' :: rest.takeWhile (· ≠ '\n'), none⟩
  | c :: rest =>
    if isWordStart c then some (word (c :: rest))
    else if c.isDigit then some (number (c :: rest))
    else if Text.isBlank c then some ⟨(c :: rest).takeWhile Text.isBlank, none⟩
    else if c = '"' then literal? rest
    else symbol? (c :: rest)

/-- Reads tokens from a cursor on. Each lexeme takes at least one character, so as many steps as
there are characters ahead are enough. -/
def tokensFrom : Nat → Cursor → Except SyntaxError (List Token)
  | 0, cursor => .ok [.endOfFile cursor.position]
  | fuel + 1, cursor =>
    match cursor.ahead with
    | [] => .ok [.endOfFile cursor.position]
    | c :: _ =>
      match lexeme? cursor.ahead with
      | none => .error ⟨.unrecognised (String.ofList [c]), cursor.position⟩
      | some lexeme =>
        let next : Cursor := { cursor with
          offset := cursor.offset + byteSize lexeme.text
          ahead := cursor.ahead.drop lexeme.text.length }
        match lexeme.token, tokensFrom fuel next with
        | _, .error error => .error error
        | none, .ok tokens => .ok tokens
        | some (kind, value), .ok tokens =>
          .ok (⟨kind, value, cursor.span (byteSize lexeme.text)⟩ :: tokens)

end Lexer

/-- The tokens of the source text of a file, with the token of its end after them. -/
def tokenize (file : String) (source : List Char) : Except SyntaxError (List Token) :=
  Lexer.tokensFrom source.length (Cursor.atStart file source)

end BoxScript
