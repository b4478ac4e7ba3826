import BoxScript.Source.Span

/-!
# Cursors

A cursor stands between two characters of a source text: it knows its own position, with the name of
the file, and the text still ahead of it.
-/

set_option autoImplicit false

namespace BoxScript

/-- A place to read on from. -/
structure Cursor where
  offset : Nat
  file : String
  ahead : List Char
  deriving Repr, DecidableEq

namespace Cursor

/-- The cursor before the first character of the text of a file. -/
def atStart (file : String) (text : List Char) : Cursor := ⟨0, file, text⟩

def position (cursor : Cursor) : Position := ⟨cursor.offset, cursor.file⟩

/-- The next character; at the end, the null character. -/
def current (cursor : Cursor) : Char := cursor.ahead.headD '\x00'

/-- Whether nothing is ahead. -/
def atEnd (cursor : Cursor) : Bool := cursor.ahead.isEmpty

/-- The text that is left when its first bytes are taken away. -/
def dropBytes : Nat → List Char → List Char
  | 0, text => text
  | _, [] => []
  | count + 1, c :: rest => dropBytes (count + 1 - c.utf8Size) rest

/-- Moves on by a number of bytes, which should make up whole characters. -/
def advance (cursor : Cursor) (count : Nat) : Cursor :=
  { cursor with offset := cursor.offset + count, ahead := dropBytes count cursor.ahead }

/-- The span of the next bytes. -/
def span (cursor : Cursor) (count : Nat) : Span :=
  .within cursor.file cursor.offset (cursor.offset + count)

end Cursor

end BoxScript
