/-!
# Positions and spans

A position in a source text counts the bytes of its UTF-8 form before it, and knows the name of the
file that the text is from. A span runs from the position of its first character to the position
after its last.
-/

set_option autoImplicit false

namespace BoxScript

/-- The number of bytes that a text takes in UTF-8. -/
def byteSize (text : List Char) : Nat :=
  text.foldr (fun c size => c.utf8Size + size) 0

@[simp] theorem byteSize_nil : byteSize [] = 0 := rfl

@[simp] theorem byteSize_cons (c : Char) (text : List Char) :
    byteSize (c :: text) = c.utf8Size + byteSize text := rfl

@[simp] theorem byteSize_append (first second : List Char) :
    byteSize (first ++ second) = byteSize first + byteSize second := by
  induction first with
  | nil => simp
  | cons c rest ih => simp [ih, Nat.add_assoc]

/-- A position in a file. -/
structure Position where
  offset : Nat
  file : String
  deriving Repr, DecidableEq, Inhabited

/-- The position of what is in no file. -/
def Position.none : Position := ⟨0, "<null>"⟩

/-- A stretch of source text, by the positions of its two ends. -/
structure Span where
  start : Position
  stop : Position
  deriving Repr, DecidableEq, Inhabited

namespace Span

/-- The span of what no source text declares. -/
def none : Span := ⟨.none, .none⟩

/-- The span between two offsets of a file. -/
def within (file : String) (first last : Nat) : Span := ⟨⟨first, file⟩, ⟨last, file⟩⟩

/-- From the start of one span to the end of another. -/
def through (first last : Span) : Span := ⟨first.start, last.stop⟩

end Span

end BoxScript
