import BoxScript.Source.Span

/-!
# Lines

A line ends after its newline, so a text is the concatenation of its lines and only the last may
lack one. `placeAt?` finds the line of a position, its number, and how far into it the position is.
-/

set_option autoImplicit false

namespace BoxScript

/-- The lines of a text, each with its newline. -/
def lines : List Char → List (List Char)
  | [] => []
  | c :: rest =>
    if c = '\n' then [c] :: lines rest
    else match lines rest with
      | [] => [[c]]
      | line :: others => (c :: line) :: others

/-- Nothing of a text is lost in its lines. -/
theorem flatten_lines (text : List Char) : (lines text).flatten = text := by
  induction text with
  | nil => rfl
  | cons c rest ih =>
    by_cases newline : c = '\n'
    · simp [lines, newline, ih]
    · cases found : lines rest with
      | nil =>
        rw [found] at ih
        simp [lines, newline, ← ih]
      | cons line others =>
        rw [found] at ih
        simp only [List.flatten_cons] at ih
        simp [lines, newline, found, ih]

/-- A position inside a line: the number of the line from one on, its text with its newline, and
the bytes before the position in it. -/
structure Place where
  number : Nat
  line : List Char
  offset : Nat
  deriving Repr, DecidableEq

/-- Finds the line that a position falls into, where `number` counts the first of the lines. -/
def placeIn? (number : Nat) (offset : Nat) : List (List Char) → Option Place
  | [] => none
  | line :: others =>
    if offset < byteSize line then some ⟨number, line, offset⟩
    else placeIn? (number + 1) (offset - byteSize line) others

/-- The place of a position in a text. A position beyond the last byte stands for the last byte;
the empty text has no places. -/
def placeAt? (text : List Char) (position : Nat) : Option Place :=
  placeIn? 1 (min position (byteSize text - 1)) (lines text)

end BoxScript
