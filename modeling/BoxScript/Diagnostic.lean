import BoxScript.Source.Line
import BoxScript.Text.Blank

/-!
# Diagnostics

What a user is told about an error, whichever stage found it: its name, a message, perhaps a tip,
and the position it concerns. `Diagnostic.render` shows it with an excerpt of the source, the line
of the position and a caret below the position itself.
-/

set_option autoImplicit false

namespace BoxScript

/-- An error as it is shown. -/
structure Diagnostic where
  name : String
  message : String
  tip : Option String
  position : Position
  deriving Repr, DecidableEq

namespace Diagnostic

/-- Spaces and tabs, which an excerpt drops at the start of its line. -/
def isIndent (c : Char) : Bool := c = ' ' || c = '\t'

/-- The three lines of an excerpt: a blank gutter, the line with its number, and the caret. The
dashes before the caret count the bytes before the position in the line, less its indentation. -/
def excerpt (place : Place) : List Char :=
  let number := Nat.toDigits 10 place.number
  let indent := (place.line.takeWhile isIndent).length
  let shown := Text.trimEnd (place.line.drop indent)
  let gutter := List.replicate (number.length + 1) ' ' ++ ['|']
  let dashes := List.replicate (place.offset - indent) '-'
  gutter ++ '\n' :: number ++ [' ', '|', ' '] ++ shown ++ '\n' :: gutter ++ ' ' :: dashes ++
    ['^', '\n']

/-- What a diagnostic is called: its name, and its tip if it has one. -/
def title (diagnostic : Diagnostic) : String :=
  match diagnostic.tip with
  | none => diagnostic.name
  | some tip => s!"{diagnostic.name} ({tip})"

/-- The text of a diagnostic: its title, the name of the file that its position is in, and an
excerpt of the source unless that is empty. -/
def render (diagnostic : Diagnostic) (source : List Char) : String :=
  let body := match placeAt? source diagnostic.position.offset with
    | none => []
    | some place => excerpt place
  s!"Error: {diagnostic.title}\n-> {diagnostic.position.file}\n" ++ String.ofList body

end Diagnostic

end BoxScript
