/-!
# White space

The characters that separate lexemes, and that an excerpt drops at the end of a line, are those
with the Unicode property `White_Space`. There are twenty-five of them, in ten runs.
-/

set_option autoImplicit false

namespace BoxScript.Text

/-- The runs of code points with the property `White_Space`, ascending, both ends included. -/
def blankRuns : List (Nat × Nat) :=
  [(0x09, 0x0D), (0x20, 0x20), (0x85, 0x85), (0xA0, 0xA0), (0x1680, 0x1680), (0x2000, 0x200A),
   (0x2028, 0x2029), (0x202F, 0x202F), (0x205F, 0x205F), (0x3000, 0x3000)]

/-- White space of any script. -/
def isBlank (c : Char) : Bool :=
  blankRuns.any fun (first, last) => first ≤ c.toNat && c.toNat ≤ last

/-- The text without the white space at its end. -/
def trimEnd (text : List Char) : List Char :=
  (text.reverse.dropWhile isBlank).reverse

end BoxScript.Text
