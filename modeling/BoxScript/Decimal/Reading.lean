import BoxScript.Decimal.Integer

/-!
# Reading doubles

Which texts are read as a double, and as which. After an optional sign stands one of the words for
infinity and for NaN, in any case, or a number: digits with at most one point among, before or
after them, and an optional exponent. The value is the double nearest to the number written.
-/

set_option autoImplicit false

namespace BoxScript.Decimal

/-- A run of digits at the start of a text, and what follows it. -/
def splitDigits (text : List Char) : List Char × List Char :=
  (text.takeWhile Char.isDigit, text.dropWhile Char.isDigit)

/-- The exponent at the end of a number; there may be none. -/
def exponent? : List Char → Option Int
  | [] => some 0
  | mark :: rest =>
    if mark = 'e' ∨ mark = 'E' then
      let (negative, digits) := splitSign rest
      (digits? digits).map fun n => if negative then -(n : Int) else n
    else none

/-- The double nearest to `digits · 10 ^ exponent`. An exponent that no digits can bring back into
the range of a double is decided without computing the power. -/
def nearestFloat (digits : Nat) (exponent : Int) : Float :=
  let leading := exponent + (Nat.toDigits 10 digits).length
  if digits = 0 ∨ leading < -400 then 0.0
  else if leading > 400 then 1.0 / 0.0
  else Float.ofScientific digits (exponent < 0) exponent.natAbs

/-- The double that an unsigned number denotes. -/
def unsigned? (text : List Char) : Option Float :=
  let (whole, rest) := splitDigits text
  let (fraction, rest) := match rest with
    | '.' :: rest => splitDigits rest
    | rest => ([], rest)
  match digits? (whole ++ fraction), exponent? rest with
  | some n, some e => some (nearestFloat n (e - fraction.length))
  | _, _ => none

/-- The double that a text denotes. -/
def readFloat? (text : List Char) : Option Float :=
  let (negative, rest) := splitSign text
  let size := match String.ofList (rest.map Char.toLower) with
    | "inf" | "infinity" => some (1.0 / 0.0)
    | "nan" => some (0.0 / 0.0)
    | _ => unsigned? rest
  size.map fun x => if negative then -x else x

end BoxScript.Decimal
