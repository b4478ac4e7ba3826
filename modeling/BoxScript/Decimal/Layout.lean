import BoxScript.Decimal.Integer
import BoxScript.Decimal.Shortest

/-!
# Doubles in decimal

The text of a double: a sign, then the fewest digits that read back, written with a point at its
place or, for very large and very small numbers, with an exponent. A `Layout` holds the decisions
that the digits leave open.
-/

set_option autoImplicit false

namespace BoxScript.Decimal

/-- How the text of a double is laid out. Exponents of the leading digit from `plainFrom` up to but
not including `plainBelow` are written with a point at its place, the others with an exponent. -/
structure Layout where
  plainFrom : Int
  plainBelow : Int
  exponentMark : Char
  notANumber : List Char
  infinity : List Char

namespace Layout

/-- Digits with a point after the first `count`, at least one digit on either side of it. -/
def placePoint (digits : List Char) (count : Int) : List Char :=
  if count ≤ 0 then ['0', '.'] ++ List.replicate count.natAbs '0' ++ digits
  else
    let whole := digits.take count.toNat
    let padding := List.replicate (count.toNat - whole.length) '0'
    let fraction := digits.drop count.toNat
    whole ++ padding ++ '.' :: (if fraction = [] then ['0'] else fraction)

/-- The first digit, the others after a point if there are any, and the exponent. -/
def placeExponent (layout : Layout) (digits : List Char) (exponent : Int) : List Char :=
  let mantissa := match digits with
    | first :: second :: rest => first :: '.' :: second :: rest
    | _ => digits
  mantissa ++ layout.exponentMark :: ofInt exponent

/-- The text of a positive finite double. -/
def magnitude (layout : Layout) (x : Magnitude) : List Char :=
  let decimal := x.shortest
  let digits := Nat.toDigits 10 decimal.digits
  let leading := decimal.exponent + digits.length - 1
  if layout.plainFrom ≤ leading ∧ leading < layout.plainBelow then
    placePoint digits (leading + 1)
  else layout.placeExponent digits leading

/-- The text of a double. Zero keeps its sign, and NaN has none. -/
def text (layout : Layout) (x : Float) : List Char :=
  if x.isNaN then layout.notANumber
  else
    let sign := if isNegative x then ['-'] else []
    let size := if x.isInf then layout.infinity
      else if x == 0.0 then ['0', '.', '0']
      else layout.magnitude (.ofFloat x)
    sign ++ size

end Layout

end BoxScript.Decimal
