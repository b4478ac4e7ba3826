import BoxScript.Decimal.Binary64

/-!
# The fewest digits that read back

A positive finite double stands for all the reals that round to it: those up to half a gap away,
the two ends included when the significand is even. Its text has the fewest digits with which a
decimal lies among them. The search goes through the grids of one digit, two digits and so on, and
looks at the two neighbours of the exact value on each: the first grid with a neighbour inside
wins, of two the nearer one, and of two equally near the larger one.
-/

set_option autoImplicit false

namespace BoxScript.Decimal

/-- The decimal number `digits · 10 ^ exponent`. -/
structure Scaled where
  digits : Nat
  exponent : Int
  deriving Repr, DecidableEq

namespace Scaled

/-- The number that a scaled decimal denotes. -/
def value (d : Scaled) : Rat :=
  d.digits * (10 : Rat) ^ d.exponent

/-- Moves the zeros at the end of the digits into the exponent, at most `fuel` of them. -/
def stripZeros : Nat → Scaled → Scaled
  | 0, d => d
  | fuel + 1, d =>
    if d.digits ≠ 0 ∧ d.digits % 10 = 0 then stripZeros fuel ⟨d.digits / 10, d.exponent + 1⟩ else d

end Scaled

namespace Magnitude

/-- The number that a magnitude denotes. -/
def value (x : Magnitude) : Rat :=
  x.significand * (2 : Rat) ^ x.exponent

/-- A power of two is nearer to its lower neighbour than to the upper one, unless it is the least
normal double. -/
def isNarrowBelow (x : Magnitude) : Bool :=
  x.significand == leadingBit && x.exponent != -1074

/-- Whether a real rounds to the double. -/
def covers (x : Magnitude) (r : Rat) : Bool :=
  let below : Rat := if x.isNarrowBelow then 1 / 4 else 1 / 2
  let lower := (x.significand - below) * (2 : Rat) ^ x.exponent
  let upper := (x.significand + 1 / 2) * (2 : Rat) ^ x.exponent
  if x.significand % 2 = 0 then lower ≤ r && r ≤ upper else lower < r && r < upper

/-- Raises an exponent while the power of ten above it is at most `r`, at most `fuel` times. -/
def raiseExponent (r : Rat) : Nat → Int → Int
  | 0, e => e
  | fuel + 1, e => if (10 : Rat) ^ (e + 1) ≤ r then raiseExponent r fuel (e + 1) else e

/-- The exponent of the leading decimal digit of a positive number. Its binary logarithm gives an
estimate that is too small by at most three. -/
def leadingExponent (r : Rat) : Int :=
  let bits : Int := (r.num.natAbs.log2 : Int) - r.den.log2 - 1
  raiseExponent r 4 ((bits * 30103).fdiv 100000 - 1)

/-- The neighbour of the exact value on the grid `10 ^ exponent` that reads back, if one does. -/
def nearestOn? (x : Magnitude) (exponent : Int) : Option Scaled :=
  let below : Scaled := ⟨(x.value / (10 : Rat) ^ exponent).floor.toNat, exponent⟩
  let above : Scaled := ⟨below.digits + 1, exponent⟩
  match below.digits ≠ 0 && x.covers below.value, x.covers above.value with
  | false, false => none
  | true, false => some below
  | false, true => some above
  | true, true => if x.value - below.value < above.value - x.value then some below else some above

/-- The exact value as a decimal. -/
def exactDecimal (x : Magnitude) : Scaled :=
  if 0 ≤ x.exponent then ⟨x.significand <<< x.exponent.toNat, 0⟩
  else ⟨x.significand * Nat.pow 5 x.exponent.natAbs, x.exponent⟩

/-- The decimal with the fewest digits that reads back as a positive double. Seventeen digits are
enough for every double; the exact value stands in after them. -/
def shortest (x : Magnitude) : Scaled :=
  let leading := leadingExponent x.value
  let found := (List.range 17).findSome? fun (n : Nat) => x.nearestOn? (leading - n)
  (found.getD x.exactDecimal).stripZeros 800

end Magnitude

end BoxScript.Decimal
