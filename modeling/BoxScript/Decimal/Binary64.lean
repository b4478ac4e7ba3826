/-!
# Doubles as exact numbers

A finite double is a sign and a magnitude `significand · 2 ^ exponent`. This module takes a double
apart into that form and puts it together again, and computes the remainder of a division exactly
on it: the quotient is cut toward zero, so the remainder has the sign of the dividend and a
magnitude below that of the divisor, and it always has a double of its own.
-/

set_option autoImplicit false

namespace BoxScript.Decimal

/-- The magnitude `significand · 2 ^ exponent` of a finite double. -/
structure Magnitude where
  significand : Nat
  exponent : Int
  deriving Repr, DecidableEq

/-- Whether the sign bit is set. -/
def isNegative (x : Float) : Bool :=
  x.toBits >>> 63 == 1

namespace Magnitude

/-- The leading bit of a normal double, which is not stored. -/
def leadingBit : Nat := 1 <<< 52

/-- The magnitude of a finite double. NaN and the infinities have none: test for them first. -/
def ofFloat (x : Float) : Magnitude :=
  let field := ((x.toBits >>> 52) &&& 0x7FF).toNat
  let fraction := (x.toBits &&& 0xFFFFFFFFFFFFF).toNat
  if field = 0 then ⟨fraction, -1074⟩ else ⟨leadingBit + fraction, field - 1075⟩

/-- The double of a magnitude that has one: the significand is shifted up until it fills its 53
bits or the exponent is the least. -/
def toFloat (x : Magnitude) : Float :=
  if x.significand = 0 then 0.0
  else
    let room := 52 - (x.significand.log2 : Int)
    let shift := (min room (x.exponent + 1074)).toNat
    let significand := x.significand <<< shift
    let exponent := x.exponent - shift
    if significand < leadingBit then Float.ofBits significand.toUInt64
    else
      Float.ofBits
        (((exponent + 1075).toNat.toUInt64 <<< 52) ||| (significand - leadingBit).toUInt64)

/-- The remainder of the division of two magnitudes, taken on their common exponent. -/
def remainder (x y : Magnitude) : Magnitude :=
  let exponent := min x.exponent y.exponent
  let dividend := x.significand <<< (x.exponent - exponent).toNat
  let divisor := y.significand <<< (y.exponent - exponent).toNat
  ⟨dividend % divisor, exponent⟩

end Magnitude

/-- The remainder of a division of doubles. It is no number if the dividend is infinite or the
divisor zero, and the dividend itself if the divisor is infinite. -/
def remainder (x y : Float) : Float :=
  if x.isNaN || y.isNaN || x.isInf || y == 0.0 then 0.0 / 0.0
  else if y.isInf then x
  else
    let magnitude := ((Magnitude.ofFloat x).remainder (.ofFloat y)).toFloat
    if isNegative x then -magnitude else magnitude

end BoxScript.Decimal
