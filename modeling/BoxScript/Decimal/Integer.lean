/-!
# Integers in decimal

How an integer is written, and which texts are read as a signed integer of 64 bits: an optional
sign, then one or more of the ten ASCII digits, with a value in range.
-/

set_option autoImplicit false

namespace BoxScript.Decimal

/-- The decimal digits of an integer, after a minus sign if it is negative. -/
def ofInt (i : Int) : List Char :=
  if i < 0 then '-' :: Nat.toDigits 10 i.natAbs else Nat.toDigits 10 i.natAbs

/-- The value of a run of one or more digits. -/
def digits? (text : List Char) : Option Nat :=
  if text ≠ [] ∧ text.all Char.isDigit then some (Nat.ofDigitChars 10 text 0) else none

/-- A sign at the start of a text, and what follows it. Without a sign the text is positive. -/
def splitSign : List Char → Bool × List Char
  | '-' :: rest => (true, rest)
  | '+' :: rest => (false, rest)
  | text => (false, text)

/-- The integer of 64 bits that a text denotes. -/
def readInt64? (text : List Char) : Option Int64 :=
  let (negative, digits) := splitSign text
  match digits? digits with
  | none => none
  | some n =>
    if negative then
      if n ≤ 1 <<< 63 then some (Int64.ofInt (-n)) else none
    else if n < 1 <<< 63 then some (Int64.ofNat n) else none

end BoxScript.Decimal
