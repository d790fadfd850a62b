/-!
# Magnitudes

A binary64 number without its sign, taken apart into an exact dyadic number, and the common
denominator on which decimal digits are found by whole-number arithmetic.
-/

namespace RoadTrip.Decimal

/-- The number `mantissa * 2 ^ exponent`. -/
structure Magnitude where
  mantissa : Nat
  exponent : Int
  /-- Whether the next smaller number is only half as far away as the next larger one. -/
  closerBelow : Bool

namespace Magnitude

/-- The magnitude of a finite number from its bits. The sign bit is ignored. -/
def ofBits (bits : UInt64) : Magnitude :=
  let fraction : Nat := bits.toNat % 4503599627370496
  let biased : Nat := bits.toNat / 4503599627370496 % 2048
  if biased = 0 then
    { mantissa := fraction, exponent := -1074, closerBelow := false }
  else
    { mantissa := 4503599627370496 + fraction, exponent := (biased : Int) - 1075,
      closerBelow := fraction == 0 && 1 < biased }

/-- A power of two as a pair of a numerator and a denominator. -/
def twoPower (e : Int) : Nat × Nat := (Nat.pow 2 e.toNat, Nat.pow 2 (-e).toNat)

end Magnitude

end RoadTrip.Decimal
