import RoadTrip.Decimal.Magnitude

/-!
# A fixed number of places

A number rounded to tenths: the exact value goes to the nearest tenth, a tie to the even one.
-/

namespace RoadTrip.Decimal

/-- A quotient rounded to the nearest whole number, a tie to the even one. -/
def roundDiv (num den : Nat) : Nat :=
  let below := num / den
  let rest := num % den
  if 2 * rest < den then below
  else if den < 2 * rest then below + 1
  else below + below % 2

def tenths (x : Magnitude) : Nat :=
  let (num, den) := Magnitude.twoPower x.exponent
  roundDiv (10 * x.mantissa * num) den

def renderTenths (n : Nat) : String :=
  String.ofList (Nat.toDigits 10 (n / 10) ++ '.' :: Nat.toDigits 10 (n % 10))

example : renderTenths (tenths (.ofBits 0x3fd0000000000000)) = "0.2" := by decide +kernel
example : renderTenths (tenths (.ofBits 0x3fe8000000000000)) = "0.8" := by decide +kernel

end RoadTrip.Decimal
