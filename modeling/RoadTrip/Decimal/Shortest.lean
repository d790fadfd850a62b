import RoadTrip.Decimal.Magnitude

/-!
# The fewest digits that read back

The decimal number with the fewest digits among those that read back as a given binary64 number:
of the grids `10 ^ k`, coarsest first, the first one with a point in the interval of the reals
that round to the number. Only the two neighbours of the number on a grid have to be tried. The
nearer of two points wins, and of two equally near ones the larger.
-/

namespace RoadTrip.Decimal

/-- The decimal number `digits * 10 ^ scale`. -/
structure Scaled where
  digits : Nat
  scale : Int
  deriving DecidableEq, Repr

/-- A number and the interval of the reals that round to it, over one denominator. -/
structure Interval where
  low : Nat
  value : Nat
  high : Nat
  denominator : Nat
  /-- Whether the ends of the interval round to the number, too. -/
  closed : Bool

namespace Interval

/-- The interval of a magnitude: halfway to its neighbours. A tie rounds to the even mantissa. -/
def ofMagnitude (x : Magnitude) : Interval :=
  let (num, den) := Magnitude.twoPower (x.exponent - 2)
  { low := (4 * x.mantissa - if x.closerBelow then 1 else 2) * num
    value := 4 * x.mantissa * num
    high := (4 * x.mantissa + 2) * num
    denominator := den
    closed := x.mantissa % 2 == 0 }

/-- The order in which an end of the interval and a point inside it stand. -/
def ordered (i : Interval) (a b : Nat) : Bool := if i.closed then a ≤ b else a < b

/-- The point of the grid `10 ^ scale` that stands for the number, if one of its two neighbours
there lies in the interval. -/
def onGrid (i : Interval) (scale : Int) : Option Nat :=
  let finer := Nat.pow 10 (-scale).toNat
  let step := i.denominator * Nat.pow 10 scale.toNat
  let value := i.value * finer
  let below := value / step
  let downFits := i.ordered (i.low * finer) (below * step)
  let upFits := i.ordered ((below + 1) * step) (i.high * finer)
  if downFits && upFits then
    some (if value - below * step < (below + 1) * step - value then below else below + 1)
  else if downFits then
    some below
  else if upFits then
    some (below + 1)
  else
    none

/-- The first hit on the grids from `10 ^ scale` downwards. -/
def search (i : Interval) (scale : Int) : Nat → Option Scaled
  | 0 => none
  | grids + 1 =>
    match i.onGrid scale with
    | some digits => some ⟨digits, scale⟩
    | none => i.search (scale - 1) grids

end Interval

/-- The number of decimal digits of a positive whole number, and 0 for zero. -/
def digitCount (n : Nat) : Nat := if n = 0 then 0 else (Nat.toDigits 10 n).length

/-- An exponent whose power of ten is at least the number: the number of digits of its whole part
or, of a number below one, minus the number of zeros after its point. -/
def topScale (i : Interval) : Int :=
  if i.denominator ≤ i.value then digitCount (i.value / i.denominator)
  else 1 - digitCount (i.denominator / i.value)

/-- The shortest decimal for a positive magnitude. Seventeen digits always tell two binary64
numbers apart, so the search ends after at most nineteen grids. -/
def shortest (x : Magnitude) : Scaled :=
  if x.mantissa = 0 then ⟨0, 0⟩
  else
    let i := Interval.ofMagnitude x
    (i.search (topScale i) 20).getD ⟨0, 0⟩

/-- Positional notation: digits, a point only where a fraction follows, never an exponent. -/
def Scaled.render (d : Scaled) : String :=
  let digits := Nat.toDigits 10 d.digits
  if 0 ≤ d.scale then
    String.ofList (if d.digits = 0 then digits else digits ++ List.replicate d.scale.toNat '0')
  else
    let places := (-d.scale).toNat
    let padded := List.replicate (places + 1 - digits.length) '0' ++ digits
    let point := padded.length - places
    String.ofList (padded.take point ++ '.' :: padded.drop point)

example : (shortest (.ofBits 0x3fb999999999999a)).render = "0.1" := by decide +kernel
example : (shortest (.ofBits 0x44b52d02c7e14af6)).render = "100000000000000000000000" := by
  decide +kernel
example : shortest (.ofBits 1) = ⟨5, -324⟩ := by decide +kernel

end RoadTrip.Decimal
