import RoadTrip.Decimal.Places
import RoadTrip.Decimal.Reading
import RoadTrip.Decimal.Shortest

/-!
# Costs as text

How costs are read from a table and an option, and how they are written in reports: exactly, with
the fewest digits that read back, or to one place.
-/

namespace RoadTrip

/-- Costs that can be read and written. -/
class CostText (α : Type) where
  read? : String → Option α
  /-- All digits that are needed to read the same cost back. -/
  exact : α → String
  /-- One place after the point. -/
  tenths : α → String

/-! ## Binary64 costs -/

namespace CostText

/-- The number nearest to `digits * 10 ^ scale`. Powers that are out of range in either direction
are settled first, so that none of them is ever computed. -/
def nearest (digits : Nat) (scale : Int) : Float :=
  let top := (Decimal.digitCount digits : Int) + scale
  if digits = 0 || top < -330 then 0.0
  else if 310 < top then 1.0 / 0.0
  else Float.ofScientific digits (scale < 0) scale.natAbs

def signed (negative : Bool) (s : String) : String := if negative then "-" ++ s else s

/-- A number in words or, if it is finite, in digits, behind its sign. -/
def render (digits : Decimal.Magnitude → String) (x : Float) : String :=
  let negative : Bool := 9223372036854775808 ≤ x.toBits.toNat
  if x.isNaN then "NaN"
  else if x.isInf then signed negative "inf"
  else signed negative (digits (.ofBits x.toBits))

end CostText

instance : CostText Float where
  read? s := (Decimal.read? s).map fun
    | .infinity negative => if negative then -1.0 / 0.0 else 1.0 / 0.0
    | .notANumber => 0.0 / 0.0
    | .decimal negative digits scale =>
      let x := CostText.nearest digits scale
      if negative then -x else x
  exact := CostText.render fun x => (Decimal.shortest x).render
  tenths := CostText.render fun x => Decimal.renderTenths (Decimal.tenths x)

end RoadTrip
