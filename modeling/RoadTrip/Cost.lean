/-!
# Travel costs

The arithmetic that planning needs of its costs, as a class: the searches are written once and
run on binary64 numbers as well as on exact ones. A value that does not compare with itself (a
NaN) is a value like any other here; the searches never meet one, because a `Fitness` excludes it.
-/

namespace RoadTrip

/-- One of `2 ^ 52` equal parts of the unit interval, by its number. -/
abbrev Fraction : Type := Fin 4503599627370496

/-- The arithmetic of travel costs. Nothing is assumed of it: rounding, overflow and values that
compare with nothing are allowed. -/
class Cost (α : Type) where
  zero : α
  /-- The value that a sum starts from. It equals `zero`, but may differ from it in sign. -/
  emptySum : α
  add : α → α → α
  sub : α → α → α
  /-- An equal share of a cost among so many. -/
  share : α → Nat → α
  /-- Whether the cost is a number and not infinite. -/
  isFinite : α → Bool
  le : α → α → Bool
  /-- The point of `[0, total)` that stands at a fraction of the total. -/
  point : α → Fraction → α

namespace Cost

variable {α : Type} [Cost α]

@[inline] def lt (a b : α) : Bool := le a b && !le b a

/-- Numerically equal; zeros of either sign are. -/
@[inline] def same (a b : α) : Bool := le a b && le b a

/-- Whether the cost compares with itself, which all but NaN do. -/
@[inline] def isComparable (a : α) : Bool := le a a

/-- The cheaper of two costs, the first one of equals. -/
@[inline] def least (a b : α) : α := if lt b a then b else a

/-- The dearer of two costs, the second one of equals. -/
@[inline] def greatest (a b : α) : α := if le a b then b else a

@[specialize] def sum (costs : List α) : α := costs.foldl add emptySum

end Cost

/-! ## Binary64 costs -/

/-- The largest scale at which every fraction stays below `total`: the number below
`total` where rounding would otherwise carry the last fraction up to it. -/
def wheelScale (total : Float) : Float :=
  if total * (1.0 - 1.0 / 4503599627370496.0) + 0.0 ≥ total then
    Float.ofBits (total.toBits - 1)
  else
    total

instance : Cost Float where
  zero := 0.0
  emptySum := -0.0
  add := Float.add
  sub := Float.sub
  share total count := total / Float.ofNat count
  isFinite := Float.isFinite
  le a b := decide (a ≤ b)
  point total fraction :=
    fraction.val.toUInt64.toFloat / 4503599627370496.0 * wheelScale total + 0.0

end RoadTrip
