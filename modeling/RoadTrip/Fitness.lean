import RoadTrip.Cost
import RoadTrip.Fault

/-!
# Fitness

The cost of a route as the measure by which routes compete. Lower is better, and any two can be
compared with one another.
-/

namespace RoadTrip

variable {α : Type} [Cost α]

/-- A cost that compares with itself. -/
structure Fitness (α : Type) [Cost α] where
  cost : α
  comparable : Cost.isComparable cost = true

namespace Fitness

/-- The fitness of a cost. Only a cost that compares with itself is one. -/
@[inline] def ofCost (cost : α) : Except Fault (Fitness α) :=
  if h : Cost.isComparable cost = true then .ok ⟨cost, h⟩ else .error .incomparableFitness

@[inline] def le (a b : Fitness α) : Bool := Cost.le a.cost b.cost

@[inline] def lt (a b : Fitness α) : Bool := Cost.lt a.cost b.cost

/-- Which of two is better; numerically equal costs are equally good. -/
def compare (a b : Fitness α) : Ordering :=
  if a.lt b then .lt else if b.lt a then .gt else .eq

end Fitness

end RoadTrip
