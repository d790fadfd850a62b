import RoadTrip.CostMatrix
import RoadTrip.Fitness
import RoadTrip.Route

/-!
# Trips

What is being planned: a trip through all waypoints of a matrix, which ends at its last stop or
leads back to its first. A trip gives every route its legs and its cost.
-/

namespace RoadTrip

variable {α : Type}

inductive Tour where
  /-- The trip leads back to its first stop. -/
  | roundTrip
  /-- The trip ends at its last stop. -/
  | oneWay
  deriving DecidableEq, Repr

/-- The waypoints to visit and the shape of the tour through them. -/
structure Trip (α : Type) where
  matrix : CostMatrix α
  tour : Tour

/-- One member of a population: a route, its fitness, and the generation that produced it. -/
structure Individual (α : Type) [Cost α] where
  route : Route
  fitness : Fitness α
  generation : Nat

namespace Trip

/-- The legs of a route in travel order, with the way back on a round trip. -/
def legs (t : Trip α) (r : Route) : List (Nat × Nat) :=
  match t.tour with
  | .oneWay => Route.consecutive r.stops
  | .roundTrip => Route.consecutive r.stops ++ r.closing?.toList

/-- The cost of one leg. Its ends have to be waypoints of the matrix. -/
@[inline] def legCost (t : Trip α) (leg : Nat × Nat) : Except Fault α :=
  match t.matrix.cost? leg.1 leg.2 with
  | some cost => .ok cost
  | none => .error .unknownStop

variable [Cost α]

/-- The total cost of a route, whose length has to be that of the matrix. The costs of the legs
are added from left to right. -/
@[specialize] def evaluate (t : Trip α) (r : Route) : Except Fault (Fitness α) :=
  if r.length = t.matrix.size then
    match (t.legs r).mapM t.legCost with
    | .ok costs => Fitness.ofCost (Cost.sum costs)
    | .error fault => .error fault
  else
    .error .partialRoute

@[specialize] def individual (t : Trip α) (generation : Nat) (r : Route) :
    Except Fault (Individual α) :=
  (t.evaluate r).map fun fitness => ⟨r, fitness, generation⟩

end Trip

end RoadTrip
