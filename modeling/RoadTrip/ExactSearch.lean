import RoadTrip.Trip

/-!
# Exact search

The cheapest route by branch and bound: routes are extended one waypoint at a time, in the order
of the waypoints, and a partial route is given up once its cost and a bound on the cost still to
come are no less than the cost of the best complete route so far. The bound charges each waypoint
still to be reached its cheapest leg. All rotations of a round trip cost the same, so round trips
are only tried from the first waypoint.
-/

namespace RoadTrip.ExactSearch

variable {α : Type} [Cost α]

/-- The largest number of waypoints that the search accepts. -/
def limit : Nat := 12

/-- The best complete route so far, with the cost that it was found at. -/
structure Incumbent (α : Type) (n : Nat) where
  stops : List (Fin n)
  cost : α

/-- The cheapest leg at a waypoint. -/
def cheapestLeg (m : CostMatrix α) (a : Fin m.size) : α :=
  match ((List.finRange m.size).filter (· ≠ a)).map (m.cost a) with
  | [] => Cost.zero
  | c :: rest => rest.foldl Cost.least c

def cheapestLegs (m : CostMatrix α) : Vector α m.size := .ofFn (cheapestLeg m)

section

variable (trip : Trip α) (cheapest : Vector α trip.matrix.size) (start : Fin trip.matrix.size)

/-- The least that can still be to come when some waypoints remain to be reached. A round trip has
to reach its start again. -/
@[specialize] def bound (remaining : List (Fin trip.matrix.size)) : α :=
  let ahead := Cost.sum (remaining.map fun a => cheapest.get a)
  match trip.tour with
  | .roundTrip => Cost.add ahead (cheapest.get start)
  | .oneWay => ahead

/-- The cost of a complete route from that of its legs up to the last stop. -/
@[specialize] def totalCost (last : Fin trip.matrix.size) (cost : α) : α :=
  match trip.tour with
  | .roundTrip => Cost.add cost (trip.matrix.cost last start)
  | .oneWay => cost

/-- Let a complete route take the place of the incumbent, if it is cheaper or the first. -/
@[specialize] def improve {n : Nat} (best : Option (Incumbent α n)) (stops : List (Fin n))
    (cost : α) : Option (Incumbent α n) :=
  match best with
  | some b => if Cost.lt cost b.cost then some ⟨stops, cost⟩ else some b
  | none => some ⟨stops, cost⟩

/-- Whether no completion of a partial route can be cheaper than the incumbent. -/
@[specialize] def hopeless (best : Option (Incumbent α trip.matrix.size))
    (remaining : List (Fin trip.matrix.size)) (cost : α) : Bool :=
  match best with
  | some b => Cost.le b.cost (Cost.add cost (bound trip cheapest start remaining))
  | none => false

/-- Try the completions of a partial route by the remaining waypoints, of which there are `depth`.
The path holds the stops so far, the last one first; `cost` is the cost of its legs. -/
@[specialize] def extend : (depth : Nat) → (remaining path : List (Fin trip.matrix.size)) →
    (last : Fin trip.matrix.size) → (cost : α) → Option (Incumbent α trip.matrix.size) →
    Option (Incumbent α trip.matrix.size)
  | 0, _, path, last, cost, best => improve best path.reverse (totalCost trip start last cost)
  | depth + 1, remaining, path, last, cost, best =>
    if hopeless trip cheapest start best remaining cost then best
    else
      remaining.foldl (fun best next =>
        extend depth (remaining.erase next) (next :: path) next
          (Cost.add cost (trip.matrix.cost last next)) best) best

end

/-- The waypoints from which routes are tried. -/
def starts (trip : Trip α) : List (Fin trip.matrix.size) :=
  match trip.tour with
  | .roundTrip => (List.finRange trip.matrix.size).take 1
  | .oneWay => List.finRange trip.matrix.size

@[specialize] def search (trip : Trip α) : Option (Incumbent α trip.matrix.size) :=
  let cheapest := cheapestLegs trip.matrix
  let all := List.finRange trip.matrix.size
  (starts trip).foldl (fun best start =>
    let others := all.erase start
    extend trip cheapest start (trip.matrix.size - 1) others [start] start Cost.zero best) none

/-- The cheapest route of a trip with not too many waypoints, as an individual. -/
@[specialize] def solve (trip : Trip α) : Except (Failure α) (Individual α) :=
  if limit < trip.matrix.size then
    .error (.error (.config (.tooManyForExact trip.matrix.size limit)))
  else
    let stops := match search trip with
      | some best => best.stops.map Fin.val
      | none => []
    (trip.individual 0 ⟨stops⟩).mapError .fault

end RoadTrip.ExactSearch
