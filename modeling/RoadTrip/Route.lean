/-!
# Routes

A route is an order in which to visit the waypoints, which are known by their positions in a cost
matrix.
-/

namespace RoadTrip

/-- The stops of a trip in travel order. -/
structure Route where
  stops : List Nat
  deriving DecidableEq, Repr, Inhabited

namespace Route

def length (r : Route) : Nat := r.stops.length

/-- Walk along the stops and mark each one. The walk fails at a stop that has no mark or has been
visited before. -/
def visitsOnce (seen : Array Bool) : List Nat → Bool
  | [] => true
  | stop :: rest =>
    if h : stop < seen.size then
      if seen[stop] then false else visitsOnce (seen.set stop true) rest
    else
      false

/-- Whether the route visits each of the waypoints `0, …, count - 1` exactly once. -/
def isPermutation (r : Route) (count : Nat) : Bool :=
  r.length == count && visitsOnce (Array.replicate count false) r.stops

example : (Route.mk [2, 0, 1]).isPermutation 3 = true := by decide
example : (Route.mk [2, 0, 0]).isPermutation 3 = false := by decide

def consecutive : List Nat → List (Nat × Nat)
  | a :: b :: rest => (a, b) :: consecutive (b :: rest)
  | _ => []

/-- The way from the last stop back to the first, on a route with at least two stops. -/
def closing? (r : Route) : Option (Nat × Nat) :=
  match r.stops with
  | first :: next :: rest => some ((next :: rest).getLast (by simp), first)
  | _ => none

end Route

end RoadTrip
