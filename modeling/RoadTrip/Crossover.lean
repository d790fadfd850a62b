import RoadTrip.Choice
import RoadTrip.Draw
import RoadTrip.Route

/-!
# Crossover

How two parents are combined into two children. In order crossover a child keeps a segment of one
parent in place and takes its other stops, front to back, in the order of the other parent.
-/

namespace RoadTrip

inductive Crossover where
  /-- Keep a segment of one parent and the order of the other. -/
  | order
  /-- The children are copies of their parents. -/
  | clone
  deriving DecidableEq, Repr

namespace Crossover

def ofName : String → Except UnknownChoice Crossover :=
  choose "crossover" ("order", .order) ("clone", .clone)

/-- The child that keeps the stops `start, …, stop - 1` of one parent in place. The donor has to
have enough other stops to fill the places around them. -/
def keepSegment (kept donor : Route) (start stop : Nat) : Except Fault Route :=
  let segment := (kept.stops.take stop).drop start
  let others := donor.stops.filter fun s => !segment.contains s
  if kept.length ≤ others.length + segment.length then
    .ok ⟨others.take start ++ segment ++ (others.drop start).take (kept.length - stop)⟩
  else
    .error .missingDonors

/-- Both children of two parents for the cut points `start` and `stop`. The parents have to visit
the same waypoints and the cut points have to lie in order inside them. -/
def orderAt (first second : Route) (start stop : Nat) : Except Fault (Route × Route) :=
  let count := first.length
  if !(first.isPermutation count && second.isPermutation count) then .error .unrelatedParents
  else if start ≤ stop ∧ stop ≤ count then
    match keepSegment first second start stop, keepSegment second first start stop with
    | .ok a, .ok b => .ok (a, b)
    | .error fault, _ => .error fault
    | _, .error fault => .error fault
  else
    .error .misplacedCuts

/-- Two different numbers below `n + 1`, the smaller one first: a number below `n`, then one below
`n + 1`, for which the last number `n` stands in if it is the first number again. -/
def cuts (n : Nat) : Draw (Nat × Nat) := do
  let a ← Draw.position n
  let b ← Draw.position (n + 1)
  let b := if b.val = a.val then n else b.val
  pure (if a.val ≤ b then (a.val, b) else (b, a.val))

/-- Order crossover at two random cut points. Routes with fewer than two stops are returned as
they are. -/
def randomOrder (first second : Route) : Draw (Route × Route) :=
  if first.length ≠ second.length then .fail .unequalParents
  else if first.length < 2 then .pure (first, second)
  else do
    let (start, stop) ← cuts first.length
    .ofExcept (orderAt first second start stop)

def apply : Crossover → Route → Route → Draw (Route × Route)
  | .order, first, second => randomOrder first second
  | .clone, first, second => .pure (first, second)

end Crossover

end RoadTrip
