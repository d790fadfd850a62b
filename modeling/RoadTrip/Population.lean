import RoadTrip.Mutation
import RoadTrip.Trip
import Std.Data.HashSet.Basic

/-!
# Populations

A population is a list of individuals: how one is made at random, ranked and summed up.
-/

namespace RoadTrip

/-- The individuals that compete with one another. -/
abbrev Population (α : Type) [Cost α] : Type := List (Individual α)

namespace Population

variable {α : Type} [Cost α]

/-- Random routes as members of generation 0. Equal ones may be among them. -/
def random (trip : Trip α) (size : Nat) : Draw (Population α) := do
  Draw.reserve individualWords size
  Draw.times size do
    let route ← Route.random trip.matrix.size
    .ofExcept (trip.individual 0 route)

/-- The population from best to worst. Equally good members keep their order. -/
def rank (p : Population α) : Population α :=
  p.mergeSort fun a b => a.fitness.le b.fitness

/-- The least of some costs, the first one of equals, and the greatest, the last one of equals. -/
def extremes? : List α → Option (α × α)
  | [] => none
  | c :: rest => some (rest.foldl Cost.least c, rest.foldl Cost.greatest c)

structure Summary (α : Type) where
  best : α
  worst : α
  average : α
  unique : Nat
  deriving DecidableEq, Repr

/-- Sum up a population, unless nobody is in it. -/
def summarize? (p : Population α) : Option (Summary α) :=
  let costs := p.map (·.fitness.cost)
  (extremes? costs).map fun (best, worst) =>
    { best, worst
      average := Cost.share (Cost.sum costs) p.length
      unique := (Std.HashSet.ofList (p.map (·.route.stops))).size }

end Population

end RoadTrip
