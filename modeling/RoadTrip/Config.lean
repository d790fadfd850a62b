import RoadTrip.Crossover
import RoadTrip.Mutation
import RoadTrip.Selection

/-!
# Parameters of an evolution
-/

namespace RoadTrip

/-- How an evolution is run and when it stops. -/
structure Config (α : Type) where
  populationSize : Nat
  /-- Stop once this many generations have been bred. -/
  generationLimit : Nat
  /-- Stop once the best route costs at most this much. -/
  fitnessLimit : Option α
  /-- Stop once this many seconds have passed. -/
  timeLimit : Option Nat
  selection : Selection
  crossover : Crossover
  mutation : Mutation

namespace Config

variable {α : Type}

/-- A hundred routes for a thousand generations, with order crossover and short runs moved. -/
def default : Config α where
  populationSize := 100
  generationLimit := 1000
  fitnessLimit := none
  timeLimit := none
  selection := .default
  crossover := .order
  mutation := .shuffle 20 (by decide)

/-- There has to be somebody in a population. -/
def validate (c : Config α) : Except ConfigError Unit :=
  if c.populationSize = 0 then .error .emptyPopulation else .ok ()

end Config

end RoadTrip
