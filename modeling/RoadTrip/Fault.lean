/-!
# Faults

The promises that the operations ask of their callers, one constructor for each way to break one.
A fault is no answer to bad input, which is an `Error`: it ends the operation, and its message is
for the one who wrote the caller.
-/

namespace RoadTrip

/-- A broken promise. -/
inductive Fault where
  /-- A cost that does not compare with itself was used as a fitness. -/
  | incomparableFitness
  /-- A route of another length than the matrix was evaluated. -/
  | partialRoute
  | unknownStop
  | emptyPopulation
  /-- A tournament was to be held with fewer than two slots. -/
  | loneTournament
  /-- The weights of a wheel do not add up to a positive finite number. -/
  | unusableWheel
  | unequalParents
  /-- The parents of a crossover do not visit the same waypoints, each once. -/
  | unrelatedParents
  /-- The cut points of a crossover are not in order or lie outside the parents. -/
  | misplacedCuts
  /-- A donor lacks waypoints outside the kept segment. -/
  | missingDonors
  /-- An operator returned a route that does not visit every waypoint once. -/
  | invalidOffspring
  | emptyGeneration
  | emptyRange
  /-- A count grew out of its range. -/
  | overflow
  /-- More things were asked for than there can be room for. -/
  | noRoom
  /-- The source of random words has run dry. -/
  | exhausted
  deriving DecidableEq, Repr

/-- The message of a fault, for those that have one. -/
def Fault.message? : Fault → Option String
  | .incomparableFitness => some "fitness must not be Nan"
  | .partialRoute => some "route must visit every waypoint of the cost matrix"
  | .emptyPopulation => some "cannot select from an empty population"
  | .loneTournament => some "a tournament needs at least two slots"
  | .unequalParents => some "parents must have the same length"
  | .unrelatedParents => some "parents must be permutations of the same waypoints"
  | .misplacedCuts => some "cut points out of range"
  | .missingDonors => some "donor covers every waypoint outside the kept segment"
  | .invalidOffspring => some "operator produced an invalid route"
  | .emptyGeneration => some "population is at least 1"
  | .exhausted => some "rng exhausted"
  | .unknownStop | .unusableWheel | .emptyRange | .overflow | .noRoom => none

end RoadTrip
