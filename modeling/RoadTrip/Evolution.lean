import RoadTrip.Config
import RoadTrip.Generation
import RoadTrip.Random.Source

/-!
# Evolution

The search for a cheap route by generations: the two best routes of a generation are kept, and the
other places are filled with mutated children of selected parents. If a single place is left for
the last pair of children, the second one is dropped before it is mutated.
-/

namespace RoadTrip

variable {α : Type} [Cost α]

/-- Why a run stopped. -/
inductive Termination where
  | fitnessReached
  | generationLimit
  | timeLimit
  deriving DecidableEq, Repr

def Termination.label : Termination → String
  | .fitnessReached => "FitnessReached"
  | .generationLimit => "GenerationLimit"
  | .timeLimit => "TimeLimit"

structure Outcome (α : Type) [Cost α] where
  last : Generation α
  termination : Termination

/-- The best route of a run is that of its last generation. -/
def Outcome.best (o : Outcome α) : Individual α := o.last.best

/-- A trip to be planned by evolution. -/
structure Evolution (α : Type) where
  config : Config α
  trip : Trip α

namespace Evolution

/-- The number of best routes that stay in the next generation. -/
def elites : Nat := 2

variable (e : Evolution α)

/-! ## Breeding -/

/-- Two children of two members of a population. -/
def children (p : Population α) : Draw (Route × Route) := do
  let (i, j) ← e.config.selection.selectPair p
  e.config.crossover.apply (p.get i).route (p.get j).route

/-- A child as a member of a generation. Mutation has to leave it a route through all waypoints. -/
def grow (number : Nat) (child : Route) : Draw (Individual α) := do
  let route ← e.config.mutation.apply child
  if route.isPermutation e.trip.matrix.size then .ofExcept (e.trip.individual number route)
  else .fail .invalidOffspring

/-- Fill the free places of a new generation with pairs of children, which `couple` draws. -/
def fill (couple : Draw (Route × Route)) (number : Nat) : (free : Nat) → Population α →
    Draw (Population α)
  | 0, next => .pure next
  | 1, next => do
    let (child, _) ← couple
    let member ← e.grow number child
    pure (next ++ [member])
  | free + 2, next => do
    let (first, second) ← couple
    let member ← e.grow number first
    let sibling ← e.grow number second
    fill couple number free (next ++ [member, sibling])

/-- The members of the next generation, in the order in which they join it. -/
def offspring (g : Generation α) : Draw (Population α) :=
  let kept := g.members.take elites
  e.fill (e.children g.members) (g.number + 1) (e.config.populationSize - kept.length) kept

/-- The next generation. Its number is a count, too. -/
def breed (g : Generation α) : Draw (Generation α) :=
  if g.number + 1 < Text.countBound then do
    let members ← e.offspring g
    .ofExcept (Generation.ofMembers (g.number + 1) members)
  else
    .fail .overflow

def start : Draw (Generation α) := do
  let members ← Population.random e.trip e.config.populationSize
  .ofExcept (Generation.ofMembers 0 members)

theorem breed_number {σ : Type} [Source σ] {g next : Generation α} {s t : σ}
    (h : (e.breed g).run s = (.ok next, t)) : next.number = g.number + 1 := by
  unfold breed at h
  split at h
  · rw [show ∀ f, (e.offspring g >>= f) = (e.offspring g).bind f from fun _ => rfl,
      Draw.run_bind] at h
    split at h
    · rename_i members _ _
      cases hm : Generation.ofMembers (g.number + 1) members with
      | ok made =>
        rw [hm] at h
        cases h
        exact Generation.ofMembers_number hm
      | error fault =>
        rw [hm] at h
        cases h
    · cases h
  · cases h

/-! ## Running -/

/-- The reason to stop at a generation, if there is any: a limit on the cost comes before one on
the generations, and that before one on the time. Time is given in nanoseconds. -/
def termination? (g : Generation α) (elapsed : Nat) : Option Termination :=
  if e.config.fitnessLimit.any (Cost.le g.best.fitness.cost ·) then some .fitnessReached
  else if e.config.generationLimit ≤ g.number then some .generationLimit
  else if e.config.timeLimit.any (· * 1000000000 ≤ elapsed) then some .timeLimit
  else none

theorem number_lt_of_termination?_eq_none {g : Generation α} {elapsed : Nat}
    (h : e.termination? g elapsed = none) : g.number < e.config.generationLimit := by
  unfold termination? at h
  split at h
  · cases h
  · split at h
    · cases h
    · omega

/-- Breed generations until there is a reason to stop. `observe` sees each of them, the given and
the last one among them, and `elapsed` tells the time since the start. -/
def run {m : Type → Type} [Monad m] {σ : Type} [Source σ] (observe : Generation α → m Unit)
    (elapsed : m Nat) (g : Generation α) (s : σ) : m (Except Fault (Outcome α) × σ) := do
  observe g
  let time ← elapsed
  match _going : e.termination? g time with
  | some termination => pure (.ok ⟨g, termination⟩, s)
  | none =>
    match _bred : (e.breed g).run s with
    | (.ok next, t) => run observe elapsed next t
    | (.error fault, t) => pure (.error fault, t)
termination_by e.config.generationLimit - g.number
decreasing_by
  have := e.number_lt_of_termination?_eq_none _going
  have := e.breed_number _bred
  omega

end Evolution

end RoadTrip
