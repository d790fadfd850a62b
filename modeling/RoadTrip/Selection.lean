import RoadTrip.Choice
import RoadTrip.Error
import RoadTrip.Population

/-!
# Selection

How two parents are chosen from a population, by their positions in it. A tournament draws a
sample and takes its two best members. A wheel draws each parent with a probability that grows
with how much cheaper it is than the most expensive member.
-/

namespace RoadTrip

variable {α : Type} [Cost α]

/-- Two positions in a population. -/
abbrev Pair (p : Population α) : Type := Fin p.length × Fin p.length

/-! ## Tournaments -/

/-- Some positions from best to worst, equally good ones in the given order. Each position is
looked up once, before they are compared. -/
def Population.rankPositions (p : Population α) (sample : List (Fin p.length)) :
    List (Fin p.length) :=
  let slots := sample.map fun i => (i, (p.get i).fitness)
  (slots.mergeSort fun a b => a.2.le b.2).map (·.1)

/-- The two best of `size` positions that are drawn with replacement. -/
def tournamentPair (p : Population α) (size : Nat) : Draw (Pair p) :=
  if size < 2 then .fail .loneTournament
  else do
    Draw.reserve stopWords size
    let sample ← Draw.times size (Draw.index .full p.length)
    match p.rankPositions sample with
    | first :: second :: _ => pure (first, second)
    | _ => .fail .loneTournament

/-! ## Wheels -/

/-- A wheel with one sector for each of some weights, laid out along a line from zero. -/
structure Wheel (α : Type) where
  /-- Where one sector ends and the next one starts. -/
  bounds : List α
  /-- Where the last sector ends. -/
  total : α

namespace Wheel

/-- The ends of the sectors of some weights, from `reached` on, and the end of the last one. -/
def layOut (reached : α) : List α → List α × α
  | [] => ([], reached)
  | weight :: rest =>
    let (bounds, total) := layOut (Cost.add reached weight) rest
    (reached :: bounds, total)

/-- The wheel of some weights. There have to be some, none of them negative and not all zero. -/
def ofWeights? : List α → Option (Wheel α)
  | [] => none
  | weight :: rest =>
    if (weight :: rest).any fun w => Cost.lt w Cost.zero then none
    else
      let (bounds, total) := layOut weight rest
      if Cost.same total Cost.zero then none else some ⟨bounds, total⟩

/-- The sector in which a point lies: the number of sectors that end at or before it. -/
def sector (w : Wheel α) (point : α) : Nat := w.bounds.countP (Cost.le · point)

/-- Draw a sector, one out of `n`. Its width is its chance. -/
def spin (w : Wheel α) (n : Nat) : Draw (Fin n) :=
  if Cost.isFinite w.total && Cost.lt Cost.zero w.total then
    .fraction fun x =>
      if h : w.sector (Cost.point w.total x) < n then .pure ⟨_, h⟩ else .fail .unusableWheel
  else
    .fail .unusableWheel

end Wheel

/-- The weights of the members: how much cheaper each is than the most expensive one, and an equal
share of the spread, which leaves a chance to the worst. -/
def weights (p : Population α) (least greatest : α) : List α :=
  let share := Cost.share (Cost.sub greatest least) p.length
  p.map fun i => Cost.add (Cost.sub greatest i.fitness.cost) share

/-- Two positions drawn with replacement, in proportion to the weights or, if all members cost the
same, with equal chances. There is no such draw if the costs do not give finite weights. -/
def proportionalPair? (p : Population α) : Option (Draw (Pair p)) :=
  match Population.extremes? (p.map (·.fitness.cost)) with
  | none => none
  | some (least, greatest) =>
    let spread := Cost.sub greatest least
    if !Cost.isFinite greatest || !Cost.isFinite spread then none
    else if Cost.same spread Cost.zero then
      some do
        let first ← Draw.position p.length
        let second ← Draw.position p.length
        pure (first, second)
    else
      let weights := weights p least greatest
      if !Cost.isFinite (Cost.sum weights) then none
      else
        (Wheel.ofWeights? weights).map fun wheel => do
          let first ← wheel.spin p.length
          let second ← wheel.spin p.length
          pure (first, second)

/-! ## Strategies -/

inductive Strategy where
  | tournament
  | proportional
  deriving DecidableEq, Repr

def Strategy.ofName : String → Except UnknownChoice Strategy :=
  choose "selection" ("tournament", .tournament) ("proportional", .proportional)

/-- A strategy, and the size of its tournaments. Proportional selection holds tournaments where
there are no finite weights. -/
structure Selection where
  strategy : Strategy
  tournamentSize : Nat
  two_le : 2 ≤ tournamentSize

namespace Selection

/-- The selection of a strategy. A tournament needs two slots. -/
def ofStrategy (strategy : Strategy) (tournamentSize : Nat) : Except ConfigError Selection :=
  if h : 2 ≤ tournamentSize then .ok ⟨strategy, tournamentSize, h⟩
  else .error (.tournamentTooSmall tournamentSize)

/-- Proportional selection, with tournaments of ten. -/
def default : Selection := ⟨.proportional, 10, by decide⟩

/-- Select two parents, which may be the same, from a population with somebody in it. -/
def selectPair (s : Selection) (p : Population α) : Draw (Pair p) :=
  if p.isEmpty then .fail .emptyPopulation
  else
    match s.strategy with
    | .tournament => tournamentPair p s.tournamentSize
    | .proportional => (proportionalPair? p).getD (tournamentPair p s.tournamentSize)

end Selection

end RoadTrip
