import RoadTrip.Choice
import RoadTrip.Draw
import RoadTrip.Error
import RoadTrip.Route
import RoadTrip.Text.Count

/-!
# Mutation

How a single route is changed at random: some of its stops are exchanged in pairs, or a run of
them is cut out and put back elsewhere.
-/

namespace RoadTrip

/-- A kind of mutation, without its limit. -/
inductive MutationKind where
  | swap
  | shuffle
  deriving DecidableEq, Repr

def MutationKind.ofName : String → Except UnknownChoice MutationKind :=
  choose "mutation" ("swap", .swap) ("shuffle", .shuffle)

inductive Mutation where
  /-- Exchange two stops, between one and `maxSwaps` times. -/
  | swap (maxSwaps : Nat) (one_le : 1 ≤ maxSwaps)
  /-- Cut out a run of between two and `maxSegment` stops and put it back elsewhere. -/
  | shuffle (maxSegment : Nat) (two_le : 2 ≤ maxSegment)
  deriving DecidableEq, Repr

/-- Exchange the elements at two positions of a list. -/
def exchange {β : Type} (l : List β) (i j : Nat) : List β :=
  match l[i]?, l[j]? with
  | some a, some b => (l.set i b).set j a
  | _, _ => l

/-- A list in random order: each position from the last to the second is exchanged with one that
does not come after it. -/
def shuffled {β : Type} (l : List β) : Draw (List β) := go l.length l
where
  /-- The elements from position `n` on are in place. -/
  go : Nat → List β → Draw (List β)
    | n + 2, l => do
      let j ← Draw.position (n + 2)
      go (n + 1) (exchange l (n + 1) j)
    | _, l => .pure l

/-- A random route through the waypoints `0, …, count - 1`. -/
def Route.random (count : Nat) : Draw Route := do
  Draw.reserve stopWords count
  let stops ← shuffled (List.range count)
  pure ⟨stops⟩

namespace Mutation

/-- The mutation that swaps stops, at least once. -/
def ofSwaps (maxSwaps : Nat) : Except ConfigError Mutation :=
  if h : 1 ≤ maxSwaps then .ok (.swap maxSwaps h) else .error .noSwaps

/-- The mutation that moves a run of stops, which can be two stops long or longer. -/
def ofSegment (maxSegment : Nat) : Except ConfigError Mutation :=
  if h : 2 ≤ maxSegment then .ok (.shuffle maxSegment h) else .error (.segmentTooShort maxSegment)

def ofKind : MutationKind → Nat → Except ConfigError Mutation
  | .swap, limit => ofSwaps limit
  | .shuffle, limit => ofSegment limit

/-- Skip position `i`: the positions below `n - 1` become those below `n` other than `i`. -/
def skip (i j : Nat) : Nat := if i ≤ j then j + 1 else j

/-- Exchange two stops at different random positions, `count` times. -/
def swaps : Nat → List Nat → Draw (List Nat)
  | 0, stops => .pure stops
  | count + 1, stops => do
    let i ← Draw.index .full stops.length
    let j ← Draw.index .full (stops.length - 1)
    swaps count (exchange stops i (skip i j))

/-- Exchange stops a random number of times. The number of choices is a count, too. -/
def swapStops (maxSwaps : Nat) (stops : List Nat) : Draw (List Nat) :=
  if maxSwaps + 1 < Text.countBound then do
    let more ← Draw.index .full maxSwaps
    swaps (more.val + 1) stops
  else
    .fail .overflow

/-- Move the stops `start, …, stop - 1` to before position `target` of the others. -/
def moveRun (stops : List Nat) (start stop target : Nat) : List Nat :=
  let others := stops.take start ++ stops.drop stop
  others.take target ++ (stops.take stop).drop start ++ others.drop target

/-- Move a random run of stops. A run that would reach beyond the end is cut short there. -/
def moveStops (maxSegment : Nat) (stops : List Nat) : Draw (List Nat) := do
  let more ← Draw.index .full (min maxSegment stops.length - 1)
  let start ← Draw.index .full stops.length
  let stop := min (start.val + (more.val + 2)) stops.length
  let target ← Draw.index .full (stops.length - (stop - start) + 1)
  pure (moveRun stops start stop target)

/-- A mutated route. Routes with fewer than two stops are returned as they are. -/
def apply (m : Mutation) (r : Route) : Draw Route :=
  if r.length < 2 then .pure r
  else
    match m with
    | .swap maxSwaps _ => do
      let stops ← swapStops maxSwaps r.stops
      pure ⟨stops⟩
    | .shuffle maxSegment _ => do
      let stops ← moveStops maxSegment r.stops
      pure ⟨stops⟩

end Mutation

end RoadTrip
