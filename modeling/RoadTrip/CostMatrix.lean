import RoadTrip.Cost
import RoadTrip.Error

/-!
# Cost matrices

The costs between all pairs of some waypoints. A matrix is built from a list of entries, which has
to name a cost for every pair and may name it more than once; `CostMatrix.ofEntries` says what is
wrong with a list that does not make one.
-/

namespace RoadTrip

variable {α : Type}

/-- The cost of travelling between two named waypoints, in either direction. -/
structure CostEntry (α : Type) where
  origin : String
  destination : String
  cost : α
  deriving DecidableEq, Repr

/-- The names of at least two waypoints and the costs between them. -/
structure CostMatrix (α : Type) where
  size : Nat
  names : Vector String size
  costs : Vector (Vector α size) size
  two_le_size : 2 ≤ size

namespace CostMatrix

@[inline] def cost (m : CostMatrix α) (origin destination : Fin m.size) : α :=
  m.costs[origin][destination]

/-- The cost of a leg between two stops, if both are waypoints of the matrix. -/
@[inline] def cost? (m : CostMatrix α) (origin destination : Nat) : Option α :=
  if h : origin < m.size ∧ destination < m.size then
    some (m.cost ⟨origin, h.1⟩ ⟨destination, h.2⟩)
  else
    none

def name? (m : CostMatrix α) (stop : Nat) : Option String := m.names[stop]?

/-! ## Legs known so far -/

/-- The costs of the pairs that some entries have covered. -/
abbrev Known (α : Type) (n : Nat) : Type := Vector (Vector (Option α) n) n

namespace Known

variable {n : Nat}

def none (α : Type) (n : Nat) : Known α n := .replicate n (.replicate n Option.none)

def get (k : Known α n) (a b : Fin n) : Option α := k[a][b]

def put (k : Known α n) (a b : Fin n) (cost : α) : Known α n := k.set a (k[a].set b (some cost))

def join (k : Known α n) (a b : Fin n) (cost : α) : Known α n := (k.put a b cost).put b a cost

/-- The pairs of different waypoints, the lower one first, in lexicographic order. -/
def pairs (n : Nat) : List (Fin n × Fin n) :=
  (List.finRange n).flatMap fun a => ((List.finRange n).filter (a < ·)).map fun b => (a, b)

/-- The first pair without a cost. -/
def firstGap? (k : Known α n) : Option (Fin n × Fin n) :=
  (pairs n).find? fun (a, b) => (k.get a b).isNone

end Known

/-! ## Building a matrix -/

/-- The first name that occurs earlier in the list, too. -/
def firstRepeat? (earlier : List String) : List String → Option String
  | [] => none
  | name :: rest =>
    if earlier.contains name then some name else firstRepeat? (name :: earlier) rest

variable [Cost α]

/-- Learn the cost that an entry names. Entries with an endpoint outside the list say nothing.
Of several things wrong with an entry the first one decides: the loop, the cost itself, the
disagreement with what is known. -/
def learn {n : Nat} (names : Vector String n) (k : Known α n) (e : CostEntry α) :
    Except (MatrixError α) (Known α n) :=
  match names.finIdxOf? e.origin, names.finIdxOf? e.destination with
  | some a, some b =>
    if a = b then .error (.selfLoop e.origin)
    else if !Cost.isFinite e.cost || Cost.lt e.cost Cost.zero then
      .error (.invalidCost e.origin e.destination e.cost)
    else if (k.get a b).any (fun known => !Cost.same known e.cost) then
      .error (.conflictingCost e.origin e.destination)
    else
      .ok (k.join a b e.cost)
  | _, _ => .ok k

/-- The known costs as a full table. Going nowhere costs nothing. -/
def Known.fill {n : Nat} (k : Known α n) : Vector (Vector α n) n :=
  .ofFn fun a => .ofFn fun b => (k.get a b).getD Cost.zero

/-- The matrix of the given waypoints, if they are at least two, have different names, and the
entries name one finite cost that is not negative for every pair of them. -/
def ofEntries (names : List String) (entries : List (CostEntry α)) :
    Except (MatrixError α) (CostMatrix α) :=
  if h : names.length < 2 then .error (.tooFewWaypoints names.length)
  else
    match firstRepeat? [] names with
    | some name => .error (.duplicateWaypoint name)
    | none =>
      let listed : Vector String names.length := ⟨names.toArray, by simp⟩
      match entries.foldlM (learn listed) (Known.none α names.length) with
      | .error error => .error error
      | .ok known =>
        match known.firstGap? with
        | some (a, b) => .error (.missingCost listed[a] listed[b])
        | none => .ok ⟨names.length, listed, known.fill, by omega⟩

end CostMatrix

end RoadTrip
