import RoadTrip.CostText
import RoadTrip.Fault
import RoadTrip.Text.Quoted

/-!
# Errors

Everything that a planner can find wrong with its input before it starts to search, as causes; the
wording stands in one place, `Error.message`.
-/

namespace RoadTrip

/-- Where a record starts: the records, lines and bytes before it. Lines count from 1. -/
structure Position where
  record : Nat
  line : Nat
  byte : Nat
  deriving DecidableEq, Repr

/-- Why a record of a tab separated file cannot be read. -/
inductive RecordError where
  /-- The record has another number of fields than the header. -/
  | unequalLengths (position : Position) (found expected : Nat)
  /-- A field is no UTF-8 from its byte `index` on. -/
  | invalidText (position : Position) (field index : Nat)
  deriving DecidableEq, Repr

/-- Why a record of a cost table says nothing. -/
inductive CostTableError where
  | missingColumn
  | invalidNumber (cell : String)
  deriving DecidableEq, Repr

/-- Why the costs of a table make no matrix. -/
inductive MatrixError (α : Type) where
  | tooFewWaypoints (count : Nat)
  | duplicateWaypoint (name : String)
  /-- A cost is negative, infinite or no number. -/
  | invalidCost (origin destination : String) (cost : α)
  | selfLoop (name : String)
  | conflictingCost (origin destination : String)
  | missingCost (origin destination : String)
  deriving DecidableEq, Repr

/-- Why a search cannot run with its parameters. -/
inductive ConfigError where
  | emptyPopulation
  | tournamentTooSmall (size : Nat)
  | noSwaps
  | segmentTooShort (length : Nat)
  /-- The trip is too long to try every route. -/
  | tooManyForExact (waypoints limit : Nat)
  deriving DecidableEq, Repr

/-- What can be wrong with the input of a planner. -/
inductive Error (α : Type) where
  /-- A file cannot be read or written, for the reason given. -/
  | io (reason : String)
  | record (error : RecordError)
  | costTable (file : String) (line : Nat) (error : CostTableError)
  | unknownWaypoint (name : String)
  | matrix (error : MatrixError α)
  | config (error : ConfigError)
  deriving DecidableEq, Repr

instance {α : Type} : Coe RecordError (Error α) := ⟨.record⟩
instance {α : Type} : Coe (MatrixError α) (Error α) := ⟨.matrix⟩
instance {α : Type} : Coe ConfigError (Error α) := ⟨.config⟩

/-! ## Wording -/

def RecordError.message : RecordError → String
  | .unequalLengths p found expected =>
    s!"CSV error: record {p.record} (line: {p.line}, byte: {p.byte}): " ++
      s!"found record with {found} fields, but the previous record has {expected} fields"
  | .invalidText p field index =>
    s!"CSV parse error: record {p.record} (line {p.line}, field: {field}, byte: {p.byte}): " ++
      s!"invalid utf-8: invalid UTF-8 in field {field} near byte index {index}"

def CostTableError.message : CostTableError → String
  | .missingColumn => "Expected four columns: waypoint1, waypoint2, distance_m, duration_s"
  | .invalidNumber cell => "Not a number: " ++ Text.quoted cell

def MatrixError.message {α : Type} [CostText α] : MatrixError α → String
  | .tooFewWaypoints count => s!"A route needs at least two waypoints, got {count}"
  | .duplicateWaypoint name => "Waypoint listed twice: " ++ name
  | .invalidCost origin destination cost =>
    "Invalid cost " ++ CostText.exact cost ++ " between " ++ origin ++ " and " ++ destination
  | .selfLoop name => "Cost entry from " ++ name ++ " to itself"
  | .conflictingCost origin destination =>
    "Conflicting costs between " ++ origin ++ " and " ++ destination
  | .missingCost origin destination => "No cost known between " ++ origin ++ " and " ++ destination

def ConfigError.message : ConfigError → String
  | .emptyPopulation => "Population size must be at least 1"
  | .tournamentTooSmall size => s!"Tournament size must be at least 2, got {size}"
  | .noSwaps => "Swap mutation needs at least one swap"
  | .segmentTooShort length => s!"Shuffle segments must be at least 2 long, got {length}"
  | .tooManyForExact waypoints limit =>
    s!"Exact search supports at most {limit} waypoints, got {waypoints}"

/-- The full message of an error, with the place where it was found. -/
def Error.message {α : Type} [CostText α] : Error α → String
  | .io reason => reason
  | .record error => error.message
  | .costTable file line error => file ++ s!":{line}: " ++ error.message
  | .unknownWaypoint name => "Unknown waypoint: " ++ name
  | .matrix error => error.message
  | .config error => error.message

/-- The message of what lies behind an error, where there is anything behind it. -/
def Error.source? {α : Type} [CostText α] : Error α → Option String
  | .io reason => some reason
  | .record error => some error.message
  | .costTable _ _ error => some error.message
  | .unknownWaypoint _ => none
  | .matrix error => some error.message
  | .config error => some error.message

/-! ## Ways to fail -/

/-- Why an operation gives no answer: its input is wrong or its caller is. -/
inductive Failure (α : Type) where
  | error (error : Error α)
  | fault (fault : Fault)
  deriving DecidableEq, Repr

end RoadTrip
