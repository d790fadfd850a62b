import RoadTrip.Choice
import RoadTrip.CostMatrix
import RoadTrip.Tsv.Rows

/-!
# Cost tables

A file of costs has a header and one row for each pair of waypoints: their two names, the distance
between them in meters and the driving time in seconds. One of the two measures is taken for the
cost.
-/

namespace RoadTrip

/-- Which measure is the cost of a leg. -/
inductive Metric where
  /-- The driving distance in meters. -/
  | distance
  /-- The driving time in seconds. -/
  | duration
  deriving DecidableEq, Repr

def Metric.ofName : String → Except UnknownChoice Metric :=
  choose "metric" ("distance", .distance) ("duration", .duration)

/-- The costs read from a file, one entry for each of its rows. -/
structure CostTable (α : Type) where
  entries : List (CostEntry α)

namespace CostTable

variable {α : Type}

/-- The names in a table, in the order in which they first appear. -/
def waypoints (t : CostTable α) : List String :=
  (t.entries.flatMap fun e => [e.origin, e.destination]).eraseDups

variable [CostText α]

def readCost (file : String) (line : Nat) (cell : String) : Except (Error α) α :=
  match CostText.read? cell with
  | some cost => .ok cost
  | none => .error (.costTable file line (.invalidNumber cell))

/-- What a row says. It has at least four cells; further ones say nothing. -/
def entry (metric : Metric) (file : String) (row : Tsv.Row) : Except (Error α) (CostEntry α) :=
  match row.cells with
  | origin :: destination :: distance :: duration :: _ =>
    let cell := match metric with
      | .distance => distance
      | .duration => duration
    (readCost file row.position.line cell).map fun cost => ⟨origin, destination, cost⟩
  | _ => .error (.costTable file row.position.line .missingColumn)

/-- Read a row that may be damaged. -/
def entryOf (metric : Metric) (file : String) :
    Except RecordError Tsv.Row → Except (Error α) (CostEntry α)
  | .ok row => entry metric file row
  | .error error => .error (.record error)

/-- Read a table. The first row that says nothing decides the error; `file` is the name by which
messages call the table. -/
def load (metric : Metric) (file : String) (bytes : List UInt8) : Except (Error α) (CostTable α) :=
  ((Tsv.rows bytes).mapM (entryOf metric file)).map fun entries => ⟨entries⟩

omit [CostText α]

/-- The requested waypoints, all of which have to appear in the table. Requesting nothing selects
everything. -/
def select (t : CostTable α) (requested : List String) : Except (Error α) (List String) :=
  if requested.isEmpty then .ok t.waypoints
  else
    let known := t.waypoints
    requested.mapM fun name =>
      if known.contains name then .ok name else .error (.unknownWaypoint name)

def matrix [Cost α] (t : CostTable α) (requested : List String) : Except (Error α) (CostMatrix α) :=
  match t.select requested with
  | .error error => .error error
  | .ok names => (CostMatrix.ofEntries names t.entries).mapError .matrix

/-- The waypoints with their numbers, a line for each. -/
def listing (t : CostTable α) : String :=
  String.join (t.waypoints.zipIdx.map fun (name, index) => s!"{index}: " ++ name ++ "\n")

end CostTable

end RoadTrip
