import RoadTrip.CostText
import RoadTrip.Trip
import RoadTrip.Tsv.Write

/-!
# Reports

A planned route as a table: a row for each stop with the cost of the leg that leads to it and the
cost of the trip so far. A round trip ends with the return to the start.
-/

namespace RoadTrip

variable {α : Type} [Cost α]

structure ReportRow (α : Type) where
  stop : Nat
  name : String
  /-- The cost of the leg that leads here, zero at the start. -/
  leg : α
  total : α
  deriving DecidableEq, Repr

def ReportRow.cells [CostText α] (r : ReportRow α) : List String :=
  [toString r.stop, r.name, CostText.exact r.leg, CostText.exact r.total]

def reportHeader : List String := ["stop", "waypoint", "leg_cost", "total_cost"]

namespace Trip

/-- The name of a stop, which has to be a waypoint of the matrix. -/
def stopName (t : Trip α) (stop : Nat) : Except Fault String :=
  match t.matrix.name? stop with
  | some name => .ok name
  | none => .error .unknownStop

/-- The rows for some legs, after a row with the given number and total. -/
def legRows (t : Trip α) : (stop : Nat) → (total : α) → List (Nat × Nat) →
    Except Fault (List (ReportRow α))
  | _, _, [] => .ok []
  | stop, total, leg :: rest => do
    let cost ← t.legCost leg
    let name ← t.stopName leg.2
    let total := Cost.add total cost
    let rows ← legRows t (stop + 1) total rest
    pure (⟨stop + 1, name, cost, total⟩ :: rows)

/-- The rows of a report. A route without stops has none. -/
def reportRows (t : Trip α) (r : Route) : Except Fault (List (ReportRow α)) :=
  match r.stops.head? with
  | none => .ok []
  | some start => do
    let name ← t.stopName start
    let rows ← t.legRows 1 Cost.zero (t.legs r)
    pure (⟨1, name, Cost.zero, Cost.zero⟩ :: rows)

def report [CostText α] (t : Trip α) (r : Route) : Except Fault String :=
  (t.reportRows r).map fun rows => Tsv.encode (reportHeader :: rows.map (·.cells))

end Trip

end RoadTrip
