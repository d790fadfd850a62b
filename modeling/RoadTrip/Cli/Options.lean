import RoadTrip.Cli.Words
import RoadTrip.CostTable
import RoadTrip.Mutation
import RoadTrip.Selection
import RoadTrip.Crossover
import RoadTrip.Text.Count

/-!
# The options of a run

What a command line asks for, and which command lines are not accepted.
-/

namespace RoadTrip.Cli

/-- What a command line asks for. -/
structure Options (α : Type) where
  /-- The file with the costs, the standard input if there is none. -/
  input? : Option String := none
  output? : Option String := none
  metric : Metric := .distance
  /-- The waypoints to visit, all if there are none. -/
  waypoints : List String := []
  list : Bool := false
  population : Nat := 100
  generations : Nat := 1000
  target : Option α := none
  timeLimit : Option Nat := none
  strategy : Strategy := .proportional
  tournamentSize : Nat := 10
  crossover : Crossover := .order
  mutation : MutationKind := .shuffle
  maxSwaps : Nat := 3
  maxSegment : Nat := 20
  exact : Bool := false
  oneWay : Bool := false
  seed? : Option Nat := none
  quiet : Bool := false
  verbosity : Nat := 0

namespace Options

variable {α : Type}

def count (text : String) : Except String Nat := (Text.readCount text).mapError (·.message)

def cost [CostText α] (text : String) : Except String α :=
  match CostText.read? text with
  | some cost => .ok cost
  | none =>
    if text.isEmpty then .error "cannot parse float from empty string"
    else .error "invalid float literal"

/-- A choice in an option. -/
def choice {β : Type} (read : String → Except UnknownChoice β) (text : String) : Except String β :=
  (read text).mapError (·.message)

/-- The value of a setting, as the change that it makes to the options. -/
def set [CostText α] (o : Options α) (s : Setting) (text : String) :
    Except String (Options α) :=
  match s with
  | .input => .ok { o with input? := some text }
  | .output => .ok { o with output? := some text }
  | .metric => (choice Metric.ofName text).map fun v => { o with metric := v }
  | .waypoint => .ok { o with waypoints := o.waypoints ++ [text] }
  | .population => (count text).map fun v => { o with population := v }
  | .generations => (count text).map fun v => { o with generations := v }
  | .target => (cost text).map fun v => { o with target := some v }
  | .timeLimit => (count text).map fun v => { o with timeLimit := some v }
  | .selection => (choice Strategy.ofName text).map fun v => { o with strategy := v }
  | .tournamentSize => (count text).map fun v => { o with tournamentSize := v }
  | .crossover => (choice Crossover.ofName text).map fun v => { o with crossover := v }
  | .mutation => (choice MutationKind.ofName text).map fun v => { o with mutation := v }
  | .maxSwaps => (count text).map fun v => { o with maxSwaps := v }
  | .maxSegment => (count text).map fun v => { o with maxSegment := v }
  | .seed => (count text).map fun v => { o with seed? := some v }

/-- The change that a switch makes, given how often it is named. -/
def turnOn (o : Options α) (s : Switch) (times : Nat) : Options α :=
  match s with
  | .list => { o with list := 0 < times }
  | .exact => { o with exact := 0 < times }
  | .oneWay => { o with oneWay := 0 < times }
  | .quiet => { o with quiet := 0 < times }
  | .verbose => { o with verbosity := times }
  | .help | .version => o

def values (items : List Item) (s : Setting) : List String :=
  items.filterMap fun
    | .value t text => if t = s then some text else none
    | _ => none

/-- Whether a setting has nothing to take: it is given no value and has none from the start. -/
def lacksValue (items : List Item) (s : Setting) : Bool :=
  (values items s).isEmpty && !s.hasDefault

/-- Check one setting: if it is named it has a value, all its values are valid, and it is named
once unless it may be repeated. -/
def checkSetting [CostText α] (items : List Item) (o : Options α) (s : Setting) :
    Except UsageError (Options α) := do
  let named := items.count (.named s)
  if 0 < named && lacksValue items s then throw (.emptyValue s)
  let change (o : Options α) (text : String) := o.set s text
  let o ← ((values items s).foldlM change o).mapError (.invalidValue s)
  if 1 < named && !s.mayRepeat then throw (.repeated (.setting s))
  pure o

/-- Check one switch: it is named once unless it may be repeated. -/
def checkSwitch (items : List Item) (o : Options α) (s : Switch) : Except UsageError (Options α) :=
  let named := items.count (.switch s)
  if 1 < named && !s.mayRepeat then .error (.repeated (.switch s)) else .ok (o.turnOn s named)

/-- The options of a command line. All its words are read before any value is checked, and a
setting that is left waiting at the end and lacks a value comes before the others. -/
def parse [CostText α] (words : List String) : Except UsageError (Options α) := do
  let reading ← readWords none words
  if let some s := reading.pending then
    if lacksValue reading.items s then throw (.emptyValue s)
  let o ← Setting.all.foldlM (checkSetting reading.items) {}
  Switch.all.foldlM (checkSwitch reading.items) o

end Options

def versionText : String := "road-trip-planner 0.1.0"

def invalidValueMessage (s : Setting) (reason : String) : String :=
  "error: Invalid value for '--" ++ s.name ++ " <" ++ s.valueName ++ ">': " ++ reason

end RoadTrip.Cli
