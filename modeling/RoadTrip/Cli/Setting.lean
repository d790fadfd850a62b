/-!
# Options of the command line

The options that are known, their names, and whether they take a value and may be repeated.
-/

namespace RoadTrip.Cli

inductive Setting where
  | input | output | metric | waypoint | population | generations | target | timeLimit | selection
  | tournamentSize | crossover | mutation | maxSwaps | maxSegment | seed
  deriving DecidableEq, Repr

inductive Switch where
  | list | exact | oneWay | quiet | verbose | help | version
  deriving DecidableEq, Repr

namespace Setting

/-- All settings, in the order in which they are checked. -/
def all : List Setting :=
  [.input, .output, .metric, .waypoint, .population, .generations, .target, .timeLimit, .selection,
    .tournamentSize, .crossover, .mutation, .maxSwaps, .maxSegment, .seed]

def name : Setting → String
  | .input => "input"
  | .output => "output"
  | .metric => "metric"
  | .waypoint => "waypoint"
  | .population => "population"
  | .generations => "generations"
  | .target => "target"
  | .timeLimit => "time-limit"
  | .selection => "selection"
  | .tournamentSize => "tournament-size"
  | .crossover => "crossover"
  | .mutation => "mutation"
  | .maxSwaps => "max-swaps"
  | .maxSegment => "max-segment"
  | .seed => "seed"

def letter? : Setting → Option Char
  | .input => some 'i'
  | .output => some 'o'
  | .metric => some 'm'
  | .waypoint => some 'w'
  | .population => some 'n'
  | .generations => some 'g'
  | .target => some 't'
  | _ => none

/-- What messages call the value. -/
def valueName : Setting → String
  | .population => "population-size"
  | .waypoint => "waypoints"
  | s => s.name

def mayRepeat (s : Setting) : Bool := s == .waypoint

/-- Whether the setting has a value from the start, which it keeps if it is named without one. -/
def hasDefault : Setting → Bool
  | .metric | .population | .generations | .selection | .tournamentSize | .crossover | .mutation
  | .maxSwaps | .maxSegment => true
  | .input | .output | .waypoint | .target | .timeLimit | .seed => false

end Setting

namespace Switch

/-- All switches, in the order in which they are checked. -/
def all : List Switch := [.list, .exact, .oneWay, .quiet, .verbose, .help, .version]

def name : Switch → String
  | .list => "list"
  | .exact => "exact"
  | .oneWay => "open"
  | .quiet => "quiet"
  | .verbose => "verbose"
  | .help => "help"
  | .version => "version"

def letter? : Switch → Option Char
  | .quiet => some 'q'
  | .verbose => some 'v'
  | .help => some 'h'
  | .version => some 'V'
  | _ => none

def mayRepeat (s : Switch) : Bool := s == .verbose

end Switch

/-- What a name or a letter stands for. -/
inductive Flag where
  | setting (s : Setting)
  | switch (s : Switch)
  deriving DecidableEq, Repr

namespace Flag

def all : List Flag := Setting.all.map .setting ++ Switch.all.map .switch

def name : Flag → String
  | .setting s => s.name
  | .switch s => s.name

def letter? : Flag → Option Char
  | .setting s => s.letter?
  | .switch s => s.letter?

def ofName? (name : String) : Option Flag := all.find? fun f => f.name == name

def ofLetter? (c : Char) : Option Flag := all.find? fun f => f.letter? == some c

end Flag

end RoadTrip.Cli
