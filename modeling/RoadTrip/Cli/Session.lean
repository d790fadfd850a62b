import RoadTrip.Cli.Options
import RoadTrip.ExactSearch
import RoadTrip.Progress
import RoadTrip.Random.ChaCha
import RoadTrip.Report

/-!
# A run of the program

What the program does with its options, in a host that reads and writes files for it, tells the
time, and gives it a key for random numbers.
-/

namespace RoadTrip.Cli

/-- What a run needs from outside. Reading and writing fail with a reason. -/
structure Host (m : Type → Type) where
  /-- Read a file, or the standard input. -/
  read : Option String → m (Except String (List UInt8))
  /-- Write a file, or to the standard output. -/
  write : Option String → String → m (Except String Unit)
  /-- Write to the log. -/
  log : String → m Unit
  /-- The time in nanoseconds since some moment in the past. -/
  now : m Nat
  /-- A key that nobody knows. -/
  entropy : m (Vector UInt32 8)

/-- The steps of a run, which end with the first failure. -/
abbrev Run (α : Type) (m : Type → Type) : Type → Type := ExceptT (Failure α) m

namespace Run

variable {α : Type} {m : Type → Type} [Monad m] {β : Type}

def ofError (r : Except (Error α) β) : Run α m β := ExceptT.mk (pure (r.mapError .error))

def ofConfig (r : Except ConfigError β) : Run α m β := ofError (r.mapError .config)

def ofFault (r : Except Fault β) : Run α m β := ExceptT.mk (pure (r.mapError .fault))

/-- Go on unless a file could not be read or written. -/
def ofHost (r : m (Except String β)) : Run α m β :=
  ExceptT.mk do return (← r).mapError fun reason => .error (.io reason)

end Run

section

variable {α : Type} [Cost α] [CostText α] {m : Type → Type} [Monad m] (host : Host m)
  (o : Options α)

def logLine (text : String) : m Unit := if o.quiet then pure () else host.log text

def say (text : String) : Run α m Unit := ExceptT.lift (logLine host o text)

def writeReport (trip : Trip α) (r : Route) : Run α m Unit := do
  let text ← Run.ofFault (trip.report r)
  Run.ofHost (host.write o.output? text)

/-- Plan a trip by trying every route. -/
def planExactly (trip : Trip α) : Run α m Unit := do
  say host o s!"Number of waypoints: {trip.matrix.size}\n"
  say host o "Searching all routes\n"
  let best ← ExceptT.mk (pure (ExactSearch.solve trip))
  say host o ("Best cost " ++ CostText.tenths best.fitness.cost ++ "\n")
  writeReport host o trip best.route

/-- The parameters of an evolution. The limit of the mutation is checked first, then the size of
the tournaments, then the size of the population. -/
def config : Except ConfigError (Config α) := do
  let limit := match o.mutation with
    | .swap => o.maxSwaps
    | .shuffle => o.maxSegment
  let mutation ← Mutation.ofKind o.mutation limit
  let selection ← Selection.ofStrategy o.strategy o.tournamentSize
  let config : Config α :=
    { populationSize := o.population
      generationLimit := o.generations
      fitnessLimit := o.target
      timeLimit := o.timeLimit
      selection
      crossover := o.crossover
      mutation }
  config.validate
  pure config

/-- The random numbers of a run: those of its seed or, if it has none, of a key of the host. -/
def randomSource : m ChaCha :=
  match o.seed? with
  | some seed => pure (.ofSeed (UInt64.ofNat seed))
  | none => do return .ofKey (← host.entropy)

def planByEvolution (trip : Trip α) : Run α m Unit := do
  let config ← Run.ofConfig (config o)
  let source ← ExceptT.lift (randomSource host o)
  let evolution : Evolution α := ⟨config, trip⟩
  let (start, source) := evolution.start.run source
  let start ← Run.ofFault start
  say host o s!"Number of waypoints: {trip.matrix.size}\n"
  say host o s!"Population size: {o.population}\n\n"
  say host o "Beginning evolutionary optimization\n"
  say host o Progress.header
  let started ← host.now
  let elapsed : StateT (Option α) m Nat := do return (← host.now) - started
  let observe := Progress.observe fun row => logLine host o (Progress.line row)
  let ((outcome, _), _) ← (evolution.run observe elapsed start source).run none
  let outcome ← Run.ofFault outcome
  say host o (Progress.lastLine outcome)
  writeReport host o trip outcome.best.route

/-- Plan the trip, or list the waypoints, that the options ask for. -/
def plan : Run α m Unit := do
  let bytes ← Run.ofHost (host.read o.input?)
  let table : CostTable α ← Run.ofError (CostTable.load o.metric (o.input?.getD "<stdin>") bytes)
  if o.list then
    Run.ofHost (host.write none table.listing)
  else
    let matrix ← Run.ofError (table.matrix o.waypoints)
    let trip : Trip α := ⟨matrix, if o.oneWay then .oneWay else .roundTrip⟩
    if o.exact then planExactly host o trip else planByEvolution host o trip

end

end RoadTrip.Cli
