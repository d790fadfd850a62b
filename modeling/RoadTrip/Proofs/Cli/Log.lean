import RoadTrip.Cli.Session
import RoadTrip.Proofs.Evolution.Faults
import RoadTrip.Proofs.Progress

/-!
# The log of an evolution

What the program writes to its log while it plans a trip by evolution, in surroundings that keep it
(`Surroundings.host`): the lines of the progress table, and a last one with the cost of the best
route and the generation that found it (`story`). Both are those of the same search, and they agree
(`planByEvolution_log`): the last line of the table and the one after it show the same cost and the
same generation (`story_eq_append`).
-/

namespace RoadTrip.Cli

open Evolution (TurnsAs)

/-- What happens around the program: the files that it is given, whether it can write them, the
time at each of its looks at the clock, and a key. -/
structure Surroundings where
  read : Option String → Except String (List UInt8)
  write : Option String → String → Except String Unit
  clock : Nat → Nat
  key : Vector UInt32 8

/-- What is left of a run: the log, and how often it looked at the clock. -/
structure Trace where
  log : List String
  looks : Nat

namespace Trace

def none : Trace := ⟨[], 0⟩

def add (t : Trace) (lines : List String) : Trace := { t with log := t.log ++ lines }

def look (t : Trace) : Trace := { t with looks := t.looks + 1 }

end Trace

namespace Surroundings

variable (w : Surroundings)

def host : Host (StateM Trace) where
  read name := pure (w.read name)
  write name text := pure (w.write name text)
  log line := modify (·.add [line])
  now := modifyGet fun t => (w.clock t.looks, t.look)
  entropy := pure w.key

/-- The time since the first look at the clock, at a later one. -/
def elapsed (n : Nat) : Nat := w.clock (n + 1) - w.clock 0

variable {α : Type}

def source (o : Options α) : ChaCha :=
  match o.seed? with
  | some seed => .ofSeed (UInt64.ofNat seed)
  | .none => .ofKey w.key

end Surroundings

section

variable {α : Type} {w : Surroundings} {o : Options α}

/-- The lines that are logged, unless the program is to be quiet. -/
def heard (o : Options α) (lines : List String) : List String := if o.quiet then [] else lines

theorem heard_nil : heard o [] = [] := ite_self _

theorem heard_append (a b : List String) : heard o (a ++ b) = heard o a ++ heard o b := by
  unfold heard
  split <;> rfl

theorem run_logLine (text : String) (t : Trace) :
    (logLine w.host o text).run t = ((), t.add (heard o [text])) := by
  unfold logLine heard
  split
  · rw [Trace.add, List.append_nil]
    rfl
  · rfl

theorem run_randomSource (t : Trace) : (randomSource w.host o).run t = (w.source o, t) := by
  unfold randomSource Surroundings.source
  cases o.seed? <;> rfl

section

variable {β γ : Type} (f : β → Run α (StateM Trace) γ) (t : Trace)

theorem run_now : w.host.now.run t = (w.clock t.looks, t.look) := rfl

theorem run_ofConfig_bind (b : β) :
    (Run.ofConfig (.ok b) >>= f).run.run t = (f b).run.run t := rfl

theorem run_ofFault_bind (b : β) : (Run.ofFault (.ok b) >>= f).run.run t = (f b).run.run t := rfl

theorem run_lift_bind (x : StateM Trace β) :
    (ExceptT.lift x >>= f).run.run t = (f (x.run t).1).run.run (x.run t).2 := rfl

theorem run_liftM_bind (x : StateM Trace β) :
    (liftM x >>= f).run.run t = (f (x.run t).1).run.run (x.run t).2 := rfl

theorem run_say_bind (text : String) (f : Unit → Run α (StateM Trace) γ) :
    (say w.host o text >>= f).run.run t = (f ()).run.run (t.add (heard o [text])) := by
  rw [say, run_lift_bind, run_logLine]

end

def opening (o : Options α) (trip : Trip α) : List String :=
  [s!"Number of waypoints: {trip.matrix.size}\n", s!"Population size: {o.population}\n\n",
    "Beginning evolutionary optimization\n",
    "Generation | Average cost | Worst cost | Best cost | Unique routes\n"]

theorem add_opening (trip : Trip α) :
    (((Trace.none.add (heard o [s!"Number of waypoints: {trip.matrix.size}\n"])).add
      (heard o [s!"Population size: {o.population}\n\n"])).add
      (heard o ["Beginning evolutionary optimization\n"])).add (heard o [Progress.header]) =
        ⟨heard o (opening o trip), 0⟩ := by
  unfold heard
  split <;> rfl

variable [Cost α] [CostText α]

theorem log_writeReport (trip : Trip α) (r : Route) (t : Trace) :
    ((writeReport w.host o trip r).run.run t).2.log = t.log := by
  unfold writeReport
  cases trip.report r <;> rfl

/-! ## The progress table -/

/-- The best cost so far and the trace after a generation is shown. -/
def shown (o : Options α) (x : Option α × Trace) (g : Generation α) : Option α × Trace :=
  match Progress.row? x.1 g with
  | some row => (some row.summary.best, x.2.add (heard o [Progress.line row]))
  | none => x

theorem looks_shown (x : Option α × Trace) (g : Generation α) :
    (shown o x g).2.looks = x.2.looks := by
  unfold shown
  split <;> rfl

theorem run_observe (x : Option α × Trace) (g : Generation α) :
    (((Progress.observe (fun row => logLine w.host o (Progress.line row)) g).run x.1).run x.2) =
      (((), (shown o x g).1), (shown o x g).2) := by
  unfold Progress.observe shown
  simp only [StateT.run_bind, StateT.run_get, pure_bind]
  cases Progress.row? x.1 g with
  | none => rfl
  | some row =>
    simp only [StateT.run_bind, StateT.run_set, StateT.run_monadLift, StateT.run_pure, pure_bind,
      monadLift_self, run_logLine]
    rfl

/-- After a generation is shown the program looks at the clock. -/
def turn (o : Options α) (x : Option α × Trace) (g : Generation α) : Option α × Trace :=
  ((shown o x g).1, (shown o x g).2.look)

/-- A part of a run that keeps the best cost so far, as a change of that cost and of the trace. -/
def evaluate {β : Type} (p : StateT (Option α) (StateM Trace) β) (x : Option α × Trace) :
    β × Option α × Trace :=
  (fun q => (q.1.1, q.1.2, q.2)) ((p.run x.1).run x.2)

theorem turnsAs_turn :
    TurnsAs (σ := ChaCha) (Progress.observe fun row => logLine w.host o (Progress.line row))
      (do return (← w.host.now) - w.clock 0) w.elapsed evaluate (turn o)
      (fun n x => x.2.looks = n + 1) where
  eval_pure _ _ := rfl
  eval_turn {g x} f hlooks := by
    -- a row is written without a look at the clock
    have htime : w.clock (shown o x g).2.looks - w.clock 0 = w.elapsed g.number := by
      rw [looks_shown, hlooks]
      rfl
    rw [evaluate, StateT.run_bind, StateT.run_bind, run_observe, ← htime]
    rfl
  at_turn {n x} g hlooks := by
    rw [← hlooks, ← looks_shown x g]
    rfl

/-- The lines of the table, one for each row. -/
def table (rows : List (ProgressRow α)) : List String :=
  rows.map fun r => Progress.tableLine r.generation r.summary.average r.summary.worst r.summary.best
    r.summary.unique

theorem log_foldl_turn (l : List (Generation α)) (x : Option α × Trace) :
    (l.foldl (turn o) x).2.log = x.2.log ++ heard o (table (Progress.rows x.1 l)) := by
  induction l generalizing x with
  | nil => rw [Progress.rows, table, List.map_nil, heard_nil, List.append_nil]; rfl
  | cons g l ih =>
    rw [List.foldl_cons, ih, Progress.rows, turn, shown]
    cases Progress.row? x.1 g with
    | none => rfl
    | some row =>
      rw [table, table, List.map_cons, ← Progress.line_eq, ← List.singleton_append, heard_append,
        ← List.append_assoc]
      rfl

/-! ## The whole log -/

def closing : Except Fault (Outcome α) → List String
  | .ok o => [Progress.endLine o.last.number o.termination.label o.best.fitness.cost
      o.best.generation]
  | .error _ => []

/-- What there is to log about a search, unless it fails before its first generation. -/
def story (o : Options α) (trip : Trip α) (h : History α) : List String :=
  if h.generations.isEmpty then []
  else opening o trip ++ table (Progress.rows none h.generations) ++ closing h.result

/-- The story of a search with an outcome ends with the table's line for the generation that found
the best route and with the line about the end. Both show that generation and the cost of that
route. -/
theorem story_eq_append {trip : Trip α} {h : History α} {outcome : Outcome α}
    (htable : Progress.Tabulates (Progress.rows none h.generations) h)
    (hresult : h.result = .ok outcome) : ∃ earlier average worst unique,
      story o trip h = earlier ++
        [Progress.tableLine outcome.best.generation average worst outcome.best.fitness.cost unique,
          Progress.endLine outcome.last.number outcome.termination.label outcome.best.fitness.cost
            outcome.best.generation] := by
  obtain ⟨row, hlast, hbest, hgeneration⟩ := htable.last hresult
  obtain ⟨rows, hrows⟩ := List.getLast?_eq_some_iff.1 hlast
  have hne : h.generations.isEmpty = false := by
    cases hempty : h.generations with
    | nil => rw [hempty] at hlast; cases hlast
    | cons g l => rfl
  refine ⟨opening o trip ++ table rows, row.summary.average, row.summary.worst, row.summary.unique,
    ?_⟩
  rw [story, hne, if_neg Bool.false_ne_true, hresult, hrows]
  simp [table, closing, hbest, hgeneration]

theorem log_run {e : Evolution α} {g : Generation α} {s : ChaCha}
    (hstart : e.start.run (w.source o) = (.ok g, s)) (lines : List String) :
    let h := e.history w.elapsed (w.source o)
    let q := ((e.run (Progress.observe fun row => logLine w.host o (Progress.line row))
      (do return (← w.host.now) - w.clock 0) g s).run none).run (Trace.look ⟨lines, 0⟩)
    q.1.1.1 = h.result ∧
      q.2.log = lines ++ heard o (table (Progress.rows none h.generations)) := by
  have hlooks : (Trace.look ⟨lines, 0⟩).looks = 0 + 1 := rfl
  obtain ⟨u, hrun⟩ := (turnsAs_turn (w := w) (o := o)).run_history hstart
    (x := (none, Trace.look ⟨lines, 0⟩)) hlooks
  exact ⟨congrArg (·.1.1) hrun, (congrArg (·.2.2.log) hrun).trans (log_foldl_turn _ _)⟩

theorem log_closing (trip : Trip α) (r : Except Fault (Outcome α)) (t : Trace) :
    ((do
      let outcome ← Run.ofFault r
      say w.host o (Progress.lastLine outcome)
      writeReport w.host o trip outcome.best.route : Run α (StateM Trace) Unit).run.run t).2.log =
        t.log ++ heard o (closing r) := by
  cases r with
  | error fault => rw [closing, heard_nil, List.append_nil]; rfl
  | ok outcome =>
    rw [run_ofFault_bind, run_say_bind, log_writeReport, Progress.lastLine_eq]
    rfl

/-- The log of a run is the story of its search. -/
theorem log_planByEvolution {config : Config α} (hconfig : Cli.config o = .ok config)
    (trip : Trip α) : ((planByEvolution w.host o trip).run.run .none).2.log =
      heard o (story o trip ((⟨config, trip⟩ : Evolution α).history w.elapsed (w.source o))) := by
  unfold planByEvolution
  rw [hconfig, run_ofConfig_bind, run_lift_bind, run_randomSource]
  dsimp only
  rcases hstart : (⟨config, trip⟩ : Evolution α).start.run (w.source o) with ⟨fault | g, s⟩
  · -- the founders fail before anything is logged
    rw [Evolution.history_of_error w.elapsed hstart]
    exact heard_nil.symm
  · obtain ⟨hresult, hlog⟩ := log_run hstart (heard o (opening o trip))
    dsimp only
    simp only [run_ofFault_bind, run_say_bind, add_opening, run_liftM_bind, run_now, log_closing]
    obtain ⟨rest, hshown⟩ := (Evolution.course_history w.elapsed hstart).exists_cons
    rw [hresult, hlog, story, hshown, List.isEmpty_cons, if_neg Bool.false_ne_true, heard_append,
      heard_append]

/-- **The progress table and the last line agree.** The log of a run holds a line for each row of
its search and then the line about the end. The rows are of later and later generations, from the
initial one on, and of lower and lower costs; the last one has the cost of the best route and is
that of the generation that found it, which is the first one with that cost. So the two lines at the
end show the same cost and the same generation. -/
theorem planByEvolution_log [OrderedCost α] (w : Surroundings) {config : Config α}
    (hconfig : Cli.config o = .ok config) (trip : Trip α) :
    let search := (⟨config, trip⟩ : Evolution α).history w.elapsed (w.source o)
    ((planByEvolution w.host o trip).run.run .none).2.log = heard o (story o trip search) ∧
      Progress.Tabulates (Progress.rows none search.generations) search ∧
      ∀ outcome, search.result = .ok outcome → ∃ earlier average worst unique,
        story o trip search = earlier ++
          [Progress.tableLine outcome.best.generation average worst outcome.best.fitness.cost
              unique,
            Progress.endLine outcome.last.number outcome.termination.label
              outcome.best.fitness.cost outcome.best.generation] := by
  intro search
  have htable : Progress.Tabulates (Progress.rows none search.generations) search :=
    Evolution.history_tabulated _ _ _
  exact ⟨log_planByEvolution hconfig trip, htable, fun _ => story_eq_append htable⟩

end

/-- Two routes, which both stay in the next generation, the last one. -/
def twoRoutes : Config Float := { Config.default with populationSize := 2, generationLimit := 1 }

/-- The founders that a seed gives for a trip there and back are ranked, and the best one costs
two. -/
theorem run_random_twoRoutes :
    (match (Population.random Evolution.thereAndBack.trip 2).run (ChaCha.ofSeed 1) with
    | (.ok (i :: rest), _) =>
      decide ((i :: rest).Pairwise fun a b => a.fitness.le b.fitness = true) &&
        decide (i.generation = 0) && decide (CostText.tenths i.fitness.cost = "2.0")
    | _ => false) = true := by
  decide +kernel

/-- Founders that are ranked already are still there after the one generation. -/
theorem result_twoRoutes {σ : Type} [Source σ] {trip : Trip Float} {s t : σ}
    {i : Individual Float} {rest : Population Float}
    (hrun : (Population.random trip 2).run s = (.ok (i :: rest), t))
    (hranked : Population.Ranked (i :: rest)) (clock : Nat → Nat) :
    ((Evolution.mk twoRoutes trip).history clock s).result =
      .ok ⟨⟨1, i, rest⟩, .generationLimit⟩ := by
  have hstart : (Evolution.mk twoRoutes trip).start.run s = (.ok ⟨0, i, rest⟩, t) :=
    Evolution.start_of_ranked hrun hranked
  have hsound := Evolution.sound_of_start (Evolution.one_le_of_start hstart) hstart
  have hnumber : 0 + 1 < Text.countBound := by decide
  have hsize : twoRoutes.populationSize ≤ Evolution.elites := by decide
  have hbreed : ((Evolution.mk twoRoutes trip).breed ⟨0, i, rest⟩).run t =
      (.ok ⟨1, i, rest⟩, t) := by
    rw [Evolution.breed_of_le_elites hsound hnumber hsize]
    rfl
  have hcourse : Evolution.Course ⟨twoRoutes, trip⟩ clock ⟨0, i, rest⟩ t
      [⟨0, i, rest⟩, ⟨1, i, rest⟩] (.ok ⟨⟨1, i, rest⟩, .generationLimit⟩) :=
    .bred rfl hbreed (.stopped rfl)
  exact ((Evolution.course_history clock hstart).unique hcourse).2

/-- The log of planning there and back with two routes, a seed and a clock that stands still. -/
theorem planByEvolution_log_thereAndBack :
    let w : Surroundings := ⟨fun _ => .error "", fun _ _ => .ok (), fun _ => 0, .replicate 8 0⟩
    let o : Options Float := { seed? := some 1, population := 2, generations := 1 }
    let trip := Evolution.thereAndBack.trip
    let search := (⟨twoRoutes, trip⟩ : Evolution Float).history w.elapsed (w.source o)
    let log := ((planByEvolution w.host o trip).run.run .none).2.log
    config o = .ok twoRoutes ∧
    (log = heard o (story o trip search) ∧
      Progress.Tabulates (Progress.rows none search.generations) search ∧
      ∀ outcome, search.result = .ok outcome → ∃ earlier average worst unique,
        story o trip search = earlier ++
          [Progress.tableLine outcome.best.generation average worst outcome.best.fitness.cost
              unique,
            Progress.endLine outcome.last.number outcome.termination.label
              outcome.best.fitness.cost outcome.best.generation]) ∧
    ∃ (earlier : List String) (average worst best : Float) (unique : Nat),
      CostText.tenths best = "2.0" ∧
      log = earlier ++ [Progress.tableLine 0 average worst best unique,
        "Stopped after generation 1 (GenerationLimit), best cost 2.0 found in generation 0\n"] := by
  intro w o trip search log
  have hconfig : config o = .ok twoRoutes := rfl
  have hlog := planByEvolution_log w hconfig trip
  refine ⟨hconfig, hlog, ?_⟩
  have hfounders := run_random_twoRoutes
  split at hfounders
  · rename_i i rest t hrun
    simp only [Bool.and_eq_true, decide_eq_true_eq] at hfounders
    obtain ⟨⟨hranked, hgeneration⟩, htenths⟩ := hfounders
    have hresult := result_twoRoutes hrun hranked w.elapsed
    obtain ⟨earlier, average, worst, unique, hstory⟩ := hlog.2.2 _ hresult
    have hfound : (Outcome.mk ⟨1, i, rest⟩ .generationLimit).best.generation = 0 := hgeneration
    have hend : Progress.endLine 1 "GenerationLimit" i.fitness.cost 0 =
        "Stopped after generation 1 (GenerationLimit), best cost 2.0 found in generation 0\n" := by
      unfold Progress.endLine
      rw [htenths]
      decide +kernel
    refine ⟨earlier, average, worst, i.fitness.cost, unique, htenths, hlog.1.trans ?_⟩
    rw [hfound] at hstory
    rw [← hend]
    exact hstory
  · cases hfounders

end RoadTrip.Cli
