import RoadTrip.Proofs.Draw.Agree
import RoadTrip.Proofs.Evolution.Stopping
import RoadTrip.Proofs.Trip.SameOrder

/-!
# Searches for trips that order routes alike

Rankings and tournaments compare costs and do nothing else with them. If two trips order the routes
alike, a search with tournaments therefore makes the same decisions on both of them. The members of
two generations in the same place are counterparts (`Trip.Counterparts`): the same route from the
same generation, with its cost on either trip. Every step of the search gives counterparts from
counterparts, with the same draws, so a whole search does (`history_sameOrder`), if it is not
stopped by a cost or by the time.
-/

namespace RoadTrip

/-- Sorting leaves elements related that are compared alike. -/
theorem forall₂_mergeSort {β γ : Type} {R : β → γ → Prop} {le : β → β → Bool} {le' : γ → γ → Bool}
    (hle : ∀ b c b' c', R b c → R b' c' → le b b' = le' c c') {l : List β} {l' : List γ}
    (h : List.Forall₂ R l l') : List.Forall₂ R (l.mergeSort le) (l'.mergeSort le') := by
  obtain ⟨hlength, hzip⟩ := List.forall₂_iff_zip.1 h
  -- the pairs are sorted as a whole, which sorts both of their sides
  let pairs := (l.zip l').mergeSort fun a b => le a.1 b.1
  have hpairs : ∀ a ∈ pairs, R a.1 a.2 := fun a ha => hzip (List.mem_mergeSort.1 ha)
  have hfst : pairs.map Prod.fst = l.mergeSort le := by
    rw [List.map_mergeSort (s := le) (f := Prod.fst) fun _ _ _ _ => rfl,
      List.map_fst_zip hlength.le]
  have hsnd : pairs.map Prod.snd = l'.mergeSort le' := by
    rw [List.map_mergeSort (s := le') (f := Prod.snd)
      fun _ ha _ hb => hle _ _ _ _ (hzip ha) (hzip hb), List.map_snd_zip hlength.ge]
  rw [← hfst, ← hsnd, List.forall₂_map_left_iff, List.forall₂_map_right_iff, List.forall₂_same]
  exact hpairs

variable {α : Type} [Cost α]

/-- The same route from the same generation, with the costs that it has on two trips. -/
structure Trip.Counterparts (t t' : Trip α) (i i' : Individual α) : Prop where
  route : i.route = i'.route
  generation : i.generation = i'.generation
  visits : i.route.Visits t.matrix.size
  evaluate : t.evaluate i.route = .ok i.fitness
  evaluate_other : t'.evaluate i.route = .ok i'.fitness

/-- Generations with the same number whose members are counterparts. -/
structure Trip.Alike (t t' : Trip α) (g g' : Generation α) : Prop where
  number : g.number = g'.number
  members : List.Forall₂ (t.Counterparts t') g.members g'.members

/-- Slots of two tournaments for the same position, each with the fitness of the member there. -/
structure SameSlot (p p' : Population α) (a : Fin p.length × Fitness α)
    (a' : Fin p'.length × Fitness α) : Prop where
  position : a.1.val = a'.1.val
  fitness : a.2 = (p.get a.1).fitness
  fitness_other : a'.2 = (p'.get a'.1).fitness

/-- All of a generation but the costs: its number and, place by place, the routes and the
generations that they come from. -/
def Generation.lineup (g : Generation α) : Nat × List (Route × Nat) :=
  (g.number, g.members.map fun i => (i.route, i.generation))

/-- All of an outcome but the costs: the best route, the last generation and the reason to stop. -/
def Outcome.lineup (o : Outcome α) : Route × (Nat × List (Route × Nat)) × Termination :=
  (o.best.route, o.last.lineup, o.termination)

/-- The same search for another trip. -/
def Evolution.withTrip (e : Evolution α) (t : Trip α) : Evolution α := { e with trip := t }

namespace Trip

variable {t t' : Trip α} {g g' : Generation α} {p p' : Population α}

theorem Alike.lineup (h : t.Alike t' g g') : g.lineup = g'.lineup := by
  have hmembers : g.members.map (fun i => (i.route, i.generation)) =
      g'.members.map fun i => (i.route, i.generation) := by
    rw [← List.forall₂_eq_eq_eq, List.forall₂_map_left_iff, List.forall₂_map_right_iff]
    exact h.members.imp fun i i' hi => Prod.ext hi.route hi.generation
  exact Prod.ext h.number hmembers

theorem Alike.best (h : t.Alike t' g g') : g.best.route = g'.best.route := by
  obtain ⟨hbest, -⟩ := List.forall₂_cons.1 h.members
  exact hbest.route

/-- Without a limit on the cost or on the time the number of a generation decides when to stop. -/
theorem Alike.termination?_eq {e : Evolution α} (hfitness : e.config.fitnessLimit = none)
    (htime : e.config.timeLimit = none) (h : e.trip.Alike t' g g') (time time' : Nat) :
    (e.withTrip t').termination? g' time' = e.termination? g time := by
  simp only [Evolution.termination?, Evolution.withTrip, hfitness, htime, h.number, Option.any_none]

theorem Counterparts.get (h : List.Forall₂ (t.Counterparts t') p p') {i : Fin p.length}
    {i' : Fin p'.length} (hi : i.val = i'.val) : t.Counterparts t' (p.get i) (p'.get i') := by
  obtain ⟨i, hlt⟩ := i
  obtain ⟨i', hlt'⟩ := i'
  obtain rfl : i = i' := hi
  exact h.get hlt hlt'

namespace SameOrder

open Draw hiding pure

variable (ht : t.SameOrder t')

include ht

/-! ## Comparing counterparts -/

theorem counterparts_le {i i' j j' : Individual α} (hi : t.Counterparts t' i i')
    (hj : t.Counterparts t' j j') : i.fitness.le j.fitness = i'.fitness.le j'.fitness :=
  ht.le_eq hi.visits hj.visits hi.evaluate hj.evaluate hi.evaluate_other hj.evaluate_other

theorem rank (h : List.Forall₂ (t.Counterparts t') p p') :
    List.Forall₂ (t.Counterparts t') p.rank p'.rank := by
  refine forall₂_mergeSort ?_ h
  exact fun _ _ _ _ hi hj => ht.counterparts_le hi hj

/-- A sample of the same positions is ranked in the same way. -/
theorem rankPositions (h : List.Forall₂ (t.Counterparts t') p p') {sample : List (Fin p.length)}
    {sample' : List (Fin p'.length)}
    (hsample : List.Forall₂ (fun i i' => i.val = i'.val) sample sample') :
    List.Forall₂ (fun i i' => i.val = i'.val) (p.rankPositions sample)
      (p'.rankPositions sample') := by
  unfold Population.rankPositions
  dsimp only
  rw [List.forall₂_map_left_iff, List.forall₂_map_right_iff]
  have hslots : List.Forall₂ (SameSlot p p') (sample.map fun i => (i, (p.get i).fitness))
      (sample'.map fun i => (i, (p'.get i).fitness)) := by
    rw [List.forall₂_map_left_iff, List.forall₂_map_right_iff]
    exact hsample.imp fun _ _ hi => ⟨hi, rfl, rfl⟩
  refine (forall₂_mergeSort (fun a a' b b' ha hb => ?_) hslots).imp fun _ _ ha => ha.position
  rw [ha.fitness, ha.fitness_other, hb.fitness, hb.fitness_other]
  exact ht.counterparts_le (.get h ha.position) (.get h hb.position)

/-! ## The initial generation -/

theorem agree_individual {r : Route} (hr : r.Visits t.matrix.size) (number : Nat) :
    (ofExcept (t.individual number r)).Agree (t.Counterparts t')
      (ofExcept (t'.individual number r)) := by
  unfold Trip.individual
  rcases ht.evaluate_cases hr with ⟨fault, hfault, hfault'⟩ | ⟨f, f', hf, hf'⟩
  · rw [hfault, hfault']
    exact .fail fault
  · rw [hf, hf']
    exact .pure ⟨rfl, rfl, hr, hf, hf'⟩

theorem agree_random (size : Nat) : (Population.random t size).Agree
    (List.Forall₂ (t.Counterparts t')) (Population.random t' size) := by
  unfold Population.random
  rw [ht.size]
  refine (ensures_any _).agree.bind fun _ _ _ => agree_times ?_ size
  refine (Evolution.ensures_random (Q := fun _ => True) fun _ => trivial).agree.bind ?_
  rintro r _ ⟨rfl, hr⟩
  exact ht.agree_individual hr 0

theorem agree_ofMembers (h : List.Forall₂ (t.Counterparts t') p p') (number : Nat) :
    (ofExcept (Generation.ofMembers number p)).Agree (t.Alike t')
      (ofExcept (Generation.ofMembers number p')) := by
  have hrank := ht.rank h
  unfold Generation.ofMembers
  generalize p.rank = q at hrank ⊢
  generalize p'.rank = q' at hrank ⊢
  cases hrank with
  | nil => exact .fail _
  | cons hbest hothers => exact .pure ⟨rfl, .cons hbest hothers⟩

end SameOrder

end Trip

namespace Trip.SameOrder

open Draw hiding pure
open Evolution (elites)

variable {e : Evolution α} {t' : Trip α} {p p' : Population α} {g g' : Generation α}
  (ht : e.trip.SameOrder t')

include ht

theorem agree_start : e.start.Agree (e.trip.Alike t') (e.withTrip t').start :=
  (ht.agree_random _).bind fun _ _ h => ht.agree_ofMembers h 0

/-! ## Breeding -/

theorem agree_tournamentPair (h : List.Forall₂ (e.trip.Counterparts t') p p') (size : Nat) :
    (tournamentPair p size).Agree (fun c c' => c.1.val = c'.1.val ∧ c.2.val = c'.2.val)
      (tournamentPair p' size) := by
  unfold tournamentPair
  split
  · exact .fail _
  · refine (ensures_any _).agree.bind fun _ _ _ => ?_
    refine (agree_times (agree_index h.length_eq) size).bind fun sample sample' hsample => ?_
    have hranked := ht.rankPositions h hsample
    generalize p.rankPositions sample = ranked at hranked ⊢
    generalize p'.rankPositions sample' = ranked' at hranked ⊢
    cases hranked with
    | nil => exact .fail _
    | cons hfirst hrest =>
      cases hrest with
      | nil => exact .fail _
      | cons hsecond _ => exact .pure ⟨hfirst, hsecond⟩

theorem agree_selectPair (htournament : e.config.selection.strategy = .tournament)
    (h : List.Forall₂ (e.trip.Counterparts t') p p') :
    (e.config.selection.selectPair p).Agree
      (fun c c' => c.1.val = c'.1.val ∧ c.2.val = c'.2.val)
      (e.config.selection.selectPair p') := by
  unfold Selection.selectPair
  rw [htournament]
  cases h with
  | nil => exact .fail _
  | cons hi hrest => exact ht.agree_tournamentPair (.cons hi hrest) _

/-- The children of counterparts are the same. -/
theorem agree_children (htournament : e.config.selection.strategy = .tournament)
    (h : List.Forall₂ (e.trip.Counterparts t') p p') :
    (e.children p).Agree
      (fun c c' => c = c' ∧ c.1.Visits e.trip.matrix.size ∧ c.2.Visits e.trip.matrix.size)
      ((e.withTrip t').children p') := by
  refine (ht.agree_selectPair htournament h).bind ?_
  rintro ⟨i, j⟩ ⟨i', j'⟩ ⟨hi, hj⟩
  have hfirst := Counterparts.get h hi
  have hsecond := Counterparts.get h hj
  dsimp only
  rw [← hfirst.route, ← hsecond.route]
  exact (e.config.crossover.ensures_apply hfirst.visits hsecond.visits).agree

theorem agree_grow {child : Route} (hchild : child.Visits e.trip.matrix.size) (number : Nat) :
    (e.grow number child).Agree (e.trip.Counterparts t') ((e.withTrip t').grow number child) := by
  refine (e.config.mutation.ensures_apply child).agree.bind ?_
  rintro route _ ⟨rfl, hperm⟩
  have hvisits : route.Visits e.trip.matrix.size := hchild.of_perm hperm
  have hvisits' : route.Visits t'.matrix.size := ht.size ▸ hvisits
  rw [if_pos (Route.isPermutation_iff.2 hvisits),
    show (e.withTrip t').trip = t' from rfl, if_pos (Route.isPermutation_iff.2 hvisits')]
  exact ht.agree_individual hvisits number

theorem agree_fill {couple couple' : Draw (Route × Route)} (hcouple : couple.Agree
      (fun c c' => c = c' ∧ c.1.Visits e.trip.matrix.size ∧ c.2.Visits e.trip.matrix.size) couple')
    (number : Nat) : ∀ (free : Nat) {next next' : Population α},
      List.Forall₂ (e.trip.Counterparts t') next next' →
        (e.fill couple number free next).Agree (List.Forall₂ (e.trip.Counterparts t'))
          ((e.withTrip t').fill couple' number free next')
  | 0, _, _, hnext => .pure hnext
  | 1, _, _, hnext => by
    refine hcouple.bind ?_
    rintro ⟨child, _⟩ _ ⟨rfl, hchild, -⟩
    refine (ht.agree_grow hchild number).map fun member member' hmember => ?_
    exact List.rel_append hnext (.cons hmember .nil)
  | free + 2, _, _, hnext => by
    refine hcouple.bind ?_
    rintro ⟨first, second⟩ _ ⟨rfl, hfirst, hsecond⟩
    refine (ht.agree_grow hfirst number).bind fun member member' hmember => ?_
    refine (ht.agree_grow hsecond number).bind fun sibling sibling' hsibling => ?_
    exact agree_fill hcouple number free
      (List.rel_append hnext (.cons hmember (.cons hsibling .nil)))

/-- **One step of breeding**: from generations that are alike it leads to such generations, with
the same draws. -/
theorem agree_breed (htournament : e.config.selection.strategy = .tournament)
    (hg : e.trip.Alike t' g g') :
    (e.breed g).Agree (e.trip.Alike t') ((e.withTrip t').breed g') := by
  have hkept := List.forall₂_take elites hg.members
  unfold Evolution.breed Evolution.offspring
  rw [← hg.number]
  split
  · dsimp only
    rw [← hkept.length_eq]
    refine (ht.agree_fill (ht.agree_children htournament hg.members) _ _ hkept).bind ?_
    exact fun _ _ h => ht.agree_ofMembers h _
  · exact .fail _

/-! ## Searches -/

theorem agree_stage (htournament : e.config.selection.strategy = .tournament) :
    ∀ n, (e.stage n).Agree (e.trip.Alike t') ((e.withTrip t').stage n)
  | 0 => ht.agree_start
  | n + 1 => (agree_stage htournament n).bind fun _ _ hg => ht.agree_breed htournament hg

variable {σ : Type} [Source σ] {clock : Nat → Nat} {s : σ}

/-- A run for the other trip goes through generations that are alike and ends in the same way. -/
theorem exists_course (htournament : e.config.selection.strategy = .tournament)
    (hfitness : e.config.fitnessLimit = none) (htime : e.config.timeLimit = none)
    {l : List (Generation α)} {r : Except Fault (Outcome α)}
    (h : e.Course clock g s l r) (hg : e.trip.Alike t' g g') (clock' : Nat → Nat) :
    ∃ l' r', (e.withTrip t').Course clock' g' s l' r' ∧
      l.map Generation.lineup = l'.map Generation.lineup ∧
      r.map Outcome.lineup = r'.map Outcome.lineup := by
  -- the other run is built along this one, from generations that are alike at every step
  induction h generalizing g' with
  | @stopped g s reason hreason =>
    have hreason' := (hg.termination?_eq hfitness htime _ (clock' g'.number)).trans hreason
    refine ⟨[g'], .ok ⟨g', reason⟩, .stopped hreason', ?_, ?_⟩
    · rw [List.map_singleton, List.map_singleton, hg.lineup]
    · exact congrArg Except.ok (Prod.ext hg.best (Prod.ext hg.lineup rfl))
  | @failed g s t fault hnone hbreed =>
    have hnone' := (hg.termination?_eq hfitness htime _ (clock' g'.number)).trans hnone
    have hbreed' := (ht.agree_breed htournament hg).of_error hbreed
    refine ⟨[g'], .error fault, .failed hnone' hbreed', ?_, rfl⟩
    rw [List.map_singleton, List.map_singleton, hg.lineup]
  | @bred g next s t l r hnone hbreed _ ih =>
    have hnone' := (hg.termination?_eq hfitness htime _ (clock' g'.number)).trans hnone
    obtain ⟨next', hbreed', hnext⟩ := (ht.agree_breed htournament hg).of_ok hbreed
    obtain ⟨l', r', hcourse, hl, hr⟩ := ih hnext
    refine ⟨g' :: l', r', .bred hnone' hbreed' hcourse, ?_, hr⟩
    rw [List.map_cons, List.map_cons, hg.lineup, hl]

theorem history_lineup (htournament : e.config.selection.strategy = .tournament)
    (hfitness : e.config.fitnessLimit = none) (htime : e.config.timeLimit = none)
    (clock clock' : Nat → Nat) (s : σ) :
    (e.history clock s).generations.map Generation.lineup =
        ((e.withTrip t').history clock' s).generations.map Generation.lineup ∧
      (e.history clock s).result.map Outcome.lineup =
        ((e.withTrip t').history clock' s).result.map Outcome.lineup := by
  rcases e.history_cases clock s with ⟨fault, u, hstart, hhistory⟩ | ⟨g, u, hstart, hcourse⟩
  · rw [hhistory, Evolution.history_of_error clock' (ht.agree_start.of_error hstart)]
    exact ⟨rfl, rfl⟩
  · obtain ⟨g', hstart', hg⟩ := ht.agree_start.of_ok hstart
    obtain ⟨l', r', hcourse', hl, hr⟩ :=
      ht.exists_course htournament hfitness htime hcourse hg clock'
    obtain ⟨rfl, rfl⟩ := hcourse'.unique (Evolution.course_history clock' hstart')
    exact ⟨hl, hr⟩

end Trip.SameOrder

namespace Evolution

/-- **With tournaments only the order of the routes matters.** Searches for trips that order them
alike, without a limit on the cost or on the time, go through the same generations and end in the
same way, whatever time it is. Each generation is drawn from the same source up to the same state
on both, and so is what stops them if they fail. -/
theorem history_sameOrder {σ : Type} [Source σ] {e : Evolution α} {t' : Trip α}
    (ht : e.trip.SameOrder t') (htournament : e.config.selection.strategy = .tournament)
    (hfitness : e.config.fitnessLimit = none) (htime : e.config.timeLimit = none)
    (clock clock' : Nat → Nat) (s : σ) :
    let e' := e.withTrip t'
    let h := e.history clock s
    let h' := e'.history clock' s
    h.generations.map Generation.lineup = h'.generations.map Generation.lineup ∧
    h.result.map Outcome.lineup = h'.result.map Outcome.lineup ∧
    (∀ n g g', h.generations[n]? = some g → h'.generations[n]? = some g' →
      ∃ u, (e.stage n).run s = (.ok g, u) ∧ (e'.stage n).run s = (.ok g', u)) ∧
    ∀ fault, h.result = .error fault → ∃ u,
      (e.stage h.generations.length).run s = (.error fault, u) ∧
      (e'.stage h'.generations.length).run s = (.error fault, u) := by
  intro e' h h'
  obtain ⟨hgenerations, hresult⟩ := ht.history_lineup htournament hfitness htime clock clock' s
  obtain ⟨hstages, hfault⟩ := e.run_stage_history clock s
  obtain ⟨hstages', -⟩ := e'.run_stage_history clock' s
  refine ⟨hgenerations, hresult, fun n g g' hg hg' => ?_, fun fault hr => ?_⟩
  · obtain ⟨u, hrun⟩ := hstages n g hg
    obtain ⟨u', hrun'⟩ := hstages' n g' hg'
    obtain ⟨c, hc, -⟩ := (ht.agree_stage htournament n).of_ok hrun
    rw [hrun'] at hc
    cases hc
    exact ⟨u, hrun, hrun'⟩
  · obtain ⟨u, hrun⟩ := hfault fault hr
    have hlength : h.generations.length = h'.generations.length := by
      simpa using congrArg List.length hgenerations
    exact ⟨u, hrun, hlength ▸ (ht.agree_stage htournament _).of_error hrun⟩

/-- The default parameters, but with tournaments. -/
def tournaments : Config ℚ :=
  { Config.default with selection := { Selection.default with strategy := .tournament } }

/-- One way through three waypoints, with lengths in kilometres and in metres. -/
theorem history_sameOrder_metres : ∃ m : CostMatrix ℚ,
    CostMatrix.ofEntries ["A", "B", "C"] [⟨"A", "B", 5⟩, ⟨"B", "C", 2⟩, ⟨"A", "C", 3⟩] = .ok m ∧
    let e : Evolution ℚ := ⟨tournaments, ⟨m, .oneWay⟩⟩
    let metres := e.trip.inUnits 1000
    let e' := e.withTrip metres
    let s := ChaCha.ofSeed 1
    let h := e.history (fun _ => 0) s
    let h' := e'.history (fun n => n) s
    e.trip.SameOrder metres ∧ e.config.selection.strategy = .tournament ∧
    e.config.fitnessLimit = none ∧ e.config.timeLimit = none ∧
    h.generations.map Generation.lineup = h'.generations.map Generation.lineup ∧
    h.result.map Outcome.lineup = h'.result.map Outcome.lineup ∧
    (∀ n g g', h.generations[n]? = some g → h'.generations[n]? = some g' →
      ∃ u, (e.stage n).run s = (.ok g, u) ∧ (e'.stage n).run s = (.ok g', u)) ∧
    ∀ fault, h.result = .error fault → ∃ u,
      (e.stage h.generations.length).run s = (.error fault, u) ∧
      (e'.stage h'.generations.length).run s = (.error fault, u) := by
  obtain ⟨m, hm, -⟩ : ∃ m, CostMatrix.ofEntries ["A", "B", "C"]
      [⟨"A", "B", (5 : ℚ)⟩, ⟨"B", "C", 2⟩, ⟨"A", "C", 3⟩] = .ok m ∧ m.size = 3 :=
    CostMatrix.exists_of_size (by decide +kernel)
  have horder : (Trip.mk m .oneWay).SameOrder ((Trip.mk m .oneWay).inUnits 1000) :=
    Trip.sameOrder_inUnits (by norm_num) _
  exact ⟨m, hm, horder, rfl, rfl, rfl, history_sameOrder (e := ⟨tournaments, ⟨m, .oneWay⟩⟩)
    horder rfl rfl rfl (fun _ => 0) (fun n => n) (ChaCha.ofSeed 1)⟩

end Evolution

end RoadTrip
