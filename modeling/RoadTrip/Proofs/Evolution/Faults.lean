import RoadTrip.Proofs.Evolution.Soundness
import RoadTrip.Proofs.Selection.Tournament

/-!
# The faults of a search

A search through the waypoints of a matrix that is made of entries meets no fault, with one
exception: a mutation whose choices cannot be counted. `history_fault_iff` says exactly when that
happens, which is at the first child that is bred (`breed_of_overflows`). The source may run dry,
and there has to be room for what is asked for (`HasRoom`).
-/

namespace RoadTrip.Evolution

open Draw

variable {α : Type} [Cost α] {e : Evolution α} {g : Generation α}

/-- There is room for a population, for the sample of a tournament and for a route. -/
structure HasRoom (e : Evolution α) : Prop where
  population : e.config.populationSize ≤ capacity individualWords
  sample : e.config.selection.tournamentSize ≤ capacity stopWords
  route : e.trip.matrix.size ≤ capacity stopWords

/-! ## No fault but one -/

theorem not_evaluate_error [LawfulCost α] (hm : e.trip.matrix.Valid) {r : Route} {fault : Fault}
    (hr : r.Visits e.trip.matrix.size) : e.trip.evaluate r ≠ .error fault := by
  obtain ⟨f, hf, -⟩ := Trip.exists_evaluate hm hr
  rw [hf]
  nofun

theorem faultsIn_overflow [LawfulCost α] (hm : e.trip.matrix.Valid) (hroom : e.HasRoom) :
    e.FaultsIn fun fault => fault = .overflow ∧ e.config.mutation.Overflows where
  select hp := e.config.selection.ensures_selectPair hp fun h => by
    have := hroom.sample
    omega
  mutate h := ⟨rfl, h⟩
  evaluate _ _ hr hfault := absurd hfault (not_evaluate_error hm hr)

theorem ensures_start_never [LawfulCost α] (hm : e.trip.matrix.Valid) (hroom : e.HasRoom)
    (hsize : 1 ≤ e.config.populationSize) : e.start.Ensures e.Initial Never := by
  refine ensures_start hsize (fun h => ?_) fun _ _ hr hfault => not_evaluate_error hm hr hfault
  have := hroom.population
  have := hroom.route
  omega

/-- Where nobody but the elites is in a generation, nothing is drawn for the next one. -/
theorem offspring_of_le_elites (hg : g.Sound e) (hsize : e.config.populationSize ≤ elites) :
    e.offspring g = .pure (g.members.take elites) := by
  have hfree : e.config.populationSize - (g.members.take elites).length = 0 := by
    rw [length_take_elites hg]
    omega
  unfold offspring
  dsimp only
  rw [hfree]
  rfl

/-- Where there are no other members than the elites, they stay and nothing is drawn. -/
theorem breed_of_le_elites [OrderedCost α] (hg : g.Sound e)
    (hnumber : g.number + 1 < Text.countBound) (hsize : e.config.populationSize ≤ elites) :
    e.breed g = .pure { g with number := g.number + 1 } := by
  have hmembers : g.members.take elites = g.members := by
    rw [List.take_of_length_le]
    rwa [hg.length]
  unfold breed
  rw [if_pos hnumber, offspring_of_le_elites hg hsize, hmembers]
  show ofExcept (Generation.ofMembers (g.number + 1) g.members) = _
  rw [Generation.ofMembers, hg.ranked.rank_eq]
  rfl

/-- **Breeding meets one fault only**, and only if somebody has to be bred. -/
theorem ensures_breed_overflow [LawfulCost α] (hm : e.trip.matrix.Valid) (hroom : e.HasRoom)
    (hg : g.Sound e) (hnumber : g.number + 1 < Text.countBound) :
    (e.breed g).Ensures (fun _ => True) fun fault =>
      fault = .overflow ∧ e.config.mutation.Overflows ∧ elites < e.config.populationSize := by
  by_cases hsize : elites < e.config.populationSize
  · refine (ensures_breed (faultsIn_overflow hm hroom) hg.visits fun h => ?_).mono
      (fun _ _ => trivial) fun fault hfault => ⟨hfault.1, hfault.2, hsize⟩
    omega
  · rw [breed_of_le_elites hg hnumber (by omega)]
    trivial

/-! ## The one fault -/

theorem grow_of_overflows (hover : e.config.mutation.Overflows) {child : Route}
    (hchild : child.Visits e.trip.matrix.size) (number : Nat) :
    e.grow number child = .fail .overflow := by
  have htwo := e.trip.matrix.two_le_size
  have hlength := hchild.length
  unfold grow
  rw [Mutation.apply_of_overflows hover (by omega)]
  rfl

theorem fill_of_overflows (hover : e.config.mutation.Overflows) {couple : Draw (Route × Route)}
    {Q : Fault → Prop} (hcouple : couple.Ensures (·.1.Visits e.trip.matrix.size) Q)
    (number free : Nat) (next : Population α) :
    e.fill couple number (free + 1) next = couple.bind fun _ => .fail .overflow := by
  -- the first child of a couple is grown in either case, a single place left or more
  cases free
  all_goals
    refine hcouple.bind_congr ?_
    rintro ⟨first, second⟩ hfirst
    dsimp only
    rw [grow_of_overflows hover hfirst]
    rfl

/-- **Breeding overflows at the first child of its first couple.** -/
theorem breed_of_overflows (hover : e.config.mutation.Overflows)
    (hsize : elites < e.config.populationSize) (hg : g.Sound e)
    (hnumber : g.number + 1 < Text.countBound) :
    e.breed g = (e.children g.members).bind fun _ => .fail .overflow := by
  have hcouple := (ensures_children (e := e) faultsIn_any (List.cons_ne_nil _ _) hg.visits).mono
    (fun _ h => h.1) fun _ => id
  have hfree : e.config.populationSize - (g.members.take elites).length =
      e.config.populationSize - elites - 1 + 1 := by
    rw [length_take_elites hg]
    omega
  have hoffspring : e.offspring g = (e.children g.members).bind fun _ => .fail .overflow := by
    unfold offspring
    dsimp only
    rw [hfree]
    exact fill_of_overflows hover hcouple _ _ _
  unfold breed
  rw [if_pos hnumber, hoffspring]
  exact Draw.bind_assoc _ _ _

/-! ## Searches -/

section

variable {σ : Type} [Source σ] {clock : Nat → Nat}

/-- A run meets a fault only if it overflows. -/
theorem Course.overflows_of_fault [LawfulCost α] (hm : e.trip.matrix.Valid) (hroom : e.HasRoom)
    (hlimit : e.config.generationLimit < Text.countBound) {s : σ} {l : List (Generation α)}
    {fault : Fault} (hcourse : Course e clock g s l (.error fault)) (hg : g.Sound e)
    (hsource : fault ≠ .exhausted) :
    fault = .overflow ∧ e.config.mutation.Overflows ∧ elites < e.config.populationSize := by
  obtain ⟨h, hh, hstop, u, v, hbreed⟩ := hcourse.exists_fault rfl
  have hnumber := e.number_lt_of_termination?_eq_none hstop
  have hfault := (ensures_breed_overflow hm hroom (hcourse.sound hg h hh) (by omega)).of_error
    hbreed
  exact hfault.resolve_right hsource

/-- A run that overflows does so as soon as it goes on and its first couple is drawn. -/
theorem Course.of_overflows (hover : e.config.mutation.Overflows)
    (hsize : elites < e.config.populationSize) {s : σ} {l : List (Generation α)}
    {r : Except Fault (Outcome α)} (hcourse : Course e clock g s l r) (hg : g.Sound e)
    (hnumber : g.number + 1 < Text.countBound)
    (hstop : e.termination? g (clock g.number) = none) :
    l = [g] ∧ r = match ((e.children g.members).run s).1 with
      | .ok _ => .error .overflow
      | .error fault => .error fault := by
  have hbreed := breed_of_overflows hover hsize hg hnumber
  cases hcourse with
  | stopped hreason => rw [hstop] at hreason; cases hreason
  | failed _ hrun =>
    rw [hbreed, run_bind] at hrun
    generalize (e.children g.members).run s = couple at hrun ⊢
    rcases couple with ⟨fault | couple, t⟩
    all_goals
      cases hrun
      exact ⟨rfl, rfl⟩
  | bred _ hrun _ =>
    rw [hbreed, run_bind] at hrun
    generalize (e.children g.members).run s = couple at hrun
    rcases couple with ⟨fault | couple, t⟩
    all_goals cases hrun

/-- A search that overflows does so as soon as it goes on and its first couple is drawn. -/
theorem history_of_overflows [OrderedCost α] (hover : e.config.mutation.Overflows)
    (hsize : elites < e.config.populationSize) (clock : Nat → Nat) {s t : σ}
    (hstart : e.start.run s = (.ok g, t)) (hstop : e.termination? g (clock 0) = none)
    (hcouple : ((e.children g.members).run t).1.isOk = true) :
    e.history clock s = ⟨[g], .error .overflow⟩ := by
  have hg := sound_of_start (one_le_of_start hstart) hstart
  have hnumber := start_number hstart
  have hcourse := course_history clock hstart
  rw [← hnumber] at hstop
  generalize e.history clock s = h at hcourse ⊢
  rcases h with ⟨l, r⟩
  obtain ⟨rfl, rfl⟩ := hcourse.of_overflows hover hsize hg (by rw [hnumber]; decide) hstop
  generalize ((e.children g.members).run t).1 = couple at hcouple ⊢
  cases couple with
  | error fault => cases hcouple
  | ok couple => rfl

/-- **A search meets a fault exactly if a mutation overflows**, unless its source runs dry: the
choices cannot be counted, and somebody has to be bred for a next generation. -/
theorem history_fault_iff [LawfulCost α] {names : List String} {entries : List (CostEntry α)}
    (hm : CostMatrix.ofEntries names entries = .ok e.trip.matrix)
    (hsize : 1 ≤ e.config.populationSize) (hlimit : e.config.generationLimit < Text.countBound)
    (hroom : e.HasRoom) (clock : Nat → Nat) (s : σ) :
    (e.history clock s).result = .error .exhausted ∨
    ((∃ fault, (e.history clock s).result = .error fault) ↔
      e.config.mutation.Overflows ∧ elites < e.config.populationSize ∧
      ∃ g, (e.history clock s).generations.head? = some g ∧
        e.termination? g (clock 0) = none) ∧
    ∀ fault, (e.history clock s).result = .error fault → fault = .overflow := by
  have hm := CostMatrix.valid_of_ofEntries hm
  rcases e.history_cases clock s with ⟨fault, t, hstart, hhistory⟩ | ⟨g, t, hstart, hcourse⟩
  · rcases (ensures_start_never hm hroom hsize).of_error hstart with hnever | rfl
    · exact hnever.elim
    · rw [hhistory]
      exact .inl rfl
  · have hg := sound_of_start hsize hstart
    have hnumber := start_number hstart
    generalize (e.history clock s).generations = l at hcourse ⊢
    generalize (e.history clock s).result = r at hcourse ⊢
    by_cases hsource : r = .error .exhausted
    · exact .inl hsource
    · have hover {fault : Fault} (hr : r = .error fault) :
          fault = .overflow ∧ e.config.mutation.Overflows ∧ elites < e.config.populationSize := by
        subst hr
        exact hcourse.overflows_of_fault hm hroom hlimit hg fun h => hsource (h ▸ rfl)
      obtain ⟨rest, rfl⟩ := hcourse.exists_cons
      refine .inr ⟨⟨?_, ?_⟩, fun fault hr => (hover hr).1⟩
      · rintro ⟨fault, hr⟩
        obtain ⟨-, hmutation, hbred⟩ := hover hr
        refine ⟨hmutation, hbred, g, rfl, ?_⟩
        rw [← hnumber]
        subst hr
        exact hcourse.termination?_eq_none
      · rintro ⟨hmutation, hbred, h, hh, hstop⟩
        obtain rfl := Option.some.inj hh
        rw [← hnumber] at hstop
        have hlt := e.number_lt_of_termination?_eq_none hstop
        obtain ⟨-, hr⟩ := hcourse.of_overflows hmutation hbred hg (by omega) hstop
        rw [hr]
        split <;> exact ⟨_, rfl⟩

end

/-- Three routes, one of them to be bred from the winners of a tournament, and more choices of a
number of swaps than can be counted. -/
def countlessSwaps : Config Float :=
  { Config.default with
    populationSize := 3
    generationLimit := 1
    selection := ⟨.tournament, 2, Nat.le.refl⟩
    crossover := .clone
    mutation := .swap 18446744073709551615 (by decide) }

/-- The children of a tournament without crossover are drawn if its sample is. -/
theorem isOk_children_countlessSwaps (trip : Trip Float) {p : Population Float} (hp : p ≠ [])
    {s : Script} (hsample : ((Draw.times 2 (Draw.index .full p.length)).run s).1.isOk = true) :
    (((Evolution.mk countlessSwaps trip).children p).run s).1.isOk = true := by
  rcases hdraws : (Draw.times 2 (Draw.index .full p.length)).run s with ⟨fault | sample, t⟩
  · rw [hdraws] at hsample
    cases hsample
  · obtain ⟨first, second, -, -, hpair⟩ := run_tournamentPair (by decide) (by decide) hdraws
    have hselect : countlessSwaps.selection.selectPair p = tournamentPair p 2 :=
      if_neg (by rwa [List.isEmpty_iff])
    show (((countlessSwaps.selection.selectPair p).bind _).run s).1.isOk = true
    rw [run_bind, hselect, hpair]
    rfl

def twelveZeros : Script := ⟨List.replicate 12 0, 0⟩

/-- Twelve words are enough for three ranked founders of a trip there and back, and for the sample
of a tournament. -/
theorem run_sample_twelveZeros :
    (match CostMatrix.ofEntries ["A", "B"] [⟨"A", "B", (1.0 : Float)⟩] with
    | .ok m =>
      match (Population.random ⟨m, .roundTrip⟩ 3).run twelveZeros with
      | (.ok (i :: rest), t) =>
        decide (m.size = 2) &&
          decide ((i :: rest).Pairwise fun a b => a.fitness.le b.fitness = true) &&
          ((Draw.times 2 (Draw.index .full (i :: rest).length)).run t).1.isOk
      | _ => false
    | .error _ => false) = true := by
  decide +kernel

/-- A search there and back that has somebody to breed with countless swaps, and overflows. -/
theorem history_fault_iff_countlessSwaps : ∃ m : CostMatrix Float,
    CostMatrix.ofEntries ["A", "B"] [⟨"A", "B", 1.0⟩] = .ok m ∧
    1 ≤ countlessSwaps.populationSize ∧ countlessSwaps.generationLimit < Text.countBound ∧
    (Evolution.mk countlessSwaps ⟨m, .roundTrip⟩).HasRoom ∧
    let h := (Evolution.mk countlessSwaps ⟨m, .roundTrip⟩).history (fun _ => 0) twelveZeros
    (h.result = .error .exhausted ∨
    ((∃ fault, h.result = .error fault) ↔
      countlessSwaps.mutation.Overflows ∧ elites < countlessSwaps.populationSize ∧
      ∃ g, h.generations.head? = some g ∧
        (Evolution.mk countlessSwaps ⟨m, .roundTrip⟩).termination? g 0 = none) ∧
    ∀ fault, h.result = .error fault → fault = .overflow) ∧
    ∃ g, h = ⟨[g], .error .overflow⟩ := by
  have hsample := run_sample_twelveZeros
  split at hsample
  · rename_i m hm
    split at hsample
    · rename_i i rest t hrun
      simp only [Bool.and_eq_true, decide_eq_true_eq] at hsample
      obtain ⟨⟨htwo, hranked⟩, hdraws⟩ := hsample
      have hone : 1 ≤ countlessSwaps.populationSize := by decide
      have hlimit : countlessSwaps.generationLimit < Text.countBound := by decide
      have hpopulation : countlessSwaps.populationSize ≤ capacity individualWords := by decide
      have hsize : countlessSwaps.selection.tournamentSize ≤ capacity stopWords := by decide
      have hroom : (Evolution.mk countlessSwaps ⟨m, .roundTrip⟩).HasRoom :=
        ⟨hpopulation, hsize, htwo.trans_le (by decide)⟩
      have hover : countlessSwaps.mutation.Overflows := Nat.le_refl Text.countBound
      have hbred : elites < countlessSwaps.populationSize := by decide
      have hstart : (Evolution.mk countlessSwaps ⟨m, .roundTrip⟩).start.run twelveZeros =
          (.ok ⟨0, i, rest⟩, t) :=
        start_of_ranked hrun hranked
      have hhistory := history_of_overflows hover hbred (fun _ => 0) hstart rfl
        (isOk_children_countlessSwaps _ (List.cons_ne_nil _ _) hdraws)
      exact ⟨m, hm, hone, hlimit, hroom,
        history_fault_iff hm hone hlimit hroom (fun _ => 0) twelveZeros, _, hhistory⟩
    · cases hsample
  · cases hsample

end RoadTrip.Evolution
