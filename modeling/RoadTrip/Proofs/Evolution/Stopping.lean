import RoadTrip.Proofs.Evolution.Faults

/-!
# How a search stops

The three reasons to stop, by what each of them says of a generation, and what follows for a whole
search (`Evolution.StopsAt`): it shows the generations from the initial one to the one that it
returns, in this order, and that is the first one with a reason to stop. A search without a limit
on the time comes to such an end unless one of its draws or operators fails (`OperatorsReturn`).
-/

namespace RoadTrip

/-- Whether a fault comes from making a member of a route, not from a draw or an operator. -/
def Fault.ofMember : Fault → Bool
  | .incomparableFitness | .partialRoute | .unknownStop | .invalidOffspring => true
  | _ => false

namespace Evolution

open Draw

variable {α : Type} [Cost α] {e : Evolution α} {g : Generation α}

/-! ## Reasons to stop -/

/-- The best member of a generation costs no more than the limit, if there is one. -/
def Reached (e : Evolution α) (g : Generation α) : Prop :=
  ∃ limit, e.config.fitnessLimit = some limit ∧ Cost.le g.best.fitness.cost limit = true

/-- The time that a search may take has passed, if it is limited. -/
def TimeIsUp (e : Evolution α) (time : Nat) : Prop :=
  ∃ limit, e.config.timeLimit = some limit ∧ limit * 1000000000 ≤ time

section

variable {time : Nat}

theorem any_fitnessLimit :
    e.config.fitnessLimit.any (Cost.le g.best.fitness.cost ·) = true ↔ e.Reached g := by
  simp [Reached, Option.any_eq_true]

omit [Cost α] in
theorem any_timeLimit :
    e.config.timeLimit.any (fun limit => decide (limit * 1000000000 ≤ time)) = true ↔
      e.TimeIsUp time := by
  simp [TimeIsUp, Option.any_eq_true]

theorem termination?_eq_none_iff : e.termination? g time = none ↔
    ¬e.Reached g ∧ g.number < e.config.generationLimit ∧ ¬e.TimeIsUp time := by
  rw [← any_fitnessLimit, ← any_timeLimit, termination?]
  grind

theorem termination?_eq_fitnessReached_iff :
    e.termination? g time = some .fitnessReached ↔ e.Reached g := by
  rw [← any_fitnessLimit, termination?]
  grind

theorem termination?_eq_generationLimit_iff : e.termination? g time = some .generationLimit ↔
    ¬e.Reached g ∧ e.config.generationLimit ≤ g.number := by
  rw [← any_fitnessLimit, termination?]
  grind

theorem termination?_eq_timeLimit_iff : e.termination? g time = some .timeLimit ↔
    ¬e.Reached g ∧ g.number < e.config.generationLimit ∧ e.TimeIsUp time := by
  rw [← any_fitnessLimit, ← any_timeLimit, termination?]
  grind

/-- A limit that does not compare with itself is reached by no cost. -/
theorem not_reached_of_incomparable [OrderedCost α] {limit : α}
    (hlimit : e.config.fitnessLimit = some limit) (hcomparable : Cost.isComparable limit = false) :
    ¬e.Reached g := by
  rintro ⟨limit', hlimit', hle⟩
  rw [hlimit] at hlimit'
  cases hlimit'
  rw [(OrderedCost.comparable_of_le hle).2] at hcomparable
  cases hcomparable

end

/-! ## The end of a search -/

/-- The search `h` ends with `o`, for a reason other than the time. -/
structure StopsAt (e : Evolution α) (h : History α) (o : Outcome α) : Prop where
  result : h.result = .ok o
  numbers : h.generations.map (·.number) = List.range (o.last.number + 1)
  last : h.generations.getLast? = some o.last
  number_le : o.last.number ≤ e.config.generationLimit
  fitnessReached_iff : o.termination = .fitnessReached ↔ e.Reached o.last
  generationLimit : ¬e.Reached o.last →
    o.termination = .generationLimit ∧ o.last.number = e.config.generationLimit
  not_reached : ∀ g ∈ h.generations, g.number < o.last.number → ¬e.Reached g
  /-- A limit that does not compare with itself stops nothing. -/
  incomparable : ∀ limit, e.config.fitnessLimit = some limit → Cost.isComparable limit = false →
    o.termination = .generationLimit

section

variable {σ : Type} [Source σ] {clock : Nat → Nat} {s : σ} {l : List (Generation α)}
  {r : Except Fault (Outcome α)}

/-- The numbers of the generations before the last one, and its own. -/
theorem Course.map_number_append {before : List (Generation α)} {last : Generation α}
    (h : Course e clock g s (before ++ [last]) r) :
    before.map (·.number) = List.range' g.number before.length ∧
      last.number = g.number + before.length := by
  have hnumbers := h.map_number
  rw [List.length_append, List.length_singleton, List.range'_1_concat, List.map_append] at hnumbers
  obtain ⟨hbefore, hlast⟩ := List.append_inj' hnumbers rfl
  exact ⟨hbefore, (List.cons.inj hlast).1⟩

/-- A run from the initial generation on that ends well breeds no more generations than it may. -/
theorem Course.number_le {o : Outcome α} (hg : g.number = 0) (h : Course e clock g s l (.ok o)) :
    o.last.number ≤ e.config.generationLimit := by
  obtain ⟨before, rfl, -, hbefore⟩ := h.exists_append rfl
  obtain ⟨hnumbers, hlast⟩ := h.map_number_append
  rw [hg, Nat.zero_add] at hlast
  rcases Nat.eq_zero_or_pos before.length with hempty | hpos
  · rw [hlast, hempty]
    exact Nat.zero_le _
  · have hmem : before.length - 1 ∈ before.map (·.number) := by
      rw [hnumbers, hg, List.mem_range'_1]
      omega
    obtain ⟨previous, hprevious, hnumber⟩ := List.mem_map.1 hmem
    have hlimit := e.number_lt_of_termination?_eq_none (hbefore previous hprevious)
    omega

/-- A run that ends well shows the generations up to that which it returns, which is the first one
with a reason to stop. -/
theorem Course.stopsAt [OrderedCost α] {o : Outcome α} (htime : e.config.timeLimit = none)
    (hg : g.number = 0) (h : Course e clock g s l (.ok o)) : e.StopsAt ⟨l, .ok o⟩ o := by
  have hle := h.number_le hg
  obtain ⟨before, rfl, hlast, hbefore⟩ := h.exists_append rfl
  obtain ⟨hnumbers, hnumber⟩ := h.map_number_append
  have hreason : o.termination = .fitnessReached ∨ o.termination = .generationLimit := by
    rcases o with ⟨last, _ | _ | _⟩
    · exact .inl rfl
    · exact .inr rfl
    · obtain ⟨limit, hlimit, -⟩ := (termination?_eq_timeLimit_iff.1 hlast).2.2
      rw [htime] at hlimit
      cases hlimit
  have hfitness : o.termination = .fitnessReached ↔ e.Reached o.last := by
    rw [← termination?_eq_fitnessReached_iff, hlast, Option.some.injEq]
  have hgenerations (hreached : ¬e.Reached o.last) : o.termination = .generationLimit :=
    hreason.resolve_left fun ht => hreached (hfitness.1 ht)
  constructor
  case result => rfl
  case numbers =>
    rw [h.map_number, hg, hnumber, hg, Nat.zero_add, List.length_append, List.length_singleton,
      List.range_eq_range']
  case last => exact List.getLast?_concat
  case number_le => exact hle
  case fitnessReached_iff => exact hfitness
  case generationLimit =>
    intro hreached
    have ht := hgenerations hreached
    rw [ht] at hlast
    exact ⟨ht, Nat.le_antisymm hle (termination?_eq_generationLimit_iff.1 hlast).2⟩
  case not_reached =>
    intro h hh hlt
    rcases List.mem_append.1 hh with hh | hh
    · exact (termination?_eq_none_iff.1 (hbefore h hh)).1
    · rw [List.mem_singleton.1 hh] at hlt
      exact absurd hlt (Nat.lt_irrefl _)
  case incomparable =>
    intro limit hlimit hcomparable
    exact hgenerations (not_reached_of_incomparable hlimit hcomparable)

/-! ## That it comes to an end -/

/-- `Reaches e clock g s h t` says that a run from `g` on, with `s` to draw from, comes to the
generation `h` with `t` left to draw from. -/
inductive Reaches (e : Evolution α) (clock : Nat → Nat) :
    Generation α → σ → Generation α → σ → Prop where
  | here {g : Generation α} {s : σ} : Reaches e clock g s g s
  | bred {g next h : Generation α} {s t u : σ}
      (hstop : e.termination? g (clock g.number) = none)
      (hbreed : (e.breed g).run s = (.ok next, t)) (hreach : Reaches e clock next t h u) :
      Reaches e clock g s h u

/-- No draw and no operator of a run from `g` on fails. Only the making of a member might. -/
def OperatorsReturn (e : Evolution α) (clock : Nat → Nat) (g : Generation α) (s : σ) : Prop :=
  ∀ {h : Generation α} {t u : σ} {fault : Fault}, Reaches e clock g s h t →
    e.termination? h (clock h.number) = none → (e.offspring h).run t = (.error fault, u) →
    fault.ofMember = true

theorem OperatorsReturn.next {next : Generation α} {t : σ} (h : e.OperatorsReturn clock g s)
    (hstop : e.termination? g (clock g.number) = none)
    (hbreed : (e.breed g).run s = (.ok next, t)) : e.OperatorsReturn clock next t :=
  fun hreach => h (.bred hstop hbreed hreach)

/-- Members can be made of all routes that the operators give. -/
theorem ofMember_eq_false_of_offspring [LawfulCost α] (hm : e.trip.matrix.Valid) (hg : g.Sound e)
    {t : σ} {fault : Fault} (hrun : (e.offspring g).run s = (.error fault, t)) :
    fault.ofMember = false := by
  have hfaults : e.FaultsIn (·.ofMember = false) := {
    select := fun hp => e.config.selection.ensures_selectPair_any hp rfl rfl
    mutate := fun _ => rfl
    evaluate := fun _ _ hr hfault => absurd hfault (not_evaluate_error hm hr) }
  rcases (ensures_offspring hfaults hg.visits).of_error hrun with hfault | rfl
  · exact hfault
  · rfl

/-- **A run comes to an end** unless a draw or an operator fails, and the counter does not
overflow on the way. -/
theorem Course.exists_outcome [LawfulCost α] (hm : e.trip.matrix.Valid)
    (hlimit : e.config.generationLimit < Text.countBound) (h : Course e clock g s l r)
    (hg : g.Sound e) (hreturn : e.OperatorsReturn clock g s) : ∃ o, r = .ok o := by
  induction h with
  | stopped _ => exact ⟨_, rfl⟩
  | @failed g s t fault hstop hbreed =>
    have hnumber := e.number_lt_of_termination?_eq_none hstop
    rcases hoffspring : (e.offspring g).run s with ⟨fault' | p, u⟩
    · have hmember := hreturn .here hstop hoffspring
      rw [ofMember_eq_false_of_offspring hm hg hoffspring] at hmember
      cases hmember
    · obtain ⟨bred, rfl, -⟩ := (ensures_offspring faultsIn_any hg.visits).of_ok hoffspring
      obtain ⟨next, hnext, -⟩ := exists_breed (by omega) (List.cons_ne_nil _ _) hoffspring
      rw [hbreed] at hnext
      cases hnext
  | bred hstop hbreed _ ih =>
    exact ih ((bred_of_breed hg hbreed).sound hg) (hreturn.next hstop hbreed)

/-- **How a search stops.** Without a limit on the time it comes to an end if its draws and
operators do, and `StopsAt` says where. With no time to spend it ends where it starts, if there is
no other reason to. -/
theorem history_stopsAt [LawfulCost α] {names : List String} {entries : List (CostEntry α)}
    (hm : CostMatrix.ofEntries names entries = .ok e.trip.matrix)
    (hlimit : e.config.generationLimit < Text.countBound) (clock : Nat → Nat) {t : σ}
    (hstart : e.start.run s = (.ok g, t)) :
    (e.config.timeLimit = none → e.OperatorsReturn clock g t →
      ∃ o, e.StopsAt (e.history clock s) o) ∧
    (e.config.timeLimit = some 0 → ¬e.Reached g → 0 < e.config.generationLimit →
      e.history clock s = ⟨[g], .ok ⟨g, .timeLimit⟩⟩) := by
  have hg := sound_of_start (one_le_of_start hstart) hstart
  have hnumber := start_number hstart
  have hcourse := course_history clock hstart
  generalize e.history clock s = h at hcourse ⊢
  rcases h with ⟨l, r⟩
  refine ⟨fun htime hreturn => ?_, fun htime hreached hpos => ?_⟩
  · have hm := CostMatrix.valid_of_ofEntries hm
    obtain ⟨o, rfl⟩ := hcourse.exists_outcome hm hlimit hg hreturn
    exact ⟨o, hcourse.stopsAt htime hnumber⟩
  · have hstop : e.termination? g (clock g.number) = some .timeLimit :=
      termination?_eq_timeLimit_iff.2 ⟨hreached, hnumber ▸ hpos, 0, htime, by omega⟩
    cases hcourse with
    | stopped hreason => rw [hstop] at hreason; cases hreason; rfl
    | failed hnone _ | bred hnone _ _ => rw [hstop] at hnone; cases hnone

end

/-- Three routes, and one generation after the initial one. -/
def onceMore (timeLimit : Option Nat) : Config Float :=
  { Config.default with populationSize := 3, generationLimit := 1, timeLimit }

def zeros : Script := ⟨List.replicate 16 0, 0⟩

/-- Sixteen words are enough for three ranked founders of a trip there and back, and for the
members of the next generation. -/
theorem run_offspring_zeros :
    (match CostMatrix.ofEntries ["A", "B"] [⟨"A", "B", (1.0 : Float)⟩] with
    | .ok m =>
      match (Population.random ⟨m, .roundTrip⟩ 3).run zeros with
      | (.ok (i :: rest), t) =>
        decide ((i :: rest).Pairwise fun a b => a.fitness.le b.fitness = true) &&
          (((Evolution.mk (onceMore none) ⟨m, .roundTrip⟩).offspring ⟨0, i, rest⟩).run t).1.isOk
      | _ => false
    | .error _ => false) = true := by
  decide +kernel

/-- A search there and back that breeds once, and one that has no time to. -/
theorem history_stopsAt_onceMore : ∃ m : CostMatrix Float,
    CostMatrix.ofEntries ["A", "B"] [⟨"A", "B", 1.0⟩] = .ok m ∧
    let e (timeLimit : Option Nat) : Evolution Float := ⟨onceMore timeLimit, ⟨m, .roundTrip⟩⟩
    (∀ timeLimit, (e timeLimit).config.generationLimit < Text.countBound) ∧
    ∃ g t, (∀ timeLimit, (e timeLimit).start.run zeros = (.ok g, t)) ∧
      (e none).OperatorsReturn (fun _ => 0) g t ∧
      (∃ o, (e none).StopsAt ((e none).history (fun _ => 0) zeros) o) ∧
      ¬(e (some 0)).Reached g ∧
      (e (some 0)).history (fun _ => 0) zeros = ⟨[g], .ok ⟨g, .timeLimit⟩⟩ := by
  have hoffspring := run_offspring_zeros
  split at hoffspring
  · rename_i m hm
    split at hoffspring
    · rename_i i rest t hrun
      rw [Bool.and_eq_true, decide_eq_true_eq] at hoffspring
      obtain ⟨hranked, hok⟩ := hoffspring
      have hlimit : 1 < Text.countBound := by decide
      have hstart (timeLimit : Option Nat) :
          (Evolution.mk (onceMore timeLimit) ⟨m, .roundTrip⟩).start.run zeros =
            (.ok ⟨0, i, rest⟩, t) :=
        start_of_ranked hrun hranked
      have hreturn : (Evolution.mk (onceMore none) ⟨m, .roundTrip⟩).OperatorsReturn (fun _ => 0)
          ⟨0, i, rest⟩ t := by
        intro h u v fault hreach hstop hfault
        have hnumber := number_lt_of_termination?_eq_none _ hstop
        -- the run only breeds from the initial generation
        cases hreach with
        | here =>
          rw [hfault] at hok
          cases hok
        | bred _ hbreed hreach =>
          have hone := breed_number _ hbreed
          cases hreach with
          | here => exact absurd hnumber (hone ▸ Nat.lt_irrefl 1)
          | bred hstop _ _ =>
            exact absurd (number_lt_of_termination?_eq_none _ hstop) (hone ▸ Nat.lt_irrefl 1)
      have hreached : ¬(Evolution.mk (onceMore (some 0)) ⟨m, .roundTrip⟩).Reached ⟨0, i, rest⟩ := by
        rintro ⟨limit, hlimit, -⟩
        cases hlimit
      exact ⟨m, hm, fun _ => hlimit, _, t, hstart, hreturn,
        (history_stopsAt hm hlimit (fun _ => 0) (hstart none)).1 rfl hreturn, hreached,
        (history_stopsAt hm hlimit (fun _ => 0) (hstart (some 0))).2 rfl hreached Nat.one_pos⟩
    · cases hoffspring
  · cases hoffspring

end Evolution

end RoadTrip
