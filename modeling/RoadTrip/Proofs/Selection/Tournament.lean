import Mathlib.Data.List.FinRange
import Mathlib.Data.List.NodupEquivFin
import RoadTrip.Proofs.Cost.Binary64
import RoadTrip.Proofs.Ranking
import RoadTrip.Proofs.Selection
import RoadTrip.Random.Script

/-!
# Who wins a tournament

A tournament draws the positions of its sample one after the other and is won by the first two
slots of the sample in stable ascending order (`StableOrder`): the earliest slot of least cost, and
the earliest one of least cost among the others. A slot is told by when it was drawn, so the two
are different ones even where they hold the same member. A sample that there cannot be room for is
refused before anything is drawn.
-/

namespace RoadTrip

open Draw

variable {α β : Type}

/-! ## Stable sorting -/

/-- Elements that compare alike keep the order in which they were given. -/
theorem pairwise_mergeSort_stable {le : β → β → Bool} {r : β → β → Prop}
    (htrans : ∀ a b c, le a b = true → le b c = true → le a c = true)
    (htotal : ∀ a b, (le a b || le b a) = true) {l : List β} (hl : l.Pairwise r) :
    (l.mergeSort le).Pairwise fun a b => le a b = true ∧ (le b a = true → r a b) := by
  induction l with
  | nil => simp
  | cons a rest ih =>
    obtain ⟨ha, hrest⟩ := List.pairwise_cons.1 hl
    obtain ⟨before, after, hsort, hsplit, hbefore⟩ := List.mergeSort_cons htrans htotal a rest
    have hsorted := List.pairwise_mergeSort htrans htotal (a :: rest)
    have hordered := ih hrest
    have hmem (b : β) (hb : b ∈ after) : b ∈ rest := by
      rw [← List.mem_mergeSort, hsplit]
      exact List.mem_append_right before hb
    -- the first element goes behind those only that it is strictly greater than
    rw [hsort, List.pairwise_append, List.pairwise_cons] at hsorted ⊢
    rw [hsplit, List.pairwise_append] at hordered
    obtain ⟨-, ⟨hafter, -⟩, hacross⟩ := hsorted
    refine ⟨hordered.1, ⟨fun b hb => ⟨hafter b hb, fun _ => ha b (hmem b hb)⟩, hordered.2.1⟩,
      fun b hb c hc => ?_⟩
    rcases List.mem_cons.1 hc with rfl | hc
    · refine ⟨hacross b hb c List.mem_cons_self, fun hcb => ?_⟩
      have := hbefore b hb
      simp [hcb] at this
    · exact hordered.2.2 b hb c hc

variable [Cost α] {p : Population α} {sample : List (Fin p.length)}

/-! ## Slots -/

/-- The fitness of the member that was drawn into a slot. -/
def slotFitness (sample : List (Fin p.length)) (slot : Fin sample.length) : Fitness α :=
  (p.get (sample.get slot)).fitness

/-- The slots of a sample in ascending order, those of the same cost as they were drawn. -/
structure StableOrder (sample : List (Fin p.length)) (order : List (Fin sample.length)) :
    Prop where
  perm : order.Perm (List.finRange sample.length)
  ascending : order.Pairwise fun a b => (slotFitness sample a).le (slotFitness sample b) = true ∧
    ((slotFitness sample b).le (slotFitness sample a) = true → a < b)

/-- Ranking a sample is ranking its slots. -/
theorem exists_stableOrder [OrderedCost α] (sample : List (Fin p.length)) :
    ∃ order, StableOrder sample order ∧ p.rankPositions sample = order.map sample.get := by
  refine ⟨(List.finRange sample.length).mergeSort fun a b =>
    (slotFitness sample a).le (slotFitness sample b), ⟨List.mergeSort_perm _ _, ?_⟩, ?_⟩
  · refine pairwise_mergeSort_stable (fun a b c hab hbc => ?_) (fun a b => ?_)
      (List.pairwise_lt_finRange _)
    · exact Fitness.le_trans hab hbc
    · rw [Bool.or_eq_true]
      exact Fitness.le_total _ _
  · have hslots : sample.map (fun i => (i, (p.get i).fitness)) =
        (List.finRange sample.length).map fun a => (sample.get a, slotFitness sample a) := by
      conv_lhs => rw [← List.map_get_finRange sample]
      rw [List.map_map]
      rfl
    have hsort := List.map_mergeSort (r := fun a b => (slotFitness sample a).le
      (slotFitness sample b)) (s := fun a b => a.2.le b.2) (l := List.finRange sample.length)
      (f := fun a => (sample.get a, slotFitness sample a)) fun _ _ _ _ => rfl
    unfold Population.rankPositions
    dsimp only
    rw [hslots, ← hsort, List.map_map]
    rfl

/-- The two slots that win: the earliest one of least cost, and the earliest one of least cost among
the others. -/
structure Wins (sample : List (Fin p.length)) (first second : Fin sample.length) : Prop where
  first_least : ∀ slot, (slotFitness sample first).le (slotFitness sample slot) = true ∧
    ((slotFitness sample slot).le (slotFitness sample first) = true → first ≤ slot)
  second_least : ∀ slot, slot ≠ first →
    (slotFitness sample second).le (slotFitness sample slot) = true ∧
      ((slotFitness sample slot).le (slotFitness sample second) = true → second ≤ slot)
  ne : first ≠ second
  /-- The same member wins both only if it was drawn at least twice. -/
  twice : sample.get first = sample.get second → 2 ≤ sample.count (sample.get first)

namespace StableOrder

variable {first second : Fin sample.length} {rest : List (Fin sample.length)}

/-- The first two slots in stable ascending order win. -/
theorem wins (h : StableOrder sample (first :: second :: rest)) : Wins sample first second := by
  have hmem (slot : Fin sample.length) : slot ∈ first :: second :: rest :=
    h.perm.mem_iff.2 (List.mem_finRange slot)
  obtain ⟨hfirst, hsecond⟩ := List.pairwise_cons.1 h.ascending
  have hsecond := (List.pairwise_cons.1 hsecond).1
  have hne : first ≠ second := by
    have hnodup := h.perm.nodup_iff.2 (List.nodup_finRange _)
    rintro rfl
    exact (List.nodup_cons.1 hnodup).1 List.mem_cons_self
  refine ⟨fun slot => ?_, fun slot hslot => ?_, hne, fun htwice => ?_⟩
  · rcases List.mem_cons.1 (hmem slot) with rfl | hslot
    · exact ⟨Fitness.le_refl _, fun _ => le_refl _⟩
    · exact ⟨(hfirst slot hslot).1, fun hle => ((hfirst slot hslot).2 hle).le⟩
  · rcases List.mem_cons.1 ((List.mem_cons.1 (hmem slot)).resolve_left hslot) with rfl | hrest
    · exact ⟨Fitness.le_refl _, fun _ => le_refl _⟩
    · exact ⟨(hsecond slot hrest).1, fun hle => ((hsecond slot hrest).2 hle).le⟩
  · rw [← List.duplicate_iff_two_le_count, List.duplicate_iff_exists_distinct_get]
    rcases lt_or_gt_of_ne hne with hlt | hlt
    · exact ⟨first, second, hlt, rfl, htwice⟩
    · exact ⟨second, first, hlt, htwice, rfl⟩

end StableOrder

/-! ## Tournaments -/

variable {σ : Type} [Source σ] {size : Nat}

theorem tournamentPair_eq (hsize : 2 ≤ size) (hroom : size ≤ capacity stopWords) :
    tournamentPair p size = (Draw.times size (Draw.index .full p.length)).bind fun sample =>
      match p.rankPositions sample with
      | first :: second :: _ => .pure (first, second)
      | _ => .fail .loneTournament := by
  unfold tournamentPair Draw.reserve
  rw [if_neg (by omega), if_pos hroom]
  rfl

/-- There is no room for the sample of a larger tournament. -/
theorem tournamentPair_of_noRoom (hsize : 2 ≤ size) (hroom : capacity stopWords < size) :
    tournamentPair p size = .fail .noRoom := by
  unfold tournamentPair Draw.reserve
  rw [if_neg (by omega), if_neg (by omega)]
  rfl

theorem length_of_run_times {n : Nat} {g t : σ} {sample : List (Fin n)}
    (h : (Draw.times size (Draw.index .full n)).run g = (.ok sample, t)) :
    sample.length = size := by
  have hindex : (Draw.index .full n).Ensures (fun _ => True) fun _ => True := ensures_any _
  exact ((ensures_times hindex size).of_ok h).1

theorem run_tournamentPair [OrderedCost α] (hsize : 2 ≤ size) (hroom : size ≤ capacity stopWords)
    {g t : σ} (hdraws : (Draw.times size (Draw.index .full p.length)).run g = (.ok sample, t)) :
    ∃ first second rest, StableOrder sample (first :: second :: rest) ∧
      (tournamentPair p size).run g = (.ok (sample.get first, sample.get second), t) := by
  obtain ⟨order, horder, hranked⟩ := exists_stableOrder sample
  have hlength : order.length = size := by
    rw [horder.perm.length_eq, List.length_finRange, length_of_run_times hdraws]
  match order, hlength with
  | [], hlength => exact absurd hlength (by simp; omega)
  | [_], hlength => exact absurd hlength (by simp; omega)
  | first :: second :: rest, _ =>
    refine ⟨first, second, rest, horder, ?_⟩
    rw [tournamentPair_eq hsize hroom, run_bind, hdraws]
    simp only [hranked, List.map_cons]
    rfl

/-- **A tournament is won by the two best slots of its sample.** It draws as many positions as it
has slots, if there can be room for so many, and nothing else. The first two slots in stable
ascending order win, and no other one is better than them. -/
theorem tournamentPair_wins (p : Population Float) (hsize : 2 ≤ size) (g : σ) :
    (size ≤ capacity stopWords → ∀ sample t,
      (Draw.times size (Draw.index .full p.length)).run g = (.ok sample, t) →
      sample.length = size ∧ ∃ first second rest,
        (tournamentPair p size).run g = (.ok (sample.get first, sample.get second), t) ∧
        StableOrder sample (first :: second :: rest) ∧ Wins sample first second) ∧
    (capacity stopWords < size → (tournamentPair p size).run g = (.error .noRoom, g)) := by
  refine ⟨fun hroom sample t hdraws => ⟨length_of_run_times hdraws, ?_⟩, fun hroom => ?_⟩
  · obtain ⟨first, second, rest, horder, hrun⟩ := run_tournamentPair hsize hroom hdraws
    exact ⟨first, second, rest, hrun, horder, horder.wins⟩
  · rw [tournamentPair_of_noRoom hsize hroom]
    rfl

/-- Three members, the last two of which cost the same and are drawn the other way round, the last
one twice. -/
theorem tournamentPair_wins_tie :
    let p : Population Float :=
      [⟨⟨[0, 1]⟩, ⟨2.0, by decide +kernel⟩, 0⟩, ⟨⟨[1, 0]⟩, ⟨1.0, by decide +kernel⟩, 0⟩,
        ⟨⟨[1, 0]⟩, ⟨1.0, by decide +kernel⟩, 1⟩]
    let g := Script.mk [0, 16140901064495857664, 9223372036854775808, 16140901064495857664] 0
    2 ≤ 4 ∧ 4 ≤ capacity stopWords ∧ ∃ sample t,
      (Draw.times 4 (Draw.index .full p.length)).run g = (.ok sample, t) ∧ sample.length = 4 ∧
      ∃ first second rest,
        (tournamentPair p 4).run g = (.ok (sample.get first, sample.get second), t) ∧
        StableOrder sample (first :: second :: rest) ∧ Wins sample first second := by
  intro p g
  have hok : ((Draw.times 4 (Draw.index .full p.length)).run g).1.isOk = true := by decide +kernel
  cases hdraws : (Draw.times 4 (Draw.index .full p.length)).run g with
  | mk result t =>
    cases result with
    | error fault =>
      rw [hdraws] at hok
      cases hok
    | ok sample =>
      have hwins := (tournamentPair_wins p (by decide) g).1 (by decide) sample t hdraws
      exact ⟨by decide, by decide, sample, t, rfl, hwins⟩

/-! ## Samples without room -/

theorem below_zeros (rest : List UInt64) (used : Nat) :
    Source.below .full 1 (Script.mk (0 :: rest) used) = (some 0, Script.mk rest (used + 1)) := by
  rw [Source.below]
  rfl

/-- Zeros give any number of draws. -/
theorem run_times_zeros (count used : Nat) (drawn : List (Fin 1)) :
    ∃ sample t, (Draw.times.go (Draw.index .full 1) count drawn).run
      (Script.mk (List.replicate count 0) used) = (.ok sample, t) := by
  induction count generalizing used drawn with
  | zero => exact ⟨drawn.reverse, _, rfl⟩
  | succ count ih =>
    obtain ⟨sample, t, hrun⟩ := ih (used + 1) (0 :: drawn)
    refine ⟨sample, t, ?_⟩
    have hstep : Draw.times.go (Draw.index .full 1) (count + 1) drawn =
        .number .full 1 fun i => Draw.times.go (Draw.index .full 1) count (i :: drawn) := rfl
    rw [List.replicate_succ, hstep, Draw.run, below_zeros]
    exact hrun

/-- **The draws of a tournament may all return where there is no room for its sample.** -/
theorem exists_draws_noRoom :
    let p : Population Float := [⟨⟨[0, 1]⟩, ⟨1.0, by decide +kernel⟩, 0⟩]
    let size := 1152921504606846976
    let g := Script.mk (List.replicate size 0) 0
    p ≠ [] ∧ 2 ≤ size ∧
      (∃ sample t, (Draw.times size (Draw.index .full p.length)).run g = (.ok sample, t)) ∧
      (tournamentPair p size).run g = (.error .noRoom, g) ∧
      ¬∃ pair t, (tournamentPair p size).run g = (.ok pair, t) := by
  intro p size g
  have hrun : (tournamentPair p size).run g = (.error .noRoom, g) := by
    rw [tournamentPair_of_noRoom (by decide) (by decide)]
    rfl
  refine ⟨List.cons_ne_nil _ _, by decide, run_times_zeros size 0 [], hrun, ?_⟩
  rintro ⟨pair, t, hpair⟩
  rw [hrun] at hpair
  cases hpair

end RoadTrip
