import RoadTrip.Proofs.Cost.Binary64.Faithful
import RoadTrip.Proofs.Population
import RoadTrip.Proofs.Selection

/-!
# When proportional selection holds a tournament

The weights of a population whose costs are not negative are usable unless they are infinite: none
is negative, and the best member alone weighs more than nothing, because a difference between costs
that are not equal is not rounded to zero. So the only reasons to hold a tournament instead are
infinite costs, spreads and sums of weights (`proportionalPair?_eq_none_iff`), which are found out
before anything is drawn.
-/

namespace RoadTrip

open Draw Population

variable {α : Type} [Cost α] {p : Population α} {least greatest : α}

/-- Two positions drawn with equal chances. -/
def evenPair (p : Population α) : Draw (Pair p) := do
  let first ← Draw.position p.length
  let second ← Draw.position p.length
  return (first, second)

/-- Each of the two draws is a single one, and it has all positions for its outcomes. -/
theorem exists_evenPair_eq (hp : p ≠ []) : ∃ width, evenPair p =
    .number width p.length fun first => .number width p.length fun second =>
      .pure (first, second) := by
  have hlength : p.length ≠ 0 := mt List.length_eq_zero_iff.1 hp
  unfold evenPair Draw.position Draw.index
  rw [if_neg hlength]
  exact ⟨_, rfl⟩

/-- Two positions drawn with the chances of a wheel. -/
def Wheel.spinPair (w : Wheel α) (p : Population α) : Draw (Pair p) := do
  let first ← w.spin p.length
  let second ← w.spin p.length
  return (first, second)

/-- The decisions of proportional selection, which only depend on the extremes and the weights. -/
theorem proportionalPair?_eq
    (h : extremes? (p.map (·.fitness.cost)) = some (least, greatest)) :
    proportionalPair? p =
      if Cost.isFinite greatest = false ∨ Cost.isFinite (Cost.sub greatest least) = false then none
      else if Cost.same (Cost.sub greatest least) Cost.zero = true then some (evenPair p)
      else if Cost.isFinite (Cost.sum (weights p least greatest)) = false then none
      else (Wheel.ofWeights? (weights p least greatest)).map (·.spinPair p) := by
  unfold proportionalPair?
  rw [h]
  simp only [Bool.or_eq_true, Bool.not_eq_true']
  rfl

/-- Weights that are not negative and do not add up to nothing make a wheel. -/
theorem Wheel.exists_ofWeights? [LawfulCost α] {weights : List α}
    (h : ∀ c ∈ weights, Cost.le Cost.zero c = true)
    (hsum : Cost.lt Cost.zero (Cost.sum weights) = true) (hne : weights ≠ []) :
    ∃ w, ofWeights? weights = some w ∧ w.total = Cost.sum weights := by
  obtain ⟨weight, rest, rfl⟩ := List.exists_cons_of_ne_nil hne
  have htotal := (layOut_eq weight rest).2.trans (Cost.sum_cons weight rest).symm
  have hnonneg : ¬((weight :: rest).any fun w => Cost.lt w Cost.zero) = true := by
    rw [List.any_eq_true]
    rintro ⟨c, hc, hlt⟩
    rw [Cost.lt_iff, h c hc] at hlt
    cases hlt.2
  have hpos : ¬Cost.same (layOut weight rest).2 Cost.zero = true := by
    rw [htotal, Cost.same_iff, (Cost.lt_iff.1 hsum).2]
    exact fun hsame => nomatch hsame.1
  refine ⟨⟨(layOut weight rest).1, (layOut weight rest).2⟩, ?_, htotal⟩
  rw [ofWeights?_cons, if_neg hnonneg, if_neg hpos]

/-! ## Weights -/

section

variable (hx : Extremes (p.map (·.fitness.cost)) least greatest)

include hx

theorem length_pos_of_extremes : 0 < p.length := by
  obtain ⟨i, hi, -⟩ := List.mem_map.1 hx.least_mem
  exact List.length_pos_of_mem hi

theorem weights_ne_nil : weights p least greatest ≠ [] := by
  rw [← List.length_pos_iff, length_weights]
  exact length_pos_of_extremes hx

variable (hzero : ∀ i ∈ p, Cost.le Cost.zero i.fitness.cost = true)

include hzero

theorem zero_le_least : Cost.le Cost.zero least = true := by
  obtain ⟨i, hi, rfl⟩ := List.mem_map.1 hx.least_mem
  exact hzero i hi

variable [FaithfulCost α] (hgreatest : Cost.isFinite greatest = true)

include hgreatest

theorem zero_le_spread : Cost.le Cost.zero (Cost.sub greatest least) = true :=
  FaithfulCost.zero_le_sub hgreatest (zero_le_least hx hzero)
    (hx.least_le greatest hx.greatest_mem)

/-- Members are weighed by how much cheaper they are than the most expensive one. -/
theorem zero_le_weights (hspread : Cost.isFinite (Cost.sub greatest least) = true) :
    ∀ w ∈ weights p least greatest, Cost.le Cost.zero w = true := by
  intro w hw
  obtain ⟨i, hi, rfl⟩ := List.mem_map.1 hw
  have hle := hx.le_greatest _ (List.mem_map.2 ⟨i, hi, rfl⟩)
  exact LawfulCost.zero_le_add (FaithfulCost.zero_le_sub hgreatest (hzero i hi) hle)
    (FaithfulCost.zero_le_share hspread (zero_le_spread hx hzero hgreatest)
      (length_pos_of_extremes hx))

/-- If all members cost the same, none has a weight. -/
theorem same_weights_zero (hsame : Cost.same (Cost.sub greatest least) Cost.zero = true) :
    ∀ w ∈ weights p least greatest, Cost.same w Cost.zero = true := by
  have hextremes := (FaithfulCost.same_sub_zero hgreatest (zero_le_least hx hzero)
    (hx.least_le greatest hx.greatest_mem)).1 hsame
  intro w hw
  obtain ⟨i, hi, rfl⟩ := List.mem_map.1 hw
  have hmem : i.fitness.cost ∈ p.map (·.fitness.cost) := List.mem_map.2 ⟨i, hi, rfl⟩
  have hdifference := (FaithfulCost.same_sub_zero hgreatest (hzero i hi)
    (hx.le_greatest _ hmem)).2 (hx.same hextremes hmem)
  exact FaithfulCost.same_add_zero hdifference
    (FaithfulCost.same_share_zero hsame (length_pos_of_extremes hx))

theorem isFinite_sum_weights (hsame : Cost.same (Cost.sub greatest least) Cost.zero = true) :
    Cost.isFinite (Cost.sum (weights p least greatest)) = true := by
  have hweights := same_weights_zero hx hzero hgreatest hsame
  obtain ⟨w, rest, hcons⟩ := List.exists_cons_of_ne_nil (weights_ne_nil hx)
  rw [hcons] at hweights ⊢
  obtain ⟨hw, hrest⟩ := List.forall_mem_cons.1 hweights
  rw [Cost.sum_cons]
  exact Cost.isFinite_of_same_zero (Cost.same_foldl_add_zero hw hrest)

/-- The best member alone weighs more than nothing, unless all members cost the same. -/
theorem zero_lt_sum_weights (hspread : Cost.isFinite (Cost.sub greatest least) = true)
    (hsame : Cost.same (Cost.sub greatest least) Cost.zero = false) :
    Cost.lt Cost.zero (Cost.sum (weights p least greatest)) = true := by
  have hzerospread := zero_le_spread hx hzero hgreatest
  have hpos : Cost.lt Cost.zero (Cost.sub greatest least) = true := by
    rw [Cost.lt_iff]
    refine ⟨hzerospread, ?_⟩
    simpa [Cost.same, hzerospread] using hsame
  obtain ⟨i, hi, hleast⟩ := List.mem_map.1 hx.least_mem
  have hshare : Cost.le Cost.zero (Cost.share (Cost.sub greatest least) p.length) = true :=
    FaithfulCost.zero_le_share hspread hzerospread (length_pos_of_extremes hx)
  -- rounding passes no cost, so the whole spread of the best member reaches the sum
  have hbest : Cost.add (Cost.sub greatest least)
      (Cost.share (Cost.sub greatest least) p.length) ∈ weights p least greatest :=
    List.mem_map.2 ⟨i, hi, by rw [hleast]⟩
  have hle := Cost.le_sum (zero_le_weights hx hzero hgreatest hspread) _ hbest
  exact Cost.lt_of_lt_of_le hpos
    (OrderedCost.le_trans (FaithfulCost.le_add_right hzerospread hshare) hle)

/-- The wheel of the weights of members that do not all cost the same. -/
theorem exists_wheel (hspread : Cost.isFinite (Cost.sub greatest least) = true)
    (hsame : Cost.same (Cost.sub greatest least) Cost.zero = false) :
    ∃ w, Wheel.ofWeights? (weights p least greatest) = some w ∧
      w.total = Cost.sum (weights p least greatest) ∧ Cost.lt Cost.zero w.total = true := by
  have hsum := zero_lt_sum_weights hx hzero hgreatest hspread hsame
  obtain ⟨w, hw, htotal⟩ := Wheel.exists_ofWeights?
    (zero_le_weights hx hzero hgreatest hspread) hsum (weights_ne_nil hx)
  exact ⟨w, hw, htotal, htotal.symm ▸ hsum⟩

/-! ## Decisions -/

variable (hpair : extremes? (p.map (·.fitness.cost)) = some (least, greatest))

omit hgreatest
include hpair

/-- **Nothing but infinite costs and weights stands against proportional selection.** -/
theorem proportionalPair?_eq_none_iff : proportionalPair? p = none ↔
    Cost.isFinite greatest = false ∨ Cost.isFinite (Cost.sub greatest least) = false ∨
      Cost.isFinite (Cost.sum (weights p least greatest)) = false := by
  rw [proportionalPair?_eq hpair]
  split
  · rename_i hinfinite
    exact iff_of_true rfl (hinfinite.imp_right .inl)
  · rename_i hinfinite
    simp only [not_or, Bool.not_eq_false] at hinfinite
    obtain ⟨hgreatest, hspread⟩ := hinfinite
    simp only [hgreatest, hspread, Bool.true_eq_false, false_or]
    split
    · rename_i hsame
      rw [isFinite_sum_weights hx hzero hgreatest hsame]
      exact iff_of_false nofun nofun
    · rename_i hsame
      split
      · rename_i hsum
        exact iff_of_true rfl hsum
      · rename_i hsum
        obtain ⟨w, hw, -⟩ :=
          exists_wheel hx hzero hgreatest hspread (Bool.eq_false_iff.2 hsame)
        rw [hw]
        exact iff_of_false nofun hsum

/-- What proportional selection draws from: the members with equal chances if all cost the same,
and otherwise a wheel that can be spun. -/
theorem eq_of_proportionalPair? {d : Draw (Pair p)} (h : proportionalPair? p = some d) :
    Cost.same least greatest = true ∧ d = evenPair p ∨
    Cost.same least greatest = false ∧
      ∃ w, Wheel.ofWeights? (weights p least greatest) = some w ∧
        Cost.isFinite w.total = true ∧ Cost.lt Cost.zero w.total = true ∧ d = w.spinPair p := by
  rw [proportionalPair?_eq hpair] at h
  split at h
  · cases h
  · rename_i hinfinite
    simp only [not_or, Bool.not_eq_false] at hinfinite
    obtain ⟨hgreatest, hspread⟩ := hinfinite
    have hequal := FaithfulCost.same_sub_zero hgreatest (zero_le_least hx hzero)
      (hx.least_le greatest hx.greatest_mem)
    split at h
    · rename_i hsame
      cases h
      exact .inl ⟨hequal.1 hsame, rfl⟩
    · rename_i hsame
      obtain ⟨w, hw, htotal, hpos⟩ :=
        exists_wheel hx hzero hgreatest hspread (Bool.eq_false_iff.2 hsame)
      split at h
      · cases h
      · rename_i hsum
        rw [hw] at h
        cases h
        rw [← htotal, Bool.not_eq_false] at hsum
        rw [hequal] at hsame
        exact .inr ⟨Bool.eq_false_iff.2 hsame, w, hw, hsum, hpos, rfl⟩

end

/-! ## Strategies -/

theorem Selection.selectPair_of_proportional (hp : p ≠ []) {s : Selection}
    (hs : s.strategy = .proportional) :
    s.selectPair p = (proportionalPair? p).getD (tournamentPair p s.tournamentSize) := by
  unfold selectPair
  rw [if_neg (by rwa [List.isEmpty_iff]), hs]

/-- What proportional selection does with a population whose costs lie between two of them. -/
structure FallsBack (p : Population Float) (least greatest : Float) : Prop where
  extremes : Extremes (p.map (·.fitness.cost)) least greatest
  /-- There is nothing to draw from only if the costs or the weights are infinite. -/
  eq_none_iff : proportionalPair? p = none ↔
    greatest.isInf = true ∨ (greatest - least).isInf = true ∨
      (Cost.sum (p.map fun i => greatest - i.fitness.cost +
        (greatest - least) / Float.ofNat p.length)).isInf = true
  /-- In that case a tournament is held, with all that the source had to give. -/
  tournament : proportionalPair? p = none → ∀ s : Selection, s.strategy = .proportional →
    ∀ {σ : Type} [Source σ] (g : σ),
      (s.selectPair p).run g = (tournamentPair p s.tournamentSize).run g
  /-- Otherwise two members are drawn from whatever source, unless it runs dry. -/
  pair : ∀ d, proportionalPair? p = some d → ∀ s : Selection, s.strategy = .proportional →
    ∀ {σ : Type} [Source σ] (g : σ), (s.selectPair p).run g = d.run g ∧
      ((∃ pair, (d.run g).1 = .ok pair) ∨ (d.run g).1 = .error .exhausted)
  /-- Members that all cost the same are drawn with equal chances, by two draws that both have all
  positions for their outcomes. -/
  even : ∀ d, proportionalPair? p = some d →
    (∀ i ∈ p, ∀ j ∈ p, Cost.same i.fitness.cost j.fitness.cost = true) → d = evenPair p ∧
      ∃ width, d = .number width p.length fun first => .number width p.length fun second =>
        .pure (first, second)
  /-- Other members are drawn from a wheel whose total is positive and finite. -/
  uneven : ∀ d, proportionalPair? p = some d →
    ∀ i ∈ p, ∀ j ∈ p, Cost.same i.fitness.cost j.fitness.cost = false →
      ∃ w, Wheel.ofWeights? (weights p least greatest) = some w ∧
        Cost.isFinite w.total = true ∧ Cost.lt Cost.zero w.total = true ∧ d = w.spinPair p

/-- **Proportional selection falls back cleanly.** It holds a tournament exactly if the costs or the
weights are infinite, and no wheel that it spins is unusable. -/
theorem selectPair_fallsBack {p : Population Float} (hp : p ≠ [])
    (hcosts : ∀ i ∈ p, 0.0 ≤ i.fitness.cost) :
    ∃ least greatest, FallsBack p least greatest := by
  have hzero : ∀ i ∈ p, Cost.le Cost.zero i.fitness.cost = true :=
    fun i hi => decide_eq_true (hcosts i hi)
  have hcomparable : ∀ c ∈ p.map (·.fitness.cost), Cost.isComparable c = true :=
    List.forall_mem_map.2 fun i _ => i.fitness.comparable
  obtain ⟨least, greatest, hpair, hx⟩ := exists_extremes (mt List.map_eq_nil_iff.1 hp) hcomparable
  have hgreatest := OrderedCost.le_trans (zero_le_least hx hzero)
    (hx.least_le greatest hx.greatest_mem)
  refine ⟨least, greatest, hx, ?_, fun hnone s hs σ _ g => ?_, fun d hd s hs σ _ g => ⟨?_, ?_⟩,
    fun d hd hall => ?_, fun d hd i hi j hj hdiffer => ?_⟩
  · rw [proportionalPair?_eq_none_iff hx hzero hpair]
    by_cases hfinite : Cost.isFinite greatest = true
    · have hspread := Binary64.isInf_iff (zero_le_spread hx hzero hfinite)
      by_cases hfinite' : Cost.isFinite (Cost.sub greatest least) = true
      · have hsum := Binary64.isInf_iff
          (Cost.zero_le_sum (zero_le_weights hx hzero hfinite hfinite'))
        exact (or_congr (Binary64.isInf_iff hgreatest) (or_congr hspread hsum)).symm
      · rw [Bool.not_eq_true] at hfinite'
        exact iff_of_true (.inr (.inl hfinite')) (.inr (.inl (hspread.2 hfinite')))
    · rw [Bool.not_eq_true] at hfinite
      exact iff_of_true (.inl hfinite) (.inl ((Binary64.isInf_iff hgreatest).2 hfinite))
  · rw [Selection.selectPair_of_proportional hp hs, hnone, Option.getD_none]
  · rw [Selection.selectPair_of_proportional hp hs, hd, Option.getD_some]
  · have hsafe : d.Ensures (fun _ => True) Never :=
      ensures_of_proportionalPair? hp hd fun hlength hwheel hsum =>
        hlength ▸ Wheel.ensures_spin_of_isFinite hwheel hsum
    exact (hsafe.exists_ok g).imp_left fun ⟨pair, hrun, _⟩ => ⟨pair, hrun⟩
  · obtain ⟨i, hi, hleast⟩ := List.mem_map.1 hx.least_mem
    obtain ⟨j, hj, hgreatest⟩ := List.mem_map.1 hx.greatest_mem
    have hsame := hall i hi j hj
    rw [hleast, hgreatest] at hsame
    rcases eq_of_proportionalPair? hx hzero hpair hd with ⟨-, rfl⟩ | ⟨hdiffer, -⟩
    · exact ⟨rfl, exists_evenPair_eq hp⟩
    · rw [hsame] at hdiffer
      cases hdiffer
  · rcases eq_of_proportionalPair? hx hzero hpair hd with ⟨hsame, -⟩ | ⟨-, hwheel⟩
    · have hi := hx.same hsame (List.mem_map.2 ⟨i, hi, rfl⟩)
      have hj := hx.same hsame (List.mem_map.2 ⟨j, hj, rfl⟩)
      rw [Cost.same_trans hi (Cost.same_symm hj)] at hdiffer
      cases hdiffer
    · exact hwheel

/-- Two members of which the worse one costs as much as a finite cost can. -/
theorem selectPair_fallsBack_farApart :
    let p : Population Float :=
      [⟨⟨[0, 1]⟩, ⟨0.0, by decide +kernel⟩, 0⟩,
        ⟨⟨[1, 0]⟩, ⟨1.7976931348623157e308, by decide +kernel⟩, 0⟩]
    p ≠ [] ∧ (∀ i ∈ p, 0.0 ≤ i.fitness.cost) ∧ ∃ least greatest, FallsBack p least greatest := by
  intro p
  have hp : p ≠ [] := List.cons_ne_nil _ _
  have hcosts : ∀ i ∈ p, 0.0 ≤ i.fitness.cost := by decide +kernel
  exact ⟨hp, hcosts, selectPair_fallsBack hp hcosts⟩

end RoadTrip
