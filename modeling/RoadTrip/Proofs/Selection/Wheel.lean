import RoadTrip.Proofs.Cost.Exact
import RoadTrip.Proofs.Selection.Fallback

/-!
# Sectors of a wheel

Where costs are not rounded, the sectors of a wheel lie side by side and are as wide as their weights
(`sector_eq_iff`), so each point below the total lies in exactly one of them. The weights of
proportional selection are greater than nothing, and the cheaper a member, the greater its weight: it
leaves nobody out and prefers the cheap (`proportionalPair?_shares`).
-/

namespace RoadTrip

open Population

variable {K : Type} [Field K]

namespace Wheel

variable {weights : List K} {w : Wheel K} {x reached : K} {i : Nat}

/-- Where a sector starts: at the sum of the weights before it. -/
def start (weights : List K) (i : Nat) : K := (weights.take i).sum

theorem start_cons (weight : K) (rest : List K) (i : Nat) :
    start (weight :: rest) (i + 1) = weight + start rest i := by
  rw [start, List.take_succ_cons, List.sum_cons, start]

theorem start_add_one (hi : i < weights.length) :
    start weights (i + 1) = start weights i + weights[i] :=
  List.sum_take_succ weights i hi

variable [LinearOrder K]

theorem layOut_of_ofWeights? {weight : K} {rest : List K}
    (h : ofWeights? (weight :: rest) = some w) :
    w.bounds = (layOut weight rest).1 ∧ w.total = (layOut weight rest).2 := by
  rw [ofWeights?_cons] at h
  split at h
  · cases h
  · split at h
    · cases h
    · cases h
      exact ⟨rfl, rfl⟩

theorem total_eq (h : ofWeights? weights = some w) : w.total = weights.sum := by
  obtain ⟨weight, rest, rfl, -, -, htotal, -⟩ := ofWeights?_eq_some h
  rw [htotal, Exact.foldl_add, List.sum_cons]

theorem sector_lt_length (h : ofWeights? weights = some w) (x : K) :
    w.sector x < weights.length := by
  obtain ⟨weight, rest, rfl, -, hlength, -, -⟩ := ofWeights?_eq_some h
  rw [List.length_cons, ← hlength]
  exact Nat.lt_succ_of_le List.countP_le_length

theorem spin_eq {n : Nat} (hpos : 0 < w.total) (hsector : ∀ x, w.sector x < n) :
    w.spin n = .fraction fun x => .pure ⟨w.sector (Cost.point w.total x), hsector _⟩ := by
  have husable : (Cost.isFinite w.total && Cost.lt Cost.zero w.total) = true := by simp [hpos]
  unfold spin
  rw [if_pos husable]
  exact congrArg _ (funext fun x => dif_pos (hsector _))

variable [IsStrictOrderedRing K]

theorem start_nonneg (hweights : ∀ c ∈ weights, 0 ≤ c) (i : Nat) : 0 ≤ start weights i :=
  List.sum_nonneg fun c hc => hweights c (List.mem_of_mem_take hc)

theorem start_le_sum (hweights : ∀ c ∈ weights, 0 ≤ c) (i : Nat) :
    start weights i ≤ weights.sum := by
  have hrest : 0 ≤ (weights.drop i).sum :=
    List.sum_nonneg fun c hc => hweights c (List.mem_of_mem_drop hc)
  rw [← List.sum_take_add_sum_drop weights i]
  exact le_add_of_nonneg_right hrest

theorem le_of_mem_layOut (hweights : ∀ c ∈ weights, 0 ≤ c) {bound : K}
    (h : bound ∈ (layOut reached weights).1) : reached ≤ bound := by
  induction weights generalizing reached with
  | nil => exact absurd h List.not_mem_nil
  | cons weight rest ih =>
    obtain ⟨hweight, hrest⟩ := List.forall_mem_cons.1 hweights
    rcases List.mem_cons.1 h with rfl | h
    · exact le_rfl
    · exact (le_add_of_nonneg_right hweight).trans (ih hrest h)

/-- No weight is negative, so the bounds up to a point come before all others. -/
theorem lt_countP_layOut (hweights : ∀ c ∈ weights, 0 ≤ c) (hi : i < weights.length) :
    i < (layOut reached weights).1.countP (Cost.le · x) ↔ reached + start weights i ≤ x := by
  induction weights generalizing reached i with
  | nil => exact absurd hi (Nat.not_lt_zero i)
  | cons weight rest ih =>
    by_cases hreached : reached ≤ x
    · have hrest : ∀ c ∈ rest, 0 ≤ c := (List.forall_mem_cons.1 hweights).2
      have hcount : (layOut reached (weight :: rest)).1.countP (Cost.le · x) =
          (layOut (reached + weight) rest).1.countP (Cost.le · x) + 1 := by
        simp [layOut, hreached]
      rw [hcount]
      cases i with
      | zero => simp [start, hreached]
      | succ i =>
        rw [Nat.add_lt_add_iff_right, ih hrest (Nat.lt_of_succ_lt_succ hi), start_cons, add_assoc]
    · have hcount : (layOut reached (weight :: rest)).1.countP (Cost.le · x) = 0 := by
        rw [List.countP_eq_zero]
        intro bound hbound hle
        exact hreached ((le_of_mem_layOut hweights hbound).trans (of_decide_eq_true hle))
      have hstart : 0 ≤ start (weight :: rest) i := start_nonneg hweights i
      rw [hcount]
      exact iff_of_false (Nat.not_lt_zero i)
        fun hle => hreached ((le_add_of_nonneg_right hstart).trans hle)

theorem lt_sector_iff (h : ofWeights? weights = some w) (hweights : ∀ c ∈ weights, 0 ≤ c)
    (hi : i + 1 < weights.length) : i < w.sector x ↔ start weights (i + 1) ≤ x := by
  obtain ⟨weight, rest, rfl, -⟩ := ofWeights?_eq_some h
  rw [sector, (layOut_of_ofWeights? h).1, start_cons]
  exact lt_countP_layOut (List.forall_mem_cons.1 hweights).2 (Nat.lt_of_succ_lt_succ hi)

/-- **Sectors lie side by side**: each one from where it starts to where the next one does. -/
theorem sector_eq_iff (h : ofWeights? weights = some w) (hweights : ∀ c ∈ weights, 0 ≤ c)
    (hx : 0 ≤ x) (htotal : x < w.total) (hi : i < weights.length) :
    w.sector x = i ↔ start weights i ≤ x ∧ x < start weights (i + 1) := by
  have hlower : i ≤ w.sector x ↔ start weights i ≤ x := by
    cases i with
    | zero => simp [start, hx]
    | succ i => exact lt_sector_iff h hweights hi
  have hupper : w.sector x ≤ i ↔ x < start weights (i + 1) := by
    by_cases hlast : i + 1 = weights.length
    · have hsector := sector_lt_length h x
      rw [total_eq h] at htotal
      rw [start, hlast, List.take_length]
      exact iff_of_true (by omega) htotal
    · rw [← not_lt, lt_sector_iff h hweights (by omega), not_le]
  rw [← hlower, ← hupper, le_antisymm_iff, and_comm]

/-- The point that stands for a fraction lies below the total. -/
theorem point_lt_total (hpos : 0 < w.total) (x : Fraction) :
    0 ≤ Cost.point w.total x ∧ Cost.point w.total x < w.total := by
  have hpoint : Cost.point w.total x = w.total * (x.val / 4503599627370496) := rfl
  have hbelow : (x.val : K) < 4503599627370496 := by exact_mod_cast x.isLt
  have hnonneg : (0 : K) ≤ x.val / 4503599627370496 := by positivity
  have hlt : (x.val : K) / 4503599627370496 < 1 := (div_lt_one (by positivity)).2 hbelow
  rw [hpoint]
  exact ⟨mul_nonneg hpos.le hnonneg, mul_lt_of_lt_one_right hpos hlt⟩

end Wheel

/-! ## Members and their weights -/

variable [LinearOrder K]

/-- How much cheaper a member is than the most expensive one, and a share of the spread. -/
def weightOf (p : Population K) (least greatest : K) (i : Individual K) : K :=
  greatest - i.fitness.cost + (greatest - least) / p.length

variable {p : Population K} {least greatest : K}

theorem weights_eq_map : weights p least greatest = p.map (weightOf p least greatest) := rfl

theorem lt_length_weights (i : Fin p.length) : i.val < (weights p least greatest).length :=
  i.isLt.trans_eq (length_weights least greatest).symm

theorem sector_lt_of_ofWeights? {w : Wheel K}
    (h : Wheel.ofWeights? (weights p least greatest) = some w) (x : K) : w.sector x < p.length :=
  (Wheel.sector_lt_length h x).trans_eq (length_weights least greatest)

theorem start_weights_add_one (i : Fin p.length) :
    Wheel.start (weights p least greatest) (i + 1) =
      Wheel.start (weights p least greatest) i + weightOf p least greatest (p.get i) := by
  rw [Wheel.start_add_one (lt_length_weights i)]
  simp only [weights_eq_map, List.getElem_map, List.get_eq_getElem]

theorem least_lt_greatest (hx : Extremes (p.map (·.fitness.cost)) least greatest)
    (hdiffer : ∃ i ∈ p, ∃ j ∈ p, i.fitness.cost ≠ j.fitness.cost) : least < greatest := by
  obtain ⟨i, hi, j, hj, hne⟩ := hdiffer
  have hmem {k : Individual K} (hk : k ∈ p) : k.fitness.cost ∈ p.map (·.fitness.cost) :=
    List.mem_map.2 ⟨k, hk, rfl⟩
  by_contra hle
  apply hne
  have hbetween {k : Individual K} (hk : k ∈ p) : k.fitness.cost = greatest := by
    have hleast := hx.least_le _ (hmem hk)
    have hgreatest := hx.le_greatest _ (hmem hk)
    simp only [Exact.le_eq, decide_eq_true_eq] at hleast hgreatest
    exact le_antisymm hgreatest ((not_lt.1 hle).trans hleast)
  rw [hbetween hi, hbetween hj]

variable [IsStrictOrderedRing K]

theorem weightOf_pos (hx : Extremes (p.map (·.fitness.cost)) least greatest)
    (hlt : least < greatest) {i : Individual K} (hi : i ∈ p) :
    0 < weightOf p least greatest i := by
  have hcost := hx.le_greatest _ (List.mem_map.2 ⟨i, hi, rfl⟩)
  simp only [Exact.le_eq, decide_eq_true_eq] at hcost
  have hlength : (0 : K) < p.length := Nat.cast_pos.2 (length_pos_of_extremes hx)
  exact add_pos_of_nonneg_of_pos (sub_nonneg.2 hcost) (div_pos (sub_pos.2 hlt) hlength)

theorem weightOf_lt {i j : Individual K} (h : i.fitness.cost < j.fitness.cost) :
    weightOf p least greatest j < weightOf p least greatest i :=
  add_lt_add_left (sub_lt_sub_left h greatest) _

/-- The sector of a member: from where it starts, as wide as the weight. -/
def sectorOf (p : Population K) (least greatest : K) (i : Fin p.length) : Set K :=
  Set.Ico (Wheel.start (weights p least greatest) i)
    (Wheel.start (weights p least greatest) i + weightOf p least greatest (p.get i))

/-- How a wheel is shared out among the members of a population. -/
structure Wheel.Shares (w : Wheel K) (p : Population K) (least greatest : K) : Prop where
  weights_eq : weights p least greatest = p.map (weightOf p least greatest)
  /-- Nobody is left out. -/
  pos : ∀ i ∈ p, 0 < weightOf p least greatest i
  /-- The cheap are preferred. -/
  lt_of_lt : ∀ i ∈ p, ∀ j ∈ p, i.fitness.cost < j.fitness.cost →
    weightOf p least greatest j < weightOf p least greatest i
  eq_of_eq : ∀ i ∈ p, ∀ j ∈ p, i.fitness.cost = j.fitness.cost →
    weightOf p least greatest i = weightOf p least greatest j
  total_eq : w.total = (weights p least greatest).sum
  /-- The points that select a member fill an interval as wide as the weight. -/
  sector : ∀ i : Fin p.length,
    { x | 0 ≤ x ∧ x < w.total ∧ w.sector x = i } = sectorOf p least greatest i
  selected : ∀ i : Fin p.length, ∃ x, 0 ≤ x ∧ x < w.total ∧ w.sector x = i
  unique : ∀ x, 0 ≤ x → x < w.total → ∃! i : Fin p.length, x ∈ sectorOf p least greatest i
  /-- Each point selects a member, also one that is not on the wheel. -/
  inside : ∀ x, w.sector x < p.length
  /-- Whatever fraction of the wheel is drawn, its point is on the wheel and selects a member. -/
  point : ∀ x : Fraction, 0 ≤ Cost.point w.total x ∧ Cost.point w.total x < w.total
  spin : w.spin p.length = .fraction fun x => .pure ⟨w.sector (Cost.point w.total x), inside _⟩

section Sectors

variable {w : Wheel K} (hx : Extremes (p.map (·.fitness.cost)) least greatest)
  (hlt : least < greatest)

include hx hlt

theorem weights_pos : ∀ c ∈ weights p least greatest, 0 < c := by
  rw [weights_eq_map, List.forall_mem_map]
  exact fun i hi => weightOf_pos hx hlt hi

theorem weights_nonneg : ∀ c ∈ weights p least greatest, 0 ≤ c :=
  fun c hc => (weights_pos hx hlt c hc).le

theorem sum_weights_pos : 0 < (weights p least greatest).sum :=
  List.sum_pos _ (weights_pos hx hlt) (weights_ne_nil hx)

theorem exists_wheel_of_lt :
    ∃ w, Wheel.ofWeights? (weights p least greatest) = some w := by
  have hnonneg : ∀ c ∈ weights p least greatest, Cost.le Cost.zero c = true :=
    fun c hc => decide_eq_true (weights_nonneg hx hlt c hc)
  have htotal : Cost.lt Cost.zero (Cost.sum (weights p least greatest)) = true := by
    simpa using sum_weights_pos hx hlt
  obtain ⟨w, hw, -⟩ := Wheel.exists_ofWeights? hnonneg htotal (weights_ne_nil hx)
  exact ⟨w, hw⟩

variable (h : Wheel.ofWeights? (weights p least greatest) = some w)

include h

theorem total_pos : 0 < w.total :=
  (sum_weights_pos hx hlt).trans_eq (Wheel.total_eq h).symm

theorem sector_eq_iff_mem {x : K} (hx₀ : 0 ≤ x) (htotal : x < w.total) (i : Fin p.length) :
    w.sector x = i ↔ x ∈ sectorOf p least greatest i := by
  rw [Wheel.sector_eq_iff h (weights_nonneg hx hlt) hx₀ htotal (lt_length_weights i),
    start_weights_add_one]
  exact Iff.rfl

/-- No sector reaches out of the wheel. -/
theorem lt_total_of_mem {x : K} {i : Fin p.length} (hi : x ∈ sectorOf p least greatest i) :
    0 ≤ x ∧ x < w.total := by
  have hnonneg := weights_nonneg hx hlt
  obtain ⟨hfrom, hto⟩ := hi
  rw [← start_weights_add_one] at hto
  rw [Wheel.total_eq h]
  exact ⟨(Wheel.start_nonneg hnonneg i).trans hfrom,
    hto.trans_le (Wheel.start_le_sum hnonneg (i + 1))⟩

theorem setOf_sector_eq (i : Fin p.length) :
    { x | 0 ≤ x ∧ x < w.total ∧ w.sector x = i } = sectorOf p least greatest i := by
  ext x
  constructor
  · rintro ⟨hx₀, htotal, hsector⟩
    exact (sector_eq_iff_mem hx hlt h hx₀ htotal i).1 hsector
  · intro hmem
    obtain ⟨hx₀, htotal⟩ := lt_total_of_mem hx hlt h hmem
    exact ⟨hx₀, htotal, (sector_eq_iff_mem hx hlt h hx₀ htotal i).2 hmem⟩

/-- A sector holds the point at which it starts, as its weight is not zero. -/
theorem exists_point (i : Fin p.length) : ∃ x, 0 ≤ x ∧ x < w.total ∧ w.sector x = i := by
  have hstart : Wheel.start (weights p least greatest) i ∈ sectorOf p least greatest i :=
    Set.left_mem_Ico.2 (lt_add_of_pos_right _ (weightOf_pos hx hlt (List.get_mem p i)))
  rw [← setOf_sector_eq hx hlt h i] at hstart
  exact ⟨_, hstart⟩

theorem existsUnique_sector {x : K} (hx₀ : 0 ≤ x) (htotal : x < w.total) :
    ∃! i : Fin p.length, x ∈ sectorOf p least greatest i := by
  have hmem (i : Fin p.length) := sector_eq_iff_mem hx hlt h hx₀ htotal i
  refine ⟨⟨w.sector x, sector_lt_of_ofWeights? h x⟩, (hmem _).1 rfl, fun i hi => ?_⟩
  exact Fin.ext ((hmem i).2 hi).symm

theorem shares_of_ofWeights? : w.Shares p least greatest where
  weights_eq := weights_eq_map
  pos _ := weightOf_pos hx hlt
  lt_of_lt _ _ _ _ := weightOf_lt
  eq_of_eq _ _ _ _ hcost := by rw [weightOf, weightOf, hcost]
  total_eq := Wheel.total_eq h
  sector := setOf_sector_eq hx hlt h
  selected := exists_point hx hlt h
  unique _ := existsUnique_sector hx hlt h
  inside := sector_lt_of_ofWeights? h
  point := Wheel.point_lt_total (total_pos hx hlt h)
  spin := Wheel.spin_eq (total_pos hx hlt h) (sector_lt_of_ofWeights? h)

end Sectors

/-- **Proportional selection leaves nobody out and prefers the cheap.** Unless all members cost the
same, it spins a wheel on which each member has a sector, the wider the cheaper it is. -/
theorem proportionalPair?_shares
    (hdiffer : ∃ i ∈ p, ∃ j ∈ p, i.fitness.cost ≠ j.fitness.cost) :
    ∃ least greatest w, Extremes (p.map (·.fitness.cost)) least greatest ∧
      Wheel.ofWeights? (weights p least greatest) = some w ∧
      proportionalPair? p = some (w.spinPair p) ∧ w.Shares p least greatest := by
  have hne : p.map (·.fitness.cost) ≠ [] := by
    obtain ⟨i, hi, -⟩ := hdiffer
    exact List.ne_nil_of_mem (List.mem_map.2 ⟨i, hi, rfl⟩)
  obtain ⟨least, greatest, hpair, hx⟩ := exists_extremes hne fun c _ => Exact.isComparable_eq c
  have hlt := least_lt_greatest hx hdiffer
  obtain ⟨w, hw⟩ := exists_wheel_of_lt hx hlt
  have hspun : proportionalPair? p = some (w.spinPair p) := by
    rw [proportionalPair?_eq hpair, hw]
    simp [sub_eq_zero, hlt.ne']
  exact ⟨least, greatest, w, hx, hw, hspun, shares_of_ofWeights? hx hlt hw⟩

/-- An expensive member between two cheap ones: they weigh 8, 2 and 8. -/
theorem proportionalPair?_shares_threeMembers :
    let p : Population ℚ :=
      [⟨⟨[0, 1]⟩, ⟨7, Exact.isComparable_eq 7⟩, 0⟩, ⟨⟨[1, 0]⟩, ⟨13, Exact.isComparable_eq 13⟩, 0⟩,
        ⟨⟨[0, 1]⟩, ⟨7, Exact.isComparable_eq 7⟩, 1⟩]
    (∃ i ∈ p, ∃ j ∈ p, i.fitness.cost ≠ j.fitness.cost) ∧
      ∃ least greatest w, Extremes (p.map (·.fitness.cost)) least greatest ∧
        Wheel.ofWeights? (weights p least greatest) = some w ∧
        proportionalPair? p = some (w.spinPair p) ∧ w.Shares p least greatest := by
  intro p
  have hdiffer : ∃ i ∈ p, ∃ j ∈ p, i.fitness.cost ≠ j.fitness.cost :=
    ⟨_, List.mem_cons_self, _, List.mem_cons_of_mem _ List.mem_cons_self, by norm_num⟩
  exact ⟨hdiffer, proportionalPair?_shares hdiffer⟩

end RoadTrip
