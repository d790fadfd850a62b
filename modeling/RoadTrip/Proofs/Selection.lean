import RoadTrip.Proofs.Cost.Order
import RoadTrip.Proofs.Draw.Ensures
import RoadTrip.Selection

/-!
# Selected parents

Selecting from a population with somebody in it meets no fault, if there is room for the sample of
a tournament (`ensures_selectPair`). A wheel is only spun if its weights have a finite sum and none
is negative; its total is then finite and positive, and it has one sector for each member.
-/

namespace RoadTrip

open Draw

variable {α : Type} [Cost α] {p : Population α} {Q : Fault → Prop}

theorem length_pos_of_ne_nil (hp : p ≠ []) : 0 < p.length := List.length_pos_iff.2 hp

/-! ## Tournaments -/

theorem length_rankPositions (sample : List (Fin p.length)) :
    (p.rankPositions sample).length = sample.length := by
  simp only [Population.rankPositions, List.length_map, List.length_mergeSort]

/-- A tournament needs room for its sample and nothing else. -/
theorem ensures_tournamentPair {size : Nat} (hp : p ≠ []) (hsize : 2 ≤ size)
    (hroom : capacity stopWords < size → Q .noRoom) :
    (tournamentPair p size).Ensures (fun _ => True) Q := by
  unfold tournamentPair
  rw [if_neg (by omega)]
  apply Ensures.bind' (ensures_reserve (P := fun _ => True) trivial hroom)
  intro _ _
  have hindex : (Draw.index .full p.length).Ensures (fun _ => True) Q :=
    ensures_index (length_pos_of_ne_nil hp) fun _ => trivial
  apply Ensures.bind' (ensures_times hindex size)
  intro sample hsample
  have hlength := (length_rankPositions sample).trans hsample.1
  split
  · trivial
  · rename_i hshort
    match hranked : p.rankPositions sample with
    | [] => rw [hranked] at hlength; simp only [List.length_nil] at hlength; omega
    | [_] => rw [hranked] at hlength; simp only [List.length_singleton] at hlength; omega
    | first :: second :: rest => exact absurd hranked (hshort first second rest)

/-! ## Wheels -/

namespace Wheel

theorem layOut_eq (reached : α) (weights : List α) :
    (layOut reached weights).1.length = weights.length ∧
      (layOut reached weights).2 = weights.foldl Cost.add reached := by
  induction weights generalizing reached with
  | nil => exact ⟨rfl, rfl⟩
  | cons weight rest ih =>
    obtain ⟨hlength, htotal⟩ := ih (Cost.add reached weight)
    exact ⟨congrArg (· + 1) hlength, htotal⟩

theorem ofWeights?_cons (weight : α) (rest : List α) : ofWeights? (weight :: rest) =
    if (weight :: rest).any fun c => Cost.lt c Cost.zero then none
    else if Cost.same (layOut weight rest).2 Cost.zero then none
    else some ⟨(layOut weight rest).1, (layOut weight rest).2⟩ :=
  rfl

/-- What a wheel is made of. -/
theorem ofWeights?_eq_some {weights : List α} {w : Wheel α} (h : ofWeights? weights = some w) :
    ∃ weight rest, weights = weight :: rest ∧ (∀ c ∈ weights, Cost.lt c Cost.zero = false) ∧
      w.bounds.length = rest.length ∧ w.total = rest.foldl Cost.add weight ∧
      Cost.same w.total Cost.zero = false := by
  cases weights with
  | nil => cases h
  | cons weight rest =>
    obtain ⟨hlength, htotal⟩ := layOut_eq weight rest
    rw [ofWeights?_cons] at h
    split at h
    · cases h
    · rename_i hweights
      split at h
      · cases h
      · rename_i hzero
        cases h
        refine ⟨weight, rest, rfl, fun c hc => ?_, hlength, htotal, Bool.eq_false_iff.2 hzero⟩
        exact Bool.eq_false_iff.2 fun hlt => hweights (List.any_eq_true.2 ⟨c, hc, hlt⟩)

theorem ensures_spin (w : Wheel α) (n : Nat) :
    (w.spin n).Ensures (fun _ => True) (· = .unusableWheel) := by
  unfold spin
  split
  · intro x
    dsimp only
    split <;> trivial
  · rfl

/-- A wheel whose weights have a finite sum has a sector for every one of them and can be spun. -/
theorem ensures_spin_of_isFinite [LawfulCost α] {weights : List α} {w : Wheel α}
    (h : ofWeights? weights = some w) (hsum : Cost.isFinite (Cost.sum weights) = true) :
    (w.spin weights.length).Ensures (fun _ => True) Q := by
  obtain ⟨weight, rest, rfl, hweights, hlength, htotal, hzero⟩ := ofWeights?_eq_some h
  rw [Cost.sum_cons, ← htotal] at hsum
  have hfinite := Cost.isFinite_of_foldl_add (htotal ▸ hsum)
  have hnonneg : ∀ c ∈ weight :: rest, Cost.le Cost.zero c = true := by
    intro c hc
    have hc' : Cost.isFinite c = true := by
      rcases List.mem_cons.1 hc with rfl | hc
      · exact hfinite.1
      · exact hfinite.2 c hc
    exact Cost.le_of_not_lt (LawfulCost.isComparable_of_isFinite hc') LawfulCost.zero_le_zero
      (hweights c hc)
  have hpos : Cost.lt Cost.zero w.total = true := by
    have hle : Cost.le Cost.zero w.total = true := by
      rw [htotal]
      exact Cost.zero_le_foldl_add (hnonneg weight List.mem_cons_self)
        fun c hc => hnonneg c (List.mem_cons_of_mem weight hc)
    rw [Cost.lt_iff]
    refine ⟨hle, ?_⟩
    simpa [Cost.same, hle] using hzero
  unfold spin
  rw [hsum, hpos, Bool.and_self, if_pos rfl]
  intro x
  have hsector : w.sector (Cost.point w.total x) < (weight :: rest).length := by
    have hcount := List.countP_le_length (p := (Cost.le · (Cost.point w.total x))) (l := w.bounds)
    rw [hlength] at hcount
    exact Nat.lt_succ_of_le hcount
  dsimp only
  rw [dif_pos hsector]
  trivial

end Wheel

theorem length_weights (least greatest : α) : (weights p least greatest).length = p.length :=
  List.length_map _

/-- What proportional selection draws from: the positions, or a wheel of finite weights. -/
theorem ensures_of_proportionalPair? {d : Draw (Pair p)} (hp : p ≠ [])
    (h : proportionalPair? p = some d)
    (hspin : ∀ {weights : List α} {w : Wheel α}, weights.length = p.length →
      Wheel.ofWeights? weights = some w → Cost.isFinite (Cost.sum weights) = true →
      (w.spin p.length).Ensures (fun _ => True) Q) :
    d.Ensures (fun _ => True) Q := by
  unfold proportionalPair? at h
  split at h
  · cases h
  · rename_i least greatest _
    dsimp only at h
    split at h
    · cases h
    · split at h
      · cases h
        have hposition : (Draw.position p.length).Ensures (fun _ => True) Q :=
          ensures_position (length_pos_of_ne_nil hp) fun _ => trivial
        exact Ensures.bind' hposition fun _ _ => hposition.map fun _ _ => trivial
      · split at h
        · cases h
        · rename_i hsum
          obtain ⟨wheel, hwheel, rfl⟩ := Option.map_eq_some_iff.1 h
          have hwheel := hspin (length_weights least greatest) hwheel (by simpa using hsum)
          exact Ensures.bind' hwheel fun _ _ => hwheel.map fun _ _ => trivial

/-! ## Strategies -/

namespace Selection

variable (s : Selection)

theorem ensures_selectPair_of_spin (hp : p ≠ [])
    (hroom : capacity stopWords < s.tournamentSize → Q .noRoom)
    (hspin : ∀ {weights : List α} {w : Wheel α}, weights.length = p.length →
      Wheel.ofWeights? weights = some w → Cost.isFinite (Cost.sum weights) = true →
      (w.spin p.length).Ensures (fun _ => True) Q) :
    (s.selectPair p).Ensures (fun _ => True) Q := by
  have htournament := ensures_tournamentPair hp s.two_le hroom
  unfold selectPair
  rw [if_neg (by rwa [List.isEmpty_iff])]
  cases s.strategy with
  | tournament => exact htournament
  | proportional =>
    dsimp only
    cases hpair : proportionalPair? p with
    | none => exact htournament
    | some d => exact ensures_of_proportionalPair? hp hpair hspin

/-- Whatever the costs, the only faults are want of room and an unusable wheel. -/
theorem ensures_selectPair_any (hp : p ≠ []) (hroom : Q .noRoom) (hwheel : Q .unusableWheel) :
    (s.selectPair p).Ensures (fun _ => True) Q :=
  s.ensures_selectPair_of_spin hp (fun _ => hroom) fun {_ w} _ _ _ =>
    (w.ensures_spin p.length).mono (fun _ _ => trivial) fun _ hf => hf ▸ hwheel

/-- **Parents can be selected from every population with somebody in it**, if there is room for
the sample of a tournament. -/
theorem ensures_selectPair [LawfulCost α] (hp : p ≠ [])
    (hroom : capacity stopWords < s.tournamentSize → Q .noRoom) :
    (s.selectPair p).Ensures (fun _ => True) Q :=
  s.ensures_selectPair_of_spin hp hroom fun hlength hwheel hsum =>
    hlength ▸ Wheel.ensures_spin_of_isFinite hwheel hsum

end Selection

end RoadTrip
