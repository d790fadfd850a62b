import RoadTrip.Proofs.Cost.Binary64.Faithful
import RoadTrip.Proofs.Trip.Evaluation

/-!
# Every route has a cost

A matrix that is made of entries gives every route through all its waypoints a cost, whichever way
the trip ends (`evaluate_binary64`). The cost is not negative, though it may be infinite where the
legs add up to too much, and no leg is left out by not going back: the legs of a one-way trip are
the first ones of the round trip, and a sum does not become smaller by going on
(`evaluate_oneWay_le_roundTrip`).
-/

namespace RoadTrip

variable {α : Type}

/-- The legs of a way come first among those of a longer one. -/
theorem CostMatrix.exists_legCosts_append (m : CostMatrix α) (l k : List (Fin m.size)) :
    ∃ more, m.legCosts (l ++ k) = m.legCosts l ++ more := by
  induction l with
  | nil => exact ⟨m.legCosts k, rfl⟩
  | cons a rest ih =>
    cases rest with
    | nil => exact ⟨m.legCosts (a :: k), rfl⟩
    | cons b rest =>
      obtain ⟨more, hmore⟩ := ih
      exact ⟨more, congrArg (m.cost a b :: ·) hmore⟩

namespace Trip

theorem exists_itinerary_append (t : Trip α) (l : List (Fin t.matrix.size)) :
    ∃ k, t.itinerary l = l ++ k := by
  unfold itinerary
  split
  · exact ⟨[_], rfl⟩
  · exact ⟨[], (List.append_nil _).symm⟩

variable [Cost α]

/-- The cost of a route is the sum of its legs. -/
theorem cost_of_evaluate {t : Trip α} {l : List (Fin t.matrix.size)} {f : Fitness α}
    (hl : l.length = t.matrix.size) (h : t.evaluate ⟨l.map Fin.val⟩ = .ok f) :
    f.cost = Cost.sum (t.matrix.legCosts (t.itinerary l)) := by
  rw [evaluate_list hl] at h
  unfold Fitness.ofCost at h
  split at h
  · cases h
    rfl
  · cases h

/-- **Going back costs no less than not going back**, and either way has a cost that is not
negative. -/
theorem evaluate_oneWay_le_roundTrip [FaithfulCost α] {m : CostMatrix α} (hm : m.Valid)
    {r : Route} (hr : r.Visits m.size) :
    ∃ f g, Trip.evaluate ⟨m, .oneWay⟩ r = .ok f ∧ Trip.evaluate ⟨m, .roundTrip⟩ r = .ok g ∧
      Cost.le Cost.zero f.cost = true ∧ f.le g = true := by
  obtain ⟨f, hf, hzero⟩ := exists_evaluate (t := ⟨m, .oneWay⟩) hm hr
  obtain ⟨g, hg, -⟩ := exists_evaluate (t := ⟨m, .roundTrip⟩) hm hr
  refine ⟨f, g, hf, hg, hzero, ?_⟩
  obtain ⟨l, hl, rfl⟩ := hr.exists_list
  have hlength : l.length = m.size := by rw [hl.length_eq, List.length_finRange]
  obtain ⟨k, hk⟩ := exists_itinerary_append ⟨m, .roundTrip⟩ l
  obtain ⟨more, hmore⟩ := m.exists_legCosts_append l k
  have hlegs : ∀ c ∈ m.legCosts l ++ more, Cost.le Cost.zero c = true := by
    rw [← hmore]
    intro c hc
    obtain ⟨a, b, rfl⟩ := CostMatrix.mem_legCosts hc
    exact hm.zero_le a b
  rw [Fitness.le, cost_of_evaluate hlength hf, cost_of_evaluate hlength hg, hk]
  obtain ⟨hfirst, hrest⟩ := List.forall_mem_append.1 hlegs
  exact hmore ▸ Cost.sum_le_sum_append hfirst hrest

/-- **Every route through all waypoints has a cost**, whichever way the trip ends. It is a number
that is not negative, and going back costs no less than not going back. -/
theorem evaluate_binary64 {names : List String} {entries : List (CostEntry Float)}
    {m : CostMatrix Float} (hm : CostMatrix.ofEntries names entries = .ok m) {r : Route}
    (hr : r.Visits m.size) :
    ∃ f g, Trip.evaluate ⟨m, .oneWay⟩ r = .ok f ∧ Trip.evaluate ⟨m, .roundTrip⟩ r = .ok g ∧
      f.cost.isNaN = false ∧ g.cost.isNaN = false ∧ 0.0 ≤ f.cost ∧ 0.0 ≤ g.cost ∧
      f.cost ≤ g.cost := by
  obtain ⟨f, g, hf, hg, hzero, hle⟩ :=
    evaluate_oneWay_le_roundTrip (CostMatrix.valid_of_ofEntries hm) hr
  exact ⟨f, g, hf, hg, Binary64.isNaN_eq_false f.comparable, Binary64.isNaN_eq_false g.comparable,
    of_decide_eq_true hzero, of_decide_eq_true (OrderedCost.le_trans hzero hle),
    of_decide_eq_true hle⟩

/-- Two legs of the largest finite cost, whose sum is infinite, and one of a negative zero. -/
theorem evaluate_binary64_overflow :
    let names := ["A", "B", "C"]
    let entries : List (CostEntry Float) := [⟨"A", "B", 1.7976931348623157e308⟩,
      ⟨"B", "C", 1.7976931348623157e308⟩, ⟨"C", "A", -0.0⟩]
    ∃ m, CostMatrix.ofEntries names entries = .ok m ∧ (Route.mk [0, 1, 2]).Visits m.size ∧
      ∃ f g, Trip.evaluate ⟨m, .oneWay⟩ ⟨[0, 1, 2]⟩ = .ok f ∧
        Trip.evaluate ⟨m, .roundTrip⟩ ⟨[0, 1, 2]⟩ = .ok g ∧
        f.cost.isNaN = false ∧ g.cost.isNaN = false ∧ 0.0 ≤ f.cost ∧ 0.0 ≤ g.cost ∧
        f.cost ≤ g.cost := by
  intro names entries
  obtain ⟨m, hm, hsize⟩ : ∃ m, CostMatrix.ofEntries names entries = .ok m ∧ m.size = 3 :=
    CostMatrix.exists_of_size (by decide +kernel)
  have hvisits : (Route.mk [0, 1, 2]).Visits m.size := by
    rw [hsize, ← Route.isPermutation_iff]
    decide
  exact ⟨m, hm, hvisits, evaluate_binary64 hm hvisits⟩

end Trip

end RoadTrip
