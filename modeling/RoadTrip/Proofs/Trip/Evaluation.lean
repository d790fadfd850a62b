import Mathlib.Data.List.FinRange
import RoadTrip.Proofs.Cost.Rounded
import RoadTrip.Proofs.CostMatrix
import RoadTrip.Proofs.Route.Visits
import RoadTrip.Trip

/-!
# The cost of a route

A route through all waypoints is a list of all of them (`Visits.exists_list`), and its cost is the
sum of the legs of its itinerary, which on a round trip ends with the first waypoint again
(`evaluate_list`). If no cost is negative this is a fitness (`exists_evaluate`). Where addition
rounds it is the same from a zero of either sign (`exists_evaluate_same`).
-/

namespace RoadTrip

variable {α β γ : Type}

namespace Route

theorem Visits.exists_list {r : Route} {n : Nat} (h : r.Visits n) :
    ∃ l : List (Fin n), l.Perm (List.finRange n) ∧ r = ⟨l.map Fin.val⟩ := by
  have hmap : (r.stops.pmap Fin.mk fun _ hs => h.lt hs).map Fin.val = r.stops := by
    rw [List.map_pmap, List.pmap_eq_map, List.map_id']
  refine ⟨_, ?_, congrArg Route.mk hmap.symm⟩
  rw [← List.map_perm_map_iff Fin.val_injective, hmap, List.map_coe_finRange_eq_range]
  exact h

theorem visits_map {n : Nat} {l : List (Fin n)} :
    (Route.mk (l.map Fin.val)).Visits n ↔ l.Perm (List.finRange n) := by
  unfold Visits
  rw [← List.map_coe_finRange_eq_range, List.map_perm_map_iff Fin.val_injective]

theorem consecutive_append_singleton (first : Nat) (rest : List Nat) (last : Nat) :
    consecutive (first :: rest ++ [last]) =
      consecutive (first :: rest) ++ [((first :: rest).getLast (List.cons_ne_nil _ _), last)] := by
  induction rest generalizing first with
  | nil => rfl
  | cons next rest ih =>
    simp only [List.cons_append, consecutive, List.cons.injEq, true_and,
      List.getLast_cons (List.cons_ne_nil next rest)]
    exact ih next

end Route

/-- The costs of the legs between consecutive waypoints. -/
def CostMatrix.legCosts (m : CostMatrix α) : List (Fin m.size) → List α
  | a :: b :: rest => m.cost a b :: m.legCosts (b :: rest)
  | _ => []

theorem CostMatrix.mem_legCosts {m : CostMatrix α} {l : List (Fin m.size)} {c : α}
    (h : c ∈ m.legCosts l) : ∃ a b, c = m.cost a b := by
  induction l with
  | nil => cases h
  | cons a rest ih =>
    cases rest with
    | nil => cases h
    | cons b rest =>
      rcases List.mem_cons.1 h with rfl | h
      · exact ⟨a, b, rfl⟩
      · exact ih h

namespace Trip

variable (t : Trip α)

/-- The stops in travel order. A round trip ends with the first one again. -/
def itinerary (stops : List β) : List β :=
  match t.tour, stops with
  | .roundTrip, first :: next :: rest => first :: next :: rest ++ [first]
  | _, stops => stops

theorem itinerary_map (f : β → γ) (stops : List β) :
    t.itinerary (stops.map f) = (t.itinerary stops).map f := by
  unfold itinerary
  cases t.tour with
  | oneWay => rfl
  | roundTrip =>
    cases stops with
    | nil => rfl
    | cons first rest =>
      cases rest with
      | nil => rfl
      | cons next rest => simp

/-- The legs of a route lead from each waypoint of the itinerary to the next. -/
theorem legs_eq (r : Route) : t.legs r = Route.consecutive (t.itinerary r.stops) := by
  unfold legs itinerary
  cases t.tour with
  | oneWay => rfl
  | roundTrip =>
    match h : r.stops with
    | [] => simp [Route.closing?, h]
    | [first] => simp [Route.closing?, h]
    | first :: next :: rest =>
      simp only [Route.closing?, h, Option.toList_some]
      rw [Route.consecutive_append_singleton, List.getLast_cons (List.cons_ne_nil next rest)]

theorem mapM_legCost (l : List (Fin t.matrix.size)) :
    (Route.consecutive (l.map Fin.val)).mapM t.legCost = .ok (t.matrix.legCosts l) := by
  induction l with
  | nil => rfl
  | cons a rest ih =>
    cases rest with
    | nil => rfl
    | cons b rest =>
      have hleg : t.legCost (a.val, b.val) = .ok (t.matrix.cost a b) := by
        simp [legCost, CostMatrix.cost?, a.isLt, b.isLt]
      simp only [List.map_cons] at ih
      simp only [List.map_cons, Route.consecutive, List.mapM_cons, hleg, ih]
      rfl

variable {t} [Cost α]

/-- The cost of all waypoints in some order is the sum of the legs of the itinerary. -/
theorem evaluate_list {l : List (Fin t.matrix.size)} (h : l.length = t.matrix.size) :
    t.evaluate ⟨l.map Fin.val⟩ =
      Fitness.ofCost (Cost.sum (t.matrix.legCosts (t.itinerary l))) := by
  have hlength : (Route.mk (l.map Fin.val)).length = t.matrix.size := by
    rw [Route.length, List.length_map, h]
  simp only [evaluate, hlength, ↓reduceIte, legs_eq, itinerary_map, mapM_legCost]

/-- Routes through all waypoints meet no other fault than a total that compares with nothing. -/
theorem evaluate_fault {r : Route} (hr : r.Visits t.matrix.size) {fault : Fault}
    (h : t.evaluate r = .error fault) : fault = .incomparableFitness := by
  obtain ⟨l, hl, rfl⟩ := hr.exists_list
  rw [evaluate_list (by rw [hl.length_eq, List.length_finRange])] at h
  unfold Fitness.ofCost at h
  split at h
  · cases h
  · cases h
    rfl

/-- **A route through all waypoints has a cost**, if no leg has a negative one. -/
theorem exists_evaluate [LawfulCost α] (hm : t.matrix.Valid) {r : Route}
    (hr : r.Visits t.matrix.size) :
    ∃ f, t.evaluate r = .ok f ∧ Cost.le Cost.zero f.cost = true := by
  obtain ⟨l, hl, rfl⟩ := hr.exists_list
  have hsum : Cost.le Cost.zero (Cost.sum (t.matrix.legCosts (t.itinerary l))) = true := by
    apply Cost.zero_le_sum
    intro c hc
    obtain ⟨a, b, rfl⟩ := CostMatrix.mem_legCosts hc
    exact hm.zero_le a b
  have hcomparable := (OrderedCost.comparable_of_le hsum).2
  refine ⟨⟨_, hcomparable⟩, ?_, hsum⟩
  rw [evaluate_list (by rw [hl.length_eq, List.length_finRange]),
    Fitness.ofCost_of_comparable hcomparable]

omit [Cost α] in
theorem legCosts_itinerary_ne_nil {l : List (Fin t.matrix.size)} (h : 2 ≤ l.length) :
    t.matrix.legCosts (t.itinerary l) ≠ [] := by
  match l with
  | [] => simp at h
  | [_] => simp at h
  | a :: b :: rest =>
    unfold itinerary
    cases t.tour <;> exact List.cons_ne_nil _ _

/-- The cost of a route is that of its legs added up from either zero. -/
theorem exists_evaluate_same [OrderedCost α] {S : α → Prop} (hS : Cost.AddDomain S)
    (hcosts : ∀ a b, S (t.matrix.cost a b)) {l : List (Fin t.matrix.size)}
    (hl : l.Perm (List.finRange t.matrix.size)) :
    ∃ f, t.evaluate ⟨l.map Fin.val⟩ = .ok f ∧
      Cost.same f.cost ((t.matrix.legCosts (t.itinerary l)).foldl Cost.add Cost.zero) = true := by
  have hlength : l.length = t.matrix.size := by rw [hl.length_eq, List.length_finRange]
  have hlegs : ∀ c ∈ t.matrix.legCosts (t.itinerary l), S c := by
    intro c hc
    obtain ⟨a, b, rfl⟩ := CostMatrix.mem_legCosts hc
    exact hcosts a b
  refine ⟨⟨_, hS.comparable (hS.sum hlegs)⟩, ?_, hS.same_sum hlegs ?_⟩
  · rw [evaluate_list hlength, Fitness.ofCost_of_comparable]
  · exact legCosts_itinerary_ne_nil (t.matrix.two_le_size.trans_eq hlength.symm)

end Trip

end RoadTrip
