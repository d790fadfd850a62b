import Mathlib
import RoadTrip.Proofs.ExactSearch.Exhaustion
import RoadTrip.Proofs.Trip.Symmetry

/-!
# The route that the search returns

In exact arithmetic the search returns the lexicographically smallest of all cheapest routes
(`solve_optimal`). It tries the routes in lexicographic order and replaces its incumbent only by a
cheaper one, so it keeps the first of the cheapest. Round trips that start elsewhere are not tried,
but each is a rotation of one that is, which costs the same and does not come after it.
-/

namespace RoadTrip

/-- No route through all waypoints costs less. -/
def Trip.IsCheapest {α : Type} [Cost α] (t : Trip α) (r : Route) : Prop :=
  r.Visits t.matrix.size ∧ ∃ f, t.evaluate r = .ok f ∧
    ∀ s : Route, s.Visits t.matrix.size → ∃ g, t.evaluate s = .ok g ∧ f.le g = true

namespace ExactSearch

variable {K : Type} [Field K] [LinearOrder K]

/-- An incumbent that only cheaper ones replace is the first of the cheapest in the end. -/
theorem foldl_improve {n : Nat} (cost : List (Fin n) → K) {s : List (Fin n)}
    {l : List (List (Fin n))} (h : (s :: l).Pairwise (· < ·)) :
    ∃ b ∈ s :: l,
      l.foldl (fun best r => improve best r (cost r)) (some ⟨s, cost s⟩) = some ⟨b, cost b⟩ ∧
      ∀ r ∈ s :: l, cost b ≤ cost r ∧ (cost r = cost b → b ≤ r) := by
  induction l generalizing s with
  | nil =>
    refine ⟨s, List.mem_cons_self, rfl, fun r hr => ?_⟩
    obtain rfl := List.mem_singleton.1 hr
    exact ⟨le_rfl, fun _ => le_rfl⟩
  | cons r rest ih =>
    rw [List.foldl_cons, improve, Exact.lt_eq]
    obtain ⟨hs, hrest⟩ := List.pairwise_cons.1 h
    by_cases hlt : cost r < cost s
    · obtain ⟨b, hb, hfold, hmin⟩ := ih hrest
      rw [decide_eq_true hlt, if_pos rfl]
      refine ⟨b, List.mem_cons_of_mem s hb, hfold, fun x hx => ?_⟩
      rcases List.mem_cons.1 hx with rfl | hx
      · have hbx := (hmin r List.mem_cons_self).1.trans_lt hlt
        exact ⟨hbx.le, fun he => absurd he hbx.ne'⟩
      · exact hmin x hx
    · obtain ⟨b, hb, hfold, hmin⟩ := ih (h.sublist ((List.sublist_cons_self r rest).cons_cons s))
      rw [decide_eq_false hlt, if_neg Bool.false_ne_true]
      refine ⟨b, ?_, hfold, fun x hx => ?_⟩
      · rcases List.mem_cons.1 hb with rfl | hb
        · exact List.mem_cons_self
        · exact List.mem_cons_of_mem s (List.mem_cons_of_mem r hb)
      · have hbs := hmin s List.mem_cons_self
        rcases List.mem_cons.1 hx with rfl | hx
        · exact hbs
        · rcases List.mem_cons.1 hx with rfl | hx
          -- a later route of the same cost does not replace the incumbent
          · have hbr := hbs.1.trans (not_lt.1 hlt)
            refine ⟨hbr, fun he => ?_⟩
            have hsb := le_antisymm ((not_lt.1 hlt).trans he.le) hbs.1
            exact (hbs.2 hsb).trans (hs x List.mem_cons_self).le
          · exact hmin x (List.mem_cons_of_mem s hx)

variable {trip : Trip K}

theorem evaluate_eq_routeCost {l : List (Fin trip.matrix.size)}
    (hl : l.Perm (List.finRange trip.matrix.size)) :
    trip.evaluate ⟨l.map Fin.val⟩ = .ok ⟨routeCost trip l, Exact.isComparable_eq _⟩ := by
  rw [Trip.evaluate_eq_sum hl]
  simp only [routeCost, Exact.foldl_add, Exact.zero_eq, zero_add]

/-- Every route through all waypoints costs as much as one that the search tries, which does not
come after it. -/
theorem exists_routes_le {l : List (Fin trip.matrix.size)}
    (hl : l.Perm (List.finRange trip.matrix.size)) :
    ∃ r ∈ routes trip, routeCost trip r = routeCost trip l ∧ r ≤ l := by
  have htwo := trip.matrix.two_le_size
  let origin : Fin trip.matrix.size := ⟨0, by omega⟩
  have hmem : origin ∈ l := hl.mem_iff.2 (List.mem_finRange origin)
  cases htour : trip.tour with
  | oneWay =>
    refine ⟨l, mem_routes.2 ⟨hl, ?_⟩, rfl, le_rfl⟩
    obtain ⟨start, rest, rfl⟩ := List.exists_cons_of_ne_nil (List.ne_nil_of_mem hmem)
    refine ⟨start, ?_, rest, rfl⟩
    simp only [starts, htour, List.mem_finRange]
  | roundTrip =>
    obtain ⟨before, after, rfl⟩ := List.append_of_mem hmem
    have hstart : origin ∈ starts trip := by
      simp only [starts, htour]
      refine List.mem_take_iff_getElem.2 ⟨0, ?_, ?_⟩
      · simp only [List.length_finRange]
        omega
      · simp [origin]
    refine ⟨origin :: after ++ before,
      mem_routes.2 ⟨?_, origin, hstart, after ++ before, rfl⟩, ?_, ?_⟩
    · exact List.perm_append_comm.trans hl
    · have hlegs := Trip.legCosts_rotate htour before (origin :: after)
      simp only [routeCost, Exact.foldl_add]
      rw [hlegs.sum_eq]
    · cases before with
      | nil => rw [List.append_nil, List.nil_append]
      | cons first rest =>
        have hnodup := hl.nodup_iff.2 (List.nodup_finRange _)
        have hne : origin ≠ first := by
          rintro rfl
          exact (List.nodup_cons.1 hnodup).1 (by simp)
        refine le_of_lt (List.cons_lt_cons_iff.2 (.inl ?_))
        exact lt_of_le_of_ne (Nat.zero_le first.val) hne

variable (trip) in
theorem routes_ne_nil : routes trip ≠ [] := by
  obtain ⟨r, hr, -⟩ := exists_routes_le (List.Perm.refl (List.finRange trip.matrix.size))
  exact List.ne_nil_of_mem hr

variable (trip) in
/-- Trying all routes finds the lexicographically smallest of the cheapest ones. -/
theorem exists_exhaust : ∃ best : List (Fin trip.matrix.size),
    exhaust trip = some ⟨best, routeCost trip best⟩ ∧
    best.Perm (List.finRange trip.matrix.size) ∧
    ∀ l : List (Fin trip.matrix.size), l.Perm (List.finRange trip.matrix.size) →
      routeCost trip best ≤ routeCost trip l ∧
      (routeCost trip l = routeCost trip best → best ≤ l) := by
  obtain ⟨first, rest, hroutes⟩ := List.exists_cons_of_ne_nil (routes_ne_nil trip)
  have hlex := pairwise_routes trip
  rw [hroutes] at hlex
  obtain ⟨best, hbest, hfold, hmin⟩ := foldl_improve (routeCost trip) hlex
  rw [← hroutes] at hbest hmin
  refine ⟨best, ?_, (mem_routes.1 hbest).1, fun l hl => ?_⟩
  · rw [exhaust, hroutes, List.foldl_cons]
    exact hfold
  · obtain ⟨r, hr, hcost, hle⟩ := exists_routes_le hl
    obtain ⟨hrcost, hrle⟩ := hmin r hr
    rw [← hcost]
    exact ⟨hrcost, fun he => (hrle he).trans hle⟩

theorem map_val_le {n : Nat} {l r : List (Fin n)} (h : l ≤ r) : l.map Fin.val ≤ r.map Fin.val := by
  rcases h.lt_or_eq with hlt | rfl
  · exact le_of_lt (List.map_lt (fun _ _ => id) hlt)
  · exact le_rfl

variable [IsStrictOrderedRing K]

/-- **The search returns the lexicographically smallest of the cheapest routes**, whatever the
shape of the tour, and finds it where trying all routes would. -/
theorem solve_optimal {names : List String} {entries : List (CostEntry K)} {m : CostMatrix K}
    (hm : CostMatrix.ofEntries names entries = .ok m) (hlimit : m.size ≤ limit) (tour : Tour) :
    ∃ best : Individual K, solve ⟨m, tour⟩ = .ok best ∧
      (Trip.mk m tour).evaluate best.route = .ok best.fitness ∧ best.generation = 0 ∧
      IsLeast {stops : List Nat | (Trip.mk m tour).IsCheapest ⟨stops⟩} best.route.stops ∧
      search ⟨m, tour⟩ = exhaust ⟨m, tour⟩ := by
  have hsearch : search ⟨m, tour⟩ = exhaust ⟨m, tour⟩ :=
    search_eq_exhaust (CostMatrix.valid_of_ofEntries hm)
  obtain ⟨best, hexhaust, hperm, hmin⟩ := exists_exhaust ⟨m, tour⟩
  have hevaluate := evaluate_eq_routeCost hperm
  refine ⟨⟨⟨best.map Fin.val⟩, _, 0⟩, ?_, hevaluate, rfl, ⟨⟨Route.visits_map.2 hperm, ?_⟩, ?_⟩,
    hsearch⟩
  · simp only [solve, hsearch, hexhaust, Trip.individual]
    rw [if_neg (Nat.not_lt.2 hlimit), hevaluate]
    rfl
  · refine ⟨_, hevaluate, fun s hs => ?_⟩
    obtain ⟨l, hl, rfl⟩ := hs.exists_list
    exact ⟨_, evaluate_eq_routeCost hl, decide_eq_true (hmin l hl).1⟩
  · rintro stops ⟨hvisits, f, hf, hcheapest⟩
    obtain ⟨l, hl, hstops⟩ := hvisits.exists_list
    obtain rfl : stops = l.map Fin.val := congrArg Route.stops hstops
    obtain ⟨g, hg, hle⟩ := hcheapest _ (Route.visits_map.2 hperm)
    obtain rfl := Except.ok.inj (hf.symm.trans (evaluate_eq_routeCost hl))
    obtain rfl := Except.ok.inj (hg.symm.trans hevaluate)
    have hcost := of_decide_eq_true hle
    exact map_val_le ((hmin l hl).2 (le_antisymm hcost (hmin l hl).1))

/-- The search on a table of three waypoints. -/
theorem solve_optimal_triangle : ∃ m : CostMatrix ℚ,
    CostMatrix.ofEntries ["A", "B", "C"]
      [⟨"A", "B", (5 : ℚ)⟩, ⟨"C", "B", 2⟩, ⟨"A", "C", 3⟩] = .ok m ∧
    m.size ≤ limit ∧
    ∀ tour, ∃ best : Individual ℚ, solve ⟨m, tour⟩ = .ok best ∧
      (Trip.mk m tour).evaluate best.route = .ok best.fitness ∧ best.generation = 0 ∧
      IsLeast {stops : List Nat | (Trip.mk m tour).IsCheapest ⟨stops⟩} best.route.stops ∧
      search ⟨m, tour⟩ = exhaust ⟨m, tour⟩ := by
  have hsize : (CostMatrix.ofEntries ["A", "B", "C"]
      [⟨"A", "B", (5 : ℚ)⟩, ⟨"C", "B", 2⟩, ⟨"A", "C", 3⟩]).toOption.map (·.size) = some 3 := by
    decide +kernel
  cases hm : CostMatrix.ofEntries ["A", "B", "C"]
      [⟨"A", "B", (5 : ℚ)⟩, ⟨"C", "B", 2⟩, ⟨"A", "C", 3⟩] with
  | error error => rw [hm] at hsize; cases hsize
  | ok m =>
    rw [hm] at hsize
    have hlimit : m.size ≤ limit := by
      rw [show m.size = 3 from Option.some.inj hsize]
      decide
    exact ⟨m, rfl, hlimit, solve_optimal hm hlimit⟩

end ExactSearch

end RoadTrip
