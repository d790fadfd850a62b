import Mathlib
import RoadTrip.Proofs.Cost.Exact
import RoadTrip.Proofs.Trip.Rotation

/-!
# The cost of a route, position by position

With costs that are not rounded, a round trip costs the sum of the legs that lead to each of its
positions from the one before, counted around the circle, and a one-way trip the same sum without
the leg to its first position (`evaluate_symmetric`). On a matrix whose costs do not depend on the
direction, a trip backwards has the legs of the trip forwards in reverse, so it costs the same.
-/

namespace RoadTrip

namespace Route

/-- The waypoint at a position of a route through all of them. -/
def Visits.stop {r : Route} {n : Nat} (h : r.Visits n) (i : Fin n) : Fin n :=
  ⟨r.stops.get (i.cast h.length.symm), h.lt (List.get_mem _ _)⟩

theorem Visits.map_ofFn_stop {r : Route} {n : Nat} (h : r.Visits n) :
    (List.ofFn h.stop).map Fin.val = r.stops := by
  rw [List.map_ofFn]
  exact (List.ofFn_congr h.length r.stops.get).symm.trans (List.ofFn_get r.stops)

end Route

/-! ## Trips backwards -/

section Reverse

variable {α : Type} {m : CostMatrix α} {t : Trip α}

namespace CostMatrix

/-- The legs of the way back are those of the way there in reverse. -/
theorem legCosts_reverse (hm : ∀ a b, m.cost a b = m.cost b a) (l : List (Fin m.size)) :
    m.legCosts l.reverse = (m.legCosts l).reverse := by
  induction l with
  | nil => rfl
  | cons a rest ih =>
    cases rest with
    | nil => rfl
    | cons b rest =>
      have hlast : (a :: b :: rest).reverse = rest.reverse ++ [b, a] := by simp
      rw [hlast, legCosts_append_pair, ← List.reverse_cons, ih, hm b a]
      exact (List.reverse_cons).symm

end CostMatrix

namespace Trip

theorem itinerary_oneWay (ht : t.tour = .oneWay) (l : List (Fin t.matrix.size)) :
    t.itinerary l = l := by
  simp only [itinerary, ht]

theorem itinerary_roundTrip (ht : t.tour = .roundTrip) {l : List (Fin t.matrix.size)}
    (a : Fin t.matrix.size) (hl : l ≠ []) : t.itinerary (a :: l) = a :: l ++ [a] := by
  obtain ⟨b, rest, rfl⟩ := List.exists_cons_of_ne_nil hl
  simp only [itinerary, ht]

theorem itinerary_ofFn (ht : t.tour = .roundTrip) {n : Nat} [NeZero n] (hn : 2 ≤ n)
    (v : Fin n → Fin t.matrix.size) : t.itinerary (List.ofFn v) = List.ofFn v ++ [v 0] := by
  obtain ⟨k, rfl⟩ := Nat.exists_eq_add_of_le' hn
  rw [List.ofFn_succ]
  exact itinerary_roundTrip ht _ (by simp)

/-- **A trip backwards has the same legs**, in another order. -/
theorem legCosts_itinerary_reverse (hm : ∀ a b, t.matrix.cost a b = t.matrix.cost b a)
    (l : List (Fin t.matrix.size)) :
    (t.matrix.legCosts (t.itinerary l.reverse)).Perm (t.matrix.legCosts (t.itinerary l)) := by
  cases ht : t.tour with
  | oneWay =>
    rw [itinerary_oneWay ht, itinerary_oneWay ht, CostMatrix.legCosts_reverse hm]
    exact List.reverse_perm _
  | roundTrip =>
    match l with
    | [] => rfl
    | [a] => rfl
    | a :: b :: rest =>
      have hback : t.itinerary (a :: (b :: rest).reverse) =
          (t.itinerary (a :: b :: rest)).reverse := by
        rw [itinerary_roundTrip ht a (by simp), itinerary_roundTrip ht a (List.cons_ne_nil b rest)]
        simp
      -- the way back starts at the last stop, so it is turned round to start at the first one
      have hturned := legCosts_rotate ht [a] (b :: rest).reverse
      rw [List.singleton_append, hback, CostMatrix.legCosts_reverse hm] at hturned
      rw [List.reverse_cons]
      exact hturned.trans (List.reverse_perm _)

end Trip

end Reverse

/-! ## Sums over positions -/

section Exact

variable {K : Type} [Field K] [LinearOrder K] {m : CostMatrix K}

instance {α : Type} (m : CostMatrix α) : NeZero m.size :=
  ⟨Nat.ne_of_gt (Nat.lt_of_lt_of_le Nat.two_pos m.two_le_size)⟩

namespace CostMatrix

omit [LinearOrder K] in
theorem sum_legCosts_ofFn {k : Nat} (v : Fin (k + 1) → Fin m.size) :
    (m.legCosts (List.ofFn v)).sum = ∑ i : Fin k, m.cost (v i.castSucc) (v i.succ) := by
  induction k with
  | zero => rfl
  | succ k ih =>
    have hcons : m.legCosts (List.ofFn v) =
        m.cost (v 0) (v 1) :: m.legCosts (List.ofFn fun i => v i.succ) := by
      simp only [List.ofFn_succ, legCosts, Fin.succ_zero_eq_one]
    rw [hcons, List.sum_cons, ih, Fin.sum_univ_succ]
    rfl

omit [LinearOrder K] in
/-- The legs of a way cost the sum over all positions but the first of the legs that lead there. -/
theorem sum_legCosts {n : Nat} [NeZero n] (v : Fin n → Fin m.size) :
    (m.legCosts (List.ofFn v)).sum = ∑ i ∈ Finset.Ioi 0, m.cost (v (i - 1)) (v i) := by
  obtain ⟨k, rfl⟩ := Nat.exists_eq_succ_of_ne_zero (NeZero.ne n)
  rw [sum_legCosts_ofFn, Fin.sum_Ioi_zero]
  refine Finset.sum_congr rfl fun i _ => ?_
  rw [← Fin.coeSucc_eq_succ, add_sub_cancel_right]

omit [LinearOrder K] in
/-- The legs of a circle cost the sum over all positions of the legs that lead there. -/
theorem sum_legCosts_circle {n : Nat} [NeZero n] (v : Fin n → Fin m.size) :
    (m.legCosts (List.ofFn v ++ [v 0])).sum = ∑ i, m.cost (v (i - 1)) (v i) := by
  obtain ⟨k, rfl⟩ := Nat.exists_eq_succ_of_ne_zero (NeZero.ne n)
  have hsnoc : List.ofFn v ++ [v 0] = List.ofFn (Fin.snoc v (v 0) : Fin (k + 2) → _) := by
    have hlast := List.ofFn_succ' (Fin.snoc v (v 0) : Fin (k + 2) → Fin m.size)
    rw [hlast, List.concat_eq_append, Fin.snoc_last]
    simp only [Fin.snoc_castSucc]
  calc (m.legCosts (List.ofFn v ++ [v 0])).sum
    _ = ∑ i : Fin (k + 1), m.cost (v i) (v (i + 1)) := by
      rw [hsnoc, sum_legCosts_ofFn]
      refine Finset.sum_congr rfl fun i _ => ?_
      rw [Fin.snoc_castSucc]
      refine i.lastCases ?_ fun j => ?_
      · simp
      · rw [Fin.succ_castSucc, Fin.snoc_castSucc, Fin.coeSucc_eq_succ]
    _ = ∑ i : Fin (k + 1), m.cost (v (i - 1)) (v (i - 1 + 1)) :=
      (Equiv.sum_comp (Equiv.subRight 1) fun i => m.cost (v i) (v (i + 1))).symm
    _ = ∑ i, m.cost (v (i - 1)) (v i) := by simp only [sub_add_cancel]

end CostMatrix

namespace Trip

/-- The fitness of a route is the sum of its legs. -/
theorem evaluate_eq_sum {t : Trip K} {l : List (Fin t.matrix.size)}
    (hl : l.Perm (List.finRange t.matrix.size)) :
    t.evaluate ⟨l.map Fin.val⟩ =
      .ok ⟨(t.matrix.legCosts (t.itinerary l)).sum, Exact.isComparable_eq _⟩ := by
  rw [evaluate_list (by rw [hl.length_eq, List.length_finRange]),
    Fitness.ofCost_of_comparable (Exact.isComparable_eq _)]
  simp only [Exact.sum_eq]

/-- Routes with the same legs in some order cost the same. -/
theorem evaluate_congr {t : Trip K} {l l' : List (Fin t.matrix.size)}
    (hl : l.Perm (List.finRange t.matrix.size)) (hperm : l'.Perm l)
    (hlegs : (t.matrix.legCosts (t.itinerary l')).Perm (t.matrix.legCosts (t.itinerary l))) :
    t.evaluate ⟨l'.map Fin.val⟩ = t.evaluate ⟨l.map Fin.val⟩ := by
  simp only [evaluate_eq_sum hl, evaluate_eq_sum (hperm.trans hl), hlegs.sum_eq]

/-- **What a route costs.** A round trip costs the sum over all positions of the legs that lead
there from the position before, around the circle, and a one-way trip the sum over all positions
but the first. Both cost the same backwards, and a round trip the same from wherever it starts. -/
theorem evaluate_symmetric {names : List String} {entries : List (CostEntry K)}
    {m : CostMatrix K} (hm : CostMatrix.ofEntries names entries = .ok m) {r : Route}
    (hr : r.Visits m.size) :
    (∃ f, (Trip.mk m .roundTrip).evaluate r = .ok f ∧
      f.cost = ∑ i, m.cost (hr.stop (i - 1)) (hr.stop i)) ∧
    (∃ f, (Trip.mk m .oneWay).evaluate r = .ok f ∧
      f.cost = ∑ i ∈ Finset.Ioi 0, m.cost (hr.stop (i - 1)) (hr.stop i)) ∧
    (∀ tour, (Trip.mk m tour).evaluate ⟨r.stops.reverse⟩ = (Trip.mk m tour).evaluate r) ∧
    (∀ k, (Trip.mk m .roundTrip).evaluate ⟨r.stops.rotate k⟩ =
      (Trip.mk m .roundTrip).evaluate r) := by
  have hsymm := (CostMatrix.valid_of_ofEntries hm).symm
  have hstops := hr.map_ofFn_stop
  have hl : (List.ofFn hr.stop).Perm (List.finRange m.size) := by
    rw [← Route.visits_map, hstops]
    exact hr
  have hroute : r = ⟨(List.ofFn hr.stop).map Fin.val⟩ := congrArg Route.mk hstops.symm
  have heval (tour : Tour) := congrArg (Trip.mk m tour).evaluate hroute
  refine ⟨⟨_, (heval _).trans (evaluate_eq_sum hl), ?_⟩, ⟨_, (heval _).trans (evaluate_eq_sum hl),
    ?_⟩, fun tour => ?_, fun k => ?_⟩
  · rw [← CostMatrix.sum_legCosts_circle]
    exact congrArg (fun l => (m.legCosts l).sum)
      (itinerary_ofFn (t := ⟨m, .roundTrip⟩) rfl m.two_le_size hr.stop)
  · rw [← CostMatrix.sum_legCosts]
    exact congrArg (fun l => (m.legCosts l).sum) (itinerary_oneWay rfl _)
  · rw [heval tour, ← hstops, ← List.map_reverse]
    exact evaluate_congr hl (List.reverse_perm _) (legCosts_itinerary_reverse hsymm _)
  · rw [heval, ← hstops, ← List.map_rotate]
    refine evaluate_congr hl (List.rotate_perm _ _) ?_
    have hturned := legCosts_rotate (t := ⟨m, .roundTrip⟩) rfl
      ((List.ofFn hr.stop).take (k % (List.ofFn hr.stop).length))
      ((List.ofFn hr.stop).drop (k % (List.ofFn hr.stop).length))
    rwa [List.take_append_drop, ← List.rotate_eq_drop_append_take_mod] at hturned

/-- A detour over three waypoints. -/
theorem evaluate_symmetric_detour : ∃ m : CostMatrix ℚ,
    CostMatrix.ofEntries ["A", "B", "C"]
      [⟨"A", "B", (5 : ℚ)⟩, ⟨"C", "B", 2⟩, ⟨"A", "C", 3⟩] = .ok m ∧
    ∃ hr : (Route.mk [2, 0, 1]).Visits m.size,
      (∃ f, (Trip.mk m .roundTrip).evaluate ⟨[2, 0, 1]⟩ = .ok f ∧
        f.cost = ∑ i, m.cost (hr.stop (i - 1)) (hr.stop i)) ∧
      (∃ f, (Trip.mk m .oneWay).evaluate ⟨[2, 0, 1]⟩ = .ok f ∧
        f.cost = ∑ i ∈ Finset.Ioi 0, m.cost (hr.stop (i - 1)) (hr.stop i)) ∧
      (∀ tour, (Trip.mk m tour).evaluate ⟨[1, 0, 2]⟩ = (Trip.mk m tour).evaluate ⟨[2, 0, 1]⟩) ∧
      (Trip.mk m .roundTrip).evaluate ⟨[0, 1, 2]⟩ =
        (Trip.mk m .roundTrip).evaluate ⟨[2, 0, 1]⟩ := by
  obtain ⟨m, hm, hsize⟩ : ∃ m, CostMatrix.ofEntries ["A", "B", "C"]
      [⟨"A", "B", (5 : ℚ)⟩, ⟨"C", "B", 2⟩, ⟨"A", "C", 3⟩] = .ok m ∧ m.size = 3 :=
    CostMatrix.exists_of_size (by decide +kernel)
  have hr : (Route.mk [2, 0, 1]).Visits m.size := by
    rw [hsize]
    exact Route.isPermutation_iff.1 (by decide)
  obtain ⟨hround, honeWay, hback, hturned⟩ := evaluate_symmetric hm hr
  exact ⟨m, hm, hr, hround, honeWay, hback, hturned 1⟩

end Trip

end Exact

end RoadTrip
