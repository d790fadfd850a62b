import Mathlib
import RoadTrip.Proofs.Cost.Exact
import RoadTrip.Proofs.ExactSearch.Arrangements
import RoadTrip.Proofs.Trip.Evaluation

/-!
# Nothing is lost by giving up

In exact arithmetic the bound of a partial route is at most what any completion of it costs more
(`add_bound_le_runningCost`): each waypoint still to be reached, and on a round trip the start, is
charged to the leg that leads to it. A partial route is therefore only given up where no completion
could take the place of the incumbent, and the search finds what trying all routes finds
(`search_eq_exhaust`).
-/

namespace RoadTrip.ExactSearch

/-! ## The cost of a complete route -/

section Running

variable {α : Type} [Cost α] (trip : Trip α) (start : Fin trip.matrix.size)

/-- Where a complete route still has to go: back to its start, on a round trip. -/
def wayBack : List (Fin trip.matrix.size) :=
  match trip.tour with
  | .roundTrip => [start]
  | .oneWay => []

/-- What a partial route that ends at `last` costs with the stops `rest` behind it. -/
def runningCost (last : Fin trip.matrix.size) (cost : α) (rest : List (Fin trip.matrix.size)) : α :=
  (trip.matrix.legCosts (last :: rest ++ wayBack trip start)).foldl Cost.add cost

variable {trip start} {last next : Fin trip.matrix.size} {cost : α}
  {rest : List (Fin trip.matrix.size)}

theorem runningCost_nil : runningCost trip start last cost [] = totalCost trip start last cost := by
  unfold runningCost wayBack totalCost
  cases trip.tour <;> rfl

theorem runningCost_cons : runningCost trip start last cost (next :: rest) =
    runningCost trip start next (Cost.add cost (trip.matrix.cost last next)) rest :=
  rfl

omit [Cost α] in
theorem itinerary_cons (h : rest ≠ []) :
    trip.itinerary (start :: rest) = start :: rest ++ wayBack trip start := by
  obtain ⟨next, rest, rfl⟩ := List.exists_cons_of_ne_nil h
  unfold Trip.itinerary wayBack
  cases trip.tour with
  | roundTrip => rfl
  | oneWay => rw [List.append_nil]

variable (trip)

/-- The cost of a route as the search adds it up. -/
def routeCost (stops : List (Fin trip.matrix.size)) : α :=
  (trip.matrix.legCosts (trip.itinerary stops)).foldl Cost.add Cost.zero

/-- The plain search: every complete route is tried. -/
def exhaust : Option (Incumbent α trip.matrix.size) :=
  (routes trip).foldl (fun best stops => improve best stops (routeCost trip stops)) none

variable {trip}

theorem routeCost_cons (h : rest ≠ []) :
    routeCost trip (start :: rest) = runningCost trip start start Cost.zero rest := by
  rw [routeCost, itinerary_cons h]
  rfl

end Running

/-! ## The bound -/

section Bound

variable {K : Type} [Field K] [LinearOrder K]

theorem foldl_least_le {costs : List K} {c x : K} (h : x ∈ c :: costs) :
    costs.foldl Cost.least c ≤ x := by
  induction costs generalizing c x with
  | nil => exact (List.mem_singleton.1 h).symm.le
  | cons d rest ih =>
    rw [List.foldl_cons, Exact.least_eq]
    rcases List.mem_cons.1 h with rfl | h
    · exact (ih List.mem_cons_self).trans (min_le_left _ _)
    · rcases List.mem_cons.1 h with rfl | h
      · exact (ih List.mem_cons_self).trans (min_le_right _ _)
      · exact ih (List.mem_cons_of_mem _ h)

theorem cheapestLeg_le {m : CostMatrix K} {a b : Fin m.size} (h : b ≠ a) :
    cheapestLeg m a ≤ m.cost a b := by
  have hmem : m.cost a b ∈ ((List.finRange m.size).filter (· ≠ a)).map (m.cost a) :=
    List.mem_map_of_mem (by simp [h])
  unfold cheapestLeg
  split
  · rename_i hnil
    rw [hnil] at hmem
    cases hmem
  · rename_i c rest hcons
    rw [hcons] at hmem
    exact foldl_least_le hmem

theorem get_cheapestLegs (m : CostMatrix K) (a : Fin m.size) :
    (cheapestLegs m).get a = cheapestLeg m a := by
  simp [cheapestLegs]

variable {trip : Trip K} {start : Fin trip.matrix.size}

theorem bound_nil : bound trip (cheapestLegs trip.matrix) start [] =
    match trip.tour with
    | .roundTrip => cheapestLeg trip.matrix start
    | .oneWay => 0 := by
  unfold bound
  cases trip.tour <;> simp [get_cheapestLegs]

theorem bound_cons (next : Fin trip.matrix.size) (rest : List (Fin trip.matrix.size)) :
    bound trip (cheapestLegs trip.matrix) start (next :: rest) =
      cheapestLeg trip.matrix next + bound trip (cheapestLegs trip.matrix) start rest := by
  unfold bound
  cases trip.tour <;> simp [get_cheapestLegs, add_assoc]

theorem bound_perm {rest rest' : List (Fin trip.matrix.size)} (h : rest.Perm rest') :
    bound trip (cheapestLegs trip.matrix) start rest =
      bound trip (cheapestLegs trip.matrix) start rest' := by
  have hsum := (h.map fun a => (cheapestLegs trip.matrix).get a).sum_eq
  unfold bound
  cases trip.tour <;> simp [hsum]

variable [IsStrictOrderedRing K]

/-- The leg to a waypoint costs at least what the bound charges for it. -/
theorem add_bound_cons_le (hm : trip.matrix.Valid) {last next : Fin trip.matrix.size}
    (hne : last ≠ next) (cost : K) (rest : List (Fin trip.matrix.size)) :
    cost + bound trip (cheapestLegs trip.matrix) start (next :: rest) ≤
      cost + trip.matrix.cost last next + bound trip (cheapestLegs trip.matrix) start rest := by
  have hleg := cheapestLeg_le hne
  rw [hm.symm] at hleg
  rw [bound_cons, ← add_assoc]
  gcongr

variable (start) in
/-- **The bound is admissible**: no completion of a partial route costs less than the partial route
and the bound on what is to come. -/
theorem add_bound_le_runningCost (hm : trip.matrix.Valid) {last : Fin trip.matrix.size} (cost : K)
    {rest : List (Fin trip.matrix.size)} (hnodup : (last :: rest).Nodup) (hstart : start ∉ rest)
    (hlast : rest = [] → last ≠ start) :
    cost + bound trip (cheapestLegs trip.matrix) start rest ≤
      runningCost trip start last cost rest := by
  induction rest generalizing last cost with
  | nil =>
    rw [bound_nil, runningCost_nil, totalCost]
    cases trip.tour with
    | oneWay => exact (add_zero cost).le
    | roundTrip =>
      have hleg := cheapestLeg_le (hlast rfl)
      rw [hm.symm] at hleg
      exact add_le_add_right hleg cost
  | cons next rest ih =>
    have hne : last ≠ next := fun he => (List.nodup_cons.1 hnodup).1 (he ▸ List.mem_cons_self)
    have hrest := ih (cost + trip.matrix.cost last next) (List.nodup_cons.1 hnodup).2
      (fun h => hstart (List.mem_cons_of_mem next h))
      fun _ he => hstart (he ▸ List.mem_cons_self)
    rw [runningCost_cons]
    exact (add_bound_cons_le hm hne cost rest).trans hrest

end Bound

/-! ## Pruning -/

section Pruning

variable {α : Type} [Cost α] {n : Nat}

/-- An incumbent keeps its place against routes that are no cheaper. -/
theorem foldl_improve_of_not_lt {β : Type} {l : List β} {stops : β → List (Fin n)} {cost : β → α}
    {best : Incumbent α n} (h : ∀ r ∈ l, Cost.lt (cost r) best.cost = false) :
    l.foldl (fun best r => improve best (stops r) (cost r)) (some best) = some best := by
  induction l with
  | nil => rfl
  | cons r rest ih =>
    have hr := h r List.mem_cons_self
    rw [List.foldl_cons, improve, hr]
    exact ih fun s hs => h s (List.mem_cons_of_mem r hs)

variable {K : Type} [Field K] [LinearOrder K] [IsStrictOrderedRing K] {trip : Trip K}
  {start : Fin trip.matrix.size}

/-- Below a partial route the search does what trying all its completions does. -/
theorem extend_eq_foldl (hm : trip.matrix.Valid) {depth : Nat}
    {remaining path : List (Fin trip.matrix.size)} {last : Fin trip.matrix.size} {cost : K}
    {best : Option (Incumbent K trip.matrix.size)} (hdepth : remaining.length = depth)
    (hnodup : (last :: remaining).Nodup) (hstart : start ∉ remaining) :
    extend trip (cheapestLegs trip.matrix) start depth remaining path last cost best =
      (arrangements depth remaining).foldl (fun best rest =>
        improve best (path.reverse ++ rest) (runningCost trip start last cost rest)) best := by
  induction depth generalizing remaining path last cost best with
  | zero => simp [extend, arrangements, runningCost_nil]
  | succ depth ih =>
    rw [extend]
    split
    · rename_i hhopeless
      cases best with
      | none => cases hhopeless
      | some b =>
        -- every completion costs at least the bound, and the bound at least the incumbent
        refine (foldl_improve_of_not_lt fun rest hrest => ?_).symm
        have hperm := (mem_arrangements hdepth).1 hrest
        have hbound := add_bound_le_runningCost start hm cost
          ((hperm.cons last).nodup_iff.2 hnodup) (fun h => hstart (hperm.mem_iff.1 h))
          fun hnil => by rw [hnil] at hperm; rw [← hperm.length_eq] at hdepth; cases hdepth
        rw [bound_perm hperm] at hbound
        have hcost : b.cost ≤ cost + bound trip (cheapestLegs trip.matrix) start remaining := by
          simpa [hopeless] using hhopeless
        simpa using hcost.trans hbound
    · rw [arrangements, List.foldl_flatMap]
      apply List.foldl_ext _ _ _
      intro best next hnext
      have hremaining := (List.nodup_cons.1 hnodup).2
      rw [List.foldl_map, ih (by rw [List.length_erase_of_mem hnext, hdepth, Nat.add_sub_cancel])
        (List.nodup_cons.2 ⟨hremaining.not_mem_erase, hremaining.erase next⟩)
        fun h => hstart (List.mem_of_mem_erase h)]
      simp only [runningCost_cons, List.reverse_cons, List.append_assoc, List.singleton_append]

/-- **The search finds what trying all routes finds.** -/
theorem search_eq_exhaust (hm : trip.matrix.Valid) : search trip = exhaust trip := by
  have htwo := trip.matrix.two_le_size
  unfold search exhaust routes
  rw [List.foldl_flatMap]
  apply List.foldl_ext _ _ _
  intro best start _
  have hstart := List.mem_finRange start
  have hnodup := List.nodup_finRange trip.matrix.size
  have hlength : ((List.finRange trip.matrix.size).erase start).length = trip.matrix.size - 1 := by
    rw [List.length_erase_of_mem hstart, List.length_finRange]
  rw [extend_eq_foldl hm hlength (List.nodup_cons.2 ⟨hnodup.not_mem_erase, hnodup.erase start⟩)
    hnodup.not_mem_erase, List.foldl_map]
  apply List.foldl_ext _ _ _
  intro best rest hrest
  have hrest := ((mem_arrangements hlength).1 hrest).length_eq
  rw [routeCost_cons fun hnil => by rw [hnil] at hrest; simp only [List.length_nil] at hrest; omega]
  rfl

end Pruning

end RoadTrip.ExactSearch
