import RoadTrip.Proofs.Cost.Binary64
import RoadTrip.Proofs.ExactSearch.Exhaustion

/-!
# The search with costs that may be rounded

Bounds need not be admissible when addition rounds, so the search may give up the cheapest route.
What it returns still is a route through all waypoints, found at the cost of its legs added up from
left to right, and no dearer than any complete route that the search came to (`solve_reached`). A
second search keeps a ledger of these routes beside the incumbent (`ledger`), and the incumbent is
the first of the cheapest in it (`Ledger.Sound`). The first complete route is always reached, for
nothing is given up before there is an incumbent, so this holds of infinite costs, too.
-/

namespace RoadTrip.ExactSearch

variable {α : Type} [Cost α]

/-! ## The routes that are reached -/

/-- What a search has found, and the complete routes that it has come to, in this order. -/
structure Ledger (α : Type) (n : Nat) where
  best : Option (Incumbent α n)
  reached : List (List (Fin n))

def Ledger.empty (α : Type) (n : Nat) : Ledger α n := ⟨none, []⟩

/-- Come to a complete route. -/
def Ledger.reach {n : Nat} (l : Ledger α n) (stops : List (Fin n)) (cost : α) : Ledger α n :=
  ⟨improve l.best stops cost, l.reached ++ [stops]⟩

section

variable (trip : Trip α) (cheapest : Vector α trip.matrix.size) (start : Fin trip.matrix.size)

/-- Try the completions of a partial route as `extend` does, and keep the ledger. -/
def extendLedger : (depth : Nat) → (remaining path : List (Fin trip.matrix.size)) →
    (last : Fin trip.matrix.size) → (cost : α) → Ledger α trip.matrix.size →
    Ledger α trip.matrix.size
  | 0, _, path, last, cost, l => l.reach path.reverse (totalCost trip start last cost)
  | depth + 1, remaining, path, last, cost, l =>
    if hopeless trip cheapest start l.best remaining cost then l
    else
      remaining.foldl (fun l next =>
        extendLedger depth (remaining.erase next) (next :: path) next
          (Cost.add cost (trip.matrix.cost last next)) l) l

/-- The search with its ledger. -/
def ledger : Ledger α trip.matrix.size :=
  (starts trip).foldl (fun l start =>
    extendLedger trip (cheapestLegs trip.matrix) start (trip.matrix.size - 1)
      ((List.finRange trip.matrix.size).erase start) [start] start Cost.zero l) (.empty α _)

variable {trip cheapest start}

theorem best_extendLedger {depth : Nat} {remaining path : List (Fin trip.matrix.size)}
    {last : Fin trip.matrix.size} {cost : α} {l : Ledger α trip.matrix.size} :
    (extendLedger trip cheapest start depth remaining path last cost l).best =
      extend trip cheapest start depth remaining path last cost l.best := by
  induction depth generalizing remaining path last cost l with
  | zero => rfl
  | succ depth ih =>
    rw [extendLedger, extend]
    split
    · rfl
    · exact (List.foldl_hom _ fun _ _ => ih.symm).symm

/-- Keeping the ledger does not influence the search. -/
theorem best_ledger : (ledger trip).best = search trip :=
  (List.foldl_hom _ fun _ _ => best_extendLedger.symm).symm

/-! ## A route is always found -/

/-- Below a partial route there is an incumbent in the end, whether or not there was one before. -/
theorem isSome_extend {depth : Nat} {remaining path : List (Fin trip.matrix.size)}
    {last : Fin trip.matrix.size} {cost : α} {best : Option (Incumbent α trip.matrix.size)}
    (hdepth : remaining.length = depth) :
    (extend trip cheapest start depth remaining path last cost best).isSome = true := by
  induction depth generalizing remaining path last cost best with
  | zero =>
    rw [extend]
    cases best with
    | none => rfl
    | some b => rw [improve]; split <;> rfl
  | succ depth ih =>
    rw [extend]
    split
    · rename_i hhopeless
      cases best with
      | none => cases hhopeless
      | some b => rfl
    · -- the completion that is tried last leaves an incumbent
      obtain ⟨before, next, rfl⟩ := List.eq_nil_or_concat' remaining |>.resolve_left fun hnil => by
        rw [hnil] at hdepth
        cases hdepth
      rw [List.foldl_append]
      refine ih ?_
      rw [List.length_erase_of_mem (by simp), hdepth, Nat.add_sub_cancel]

omit [Cost α] in
theorem starts_ne_nil : starts trip ≠ [] := by
  have htwo := trip.matrix.two_le_size
  have hlength : (List.finRange trip.matrix.size).length = trip.matrix.size :=
    List.length_finRange
  unfold starts
  cases trip.tour with
  | roundTrip =>
    intro hnil
    have := congrArg List.length hnil
    rw [List.length_take, hlength, List.length_nil] at this
    omega
  | oneWay =>
    refine List.ne_nil_of_length_pos ?_
    rw [hlength]
    omega

omit [Cost α] in
theorem length_erase_finRange (start : Fin trip.matrix.size) :
    ((List.finRange trip.matrix.size).erase start).length = trip.matrix.size - 1 := by
  rw [List.length_erase_of_mem (List.mem_finRange start), List.length_finRange]

variable (trip) in
/-- The search finds a route, whatever the costs are. -/
theorem exists_search : ∃ b, search trip = some b := by
  obtain ⟨before, start, hstarts⟩ :=
    (List.eq_nil_or_concat' (starts trip)).resolve_left starts_ne_nil
  rw [← Option.isSome_iff_exists, search, hstarts, List.foldl_append]
  exact isSome_extend (length_erase_finRange start)

end

/-! ## What the ledger says -/

/-- The incumbent is one of the routes reached and has the cost of its legs, and no route reached is
cheaper. -/
structure Ledger.Sound (trip : Trip α) (l : Ledger α trip.matrix.size) : Prop where
  mem_routes : ∀ r ∈ l.reached, r ∈ routes trip
  best : ∀ b, l.best = some b → b.stops ∈ l.reached ∧ b.cost = routeCost trip b.stops
  le : ∀ r ∈ l.reached, ∃ b, l.best = some b ∧ Cost.le b.cost (routeCost trip r) = true

variable {trip : Trip α} {l : Ledger α trip.matrix.size}

theorem Ledger.Sound.empty : (Ledger.empty α trip.matrix.size).Sound trip where
  mem_routes _ hr := absurd hr List.not_mem_nil
  best _ hb := by cases hb
  le _ hr := absurd hr List.not_mem_nil

section

variable [OrderedCost α]
  (hcomparable : ∀ r ∈ routes trip, Cost.isComparable (routeCost trip r) = true)

include hcomparable

omit [OrderedCost α] hcomparable in
/-- The ledger after a route is sound with an incumbent that is no dearer than any route in it. -/
theorem Ledger.Sound.of_improve (hl : l.Sound trip) {stops : List (Fin trip.matrix.size)}
    (hstops : stops ∈ routes trip) {b : Incumbent α trip.matrix.size}
    (hbest : improve l.best stops (routeCost trip stops) = some b)
    (hb : b.stops ∈ l.reached ++ [stops] ∧ b.cost = routeCost trip b.stops)
    (hle : ∀ r ∈ l.reached, Cost.le b.cost (routeCost trip r) = true)
    (hlast : Cost.le b.cost (routeCost trip stops) = true) :
    (l.reach stops (routeCost trip stops)).Sound trip where
  mem_routes := List.forall_mem_append.2 ⟨hl.mem_routes, List.forall_mem_singleton.2 hstops⟩
  best c hc := by
    obtain rfl := Option.some.inj (hbest.symm.trans hc)
    exact hb
  le r hr := by
    refine ⟨b, hbest, ?_⟩
    rcases List.mem_append.1 hr with hr | hr
    · exact hle r hr
    · rwa [List.mem_singleton.1 hr]

/-- A complete route takes the place of the incumbent or is no cheaper. -/
theorem Ledger.Sound.reach (hl : l.Sound trip) {stops : List (Fin trip.matrix.size)}
    (hstops : stops ∈ routes trip) : (l.reach stops (routeCost trip stops)).Sound trip := by
  have hself := hcomparable stops hstops
  have hlast : stops ∈ l.reached ++ [stops] := List.mem_append_right _ List.mem_cons_self
  cases hbest : l.best with
  | none =>
    refine hl.of_improve hstops (b := ⟨stops, routeCost trip stops⟩) ?_ ⟨hlast, rfl⟩
      (fun r hr => ?_) hself
    · rw [hbest, improve]
    · obtain ⟨b, hb, -⟩ := hl.le r hr
      rw [hbest] at hb
      cases hb
  | some b =>
    obtain ⟨hmem, hcost⟩ := hl.best b hbest
    have hle : ∀ r ∈ l.reached, Cost.le b.cost (routeCost trip r) = true := by
      intro r hr
      obtain ⟨c, hc, hle⟩ := hl.le r hr
      obtain rfl := Option.some.inj (hbest.symm.trans hc)
      exact hle
    cases hlt : Cost.lt (routeCost trip stops) b.cost with
    | true =>
      refine hl.of_improve hstops (b := ⟨stops, routeCost trip stops⟩) ?_ ⟨hlast, rfl⟩
        (fun r hr => ?_) hself
      · rw [hbest, improve, hlt, if_pos rfl]
      · exact OrderedCost.le_trans (Cost.lt_iff.1 hlt).1 (hle r hr)
    | false =>
      refine hl.of_improve hstops (b := b) ?_ ⟨List.mem_append_left _ hmem, hcost⟩ hle ?_
      · rw [hbest, improve, hlt, if_neg Bool.false_ne_true]
      · have hb := hcomparable b.stops (hl.mem_routes _ hmem)
        exact Cost.le_of_not_lt hself (hcost ▸ hb) hlt

/-- Below a partial route the ledger stays sound, provided that the cost of the partial route is
what its completions start from. -/
theorem Ledger.Sound.extend {cheapest : Vector α trip.matrix.size}
    {start last : Fin trip.matrix.size} {depth : Nat}
    {remaining path : List (Fin trip.matrix.size)} {cost : α}
    (hpath : ∀ rest ∈ arrangements depth remaining, path.reverse ++ rest ∈ routes trip ∧
      routeCost trip (path.reverse ++ rest) = runningCost trip start last cost rest)
    (hl : l.Sound trip) :
    (extendLedger trip cheapest start depth remaining path last cost l).Sound trip := by
  induction depth generalizing remaining path last cost l with
  | zero =>
    obtain ⟨hroute, hcost⟩ := hpath [] List.mem_cons_self
    rw [List.append_nil] at hroute hcost
    rw [runningCost_nil] at hcost
    rw [extendLedger, ← hcost]
    exact hl.reach hcomparable hroute
  | succ depth ih =>
    rw [extendLedger]
    split
    · exact hl
    · refine List.foldlRecOn remaining _ hl fun l hl next hnext => ih (fun rest hrest => ?_) hl
      rw [List.reverse_cons, List.append_assoc, List.singleton_append, ← runningCost_cons]
      exact hpath (next :: rest) (List.mem_flatMap.2 ⟨next, hnext, List.mem_map_of_mem hrest⟩)

theorem sound_ledger : (ledger trip).Sound trip := by
  have htwo := trip.matrix.two_le_size
  refine List.foldlRecOn _ _ .empty fun l hl start hstart => ?_
  refine hl.extend hcomparable fun rest hrest => ⟨?_, routeCost_cons ?_⟩
  · exact List.mem_flatMap.2 ⟨start, hstart, List.mem_map_of_mem hrest⟩
  · have hlength := length_erase_finRange start
    have hperm := (mem_arrangements hlength).1 hrest
    have hpos : 0 < rest.length := by
      rw [hperm.length_eq, hlength]
      omega
    exact List.ne_nil_of_length_pos hpos

end

/-! ## What the search returns -/

omit [Cost α] in
theorem head_of_mem_routes (htour : trip.tour = .roundTrip) {r : List (Fin trip.matrix.size)}
    (hr : r ∈ routes trip) : (r.map Fin.val).head? = some 0 := by
  obtain ⟨-, start, hstart, rest, rfl⟩ := mem_routes.1 hr
  simp only [starts, htour] at hstart
  obtain ⟨i, hi, rfl⟩ := List.mem_take_iff_getElem.1 hstart
  simp only [List.map_cons, List.head?_cons, List.getElem_finRange, Option.some.injEq]
  simp only [Fin.val_cast]
  omega

/-- What the search returns, and what it found on the way. -/
structure Returns (trip : Trip α) (best : Individual α) (found : Incumbent α trip.matrix.size) :
    Prop where
  solve : solve trip = .ok best
  visits : best.route.Visits trip.matrix.size
  start : trip.tour = .roundTrip → best.route.stops.head? = some 0
  evaluate : trip.evaluate best.route = .ok best.fitness
  search : search trip = some found
  ledger : (ledger trip).best = some found
  stops : best.route.stops = found.stops.map Fin.val
  mem_reached : found.stops ∈ (ExactSearch.ledger trip).reached
  /-- The route was found at the cost of its legs, and this is what it costs. -/
  cost : found.cost = routeCost trip found.stops
  same_cost : Cost.same best.fitness.cost found.cost = true
  /-- No complete route that the search came to is cheaper. -/
  le : ∀ r ∈ (ExactSearch.ledger trip).reached, r ∈ routes trip ∧
    ∃ f, trip.evaluate ⟨r.map Fin.val⟩ = .ok f ∧ best.fitness.le f = true

/-- **The search survives any arithmetic.** It returns a route through all waypoints, which starts
at the first one on a round trip. Its fitness is numerically that at which the search found it, and
no complete route that the search came to is cheaper. -/
theorem solve_reached [OrderedCost α] {S : α → Prop} (hS : Cost.AddDomain S) (trip : Trip α)
    (hcosts : ∀ a b, S (trip.matrix.cost a b)) (hlimit : trip.matrix.size ≤ limit) :
    ∃ best found, Returns trip best found := by
  have hevaluate {r : List (Fin trip.matrix.size)} (hr : r ∈ routes trip) :
      ∃ f, trip.evaluate ⟨r.map Fin.val⟩ = .ok f ∧
        Cost.same f.cost (routeCost trip r) = true :=
    Trip.exists_evaluate_same hS hcosts (mem_routes.1 hr).1
  have hcomparable : ∀ r ∈ routes trip, Cost.isComparable (routeCost trip r) = true := by
    intro r hr
    obtain ⟨f, -, hsame⟩ := hevaluate hr
    exact (OrderedCost.comparable_of_le (Cost.same_iff.1 hsame).1).2
  have hsound := sound_ledger hcomparable
  obtain ⟨found, hfound⟩ := exists_search trip
  have hledger := best_ledger.trans hfound
  obtain ⟨hmem, hcost⟩ := hsound.best found hledger
  have hroute := hsound.mem_routes _ hmem
  obtain ⟨f, hf, hsame⟩ := hevaluate hroute
  rw [← hcost] at hsame
  refine ⟨⟨⟨found.stops.map Fin.val⟩, f, 0⟩, found, ?_, Route.visits_map.2 (mem_routes.1 hroute).1,
    fun htour => head_of_mem_routes htour hroute, hf, hfound, hledger, rfl, hmem, hcost, hsame,
    fun r hr => ?_⟩
  · simp only [solve, hfound, Trip.individual]
    rw [if_neg (Nat.not_lt.2 hlimit), hf]
    rfl
  · have hr' := hsound.mem_routes r hr
    obtain ⟨g, hg, hsame'⟩ := hevaluate hr'
    obtain ⟨b, hb, hle⟩ := hsound.le r hr
    obtain rfl := Option.some.inj (hledger.symm.trans hb)
    exact ⟨hr', g, hg, Cost.le_of_same (Cost.same_symm hsame) (Cost.same_symm hsame') hle⟩

/-- Three waypoints with costs of which any two add up to infinity. -/
def farApart : CostMatrix Float where
  size := 3
  names := #v["A", "B", "C"]
  costs := #v[#v[0.0, 1.5e308, 1.75e308], #v[1.5e308, 0.0, 1.25e308], #v[1.75e308, 1.25e308, 0.0]]
  two_le_size := by decide

/-- The search among routes that all cost infinity. -/
theorem solve_reached_farApart :
    (∀ a b, Cost.le Cost.zero (farApart.cost a b) = true) ∧ farApart.size ≤ limit ∧
    ∀ tour, ∃ best found, Returns ⟨farApart, tour⟩ best found := by
  have hcosts : ∀ a b, Cost.le Cost.zero (farApart.cost a b) = true := by decide +kernel
  have hlimit : farApart.size ≤ limit := by decide
  exact ⟨hcosts, hlimit, fun tour =>
    solve_reached Binary64.addDomain ⟨farApart, tour⟩ hcosts hlimit⟩

end RoadTrip.ExactSearch
