import Mathlib
import RoadTrip.Proofs.ExactSearch.Optimality

/-!
# Going down the search

A state of the search is a partial route with the waypoints that it does not visit, and each step
down visits one of them (`State.below_add_one`). What a state is judged by, the cost of its route
and the bound on what is to come, grows along every way down (`Sound.estimate_le_visit`), since a
step costs at least what the bound charges for the waypoint that it leads to. At the end of a way
down there is a complete route, which costs no less (`State.estimate_admissible`).
-/

namespace RoadTrip.ExactSearch

/-! ## States -/

section

variable {α : Type}

/-- A partial route and the waypoints that it does not visit. -/
structure State (trip : Trip α) where
  start : Fin trip.matrix.size
  /-- The stops behind the start, in travel order. -/
  behind : List (Fin trip.matrix.size)
  remaining : List (Fin trip.matrix.size)

namespace State

variable {trip : Trip α}

/-- The route that has come no further than its start. -/
def initial (start : Fin trip.matrix.size) : State trip :=
  ⟨start, [], (List.finRange trip.matrix.size).erase start⟩

section

variable (s : State trip) (next : Fin trip.matrix.size)

def path : List (Fin trip.matrix.size) := s.start :: s.behind

def last : Fin trip.matrix.size := s.path.getLast (List.cons_ne_nil _ _)

/-- Go on to one more waypoint. -/
def visit : State trip := ⟨s.start, s.behind ++ [next], s.remaining.erase next⟩

/-- No waypoint is visited twice, and those that are not visited remain. -/
structure Sound : Prop where
  nodup_path : s.path.Nodup
  nodup_remaining : s.remaining.Nodup
  mem_remaining : ∀ a, a ∈ s.remaining ↔ a ∉ s.path

variable [Cost α]

/-- The cost of the legs so far, as the search adds it up. -/
def cost : α := (trip.matrix.legCosts s.path).foldl Cost.add Cost.zero

/-- The bound on what is still to come. -/
def bound : α := ExactSearch.bound trip (cheapestLegs trip.matrix) s.start s.remaining

/-- What the search makes of the completions of the route. -/
def below (depth : Nat) (best : Option (Incumbent α trip.matrix.size)) :
    Option (Incumbent α trip.matrix.size) :=
  extend trip (cheapestLegs trip.matrix) s.start depth s.remaining s.path.reverse s.last s.cost best

end

/-- One step down the search. -/
def Steps (s t : State trip) : Prop := ∃ next ∈ s.remaining, t = s.visit next

/-- Some steps down the search. -/
abbrev Descends : State trip → State trip → Prop := Relation.ReflTransGen Steps

variable {s t : State trip} {next : Fin trip.matrix.size}

@[simp] theorem path_visit : (s.visit next).path = s.path ++ [next] := rfl

@[simp] theorem last_visit : (s.visit next).last = next := by
  simp [last]

theorem exists_path_eq (s : State trip) : ∃ front, s.path = front ++ [s.last] :=
  ⟨s.path.dropLast, (List.dropLast_append_getLast _).symm⟩

theorem last_mem (s : State trip) : s.last ∈ s.path := List.getLast_mem _

theorem sound_initial (start : Fin trip.matrix.size) : (initial start : State trip).Sound where
  nodup_path := List.nodup_singleton start
  nodup_remaining := (List.nodup_finRange _).erase start
  mem_remaining a := by
    rw [initial, path, (List.nodup_finRange _).mem_erase_iff]
    simp

theorem Sound.visit (hs : s.Sound) (hnext : next ∈ s.remaining) : (s.visit next).Sound where
  nodup_path := by
    have hnew := (hs.mem_remaining next).1 hnext
    rw [path_visit]
    exact List.nodup_append.2 ⟨hs.nodup_path, List.nodup_singleton next, by
      intro a ha b hb
      obtain rfl := List.mem_singleton.1 hb
      exact fun he => hnew (he ▸ ha)⟩
  nodup_remaining := hs.nodup_remaining.erase next
  mem_remaining a := by
    rw [path_visit, State.visit, hs.nodup_remaining.mem_erase_iff, hs.mem_remaining]
    simp [and_comm]

theorem Sound.descends (hs : s.Sound) (h : s.Descends t) : t.Sound := by
  induction h with
  | refl => exact hs
  | tail _ hstep ih =>
    obtain ⟨next, hnext, rfl⟩ := hstep
    exact ih.visit hnext

/-- The stops that complete a route are the waypoints that remain. -/
theorem Sound.perm_remaining (hs : s.Sound) {rest : List (Fin trip.matrix.size)}
    (h : (s.path ++ rest).Perm (List.finRange trip.matrix.size)) : rest.Perm s.remaining := by
  have hnodup := h.nodup_iff.2 (List.nodup_finRange _)
  obtain ⟨-, hrest, hdisjoint⟩ := List.nodup_append'.1 hnodup
  refine (List.perm_ext_iff_of_nodup hrest hs.nodup_remaining).2 fun a => ?_
  rw [hs.mem_remaining]
  constructor
  · exact fun ha hpath => hdisjoint hpath ha
  · intro ha
    have hmem := h.mem_iff.2 (List.mem_finRange a)
    exact (List.mem_append.1 hmem).resolve_left ha

section

variable [Cost α]

theorem cost_visit : (s.visit next).cost = Cost.add s.cost (trip.matrix.cost s.last next) := by
  obtain ⟨front, hfront⟩ := s.exists_path_eq
  rw [cost, cost, path_visit, hfront, List.append_assoc, List.singleton_append,
    CostMatrix.legCosts_append_pair, List.foldl_append]
  rfl

/-- Below a state that is not given up the search goes on with a step to each waypoint that
remains. -/
theorem below_add_one {depth : Nat} {best : Option (Incumbent α trip.matrix.size)} :
    s.below (depth + 1) best =
      if hopeless trip (cheapestLegs trip.matrix) s.start best s.remaining s.cost then best
      else s.remaining.foldl (fun best next => (s.visit next).below depth best) best := by
  simp only [below, extend, cost_visit, last_visit, path_visit, List.reverse_append,
    List.reverse_singleton, List.singleton_append]
  rfl

variable (trip) in
/-- The search goes down from each of its starts. -/
theorem search_eq_below : search trip = (starts trip).foldl (fun best start =>
    (initial start).below (trip.matrix.size - 1) best) none :=
  rfl

end

end State

end

/-! ## The bound on the way down -/

namespace State

variable {K : Type} [Field K] [LinearOrder K] {trip : Trip K} {s t : State trip}
  {next : Fin trip.matrix.size}

/-- A complete route costs what its last stops add to the cost of a state on the way to it. -/
theorem routeCost_path_append {rest : List (Fin trip.matrix.size)} (h : s.behind ++ rest ≠ []) :
    routeCost trip (s.path ++ rest) = runningCost trip s.start s.last s.cost rest := by
  obtain ⟨front, hfront⟩ := s.exists_path_eq
  have hitinerary : trip.itinerary (s.path ++ rest) =
      front ++ s.last :: (rest ++ wayBack trip s.start) := by
    rw [path, List.cons_append, itinerary_cons h, ← List.cons_append, ← path, hfront]
    simp
  rw [routeCost, hitinerary, CostMatrix.legCosts_append_cons, List.foldl_append, ← hfront]
  rfl

variable (s) in
/-- What the estimate of a state says of all that lies below it. -/
structure Admissible : Prop where
  /-- No route through all waypoints that goes on from the state costs less. -/
  complete : ∀ r : Route, r.Visits trip.matrix.size → s.path.map Fin.val <+: r.stops →
    ∃ f, trip.evaluate r = .ok f ∧ s.cost + s.bound ≤ f.cost
  visit : ∀ next ∈ s.remaining, s.cost + s.bound ≤ (s.visit next).cost + (s.visit next).bound
  descends : ∀ t, s.Descends t → t.Sound ∧ s.cost + s.bound ≤ t.cost + t.bound

variable [IsStrictOrderedRing K]

/-- A step costs at least what the bound charges for it, so no estimate becomes less by it. -/
theorem Sound.estimate_le_visit (hs : s.Sound) (hm : trip.matrix.Valid)
    (hnext : next ∈ s.remaining) :
    s.cost + s.bound ≤ (s.visit next).cost + (s.visit next).bound := by
  have hne : s.last ≠ next := by
    intro he
    exact (hs.mem_remaining next).1 hnext (he ▸ s.last_mem)
  rw [bound, bound_perm (List.perm_cons_erase hnext), cost_visit]
  exact add_bound_cons_le hm hne s.cost (s.remaining.erase next)

theorem Sound.estimate_le_of_descends (hs : s.Sound) (hm : trip.matrix.Valid)
    (h : s.Descends t) : s.cost + s.bound ≤ t.cost + t.bound := by
  induction h with
  | refl => exact le_rfl
  | tail hdescends hstep ih =>
    obtain ⟨next, hnext, rfl⟩ := hstep
    exact ih.trans ((hs.descends hdescends).estimate_le_visit hm hnext)

theorem Sound.estimate_le_routeCost (hs : s.Sound) (hm : trip.matrix.Valid)
    {rest : List (Fin trip.matrix.size)}
    (h : (s.path ++ rest).Perm (List.finRange trip.matrix.size)) :
    s.cost + s.bound ≤ routeCost trip (s.path ++ rest) := by
  have htwo := trip.matrix.two_le_size
  have hlength := h.length_eq
  rw [List.length_finRange, path, List.cons_append, List.length_cons] at hlength
  have hne : s.behind ++ rest ≠ [] := List.ne_nil_of_length_pos (by omega)
  have hrest := hs.perm_remaining h
  have hnodup := h.nodup_iff.2 (List.nodup_finRange _)
  obtain ⟨front, hfront⟩ := s.exists_path_eq
  rw [routeCost_path_append hne, bound, ← bound_perm hrest]
  refine add_bound_le_runningCost s.start hm s.cost ?_ ?_ ?_
  · rw [hfront, List.append_assoc] at hnodup
    exact hnodup.of_append_right
  · intro hmem
    exact (hs.mem_remaining _).1 (hrest.mem_iff.1 hmem) List.mem_cons_self
  · -- the last stop of a complete route is not its start, as there are two stops
    rintro rfl he
    rw [List.append_nil] at hne
    have hlast : s.last = s.behind.getLast hne := List.getLast_cons hne
    have hmem : s.start ∈ s.behind := he ▸ hlast ▸ List.getLast_mem hne
    exact (List.nodup_cons.1 hs.nodup_path).1 hmem

/-- **The bound is admissible**: the cost of a partial route and the bound together are no more than
the cost of any route through all waypoints that goes on from there, and do not become less on the
way down. -/
theorem estimate_admissible {names : List String} {entries : List (CostEntry K)} {m : CostMatrix K}
    (hm : CostMatrix.ofEntries names entries = .ok m) {tour : Tour} {s : State ⟨m, tour⟩}
    (hs : s.Sound) : s.Admissible := by
  have hvalid := CostMatrix.valid_of_ofEntries hm
  constructor
  case complete =>
    intro r hr hprefix
    obtain ⟨l, hl, rfl⟩ := hr.exists_list
    obtain ⟨rest, rfl⟩ : s.path <+: l :=
      (List.prefix_map_iff_of_injective Fin.val_injective).1 hprefix
    exact ⟨_, evaluate_eq_routeCost hl, hs.estimate_le_routeCost hvalid hl⟩
  case visit =>
    intro next hnext
    exact hs.estimate_le_visit hvalid hnext
  case descends =>
    intro t h
    exact ⟨hs.descends h, hs.estimate_le_of_descends hvalid h⟩

/-- On the way from the first of three waypoints to the second. -/
theorem estimate_admissible_triangle : ∃ m : CostMatrix ℚ,
    CostMatrix.ofEntries ["A", "B", "C"]
      [⟨"A", "B", (5 : ℚ)⟩, ⟨"C", "B", 2⟩, ⟨"A", "C", 3⟩] = .ok m ∧
    ∀ tour, ∃ s : State ⟨m, tour⟩, s.path.map Fin.val = [0, 1] ∧ s.Sound ∧ s.Admissible := by
  obtain ⟨m, hm, hsize⟩ : ∃ m, CostMatrix.ofEntries ["A", "B", "C"]
      [⟨"A", "B", (5 : ℚ)⟩, ⟨"C", "B", 2⟩, ⟨"A", "C", 3⟩] = .ok m ∧ m.size = 3 :=
    CostMatrix.exists_of_size (by decide +kernel)
  refine ⟨m, hm, fun tour => ?_⟩
  let first : Fin m.size := ⟨0, hsize ▸ by decide⟩
  let second : Fin m.size := ⟨1, hsize ▸ by decide⟩
  have hsecond : second ∈ (List.finRange m.size).erase first := by
    rw [(List.nodup_finRange _).mem_erase_iff]
    exact ⟨by simp [first, second], List.mem_finRange second⟩
  have hinitial : (initial first : State ⟨m, tour⟩).Sound := sound_initial _
  have hs := hinitial.visit hsecond
  exact ⟨_, rfl, hs, estimate_admissible hm hs⟩

end State

end RoadTrip.ExactSearch
