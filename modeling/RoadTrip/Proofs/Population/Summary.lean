import Mathlib
import RoadTrip.Proofs.Cost.Exact
import RoadTrip.Proofs.Population
import RoadTrip.Proofs.Ranking

/-!
# What a summary tells

The summary of a population (`summarize?_tells`) names the costs of a best and of a worst member and
counts the different routes. It does not depend on the order of the members, and on a ranked
population the two are the first and the last. The average is only that where sums are not rounded
(`averages_of_tells`).
-/

namespace RoadTrip

/-- A hash set has as many elements as there are different ones in the list that it is made of. -/
theorem size_hashSet_ofList {β : Type} [BEq β] [LawfulBEq β] [Hashable β] [LawfulHashable β]
    [DecidableEq β] (l : List β) : (Std.HashSet.ofList l).size = l.toFinset.card := by
  have hnodup : (Std.HashSet.ofList l).toList.Nodup := by
    refine Std.HashSet.distinct_toList.imp fun {a b} hab he => ?_
    rw [he, BEq.rfl] at hab
    cases hab
  have hmem : (Std.HashSet.ofList l).toList.toFinset = l.toFinset := by
    ext a
    simp
  rw [← Std.HashSet.length_toList, ← List.toFinset_card_of_nodup hnodup, hmem]

namespace Population

variable {α : Type} [Cost α]

/-! ## Figures -/

/-- The different routes of the members. -/
def routes (p : Population α) : Finset Route := (p.map (·.route)).toFinset

theorem card_routes (p : Population α) :
    (Std.HashSet.ofList (p.map (·.route.stops))).size = p.routes.card := by
  have hinjective : Function.Injective Route.stops := by
    intro r s h
    cases r
    cases s
    exact congrArg Route.mk h
  have himage : (p.map (·.route.stops)).toFinset = p.routes.image Route.stops := by
    ext stops
    simp [routes]
  rw [size_hashSet_ofList, himage, Finset.card_image_of_injective _ hinjective]

theorem routes_nonempty {p : Population α} (hp : p ≠ []) : p.routes.Nonempty := by
  obtain ⟨i, rest, rfl⟩ := List.exists_cons_of_ne_nil hp
  exact ⟨i.route, by simp [routes]⟩

theorem card_routes_le (p : Population α) : p.routes.card ≤ p.length :=
  (List.toFinset_card_le _).trans_eq (List.length_map _)

theorem routes_perm {p q : Population α} (h : q.Perm p) : q.routes = p.routes :=
  List.toFinset_eq_of_perm _ _ (h.map _)

/-- The last of some costs is the greatest of them if none is dearer than a later one. -/
theorem foldl_greatest {c : α} {costs : List α}
    (h : (c :: costs).Pairwise fun a b => Cost.le a b = true) :
    (c :: costs).getLast? = some (costs.foldl Cost.greatest c) := by
  induction costs generalizing c with
  | nil => rfl
  | cons d rest ih =>
    obtain ⟨hc, hrest⟩ := List.pairwise_cons.1 h
    have hgreatest : Cost.greatest c d = d := by
      simp [Cost.greatest, hc d List.mem_cons_self]
    rw [List.foldl_cons, hgreatest, List.getLast?_cons_cons]
    exact ih hrest

/-! ## What the figures say -/

/-- What the figures say of the members. -/
structure Summary.Tells (s : Summary α) (p : Population α) : Prop where
  /-- There are a best and a worst member with just these costs, and all lie in between. -/
  extremes : Extremes (p.map (·.fitness.cost)) s.best s.worst
  best : p.Ranked → p.head?.map (·.fitness.cost) = some s.best
  worst : p.Ranked → p.getLast?.map (·.fitness.cost) = some s.worst
  unique : s.unique = p.routes.card
  one_le_unique : 1 ≤ s.unique
  unique_le : s.unique ≤ p.length

/-- Two summaries that agree but for their averages, their costs numerically. -/
structure Summary.Agrees (s t : Summary α) : Prop where
  best : Cost.same s.best t.best = true
  worst : Cost.same s.worst t.worst = true
  unique : s.unique = t.unique

theorem Extremes.same_of_perm {costs costs' : List α} {least greatest least' greatest' : α}
    (h : Extremes costs least greatest) (h' : Extremes costs' least' greatest')
    (hperm : costs'.Perm costs) :
    Cost.same least least' = true ∧ Cost.same greatest greatest' = true := by
  constructor
  · exact Cost.same_iff.2 ⟨h.least_le _ (hperm.mem_iff.1 h'.least_mem),
      h'.least_le _ (hperm.mem_iff.2 h.least_mem)⟩
  · exact Cost.same_iff.2 ⟨h'.le_greatest _ (hperm.mem_iff.2 h.greatest_mem),
      h.le_greatest _ (hperm.mem_iff.1 h'.greatest_mem)⟩

theorem Summary.Tells.agrees {s t : Summary α} {p q : Population α} (hs : s.Tells p)
    (ht : t.Tells q) (hperm : q.Perm p) : s.Agrees t := by
  obtain ⟨hbest, hworst⟩ := hs.extremes.same_of_perm ht.extremes (hperm.map _)
  refine ⟨hbest, hworst, ?_⟩
  rw [hs.unique, ht.unique, routes_perm hperm]

/-- On a ranked population the extremes are the first and the last cost. -/
theorem Ranked.ends_of_extremes? {p : Population α} (hp : p.Ranked) {least greatest : α}
    (h : extremes? (p.map (·.fitness.cost)) = some (least, greatest)) :
    p.head?.map (·.fitness.cost) = some least ∧
      p.getLast?.map (·.fitness.cost) = some greatest := by
  cases p with
  | nil => cases h
  | cons i rest =>
    have hcosts : ((i :: rest).map (·.fitness.cost)).Pairwise fun a b => Cost.le a b = true :=
      List.pairwise_map.2 hp
    rw [List.map_cons, extremes?] at h
    cases h
    constructor
    · rw [Cost.foldl_least (List.pairwise_cons.1 hcosts).1]
      rfl
    · rw [← foldl_greatest hcosts, ← List.getLast?_map]
      rfl

/-- A population with somebody in it has a summary. -/
theorem exists_tells [OrderedCost α] {p : Population α} (hp : p ≠ []) :
    ∃ s, summarize? p = some s ∧ s.Tells p := by
  have hne : p.map (·.fitness.cost) ≠ [] := by
    intro hnil
    exact hp (List.map_eq_nil_iff.1 hnil)
  have hcomparable : ∀ c ∈ p.map (·.fitness.cost), Cost.isComparable c = true := by
    intro c hc
    obtain ⟨i, -, rfl⟩ := List.mem_map.1 hc
    exact i.fitness.comparable
  obtain ⟨least, greatest, hextremes, hx⟩ := exists_extremes hne hcomparable
  have hsummary : summarize? p = some
      ⟨least, greatest, Cost.share (Cost.sum (p.map (·.fitness.cost))) p.length,
        p.routes.card⟩ := by
    rw [summarize?, hextremes, card_routes]
    rfl
  refine ⟨_, hsummary, ?_⟩
  constructor
  case extremes => exact hx
  case best => exact fun hranked => (hranked.ends_of_extremes? hextremes).1
  case worst => exact fun hranked => (hranked.ends_of_extremes? hextremes).2
  case unique => rfl
  case one_le_unique => exact Finset.card_pos.2 (routes_nonempty hp)
  case unique_le => exact card_routes_le p

/-! ## Averages -/

section Exact

variable {K : Type} [Field K] [LinearOrder K] [IsStrictOrderedRing K]

/-- The average is that of the members and lies between the extremes. -/
structure Summary.Averages (s : Summary K) (p : Population K) : Prop where
  average_mul : s.average * p.length = (p.map (·.fitness.cost)).sum
  best_le : s.best ≤ s.average
  le_worst : s.average ≤ s.worst

theorem Extremes.mul_length_le_sum {costs : List K} {least greatest : K}
    (h : Extremes costs least greatest) :
    least * costs.length ≤ costs.sum ∧ costs.sum ≤ greatest * costs.length := by
  have hleast := List.card_nsmul_le_sum costs least fun c hc => of_decide_eq_true (h.least_le c hc)
  have hgreatest :=
    List.sum_le_card_nsmul costs greatest fun c hc => of_decide_eq_true (h.le_greatest c hc)
  rw [nsmul_eq_mul, mul_comm] at hleast hgreatest
  exact ⟨hleast, hgreatest⟩

theorem averages_of_tells {p : Population K} (hp : p ≠ []) {s : Summary K}
    (hsummary : summarize? p = some s) (hs : s.Tells p) : s.Averages p := by
  have hlength : (0 : K) < p.length := Nat.cast_pos.2 (List.length_pos_of_ne_nil hp)
  have haverage : s.average = (p.map (·.fitness.cost)).sum / p.length := by
    obtain ⟨pair, -, rfl⟩ := Option.map_eq_some_iff.1 hsummary
    simp
  obtain ⟨hleast, hgreatest⟩ := hs.extremes.mul_length_le_sum
  rw [List.length_map] at hleast hgreatest
  refine ⟨?_, ?_, ?_⟩
  · rw [haverage, div_mul_cancel₀ _ hlength.ne']
  · rw [haverage, le_div_iff₀ hlength]
    exact hleast
  · rw [haverage, div_le_iff₀ hlength]
    exact hgreatest

end Exact

/-- **What a summary tells**: the costs of a best and a worst member, which are the first and the
last one if the population is ranked, and the number of different routes. It tells the same of the
members in any other order. Without rounding its average is that of the members, between the two
costs. -/
theorem summarize?_tells [OrderedCost α] {p : Population α} (hp : p ≠ []) :
    (∃ s, summarize? p = some s ∧ s.Tells p ∧
      ∀ q, q.Perm p → ∃ t, summarize? q = some t ∧ t.Tells q ∧ s.Agrees t) ∧
    ∀ {K : Type} [Field K] [LinearOrder K] [IsStrictOrderedRing K] {q : Population K}, q ≠ [] →
      ∃ s, summarize? q = some s ∧ s.Tells q ∧ s.Averages q := by
  constructor
  · obtain ⟨s, hsummary, hs⟩ := exists_tells hp
    refine ⟨s, hsummary, hs, fun q hperm => ?_⟩
    have hq : q ≠ [] := by
      rintro rfl
      exact hp (List.nil_perm.1 hperm)
    obtain ⟨t, hsummary', ht⟩ := exists_tells hq
    exact ⟨t, hsummary', ht, hs.agrees ht hperm⟩
  · intro K _ _ _ q hq
    obtain ⟨s, hsummary, hs⟩ := exists_tells hq
    exact ⟨s, hsummary, hs, averages_of_tells hq hsummary hs⟩

/-- Three members with two routes, one of them dear. -/
theorem summarize?_tells_twoRoutes :
    let p : Population ℚ :=
      [⟨⟨[0, 1]⟩, ⟨7, Exact.isComparable_eq 7⟩, 0⟩, ⟨⟨[1, 0]⟩, ⟨13, Exact.isComparable_eq 13⟩, 0⟩,
        ⟨⟨[0, 1]⟩, ⟨7, Exact.isComparable_eq 7⟩, 1⟩]
    p ≠ [] ∧
    (∃ s, summarize? p = some s ∧ s.Tells p ∧
      ∀ q, q.Perm p → ∃ t, summarize? q = some t ∧ t.Tells q ∧ s.Agrees t) ∧
    ∃ s, summarize? p = some s ∧ s.Tells p ∧ s.Averages p := by
  intro p
  have hp : p ≠ [] := List.cons_ne_nil _ _
  obtain ⟨htells, haverages⟩ := summarize?_tells hp
  exact ⟨hp, htells, haverages hp⟩

end Population

end RoadTrip
