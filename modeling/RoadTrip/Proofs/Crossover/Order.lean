import RoadTrip.Proofs.Crossover
import RoadTrip.Random.Script

/-!
# Children of an order crossover

What order crossover makes of two parents (`Crossover.IsChild`): a segment of the one stays in
place, and the other places, read from left to right, hold the other stops in the order of the
other parent. These are the stops that a walk along the places gives (`keepSegment_eq_walk`), which
takes the next stop of the donor's at every place outside the segment: on parents that visit the
same waypoints it neither runs out of them nor leaves any over.
-/

namespace RoadTrip.Crossover

open Route Draw

/-- The stops that a child keeps in place. -/
def segment (kept : Route) (start stop : Nat) : List Nat := (kept.stops.take stop).drop start

/-- The donor's other stops, in its order. -/
def others (kept donor : Route) (start stop : Nat) : List Nat :=
  donor.stops.filter fun s => !(segment kept start stop).contains s

/-- The child agrees with one parent on the places `start, …, stop - 1`, and the rest of it reads
like the other parent without the stops that stand there. -/
structure IsChild (kept donor : Route) (start stop : Nat) (child : Route) : Prop where
  agrees : ∀ place, start ≤ place → place < stop → child.stops[place]? = kept.stops[place]?
  rest : child.stops.take start ++ child.stops.drop stop = others kept donor start stop

/-! ## Place by place -/

/-- Walk along the places of a child, from number `place` on. A place of the segment takes the stop
that is kept there and any other place the next one of the donor's other stops, if one is left. -/
def walk (start stop : Nat) : (place : Nat) → (kept others : List Nat) → Option (List Nat)
  | _, [], _ => some []
  | place, here :: kept, others =>
    if start ≤ place ∧ place < stop then (walk start stop (place + 1) kept others).map (here :: ·)
    else
      match others with
      | [] => none
      | next :: others => (walk start stop (place + 1) kept others).map (next :: ·)

section Walk

variable {start stop place : Nat} {kept others : List Nat}

theorem walk_cons (here : Nat) : walk start stop place (here :: kept) others =
    if start ≤ place ∧ place < stop then (walk start stop (place + 1) kept others).map (here :: ·)
    else
      match others with
      | [] => none
      | next :: others => (walk start stop (place + 1) kept others).map (next :: ·) := by
  rw [walk.eq_def]

theorem walk_behind (h : stop ≤ place) : walk start stop place kept others =
    if kept.length ≤ others.length then some (others.take kept.length) else none := by
  induction kept generalizing place others with
  | nil => rfl
  | cons here kept ih =>
    rw [walk_cons, if_neg (by omega)]
    cases others with
    | nil => rfl
    | cons next others =>
      dsimp only
      rw [ih (Nat.le_succ_of_le h)]
      by_cases hlength : kept.length ≤ others.length <;> simp [hlength]

theorem walk_inside (hstart : start ≤ place) (hstop : place ≤ stop)
    (hlength : stop ≤ place + kept.length) : walk start stop place kept others =
      (walk start stop stop (kept.drop (stop - place)) others).map
        (kept.take (stop - place) ++ ·) := by
  induction kept generalizing place with
  | nil =>
    obtain rfl : place = stop := Nat.le_antisymm hstop hlength
    simp
  | cons here kept ih =>
    rcases Nat.eq_or_lt_of_le hstop with rfl | hlt
    · simp
    · obtain ⟨more, hmore⟩ : ∃ more, stop - place = more + 1 := ⟨stop - place - 1, by omega⟩
      have hnext : stop - (place + 1) = more := by omega
      rw [List.length_cons] at hlength
      rw [walk_cons, if_pos ⟨hstart, hlt⟩, ih (Nat.le_succ_of_le hstart) hlt (by omega), hnext,
        hmore, Option.map_map]
      rfl

theorem walk_before (hstart : place ≤ start) (hlength : start ≤ place + kept.length)
    (hle : start ≤ stop) : walk start stop place kept others =
      if start - place ≤ others.length then
        (walk start stop start (kept.drop (start - place)) (others.drop (start - place))).map
          (others.take (start - place) ++ ·)
      else none := by
  induction kept generalizing place others with
  | nil =>
    obtain rfl : place = start := Nat.le_antisymm hstart hlength
    simp
  | cons here kept ih =>
    rcases Nat.eq_or_lt_of_le hstart with rfl | hlt
    · simp
    · obtain ⟨more, hmore⟩ : ∃ more, start - place = more + 1 := ⟨start - place - 1, by omega⟩
      have hnext : start - (place + 1) = more := by omega
      rw [List.length_cons] at hlength
      rw [walk_cons, if_neg (by omega), hmore]
      cases others with
      | nil => rfl
      | cons next others =>
        dsimp only
        rw [ih hlt (by omega), hnext]
        by_cases hothers : more ≤ others.length
        · simp only [hothers, Nat.succ_le_succ hothers, List.length_cons, if_pos, Option.map_map]
          rfl
        · simp [hothers]

end Walk

variable {n start stop : Nat} {kept donor first second : Route}

theorem length_segment (hstart : start ≤ stop) (hstop : stop ≤ kept.length) :
    start + (segment kept start stop).length = stop := by
  rw [Route.length] at hstop
  rw [segment, List.length_drop, List.length_take]
  omega

/-- **A child is what the walk along its places gives.** -/
theorem keepSegment_eq_walk (hstart : start ≤ stop) (hstop : stop ≤ kept.length) :
    keepSegment kept donor start stop =
      match walk start stop 0 kept.stops (others kept donor start stop) with
      | some stops => .ok ⟨stops⟩
      | none => .error .missingDonors := by
  have hlength := length_segment hstart hstop
  have hkeep : keepSegment kept donor start stop =
      if kept.length ≤ (others kept donor start stop).length + (segment kept start stop).length then
        .ok ⟨(others kept donor start stop).take start ++ segment kept start stop ++
          ((others kept donor start stop).drop start).take (kept.length - stop)⟩
      else .error .missingDonors := rfl
  have hinside : (kept.stops.drop start).take (stop - start) = segment kept start stop := by
    rw [List.take_drop, Nat.add_sub_cancel' hstart]
    rfl
  rw [Route.length] at hstop hkeep
  rw [hkeep, walk_before (Nat.zero_le _) (by omega) hstart, Nat.sub_zero,
    walk_inside (Nat.le_refl _) hstart (by rw [List.length_drop]; omega), hinside, List.drop_drop,
    Nat.add_sub_cancel' hstart, walk_behind (Nat.le_refl _), List.length_drop, List.length_drop]
  generalize others kept donor start stop = others at *
  by_cases hothers : kept.stops.length ≤ others.length + (segment kept start stop).length
  · rw [if_pos hothers, if_pos (by omega), if_pos (by omega)]
    simp only [Option.map_some, List.append_assoc]
  · rw [if_neg hothers]
    by_cases hbefore : start ≤ others.length
    · rw [if_pos hbefore, if_neg (by omega)]
      rfl
    · rw [if_neg hbefore]

theorem walk_of_keepSegment (hstart : start ≤ stop) (hstop : stop ≤ kept.length) {child : Route}
    (h : keepSegment kept donor start stop = .ok child) :
    walk start stop 0 kept.stops (others kept donor start stop) = some child.stops := by
  rw [keepSegment_eq_walk hstart hstop] at h
  split at h
  · rename_i stops hwalk
    cases h
    exact hwalk
  · cases h

/-! ## Parents that visit the same waypoints -/

theorem isChild_of_keepSegment (hk : kept.Visits n) (hd : donor.Visits n) (hstart : start ≤ stop)
    (hstop : stop ≤ n) {child : Route} (h : keepSegment kept donor start stop = .ok child) :
    IsChild kept donor start stop child := by
  rw [keepSegment_eq hk hd hstart hstop] at h
  have hchild : child.stops = (others kept donor start stop).take start ++
      segment kept start stop ++ (others kept donor start stop).drop start := by
    cases h
    rfl
  have hothers : (others kept donor start stop).length = start + (n - stop) :=
    length_others hk hd hstart hstop
  have hbefore : ((others kept donor start stop).take start).length = start := by
    rw [List.length_take]
    omega
  have hsegment := length_segment hstart (hstop.trans_eq hk.length.symm)
  constructor
  case agrees =>
    intro place hplace hlt
    rw [hchild, List.append_assoc, List.getElem?_append_right (by omega), hbefore,
      List.getElem?_append_left (by omega), segment, List.getElem?_drop,
      List.getElem?_take_of_lt (by omega), Nat.add_sub_cancel' hplace]
  case rest =>
    have htake : child.stops.take start = (others kept donor start stop).take start := by
      rw [hchild, List.append_assoc, List.take_left' hbefore]
    have hdrop : child.stops.drop stop = (others kept donor start stop).drop start := by
      rw [hchild]
      refine List.drop_left' ?_
      rw [List.length_append, hbefore, hsegment]
    rw [htake, hdrop, List.take_append_drop]

theorem exists_children (hf : first.Visits n) (hs : second.Visits n) (hstart : start ≤ stop)
    (hstop : stop ≤ n) : ∃ a b, orderAt first second start stop = .ok (a, b) ∧
      a.Visits n ∧ b.Visits n ∧
      IsChild first second start stop a ∧ IsChild second first start stop b ∧
      walk start stop 0 first.stops (others first second start stop) = some a.stops ∧
      walk start stop 0 second.stops (others second first start stop) = some b.stops := by
  obtain ⟨a, ha, hav⟩ := keepSegment_visits hf hs hstart hstop
  obtain ⟨b, hb, hbv⟩ := keepSegment_visits hs hf hstart hstop
  have hfl := hf.length
  refine ⟨a, b, ?_, hav, hbv, isChild_of_keepSegment hf hs hstart hstop ha,
    isChild_of_keepSegment hs hf hstart hstop hb,
    walk_of_keepSegment hstart (hstop.trans_eq hfl.symm) ha,
    walk_of_keepSegment hstart (hstop.trans_eq hs.length.symm) hb⟩
  simp [orderAt, hfl, isPermutation_iff.2 hf, isPermutation_iff.2 hs, hstart, hstop, ha, hb]

/-! ## Other parents and cut points -/

theorem orderAt_of_unrelated (h : ¬(first.Visits first.length ∧ second.Visits first.length)) :
    orderAt first second start stop = .error .unrelatedParents := by
  rw [← isPermutation_iff, ← isPermutation_iff, ← Bool.and_eq_true, Bool.not_eq_true] at h
  simp [orderAt, h]

theorem orderAt_of_misplaced (hf : first.Visits first.length) (hs : second.Visits first.length)
    (h : ¬(start ≤ stop ∧ stop ≤ first.length)) :
    orderAt first second start stop = .error .misplacedCuts := by
  simp [orderAt, isPermutation_iff.2 hf, isPermutation_iff.2 hs, h]

/-! ## Random cut points -/

/-- A random crossover cuts the parents where two different cut points are drawn. -/
theorem run_randomOrder {σ : Type} [Source σ] (hlength : first.length = second.length)
    (htwo : 2 ≤ first.length) (s : σ) :
    (∃ start stop t, (cuts first.length).run s = (.ok (start, stop), t) ∧
      start < stop ∧ stop ≤ first.length ∧
      (randomOrder first second).run s = (orderAt first second start stop, t)) ∨
    ∃ t, (cuts first.length).run s = (.error .exhausted, t) ∧
      (randomOrder first second).run s = (.error .exhausted, t) := by
  have hcuts := ensures_cuts (n := first.length) (by omega)
  have hrun : (randomOrder first second).run s =
      ((cuts first.length).bind fun c => ofExcept (orderAt first second c.1 c.2)).run s := by
    unfold randomOrder
    rw [if_neg (by omega), if_neg (by omega)]
    rfl
  rw [hrun, run_bind]
  rcases hdrawn : (cuts first.length).run s with ⟨fault | ⟨start, stop⟩, t⟩
  · rcases hcuts.of_error hdrawn with hnever | rfl
    · exact hnever.elim
    · exact .inr ⟨t, rfl, rfl⟩
  · obtain ⟨hlt, hle⟩ := hcuts.of_ok hdrawn
    exact .inl ⟨start, stop, t, rfl, hlt, hle, run_ofExcept _ _⟩

/-- **What order crossover does.** Two parents that visit the same waypoints have, for any cut
points in order inside them, two children that visit them, too, each with a segment of the one
parent in place and the order of the other one, as walks along their places give them. Other
parents and other cut points are refused. At random, two different cut points are drawn and used in
order. -/
theorem orderAt_children (first second : Route) (start stop : Nat) :
    (first.Visits first.length → second.Visits first.length → start ≤ stop →
      stop ≤ first.length → ∃ a b, orderAt first second start stop = .ok (a, b) ∧
        a.Visits first.length ∧ b.Visits first.length ∧
        IsChild first second start stop a ∧ IsChild second first start stop b ∧
        walk start stop 0 first.stops (others first second start stop) = some a.stops ∧
        walk start stop 0 second.stops (others second first start stop) = some b.stops) ∧
    (¬(first.Visits first.length ∧ second.Visits first.length) →
      orderAt first second start stop = .error .unrelatedParents) ∧
    (first.Visits first.length → second.Visits first.length →
      ¬(start ≤ stop ∧ stop ≤ first.length) →
      orderAt first second start stop = .error .misplacedCuts) ∧
    Fault.unrelatedParents.message? =
      some "parents must be permutations of the same waypoints" ∧
    Fault.misplacedCuts.message? = some "cut points out of range" ∧
    (first.Visits first.length → second.Visits first.length → 2 ≤ first.length →
      ∀ {σ : Type} [Source σ] (s : σ),
        (∃ start stop t, (cuts first.length).run s = (.ok (start, stop), t) ∧
          start < stop ∧ stop ≤ first.length ∧
          (randomOrder first second).run s = (orderAt first second start stop, t)) ∨
        ∃ t, (cuts first.length).run s = (.error .exhausted, t) ∧
          (randomOrder first second).run s = (.error .exhausted, t)) :=
  ⟨exists_children, orderAt_of_unrelated, orderAt_of_misplaced, rfl, rfl,
    fun _ hs htwo _ _ s => run_randomOrder hs.length.symm htwo s⟩

example : orderAt ⟨[0, 1, 2, 3]⟩ ⟨[3, 1, 0, 2]⟩ 1 3 = .ok (⟨[3, 1, 2, 0]⟩, ⟨[2, 1, 0, 3]⟩) := rfl

/-- Two routes through four waypoints, a route that leaves one out, and cut points in the wrong
order. -/
theorem orderAt_children_fourStops :
    let first := Route.mk [0, 1, 2, 3]
    let second := Route.mk [3, 1, 0, 2]
    let partly := Route.mk [3, 1, 1, 2]
    first.Visits 4 ∧ second.Visits 4 ∧ ¬partly.Visits 4 ∧
    (∃ a b, orderAt first second 1 3 = .ok (a, b) ∧ a.Visits 4 ∧ b.Visits 4 ∧
      IsChild first second 1 3 a ∧ IsChild second first 1 3 b ∧
      walk 1 3 0 first.stops (others first second 1 3) = some a.stops ∧
      walk 1 3 0 second.stops (others second first 1 3) = some b.stops) ∧
    orderAt first partly 1 3 = .error .unrelatedParents ∧
    orderAt first second 3 1 = .error .misplacedCuts ∧
    ((∃ start stop t, (cuts 4).run (Script.mk [0, 0] 0) = (.ok (start, stop), t) ∧
      start < stop ∧ stop ≤ 4 ∧
      (randomOrder first second).run (Script.mk [0, 0] 0) = (orderAt first second start stop, t)) ∨
    ∃ t, (cuts 4).run (Script.mk [0, 0] 0) = (.error .exhausted, t) ∧
      (randomOrder first second).run (Script.mk [0, 0] 0) = (.error .exhausted, t)) := by
  intro first second partly
  have hf : first.Visits 4 := isPermutation_iff.1 (by decide)
  have hs : second.Visits 4 := isPermutation_iff.1 (by decide)
  have hp : ¬partly.Visits 4 := by
    rw [← isPermutation_iff]
    decide
  obtain ⟨hchildren, -, -, -, -, hrandom⟩ := orderAt_children first second 1 3
  refine ⟨hf, hs, hp, hchildren hf hs (by decide) (by decide), ?_, ?_,
    hrandom hf hs (by decide) (Script.mk [0, 0] 0)⟩
  · exact (orderAt_children first partly 1 3).2.1 fun h => hp h.2
  · exact (orderAt_children first second 3 1).2.2.1 hf hs (by decide)

end RoadTrip.Crossover
