import Mathlib
import RoadTrip.ExactSearch

/-!
# The complete routes of the search

The arrangements of some waypoints in the order in which the search comes to them: every
rearrangement is one of them (`mem_arrangements`), and they are in lexicographic order
(`pairwise_arrangements`). The routes of a trip are the arrangements behind each of its starts.
-/

namespace RoadTrip.ExactSearch

section Arrangements

variable {β : Type} [DecidableEq β]

/-- The ways to arrange some elements, of which there are `depth`. -/
def arrangements : (depth : Nat) → List β → List (List β)
  | 0, _ => [[]]
  | depth + 1, remaining =>
    remaining.flatMap fun next =>
      (arrangements depth (remaining.erase next)).map fun rest => next :: rest

theorem mem_arrangements {depth : Nat} {remaining l : List β} (h : remaining.length = depth) :
    l ∈ arrangements depth remaining ↔ l.Perm remaining := by
  induction depth generalizing remaining l with
  | zero =>
    obtain rfl := List.length_eq_zero_iff.1 h
    simp [arrangements]
  | succ depth ih =>
    simp only [arrangements, List.mem_flatMap, List.mem_map]
    constructor
    · rintro ⟨next, hnext, rest, hrest, rfl⟩
      rw [ih (by rw [List.length_erase_of_mem hnext, h, Nat.add_sub_cancel])] at hrest
      exact (hrest.cons next).trans (List.perm_cons_erase hnext).symm
    · intro hl
      cases l with
      | nil => rw [← hl.length_eq] at h; cases h
      | cons next rest =>
        have hnext : next ∈ remaining := hl.mem_iff.1 List.mem_cons_self
        refine ⟨next, hnext, rest, ?_, rfl⟩
        rw [ih (by rw [List.length_erase_of_mem hnext, h, Nat.add_sub_cancel])]
        exact (hl.trans (List.perm_cons_erase hnext)).cons_inv

omit [DecidableEq β] in
/-- Lists that are in lexicographic order behind each of some ascending elements are so
altogether. -/
theorem pairwise_flatMap_cons [LinearOrder β] {l : List β} {f : β → List (List β)}
    (hl : l.Pairwise (· < ·)) (hf : ∀ a ∈ l, (f a).Pairwise (· < ·)) :
    (l.flatMap fun a => (f a).map fun rest => a :: rest).Pairwise (· < ·) := by
  rw [List.pairwise_flatMap]
  refine ⟨fun a ha => ?_, hl.imp fun {a b} hab l hl r hr => ?_⟩
  · rw [List.pairwise_map]
    exact (hf a ha).imp fun hlt => List.cons_lt_cons_iff.2 (.inr ⟨rfl, hlt⟩)
  · obtain ⟨rest, -, rfl⟩ := List.mem_map.1 hl
    obtain ⟨rest', -, rfl⟩ := List.mem_map.1 hr
    exact List.cons_lt_cons_iff.2 (.inl hab)

/-- Arrangements of ascending elements come in lexicographic order. -/
theorem pairwise_arrangements {β : Type} [LinearOrder β] {depth : Nat} {remaining : List β}
    (h : remaining.Pairwise (· < ·)) : (arrangements depth remaining).Pairwise (· < ·) := by
  induction depth generalizing remaining with
  | zero => exact List.pairwise_singleton _ _
  | succ depth ih =>
    exact pairwise_flatMap_cons h fun next _ => ih (h.sublist List.erase_sublist)

end Arrangements

variable {α : Type} (trip : Trip α)

/-- The complete routes in the order in which the search comes to them. -/
def routes : List (List (Fin trip.matrix.size)) :=
  (starts trip).flatMap fun start =>
    (arrangements (trip.matrix.size - 1) ((List.finRange trip.matrix.size).erase start)).map
      fun rest => start :: rest

variable {trip}

theorem pairwise_starts : (starts trip).Pairwise (· < ·) := by
  unfold starts
  cases trip.tour with
  | roundTrip => exact (List.pairwise_lt_finRange _).sublist (List.take_sublist _ _)
  | oneWay => exact List.pairwise_lt_finRange _

/-- The routes of the search are those through all waypoints with one of its starts. -/
theorem mem_routes {l : List (Fin trip.matrix.size)} :
    l ∈ routes trip ↔ l.Perm (List.finRange trip.matrix.size) ∧
      ∃ start ∈ starts trip, ∃ rest, l = start :: rest := by
  have hmem (start : Fin trip.matrix.size) {rest : List (Fin trip.matrix.size)} :
      rest ∈ arrangements (trip.matrix.size - 1) ((List.finRange trip.matrix.size).erase start) ↔
        (start :: rest).Perm (List.finRange trip.matrix.size) := by
    have hstart := List.mem_finRange start
    rw [mem_arrangements (by rw [List.length_erase_of_mem hstart, List.length_finRange])]
    have hperm := List.perm_cons_erase hstart
    exact ⟨fun h => (h.cons start).trans hperm.symm, fun h => (h.trans hperm).cons_inv⟩
  simp only [routes, List.mem_flatMap, List.mem_map, hmem]
  constructor
  · rintro ⟨start, hstart, rest, hrest, rfl⟩
    exact ⟨hrest, start, hstart, rest, rfl⟩
  · rintro ⟨hl, start, hstart, rest, rfl⟩
    exact ⟨start, hstart, rest, hl, rfl⟩

variable (trip) in
theorem pairwise_routes : (routes trip).Pairwise (· < ·) :=
  pairwise_flatMap_cons pairwise_starts fun _ _ =>
    pairwise_arrangements ((List.pairwise_lt_finRange _).sublist List.erase_sublist)

end RoadTrip.ExactSearch
