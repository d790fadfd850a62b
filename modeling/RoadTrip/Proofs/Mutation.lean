import RoadTrip.Mutation
import RoadTrip.Proofs.Draw.Ensures

/-!
# Mutated routes

Both mutations rearrange the stops of a route. The only fault that a mutation can meet is the
overflow of the number of swaps to choose from, and then it meets it on every route that has two
stops to swap.
-/

namespace RoadTrip

open Draw

variable {β : Type}

theorem exchange_perm (l : List β) (i j : Nat) : (exchange l i j).Perm l := by
  unfold exchange
  split
  · rename_i a b ha hb
    obtain ⟨hi, rfl⟩ := List.getElem?_eq_some_iff.1 ha
    obtain ⟨hj, rfl⟩ := List.getElem?_eq_some_iff.1 hb
    exact List.set_set_perm hi hj
  · exact .rfl

theorem ensures_shuffled_go {Q : Fault → Prop} (n : Nat) (l : List β) :
    (shuffled.go n l).Ensures (·.Perm l) Q := by
  induction n generalizing l with
  | zero => exact .rfl
  | succ n ih =>
    cases n with
    | zero => exact .rfl
    | succ n =>
      apply Ensures.bind' (ensures_position (Nat.succ_pos _) fun _ => trivial)
      intro j _
      exact (ih _).mono (fun _ h => h.trans (exchange_perm l _ _)) fun _ hf => hf

theorem ensures_shuffled {Q : Fault → Prop} (l : List β) : (shuffled l).Ensures (·.Perm l) Q :=
  ensures_shuffled_go _ l

namespace Mutation

/-- The mutation chooses among more numbers of swaps than can be counted. -/
def Overflows : Mutation → Prop
  | .swap maxSwaps _ => Text.countBound ≤ maxSwaps + 1
  | .shuffle _ _ => False

theorem ensures_swaps {Q : Fault → Prop} (count : Nat) {stops : List Nat}
    (h : 2 ≤ stops.length) : (swaps count stops).Ensures (·.Perm stops) Q := by
  induction count generalizing stops with
  | zero => exact .rfl
  | succ count ih =>
    apply Ensures.bind' (ensures_index (by omega) fun _ => trivial)
    intro i _
    apply Ensures.bind' (ensures_index (by omega) fun _ => trivial)
    intro j _
    have hperm := exchange_perm stops i (skip i j)
    exact (ih (by rw [hperm.length_eq]; exact h)).mono (fun _ hl => hl.trans hperm)
      fun _ hf => hf

theorem ensures_swapStops {Q : Fault → Prop} {maxSwaps : Nat} (hmax : 1 ≤ maxSwaps)
    {stops : List Nat} (h : 2 ≤ stops.length)
    (hQ : Text.countBound ≤ maxSwaps + 1 → Q .overflow) :
    (swapStops maxSwaps stops).Ensures (·.Perm stops) Q := by
  unfold swapStops
  split
  · apply Ensures.bind' (ensures_index (by omega) fun _ => trivial)
    intro more _
    exact ensures_swaps _ h
  · exact hQ (by omega)

theorem take_append_run_append_drop {l : List β} {start stop : Nat} (h : start ≤ stop) :
    l.take start ++ (l.take stop).drop start ++ l.drop stop = l := by
  have hstart : (l.take stop).take start = l.take start := by
    rw [List.take_take, Nat.min_eq_left h]
  rw [← hstart, List.take_append_drop, List.take_append_drop]

/-- A run may stand anywhere among the others. -/
theorem append_run_perm {front back before behind : List β} (run : List β)
    (others : front ++ back = before ++ behind) :
    (front ++ run ++ back).Perm (before ++ run ++ behind) :=
  calc front ++ run ++ back
    _ |>.Perm (run ++ front ++ back) := List.perm_append_comm.append_right _
    _ = run ++ before ++ behind := by rw [List.append_assoc, others, List.append_assoc]
    _ |>.Perm (before ++ run ++ behind) := List.perm_append_comm.append_right _

theorem moveRun_perm (stops : List Nat) {start stop : Nat} (h : start ≤ stop) (target : Nat) :
    (moveRun stops start stop target).Perm stops := by
  have hmoved := append_run_perm ((stops.take stop).drop start)
    (List.take_append_drop target (stops.take start ++ stops.drop stop))
  rwa [take_append_run_append_drop h] at hmoved

theorem ensures_moveStops {Q : Fault → Prop} {maxSegment : Nat} (hmax : 2 ≤ maxSegment)
    {stops : List Nat} (h : 2 ≤ stops.length) :
    (moveStops maxSegment stops).Ensures (·.Perm stops) Q := by
  apply Ensures.bind' (ensures_index (by omega) fun _ => trivial)
  intro more _
  apply Ensures.bind' (ensures_index (by omega) fun _ => trivial)
  intro start _
  apply Ensures.bind' (ensures_index (by omega) fun _ => trivial)
  intro target _
  have hstart := start.isLt
  exact moveRun_perm stops (by omega) _

/-- **A mutation rearranges the stops**, unless its choices cannot be counted. -/
theorem ensures_apply (m : Mutation) (r : Route) :
    (m.apply r).Ensures (fun s => s.stops.Perm r.stops)
      fun fault => fault = .overflow ∧ m.Overflows := by
  unfold apply
  split
  · exact .rfl
  · rename_i h
    have h : 2 ≤ r.stops.length := Nat.le_of_not_lt h
    cases m with
    | swap maxSwaps hmax =>
      exact Ensures.map (ensures_swapStops hmax h fun ho => ⟨rfl, ho⟩) fun _ hs => hs
    | shuffle maxSegment hmax =>
      exact Ensures.map (ensures_moveStops hmax h) fun _ hs => hs

/-- A mutation whose choices cannot be counted fails on every route with two stops to swap. -/
theorem apply_of_overflows {m : Mutation} (hm : m.Overflows) {r : Route} (h : 2 ≤ r.length) :
    m.apply r = .fail .overflow := by
  cases m with
  | shuffle maxSegment hmax => exact hm.elim
  | swap maxSwaps hmax =>
    have hm : ¬maxSwaps + 1 < Text.countBound := Nat.not_lt.2 hm
    simp only [apply, swapStops, if_neg hm, if_neg (Nat.not_lt.2 h)]
    rfl

end Mutation

end RoadTrip
