import Mathlib.Data.List.Perm.Basic
import RoadTrip.Proofs.Trip.Evaluation

/-!
# Rotated round trips

A round trip may start anywhere on its circle: its legs are the same, in another order.
-/

namespace RoadTrip

variable {α : Type}

namespace CostMatrix

variable {m : CostMatrix α}

/-- The legs up to a waypoint and those from it on. -/
theorem legCosts_append_cons (l : List (Fin m.size)) (a : Fin m.size) (k : List (Fin m.size)) :
    m.legCosts (l ++ a :: k) = m.legCosts (l ++ [a]) ++ m.legCosts (a :: k) := by
  induction l with
  | nil => rfl
  | cons c rest ih =>
    cases rest with
    | nil => rfl
    | cons d rest => exact congrArg (m.cost c d :: ·) ih

theorem legCosts_append_pair (l : List (Fin m.size)) (a b : Fin m.size) :
    m.legCosts (l ++ [a, b]) = m.legCosts (l ++ [a]) ++ [m.cost a b] :=
  legCosts_append_cons l a [b]

end CostMatrix

namespace Trip

variable {t : Trip α}

/-- The legs of a round trip that starts one stop later. -/
theorem legCosts_rotateOne (ht : t.tour = .roundTrip) (a : Fin t.matrix.size)
    (l : List (Fin t.matrix.size)) :
    (t.matrix.legCosts (t.itinerary (l ++ [a]))).Perm
      (t.matrix.legCosts (t.itinerary (a :: l))) := by
  have hround {a b : Fin t.matrix.size} {l : List (Fin t.matrix.size)} :
      t.itinerary (a :: b :: l) = a :: b :: l ++ [a] := by
    unfold itinerary
    rw [ht]
  cases l with
  | nil => rfl
  | cons b rest =>
    have hlater : t.itinerary (b :: rest ++ [a]) = b :: rest ++ [a, b] := by
      cases rest with
      | nil => exact hround
      | cons c rest => exact hround.trans (by simp)
    rw [hlater, hround, CostMatrix.legCosts_append_pair]
    exact List.perm_append_singleton _ _

/-- **A round trip has the same legs wherever it starts.** -/
theorem legCosts_rotate (ht : t.tour = .roundTrip) (l l' : List (Fin t.matrix.size)) :
    (t.matrix.legCosts (t.itinerary (l' ++ l))).Perm
      (t.matrix.legCosts (t.itinerary (l ++ l'))) := by
  induction l generalizing l' with
  | nil => rw [List.append_nil, List.nil_append]
  | cons a rest ih =>
    have hrest := ih (l' ++ [a])
    rw [List.append_assoc, List.singleton_append, ← List.append_assoc] at hrest
    exact hrest.trans (legCosts_rotateOne ht a (rest ++ l'))

end Trip

end RoadTrip
