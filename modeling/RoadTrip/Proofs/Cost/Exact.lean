import Mathlib
import RoadTrip.Proofs.Cost.Order

/-!
# Exact costs

The numbers of an ordered field as costs that are neither rounded nor bounded. The lemmas turn the
operations on costs into those of the field, where sums may be regrouped.
-/

namespace RoadTrip

variable {K : Type} [Field K] [LinearOrder K]

/-- Costs without rounding. -/
instance (priority := low) Cost.exact : Cost K where
  zero := 0
  emptySum := 0
  add a b := a + b
  sub a b := a - b
  share total count := total / count
  isFinite _ := true
  le a b := decide (a ≤ b)
  point total fraction := total * (fraction.val / 4503599627370496)

namespace Exact

@[simp] theorem zero_eq : (Cost.zero : K) = 0 := rfl

@[simp] theorem emptySum_eq : (Cost.emptySum : K) = 0 := rfl

@[simp] theorem add_eq (a b : K) : Cost.add a b = a + b := rfl

@[simp] theorem sub_eq (a b : K) : Cost.sub a b = a - b := rfl

@[simp] theorem share_eq (a : K) (n : Nat) : Cost.share a n = a / n := rfl

@[simp] theorem isFinite_eq (a : K) : Cost.isFinite a = true := rfl

@[simp] theorem le_eq (a b : K) : Cost.le a b = decide (a ≤ b) := rfl

@[simp] theorem lt_eq (a b : K) : Cost.lt a b = decide (a < b) := by
  by_cases h : a < b
  · simp [Cost.lt, h, h.le]
  · simp [Cost.lt, h, not_lt.1 h]

@[simp] theorem same_eq (a b : K) : Cost.same a b = decide (a = b) := by
  simp [Cost.same, le_antisymm_iff]

@[simp] theorem isComparable_eq (a : K) : Cost.isComparable a = true := by
  simp [Cost.isComparable]

@[simp] theorem least_eq (a b : K) : Cost.least a b = min a b := by
  by_cases h : b < a
  · simp [Cost.least, h, h.le]
  · simp [Cost.least, h, not_lt.1 h]

@[simp] theorem foldl_add (costs : List K) (c : K) : costs.foldl Cost.add c = c + costs.sum := by
  induction costs generalizing c with
  | nil => simp
  | cons d rest ih => rw [List.foldl_cons, ih, List.sum_cons, add_eq, add_assoc]

@[simp] theorem sum_eq (costs : List K) : Cost.sum costs = costs.sum := by
  rw [Cost.sum, foldl_add, emptySum_eq, zero_add]

instance [IsStrictOrderedRing K] : LawfulCost K where
  le_trans hab hbc := by
    simp only [le_eq, decide_eq_true_eq] at *
    exact hab.trans hbc
  le_total {a b} _ _ := by
    simpa only [le_eq, decide_eq_true_eq] using le_total a b
  comparable_of_le _ := ⟨isComparable_eq _, isComparable_eq _⟩
  isComparable_of_isFinite _ := isComparable_eq _
  zero_le_zero := by simp
  zero_le_emptySum := by simp
  emptySum_add a := by simp
  zero_le_add ha hb := by
    simp only [le_eq, zero_eq, add_eq, decide_eq_true_eq] at *
    exact add_nonneg ha hb
  isFinite_of_add _ := ⟨rfl, rfl⟩

end Exact

end RoadTrip
