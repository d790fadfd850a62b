import RoadTrip.Proofs.Cost.Order

/-!
# Costs that are rounded faithfully

`FaithfulCost` adds to the laws of costs what holds where rounding passes no cost: among costs that
are not negative, a sum is at least each of its parts, and a finite difference vanishes between
equal costs only. Addition need not be associative here either, and may overflow.
-/

namespace RoadTrip

/-- Costs whose rounding passes no cost. -/
class FaithfulCost (α : Type) [Cost α] : Prop extends LawfulCost α where
  isFinite_zero : Cost.isFinite (Cost.zero : α) = true
  /-- What lies below a finite cost is finite. -/
  isFinite_of_le : ∀ {a b : α}, Cost.le Cost.zero a = true → Cost.le a b = true →
    Cost.isFinite b = true → Cost.isFinite a = true
  le_add_right : ∀ {a b : α}, Cost.le Cost.zero a = true → Cost.le Cost.zero b = true →
    Cost.le a (Cost.add a b) = true
  le_add_left : ∀ {a b : α}, Cost.le Cost.zero a = true → Cost.le Cost.zero b = true →
    Cost.le b (Cost.add a b) = true
  same_add_zero : ∀ {a b : α}, Cost.same a Cost.zero = true → Cost.same b Cost.zero = true →
    Cost.same (Cost.add a b) Cost.zero = true
  zero_le_sub : ∀ {a b : α}, Cost.isFinite b = true → Cost.le Cost.zero a = true →
    Cost.le a b = true → Cost.le Cost.zero (Cost.sub b a) = true
  /-- There is no difference between two costs only if they are equal. -/
  same_sub_zero : ∀ {a b : α}, Cost.isFinite b = true → Cost.le Cost.zero a = true →
    Cost.le a b = true → (Cost.same (Cost.sub b a) Cost.zero = true ↔ Cost.same a b = true)
  zero_le_share : ∀ {a : α} {n : Nat}, Cost.isFinite a = true → Cost.le Cost.zero a = true →
    0 < n → Cost.le Cost.zero (Cost.share a n) = true
  same_share_zero : ∀ {a : α} {n : Nat}, Cost.same a Cost.zero = true → 0 < n →
    Cost.same (Cost.share a n) Cost.zero = true

namespace Cost

variable {α : Type} [Cost α] [FaithfulCost α] {a b c : α} {costs : List α}

theorem isFinite_of_same_zero (h : same a zero = true) : isFinite a = true :=
  FaithfulCost.isFinite_of_le (same_iff.1 h).2 (same_iff.1 h).1 FaithfulCost.isFinite_zero

/-- A sum is at least what it starts from and each of its parts. -/
theorem le_foldl_add (hc : le zero c = true) (h : ∀ d ∈ costs, le zero d = true) :
    le c (costs.foldl add c) = true ∧ ∀ d ∈ costs, le d (costs.foldl add c) = true := by
  induction costs generalizing c with
  | nil => exact ⟨(OrderedCost.comparable_of_le hc).2, nofun⟩
  | cons d rest ih =>
    obtain ⟨hd, hrest⟩ := List.forall_mem_cons.1 h
    obtain ⟨hstart, hparts⟩ := ih (LawfulCost.zero_le_add hc hd) hrest
    refine ⟨OrderedCost.le_trans (FaithfulCost.le_add_right hc hd) hstart, ?_⟩
    exact List.forall_mem_cons.2
      ⟨OrderedCost.le_trans (FaithfulCost.le_add_left hc hd) hstart, hparts⟩

theorem le_sum (h : ∀ d ∈ costs, le zero d = true) : ∀ d ∈ costs, le d (sum costs) = true :=
  (le_foldl_add LawfulCost.zero_le_emptySum h).2

/-- A sum does not become smaller by going on. -/
theorem sum_le_sum_append {more : List α} (h : ∀ d ∈ costs, le zero d = true)
    (hmore : ∀ d ∈ more, le zero d = true) : le (sum costs) (sum (costs ++ more)) = true := by
  rw [sum, sum, List.foldl_append]
  exact (le_foldl_add (zero_le_sum h) hmore).1

theorem same_foldl_add_zero (hc : same c zero = true) (h : ∀ d ∈ costs, same d zero = true) :
    same (costs.foldl add c) zero = true := by
  induction costs generalizing c with
  | nil => exact hc
  | cons d rest ih =>
    obtain ⟨hd, hrest⟩ := List.forall_mem_cons.1 h
    exact ih (FaithfulCost.same_add_zero hc hd) hrest

end Cost

end RoadTrip
