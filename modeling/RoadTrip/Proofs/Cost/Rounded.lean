import RoadTrip.Proofs.Cost.Order

/-!
# Sums that may be rounded

What can be said of sums when addition is any operation that respects numerical equality and leaves
a cost as it is behind a zero of either sign. It may round and overflow, and need not be associative
or monotone. The costs are those of a domain that addition does not leave (`AddDomain`): all costs,
where any two of them compare, or those that are not negative, among which a sum always compares.
-/

namespace RoadTrip.Cost

variable {α : Type} [Cost α]

/-- Costs that compare with one another, which is kept by adding them up. -/
structure AddDomain (S : α → Prop) : Prop where
  comparable : ∀ {a}, S a → isComparable a = true
  zero : S zero
  emptySum : S emptySum
  add : ∀ {a b}, S a → S b → S (add a b)
  /-- Addition respects numerical equality. -/
  same_add : ∀ {a b c d}, S a → S b → S c → S d → same a b = true → same c d = true →
    same (Cost.add a c) (Cost.add b d) = true
  same_zero_add : ∀ {a}, S a → same (Cost.add Cost.zero a) a = true
  same_emptySum_add : ∀ {a}, S a → same (Cost.add Cost.emptySum a) a = true

theorem le_of_same [OrderedCost α] {a b c d : α} (hab : same a b = true) (hcd : same c d = true)
    (h : le a c = true) : le b d = true :=
  OrderedCost.le_trans (OrderedCost.le_trans (same_iff.1 hab).2 h) (same_iff.1 hcd).1

namespace AddDomain

variable {S : α → Prop} (hS : AddDomain S) {costs : List α} {a b c : α}

include hS

theorem foldl_add (ha : S a) (h : ∀ c ∈ costs, S c) : S (costs.foldl Cost.add a) := by
  induction costs generalizing a with
  | nil => exact ha
  | cons c rest ih =>
    obtain ⟨hc, hrest⟩ := List.forall_mem_cons.1 h
    exact ih (hS.add ha hc) hrest

theorem sum (h : ∀ c ∈ costs, S c) : S (Cost.sum costs) := hS.foldl_add hS.emptySum h

theorem same_foldl_add (ha : S a) (hb : S b) (hab : same a b = true) (h : ∀ c ∈ costs, S c) :
    same (costs.foldl Cost.add a) (costs.foldl Cost.add b) = true := by
  induction costs generalizing a b with
  | nil => exact hab
  | cons c rest ih =>
    obtain ⟨hc, hrest⟩ := List.forall_mem_cons.1 h
    have hsame := hS.same_add ha hb hc hc hab (same_self (hS.comparable hc))
    exact ih (hS.add ha hc) (hS.add hb hc) hsame hrest

/-- A sum of at least one cost is the same from a zero of either sign. -/
theorem same_sum [OrderedCost α] (h : ∀ c ∈ costs, S c) (hne : costs ≠ []) :
    same (Cost.sum costs) (costs.foldl Cost.add Cost.zero) = true := by
  obtain ⟨c, rest, rfl⟩ := List.exists_cons_of_ne_nil hne
  obtain ⟨hc, hrest⟩ := List.forall_mem_cons.1 h
  have hfirst : same (Cost.add Cost.emptySum c) (Cost.add Cost.zero c) = true :=
    same_trans (hS.same_emptySum_add hc) (same_symm (hS.same_zero_add hc))
  rw [Cost.sum, List.foldl_cons, List.foldl_cons]
  exact hS.same_foldl_add (hS.add hS.emptySum hc) (hS.add hS.zero hc) hfirst hrest

end AddDomain

end RoadTrip.Cost
