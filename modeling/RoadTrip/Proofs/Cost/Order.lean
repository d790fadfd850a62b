import RoadTrip.Fitness

/-!
# Comparing costs

Two sets of laws for costs. `OrderedCost` says that costs which compare with themselves form a
total preorder, and is all that ranking needs. `LawfulCost` adds what sums need in order never to
leave the costs that compare: it admits rounding and overflow, and neither addition nor its
rounding is assumed to be associative or monotone.
-/

namespace RoadTrip

open Cost (isComparable)

/-- Costs that compare with themselves form a total preorder. -/
class OrderedCost (α : Type) [Cost α] : Prop where
  le_trans : ∀ {a b c : α}, Cost.le a b = true → Cost.le b c = true → Cost.le a c = true
  le_total : ∀ {a b : α}, isComparable a = true → isComparable b = true →
    Cost.le a b = true ∨ Cost.le b a = true
  comparable_of_le : ∀ {a b : α}, Cost.le a b = true →
    isComparable a = true ∧ isComparable b = true

/-- Costs whose sums behave as far as sums of rounded numbers do. -/
class LawfulCost (α : Type) [Cost α] : Prop extends OrderedCost α where
  isComparable_of_isFinite : ∀ {a : α}, Cost.isFinite a = true → isComparable a = true
  zero_le_zero : Cost.le (Cost.zero : α) Cost.zero = true
  zero_le_emptySum : Cost.le (Cost.zero : α) Cost.emptySum = true
  emptySum_add : ∀ a : α, Cost.add Cost.emptySum a = a
  zero_le_add : ∀ {a b : α}, Cost.le Cost.zero a = true → Cost.le Cost.zero b = true →
    Cost.le Cost.zero (Cost.add a b) = true
  /-- Infinity is not left by adding. -/
  isFinite_of_add : ∀ {a b : α}, Cost.isFinite (Cost.add a b) = true →
    Cost.isFinite a = true ∧ Cost.isFinite b = true

namespace Cost

variable {α : Type} [Cost α]

theorem lt_iff {a b : α} : lt a b = true ↔ le a b = true ∧ le b a = false := by
  simp [lt]

theorem same_iff {a b : α} : same a b = true ↔ le a b = true ∧ le b a = true := by
  simp [same]

theorem same_self {a : α} (h : isComparable a = true) : same a a = true := same_iff.2 ⟨h, h⟩

theorem same_symm {a b : α} (h : same a b = true) : same b a = true :=
  same_iff.2 (same_iff.1 h).symm

theorem same_eq_false_of_lt {a b : α} (h : lt a b = true) : same b a = false := by
  rw [same, (lt_iff.1 h).2, Bool.false_and]

/-- The first of some costs is the least of them if none is cheaper. -/
theorem foldl_least {c : α} {costs : List α} (h : ∀ d ∈ costs, le c d = true) :
    costs.foldl least c = c := by
  induction costs with
  | nil => rfl
  | cons d rest ih =>
    obtain ⟨hd, hrest⟩ := List.forall_mem_cons.1 h
    have hleast : least c d = c := by simp [least, lt, hd]
    rw [List.foldl_cons, hleast, ih hrest]

section Ordered

variable [OrderedCost α]

theorem same_trans {a b c : α} (hab : same a b = true) (hbc : same b c = true) :
    same a c = true := by
  rw [same_iff] at *
  exact ⟨OrderedCost.le_trans hab.1 hbc.1, OrderedCost.le_trans hbc.2 hab.2⟩

/-- Of two costs that compare with themselves, one that is not cheaper is at least as dear. -/
theorem le_of_not_lt {a b : α} (ha : isComparable a = true) (hb : isComparable b = true)
    (h : lt a b = false) : le b a = true := by
  cases hba : le b a with
  | true => rfl
  | false =>
    have hab : le a b = true := by
      rcases OrderedCost.le_total ha hb with hab | hab
      · exact hab
      · rw [hba] at hab; cases hab
    simp [lt, hab, hba] at h

theorem lt_of_le_of_lt {a b c : α} (hab : le a b = true) (hbc : lt b c = true) :
    lt a c = true := by
  rw [lt_iff] at hbc ⊢
  refine ⟨OrderedCost.le_trans hab hbc.1, ?_⟩
  cases hca : le c a with
  | false => rfl
  | true =>
    have hcb := OrderedCost.le_trans hca hab
    rw [hbc.2] at hcb
    cases hcb

theorem lt_of_lt_of_le {a b c : α} (hab : lt a b = true) (hbc : le b c = true) :
    lt a c = true := by
  rw [lt_iff] at hab ⊢
  refine ⟨OrderedCost.le_trans hab.1 hbc, ?_⟩
  cases hca : le c a with
  | false => rfl
  | true =>
    have hba := OrderedCost.le_trans hbc hca
    rw [hab.2] at hba
    cases hba

end Ordered

section Lawful

variable [LawfulCost α]

theorem zero_le_foldl_add {costs : List α} {c : α} (hc : le zero c = true)
    (h : ∀ d ∈ costs, le zero d = true) : le zero (costs.foldl add c) = true := by
  induction costs generalizing c with
  | nil => exact hc
  | cons d rest ih =>
    exact ih (LawfulCost.zero_le_add hc (h d List.mem_cons_self))
      fun e he => h e (List.mem_cons_of_mem d he)

/-- A sum of costs that are not negative is not negative, and therefore is a fitness. -/
theorem zero_le_sum {costs : List α} (h : ∀ d ∈ costs, le zero d = true) :
    le zero (sum costs) = true :=
  zero_le_foldl_add LawfulCost.zero_le_emptySum h

theorem isFinite_of_foldl_add {costs : List α} {c : α}
    (h : isFinite (costs.foldl add c) = true) :
    isFinite c = true ∧ ∀ d ∈ costs, isFinite d = true := by
  induction costs generalizing c with
  | nil => exact ⟨h, fun d hd => absurd hd List.not_mem_nil⟩
  | cons d rest ih =>
    obtain ⟨hcd, hrest⟩ := ih h
    obtain ⟨hc, hd⟩ := LawfulCost.isFinite_of_add hcd
    refine ⟨hc, fun e he => ?_⟩
    rcases List.mem_cons.1 he with rfl | he
    · exact hd
    · exact hrest e he

/-- A sum of at least one cost starts from the first of them. -/
theorem sum_cons (c : α) (rest : List α) : sum (c :: rest) = rest.foldl add c := by
  simp only [sum, List.foldl_cons, LawfulCost.emptySum_add]

end Lawful

end Cost

namespace Fitness

variable {α : Type} [Cost α]

@[simp] theorem le_refl (a : Fitness α) : a.le a = true := a.comparable

theorem lt_iff {a b : Fitness α} : a.lt b = true ↔ a.le b = true ∧ b.le a = false := Cost.lt_iff

theorem ofCost_of_comparable {c : α} (h : Cost.isComparable c = true) :
    ofCost c = .ok ⟨c, h⟩ := by
  unfold ofCost
  rw [dif_pos h]

variable [OrderedCost α]

theorem le_trans {a b c : Fitness α} (hab : a.le b = true) (hbc : b.le c = true) :
    a.le c = true :=
  OrderedCost.le_trans hab hbc

theorem le_total (a b : Fitness α) : a.le b = true ∨ b.le a = true :=
  OrderedCost.le_total a.comparable b.comparable

theorem lt_of_le_eq_false {a b : Fitness α} (h : b.le a = false) : a.lt b = true := by
  rw [lt_iff]
  refine ⟨?_, h⟩
  rcases le_total a b with hab | hab
  · exact hab
  · rw [h] at hab; cases hab

end Fitness

end RoadTrip
