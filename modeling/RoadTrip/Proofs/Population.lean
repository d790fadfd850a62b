import RoadTrip.Population
import RoadTrip.Proofs.Cost.Order

/-!
# Extremes of a population

The least and the greatest of some costs that compare with themselves are two of them, and all lie
in between (`exists_extremes`). Both come from choosing between two costs at a time.
-/

namespace RoadTrip.Population

variable {α β : Type}

/-! ## Choosing along a list -/

theorem foldl_choice_mem {f : β → β → β} (hf : ∀ a b, f a b = a ∨ f a b = b) (a : β)
    (l : List β) : l.foldl f a ∈ a :: l := by
  induction l generalizing a with
  | nil => exact List.mem_cons_self
  | cons b rest ih =>
    have hmem := ih (f a b)
    rw [List.mem_cons] at hmem
    rw [List.foldl_cons, List.mem_cons, List.mem_cons]
    rcases hmem with h | h
    · rw [h]
      exact (hf a b).imp_right .inl
    · exact .inr (.inr h)

/-- What has been chosen stands in relation to all that it was chosen from. -/
theorem foldl_choice_rel {S : β → Prop} {r : β → β → Prop} {f : β → β → β}
    (hrefl : ∀ a, S a → r a a) (htrans : ∀ a b c, r a b → r b c → r a c)
    (hf : ∀ a b, S a → S b → S (f a b) ∧ r (f a b) a ∧ r (f a b) b) {a : β} {l : List β}
    (ha : S a) (hl : ∀ b ∈ l, S b) : ∀ b ∈ a :: l, r (l.foldl f a) b := by
  induction l generalizing a with
  | nil =>
    intro b hb
    obtain rfl := List.mem_singleton.1 hb
    exact hrefl b ha
  | cons c rest ih =>
    obtain ⟨hc, hrest⟩ := List.forall_mem_cons.1 hl
    obtain ⟨hchoice, hleft, hright⟩ := hf a c ha hc
    obtain ⟨hfirst, hothers⟩ := List.forall_mem_cons.1 (ih hchoice hrest)
    exact List.forall_mem_cons.2 ⟨htrans _ _ _ hfirst hleft,
      List.forall_mem_cons.2 ⟨htrans _ _ _ hfirst hright, hothers⟩⟩

/-! ## Extremes -/

variable [Cost α]

/-- Two of some costs between which all of them lie. -/
structure Extremes (costs : List α) (least greatest : α) : Prop where
  least_mem : least ∈ costs
  greatest_mem : greatest ∈ costs
  least_le : ∀ c ∈ costs, Cost.le least c = true
  le_greatest : ∀ c ∈ costs, Cost.le c greatest = true

variable [OrderedCost α]

/-- Costs whose extremes are the same are all the same. -/
theorem Extremes.same {costs : List α} {least greatest c : α} (h : Extremes costs least greatest)
    (hsame : Cost.same least greatest = true) (hc : c ∈ costs) : Cost.same c greatest = true :=
  Cost.same_iff.2 ⟨h.le_greatest c hc,
    OrderedCost.le_trans (Cost.same_iff.1 hsame).2 (h.least_le c hc)⟩

theorem least_spec {a b : α} (ha : Cost.isComparable a = true) (hb : Cost.isComparable b = true) :
    Cost.isComparable (Cost.least a b) = true ∧ Cost.le (Cost.least a b) a = true ∧
      Cost.le (Cost.least a b) b = true := by
  unfold Cost.least
  split
  · rename_i hlt
    exact ⟨hb, (Cost.lt_iff.1 hlt).1, hb⟩
  · rename_i hlt
    exact ⟨ha, ha, Cost.le_of_not_lt hb ha (Bool.eq_false_iff.2 hlt)⟩

theorem greatest_spec {a b : α} (ha : Cost.isComparable a = true)
    (hb : Cost.isComparable b = true) :
    Cost.isComparable (Cost.greatest a b) = true ∧ Cost.le a (Cost.greatest a b) = true ∧
      Cost.le b (Cost.greatest a b) = true := by
  unfold Cost.greatest
  split
  · rename_i hle
    exact ⟨hb, hle, hb⟩
  · rename_i hle
    exact ⟨ha, ha, (OrderedCost.le_total ha hb).resolve_left hle⟩

/-- **Costs that compare with themselves have extremes**, if there are any. -/
theorem exists_extremes {costs : List α} (hne : costs ≠ [])
    (h : ∀ c ∈ costs, Cost.isComparable c = true) :
    ∃ least greatest, extremes? costs = some (least, greatest) ∧
      Extremes costs least greatest := by
  obtain ⟨c, rest, rfl⟩ := List.exists_cons_of_ne_nil hne
  obtain ⟨hc, hrest⟩ := List.forall_mem_cons.1 h
  refine ⟨_, _, rfl, foldl_choice_mem (fun a b => ?_) c rest,
    foldl_choice_mem (fun a b => ?_) c rest,
    foldl_choice_rel (r := fun a b => Cost.le a b = true) (fun _ ha => ha)
      (fun _ _ _ => OrderedCost.le_trans) (fun _ _ => least_spec) hc hrest,
    foldl_choice_rel (r := fun a b => Cost.le b a = true) (fun _ ha => ha)
      (fun _ _ _ hab hbc => OrderedCost.le_trans hbc hab) (fun _ _ => greatest_spec) hc hrest⟩
  · unfold Cost.least
    split
    · exact .inr rfl
    · exact .inl rfl
  · unfold Cost.greatest
    split
    · exact .inr rfl
    · exact .inl rfl

end RoadTrip.Population
