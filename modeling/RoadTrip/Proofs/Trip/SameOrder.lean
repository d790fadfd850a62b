import RoadTrip.Proofs.Trip.Symmetry

/-!
# Trips that order routes alike

Two trips through equally many waypoints order the routes alike (`Trip.SameOrder`) if of any two
routes the first costs at most as much as the second on both or on neither. Then the routes that
have no cost on one of them have none on the other, with the same fault
(`SameOrder.evaluate_cases`), and costs compare alike (`SameOrder.le_eq`). Where costs are not
rounded, a trip with all of them in another unit is such a trip (`sameOrder_inUnits`).
-/

namespace RoadTrip

namespace Trip

variable {α : Type} [Cost α]

/-- Both routes have a cost, and the first one costs at most as much as the second. -/
def NoDearer (t : Trip α) (r s : Route) : Prop :=
  ∃ f g, t.evaluate r = .ok f ∧ t.evaluate s = .ok g ∧ f.le g = true

/-- The trips have equally many waypoints and order the routes through all of them alike. -/
structure SameOrder (t t' : Trip α) : Prop where
  size : t'.matrix.size = t.matrix.size
  noDearer_iff : ∀ {r s : Route}, r.Visits t.matrix.size → s.Visits t.matrix.size →
    (t.NoDearer r s ↔ t'.NoDearer r s)

variable {t t' : Trip α} {r s : Route} {f g : Fitness α}

theorem noDearer_iff_le (hf : t.evaluate r = .ok f) (hg : t.evaluate s = .ok g) :
    t.NoDearer r s ↔ f.le g = true := by
  constructor
  · rintro ⟨f', g', hf', hg', hle⟩
    rw [hf] at hf'
    rw [hg] at hg'
    cases hf'
    cases hg'
    exact hle
  · exact fun hle => ⟨f, g, hf, hg, hle⟩

theorem noDearer_self (hf : t.evaluate r = .ok f) : t.NoDearer r r :=
  (noDearer_iff_le hf hf).2 f.le_refl

namespace SameOrder

variable (h : t.SameOrder t')

include h

/-- Costs compare alike. -/
theorem le_eq (hr : r.Visits t.matrix.size) (hs : s.Visits t.matrix.size)
    (hf : t.evaluate r = .ok f) (hg : t.evaluate s = .ok g) {f' g' : Fitness α}
    (hf' : t'.evaluate r = .ok f') (hg' : t'.evaluate s = .ok g') : f.le g = f'.le g' := by
  rw [Bool.eq_iff_iff, ← noDearer_iff_le hf hg, ← noDearer_iff_le hf' hg']
  exact h.noDearer_iff hr hs

/-- A route has a cost on both trips, or the same fault. -/
theorem evaluate_cases (hr : r.Visits t.matrix.size) :
    (∃ fault, t.evaluate r = .error fault ∧ t'.evaluate r = .error fault) ∨
    ∃ f f', t.evaluate r = .ok f ∧ t'.evaluate r = .ok f' := by
  have hself := h.noDearer_iff hr hr
  have hr' : r.Visits t'.matrix.size := h.size ▸ hr
  cases heval : t.evaluate r with
  | ok f =>
    obtain ⟨f', -, hf', -⟩ := hself.1 (noDearer_self heval)
    exact .inr ⟨f, f', rfl, hf'⟩
  | error fault =>
    cases heval' : t'.evaluate r with
    | ok f' =>
      obtain ⟨f, -, hf, -⟩ := hself.2 (noDearer_self heval')
      rw [heval] at hf
      cases hf
    | error fault' =>
      rw [evaluate_fault hr heval, evaluate_fault hr' heval']
      exact .inl ⟨_, rfl, rfl⟩

end SameOrder

end Trip

/-! ## Other units -/

section Exact

variable {K : Type} [Field K]

/-- The matrix with all costs multiplied by `c`. -/
abbrev CostMatrix.inUnits (c : K) (m : CostMatrix K) : CostMatrix K :=
  { m with costs := m.costs.map (·.map (c * ·)) }

theorem CostMatrix.cost_inUnits (c : K) (m : CostMatrix K) (a b : Fin m.size) :
    (m.inUnits c).cost a b = c * m.cost a b := by
  show (m.costs.map (·.map (c * ·)))[a.val][b.val] = c * m.costs[a.val][b.val]
  rw [Vector.getElem_map, Vector.getElem_map]

theorem CostMatrix.legCosts_inUnits (c : K) (m : CostMatrix K) (l : List (Fin m.size)) :
    (m.inUnits c).legCosts l = (m.legCosts l).map (c * ·) := by
  induction l with
  | nil => rfl
  | cons a rest ih =>
    cases rest with
    | nil => rfl
    | cons b rest =>
      rw [legCosts, legCosts, List.map_cons, cost_inUnits, ih]

namespace Trip

/-- The same trip with all costs multiplied by `c`. -/
abbrev inUnits (c : K) (t : Trip K) : Trip K := ⟨t.matrix.inUnits c, t.tour⟩

theorem sum_legCosts_inUnits (c : K) (t : Trip K) (l : List (Fin t.matrix.size)) :
    ((t.inUnits c).matrix.legCosts ((t.inUnits c).itinerary l)).sum =
      c * (t.matrix.legCosts (t.itinerary l)).sum := by
  have hlegs := t.matrix.legCosts_inUnits c (t.itinerary l)
  calc ((t.inUnits c).matrix.legCosts ((t.inUnits c).itinerary l)).sum
    _ = ((t.matrix.legCosts (t.itinerary l)).map (c * ·)).sum := congrArg List.sum hlegs
    _ = c * (t.matrix.legCosts (t.itinerary l)).sum := by
      rw [List.sum_map_mul_left, List.map_id']

variable [LinearOrder K]

theorem noDearer_list {t : Trip K} {l l' : List (Fin t.matrix.size)}
    (hl : l.Perm (List.finRange t.matrix.size)) (hl' : l'.Perm (List.finRange t.matrix.size)) :
    t.NoDearer ⟨l.map Fin.val⟩ ⟨l'.map Fin.val⟩ ↔
      (t.matrix.legCosts (t.itinerary l)).sum ≤ (t.matrix.legCosts (t.itinerary l')).sum := by
  rw [noDearer_iff_le (evaluate_eq_sum hl) (evaluate_eq_sum hl'), Fitness.le, Exact.le_eq,
    decide_eq_true_eq]

/-- **A positive unit does not change the order of the routes.** -/
theorem sameOrder_inUnits [IsStrictOrderedRing K] {c : K} (hc : 0 < c) (t : Trip K) :
    t.SameOrder (t.inUnits c) where
  size := rfl
  noDearer_iff {r s} hr hs := by
    obtain ⟨l, hl, rfl⟩ := hr.exists_list
    obtain ⟨l', hl', rfl⟩ := hs.exists_list
    have hother := noDearer_list (t := t.inUnits c) hl hl'
    rw [sum_legCosts_inUnits, sum_legCosts_inUnits, mul_le_mul_iff_right₀ hc] at hother
    exact (noDearer_list hl hl').trans hother.symm

end Trip

end Exact

end RoadTrip
