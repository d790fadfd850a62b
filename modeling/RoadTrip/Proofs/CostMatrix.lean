import RoadTrip.CostMatrix
import RoadTrip.Proofs.Cost.Order

/-!
# Matrices made of entries

What `ofEntries` promises of the costs of a matrix: they do not depend on the direction, going
nowhere costs nothing, and all are finite and not negative. Learning an entry keeps this of the
costs that are known so far (`Known.Valid`). What an entry has to be like to be learned, and a list
of entries to make a matrix, is said in both directions (`learn_eq_ok`, `learn_of_listed`,
`ofEntries_eq_ok`, `exists_ofEntries`).
-/

namespace RoadTrip.CostMatrix

variable {α : Type}

namespace Known

variable {n : Nat}

theorem get_none (a b : Fin n) : (none α n).get a b = Option.none := by
  simp [get, none]

theorem get_put (k : Known α n) (a b x y : Fin n) (cost : α) :
    (k.put a b cost).get x y = if a = x ∧ b = y then some cost else k.get x y := by
  simp only [get, put, Fin.getElem_fin, Vector.getElem_set, Fin.val_inj]
  by_cases ha : a = x
  · subst ha
    simp only [↓reduceIte, Vector.getElem_set, Fin.val_inj, true_and]
  · simp [ha]

theorem get_join (k : Known α n) (a b x y : Fin n) (cost : α) :
    (k.join a b cost).get x y =
      if a = x ∧ b = y ∨ b = x ∧ a = y then some cost else k.get x y := by
  rw [join, get_put, get_put]
  by_cases h : b = x ∧ a = y
  · rw [if_pos h, if_pos (.inr h)]
  · rw [if_neg h]
    by_cases h' : a = x ∧ b = y
    · rw [if_pos h', if_pos (.inl h')]
    · rw [if_neg h', if_neg (by rintro (hc | hc) <;> contradiction)]

/-- The known costs are the same in both directions, none leads from a waypoint to itself, and all
are finite and not negative. -/
structure Valid [Cost α] (k : Known α n) : Prop where
  symm : ∀ a b, k.get a b = k.get b a
  loopless : ∀ a, k.get a a = Option.none
  finite : ∀ {a b cost}, k.get a b = some cost → Cost.isFinite cost = true
  notNegative : ∀ {a b cost}, k.get a b = some cost → Cost.lt cost Cost.zero = false

variable [Cost α]

theorem Valid.none : Valid (none α n) where
  symm a b := by rw [get_none, get_none]
  loopless a := get_none a a
  finite h := by rw [get_none] at h; cases h
  notNegative h := by rw [get_none] at h; cases h

theorem Valid.join {k : Known α n} (h : k.Valid) {a b : Fin n} {cost : α} (hab : a ≠ b)
    (hfinite : Cost.isFinite cost = true) (hcost : Cost.lt cost Cost.zero = false) :
    (k.join a b cost).Valid where
  symm x y := by
    rw [get_join, get_join, h.symm x y]
    simp only [or_comm, and_comm]
  loopless x := by
    rw [get_join, h.loopless, if_neg]
    rintro (⟨rfl, rfl⟩ | ⟨rfl, rfl⟩) <;> exact hab rfl
  finite hx := by
    rw [get_join] at hx
    split at hx
    · cases hx; exact hfinite
    · exact h.finite hx
  notNegative hx := by
    rw [get_join] at hx
    split at hx
    · cases hx; exact hcost
    · exact h.notNegative hx

end Known

variable [Cost α] {n : Nat} {names : Vector String n}

/-- What an entry that is learned says, and what is known after it. -/
theorem learn_eq_ok {k k' : Known α n} {e : CostEntry α} (h : learn names k e = .ok k') :
    (names.finIdxOf? e.origin = none ∨ names.finIdxOf? e.destination = none) ∧ k' = k ∨
    ∃ a b, names.finIdxOf? e.origin = some a ∧ names.finIdxOf? e.destination = some b ∧
      a ≠ b ∧ Cost.isFinite e.cost = true ∧ Cost.lt e.cost Cost.zero = false ∧
      (∀ known, k.get a b = some known → Cost.same known e.cost = true) ∧
      k' = k.join a b e.cost := by
  unfold learn at h
  split at h
  · rename_i a b ha hb
    split at h
    · cases h
    · rename_i hab
      split at h
      · cases h
      · rename_i hcost
        split at h
        · cases h
        · rename_i hknown
          cases h
          simp only [Bool.or_eq_true, Bool.not_eq_true', not_or, Bool.not_eq_false,
            Bool.not_eq_true] at hcost
          refine .inr ⟨a, b, ha, hb, hab, hcost.1, hcost.2, fun known hk => ?_, rfl⟩
          rw [hk] at hknown
          simpa using hknown
  · rename_i hlisted
    cases h
    refine .inl ⟨?_, rfl⟩
    cases ha : names.finIdxOf? e.origin with
    | none => exact .inl rfl
    | some a =>
      cases hb : names.finIdxOf? e.destination with
      | none => exact .inr rfl
      | some b => exact (hlisted a b ha hb).elim

/-- An entry with an end outside the list says nothing. -/
theorem learn_of_unlisted (k : Known α n) {e : CostEntry α}
    (h : names.finIdxOf? e.origin = none ∨ names.finIdxOf? e.destination = none) :
    learn names k e = .ok k := by
  unfold learn
  split
  · rename_i ha hb
    rcases h with h | h
    · rw [ha] at h; cases h
    · rw [hb] at h; cases h
  · rfl

/-- An entry that names a finite cost, not negative and the same as the known one, is learned. -/
theorem learn_of_listed {k : Known α n} {e : CostEntry α} {a b : Fin n}
    (ha : names.finIdxOf? e.origin = some a) (hb : names.finIdxOf? e.destination = some b)
    (hab : a ≠ b) (hfinite : Cost.isFinite e.cost = true)
    (hcost : Cost.lt e.cost Cost.zero = false)
    (hknown : ∀ known, k.get a b = some known → Cost.same known e.cost = true) :
    learn names k e = .ok (k.join a b e.cost) := by
  have hagree : (k.get a b).any (fun known => !Cost.same known e.cost) = false := by
    cases hk : k.get a b with
    | none => rfl
    | some known => simp [hknown known hk]
  unfold learn
  simp only [ha, hb, hfinite, hcost, hagree, Bool.not_true, Bool.or_self, Bool.false_eq_true,
    ↓reduceIte]
  rw [if_neg hab]

theorem Known.Valid.learn {k k' : Known α n} {e : CostEntry α} (hk : k.Valid)
    (h : learn names k e = .ok k') : k'.Valid := by
  rcases learn_eq_ok h with ⟨-, rfl⟩ | ⟨a, b, -, -, hab, hfinite, hcost, -, rfl⟩
  · exact hk
  · exact hk.join hab hfinite hcost

theorem Known.Valid.learnAll {entries : List (CostEntry α)} {k k' : Known α n} (hk : k.Valid)
    (h : entries.foldlM (CostMatrix.learn names) k = .ok k') : k'.Valid := by
  induction entries generalizing k with
  | nil => cases h; exact hk
  | cons e rest ih =>
    rw [List.foldlM_cons] at h
    cases he : CostMatrix.learn names k e with
    | error error => rw [he] at h; cases h
    | ok next =>
      rw [he] at h
      exact ih (hk.learn he) h

/-- No name occurs twice if none is found that occurs earlier, too. -/
theorem firstRepeat?_eq_none_iff {earlier names : List String} :
    firstRepeat? earlier names = none ↔ names.Nodup ∧ ∀ x ∈ names, x ∉ earlier := by
  induction names generalizing earlier with
  | nil => simp [firstRepeat?]
  | cons x rest ih =>
    rw [firstRepeat?]
    grind

/-- What has to go well for a matrix to be made of some entries, and what it is then. -/
theorem ofEntries_eq_ok {names : List String} {entries : List (CostEntry α)} {m : CostMatrix α}
    (h : ofEntries names entries = .ok m) :
    ∃ (known : Known α names.length) (htwo : 2 ≤ names.length), names.Nodup ∧
      entries.foldlM (learn ⟨names.toArray, by simp⟩) (Known.none α names.length) = .ok known ∧
      known.firstGap? = none ∧ m = ⟨names.length, ⟨names.toArray, by simp⟩, known.fill, htwo⟩ := by
  unfold ofEntries at h
  split at h
  · cases h
  · split at h
    · cases h
    · rename_i hrepeat
      dsimp only at h
      split at h
      · cases h
      · rename_i known hknown
        split at h
        · cases h
        · rename_i hgap
          cases h
          exact ⟨known, by omega, (firstRepeat?_eq_none_iff.1 hrepeat).1, hknown, hgap, rfl⟩

/-- A matrix is made of entries that can all be learned and leave no gap. -/
theorem exists_ofEntries {names : List String} {entries : List (CostEntry α)}
    {known : Known α names.length} (htwo : 2 ≤ names.length) (hnames : names.Nodup)
    (hknown : entries.foldlM (learn ⟨names.toArray, by simp⟩) (Known.none α names.length) =
      .ok known)
    (hgap : known.firstGap? = none) : ∃ m, ofEntries names entries = .ok m := by
  have hrepeat : firstRepeat? [] names = none :=
    firstRepeat?_eq_none_iff.2 ⟨hnames, fun _ _ => List.not_mem_nil⟩
  unfold ofEntries
  rw [dif_neg (by omega)]
  simp only [hrepeat, hknown, hgap]
  exact ⟨_, rfl⟩

/-- The costs of a matrix do not depend on the direction, going nowhere costs nothing, and all are
finite and not negative. -/
structure Valid (m : CostMatrix α) : Prop where
  symm : ∀ a b, m.cost a b = m.cost b a
  self : ∀ a, m.cost a a = Cost.zero
  finite : ∀ {a b}, a ≠ b → Cost.isFinite (m.cost a b) = true
  notNegative : ∀ {a b}, a ≠ b → Cost.lt (m.cost a b) Cost.zero = false

omit [Cost α] in
theorem Known.firstGap?_eq_none_iff {k : Known α n} :
    k.firstGap? = Option.none ↔ ∀ a b, a < b → ∃ cost, k.get a b = some cost := by
  simp [firstGap?, pairs, Option.ne_none_iff_exists']

theorem Known.exists_of_firstGap? {k : Known α n} (hgap : k.firstGap? = Option.none)
    (hk : k.Valid) {a b : Fin n} (hab : a ≠ b) : ∃ cost, k.get a b = some cost := by
  rcases Nat.lt_or_gt_of_ne (Fin.val_ne_iff.2 hab) with hlt | hlt
  · exact firstGap?_eq_none_iff.1 hgap a b hlt
  · rw [hk.symm]
    exact firstGap?_eq_none_iff.1 hgap b a hlt

theorem Known.cost_fill {names : Vector String n} {htwo : 2 ≤ n} (k : Known α n) (a b : Fin n) :
    (CostMatrix.mk n names k.fill htwo).cost a b = (k.get a b).getD Cost.zero := by
  simp [cost, fill]

/-- Entries make a matrix of size `n` if that is what its size is evaluated to. -/
theorem exists_of_size {names : List String} {entries : List (CostEntry α)}
    (h : (ofEntries names entries).toOption.map (·.size) = some n) :
    ∃ m, ofEntries names entries = .ok m ∧ m.size = n := by
  cases hm : ofEntries names entries with
  | error error =>
    rw [hm] at h
    cases h
  | ok m =>
    rw [hm] at h
    exact ⟨m, rfl, Option.some.inj h⟩

/-- A matrix that is made of entries has the costs that they name. -/
theorem valid_of_ofEntries {names : List String} {entries : List (CostEntry α)}
    {m : CostMatrix α} (h : ofEntries names entries = .ok m) : m.Valid := by
  obtain ⟨known, htwo, -, hknown, hgap, rfl⟩ := ofEntries_eq_ok h
  have hvalid := Known.Valid.none.learnAll hknown
  refine ⟨fun a b => ?_, fun a => ?_, fun {a b} hab => ?_, fun {a b} hab => ?_⟩
  · simp only [Known.cost_fill, hvalid.symm a b]
  · simp only [Known.cost_fill, hvalid.loopless a, Option.getD_none]
  · obtain ⟨c, hc⟩ := Known.exists_of_firstGap? hgap hvalid hab
    simp only [Known.cost_fill, hc, Option.getD_some]
    exact hvalid.finite hc
  · obtain ⟨c, hc⟩ := Known.exists_of_firstGap? hgap hvalid hab
    simp only [Known.cost_fill, hc, Option.getD_some]
    exact hvalid.notNegative hc

/-- Costs that are finite and not negative are at least zero. -/
theorem Valid.zero_le [LawfulCost α] {m : CostMatrix α} (h : m.Valid) (a b : Fin m.size) :
    Cost.le Cost.zero (m.cost a b) = true := by
  by_cases hab : a = b
  · subst hab
    rw [h.self]
    exact LawfulCost.zero_le_zero
  · exact Cost.le_of_not_lt (LawfulCost.isComparable_of_isFinite (h.finite hab))
      LawfulCost.zero_le_zero (h.notNegative hab)

end RoadTrip.CostMatrix
