import RoadTrip.Proofs.Cost.Binary64.Rounding
import RoadTrip.Proofs.Cost.Faithful

/-!
# Binary64 costs are rounded faithfully

The laws of `FaithfulCost` for the arithmetic of binary64 numbers. A difference is either that of
equal numbers or a multiple of the least positive number, which is not rounded to zero
(`sub_cases`). A share is a quotient by a whole number, which stands for a positive one
(`positive_ofNat`).
-/

namespace RoadTrip.Binary64

open Float.Model Float.Model.UnpackedFloat

variable {x y : UnpackedFloat} {m n M : Nat} {e f E : Int} {s t : Sign}

theorem not_alike_finite (hm : 0 < m) : ¬Alike (.finite s m e hm) (.zero t) := by
  rintro (h | ⟨_, _, h, _⟩) <;> cases h

theorem unpack_pack_zero (s : Sign) : UnpackedFloat.unpack Format.binary64
    (UnpackedFloat.pack Format.binary64 (.zero s)) = .zero s :=
  unpack_packComponents s 0#11 0#52

theorem same_zero_iff {a : Float} :
    Cost.same a Cost.zero = true ↔ ∃ s, a.toModel.unpack = .zero s := by
  rw [same_iff]
  constructor
  · rintro ⟨-, -, h | ⟨s, -, h, -⟩⟩
    · exact ⟨.positive, h⟩
    · exact ⟨s, h⟩
  · rintro ⟨s, h⟩
    rw [h]
    exact ⟨nofun, nofun, .of_zero⟩

theorem Alike.symm (h : Alike x y) : Alike y x := by
  rcases h with rfl | ⟨s, t, rfl, rfl⟩
  · exact .inl rfl
  · exact .of_zero

/-! ## Finite numbers -/

theorem isNaN_eq_false {a : Float} (h : Cost.isComparable a = true) : a.isNaN = false := by
  rw [isComparable_iff] at h
  show a.toModel.unpack.isNaN = false
  cases hx : a.toModel.unpack with
  | notANumber => exact absurd hx h
  | _ => rfl

theorem isFinite_of_isInf {a : Float} (h : a.isInf = true) : Cost.isFinite a = false := by
  have h : a.toModel.unpack.isInf = true := h
  show a.toModel.unpack.isFinite = false
  cases hx : a.toModel.unpack with
  | infinity s => rfl
  | _ =>
    rw [hx] at h
    cases h

theorem isInf_iff {a : Float} (ha : Cost.le Cost.zero a = true) :
    a.isInf = true ↔ Cost.isFinite a = false := by
  refine ⟨isFinite_of_isInf, fun h => ?_⟩
  have h : a.toModel.unpack.isFinite = false := h
  show a.toModel.unpack.isInf = true
  rw [zero_le] at ha
  cases hx : a.toModel.unpack with
  | notANumber =>
    rw [hx] at ha
    exact ha.elim
  | infinity s => rfl
  | _ =>
    rw [hx] at h
    cases h

theorem NotNegative.zero_or_finite (hx : NotNegative x) (hfinite : x.isFinite = true) :
    (∃ s, x = .zero s) ∨ ∃ m e h, x = .finite .positive m e h := by
  cases x with
  | notANumber => exact hx.elim
  | infinity s => cases hfinite
  | zero s => exact .inl ⟨s, rfl⟩
  | finite s m e hm =>
    obtain rfl : s = .positive := hx
    exact .inr ⟨m, e, hm, rfl⟩

theorem position_le_one (hx : x.isFinite = true) : (position x).1 ≤ 1 := by
  rcases x with ⟨⟨⟩⟩ | _ | s | ⟨⟨⟩, m, e, hm⟩ <;>
    first | exact absurd hx (by decide) | simp [position]

theorem isFinite_of_notAfter (hx : NotNegative x) (h : NotAfter (position x) (position y))
    (hy : y.isFinite = true) : x.isFinite = true := by
  cases x with
  | notANumber => exact hx.elim
  | infinity s =>
    obtain rfl : s = .positive := hx
    have := position_le_one hy
    unfold NotAfter at h
    have : (position (.infinity .positive)).1 = 2 := rfl
    omega
  | _ => rfl

/-! ## Differences -/

theorem finite_sub_finite (hm : Canonical m e) (hn : Canonical n f)
    (h : e < f ∨ e = f ∧ m < n) (hm0 : 0 < m) (hn0 : 0 < n) :
    ∃ r u h, UnpackedFloat.sub Format.binary64 (.finite .positive n f hn0)
      (.finite .positive m e hm0) = .finite .positive r u h ∧ Canonical r u := by
  have hlt := hn.shiftLeft_lt hm h
  have hleast : -1074 ≤ min f e := by
    have := hm.le_exponent
    have := hn.le_exponent
    omega
  have hdifference : ((n <<< (f - min f e).toNat - m <<< (e - min f e).toNat : Nat) : Int) =
      (n <<< (f - min f e).toNat : Nat) - (m <<< (e - min f e).toNat : Nat) :=
    Int.natCast_sub hlt.le
  have hsub : UnpackedFloat.sub Format.binary64 (.finite .positive n f hn0)
      (.finite .positive m e hm0) = UnpackedFloat.round Format.binary64 .positive
        (n <<< (f - min f e).toNat - m <<< (e - min f e).toNat) (min f e) := by
    rw [← normalize_natCast (Nat.sub_pos_of_lt hlt) .positive, hdifference]
    rfl
  obtain ⟨r, u, h, hround, hcanonical, -⟩ :=
    exists_round_of_pos (Nat.sub_pos_of_lt hlt) hleast .positive
  exact ⟨r, u, h, hsub.trans hround, hcanonical⟩

/-- A finite difference is zero between equal numbers only. -/
theorem sub_cases {a b : Float} (hb : Cost.isFinite b = true) (ha : Cost.le Cost.zero a = true)
    (hab : Cost.le a b = true) :
    (Alike a.toModel.unpack b.toModel.unpack ∧
      ∃ s, UnpackedFloat.sub Format.binary64 b.toModel.unpack a.toModel.unpack = .zero s) ∨
    ¬Alike a.toModel.unpack b.toModel.unpack ∧ ∃ r u h,
      UnpackedFloat.sub Format.binary64 b.toModel.unpack a.toModel.unpack =
        .finite .positive r u h ∧ Canonical r u := by
  have hzero := OrderedCost.le_trans ha hab
  rw [cost_le, le_iff] at hab
  obtain ⟨-, -, hab⟩ := hab
  rw [zero_le] at ha hzero
  have hfinite := isFinite_of_notAfter ha hab hb
  obtain ⟨t, hy⟩ | ⟨n, f, hn, hy⟩ := hzero.zero_or_finite hb
  · obtain ⟨s, hx⟩ | ⟨m, e, hm, hx⟩ := ha.zero_or_finite hfinite
    · rw [hx, hy]
      exact .inl ⟨.of_zero, by cases s <;> cases t <;> exact ⟨_, rfl⟩⟩
    · rw [hx, hy] at hab
      unfold NotAfter position at hab
      dsimp only at hab
      omega
  · have hcn := canonical_of_unpack hy
    obtain ⟨s, hx⟩ | ⟨m, e, hm, hx⟩ := ha.zero_or_finite hfinite
    · rw [hx, hy]
      exact .inr ⟨fun h => not_alike_finite hn h.symm, n, f, hn, rfl, hcn⟩
    · have hcm := canonical_of_unpack hx
      rw [hx, hy] at hab ⊢
      unfold NotAfter position at hab
      dsimp only at hab
      by_cases heq : e = f ∧ m = n
      · obtain ⟨rfl, rfl⟩ := heq
        refine .inl ⟨.inl rfl, .positive, ?_⟩
        simp only [UnpackedFloat.sub, Int.sub_self]
        rfl
      · refine .inr ⟨?_, finite_sub_finite hcm hcn (by omega) hm hn⟩
        rintro (h | ⟨_, _, h, _⟩)
        · injection h with _ hmn hef
          exact heq ⟨hef, hmn⟩
        · cases h

/-! ## Shares -/

/-- Numbers above zero. -/
def Positive : UnpackedFloat → Prop
  | .infinity s => s = .positive
  | .finite s _ _ _ => s = .positive
  | .zero _ => False
  | .notANumber => False

theorem Positive.pack (hc : Canonical m e) (hm : 0 < m) :
    Positive (UnpackedFloat.unpack Format.binary64
      (UnpackedFloat.pack Format.binary64 (.finite .positive m e hm))) := by
  rcases unpack_pack_finite hc .positive hm with h | h <;> rw [h] <;> rfl

theorem NotNegative.roundWithAccuracy {spec : Format} {a : Accuracy} :
    NotNegative (UnpackedFloat.roundWithAccuracy spec .positive M E a) := by
  unfold UnpackedFloat.roundWithAccuracy
  dsimp only
  split
  · trivial
  · rfl

theorem NotNegative.div (hx : NotNegative x) (hfinite : x.isFinite = true) (hy : Positive y) :
    NotNegative (UnpackedFloat.div Format.binary64 x y) := by
  cases x with
  | notANumber => exact hx.elim
  | infinity s => cases hfinite
  | zero s => cases y <;> first | exact hy.elim | trivial
  | finite s m e hm =>
    obtain rfl : s = .positive := hx
    cases y with
    | notANumber => exact hy.elim
    | infinity t => trivial
    | zero t => exact hy.elim
    | finite t n f hn =>
      obtain rfl : t = .positive := hy
      exact NotNegative.roundWithAccuracy

theorem zero_div (hy : Positive y) :
    ∃ t, UnpackedFloat.div Format.binary64 (.zero s) y = .zero t := by
  cases y with
  | notANumber => exact hy.elim
  | infinity t => exact ⟨_, rfl⟩
  | zero t => exact hy.elim
  | finite t n f hn => exact ⟨_, rfl⟩

/-- A product of a positive mantissa and one of 53 bits is positive. -/
theorem Positive.mul (hm : 0 < m) (hn : 0 < n) (hlong : 4503599627370496 ≤ m * n)
    (he : -1074 ≤ e + f) : Positive (UnpackedFloat.unpack Format.binary64
      (UnpackedFloat.pack Format.binary64 (UnpackedFloat.mul Format.binary64
        (.finite .positive m e hm) (.finite .positive n f hn)))) := by
  obtain ⟨r, u, h, hround, hcanonical, -⟩ :=
    exists_roundWithAccuracy_of_full hlong he .positive
  have hmul : UnpackedFloat.mul Format.binary64 (.finite .positive m e hm)
      (.finite .positive n f hn) = .finite .positive r u h := hround
  rw [hmul]
  exact .pack hcanonical h

theorem positive_ofUInt64 {k : UInt64} (h : 0 < k.toNat) :
    ∃ m e h, UnpackedFloat.ofUInt64 Format.binary64 k = .finite .positive m e h ∧
      Canonical m e ∧ -52 ≤ e := by
  obtain ⟨r, u, hr, hround, hcanonical, hle⟩ :=
    exists_round_of_pos (E := 0) h (by decide) .positive
  refine ⟨r, u, hr, ?_, hcanonical, by omega⟩
  exact (normalize_natCast h .positive).trans hround

theorem unpack_one : (Float.ofBits 0x3FF0000000000000).toModel.unpack =
    .finite .positive 4503599627370496 (-52) (by decide) :=
  rfl

/-- A whole number is converted as a product with a power of ten, here with one. -/
theorem positive_ofNat (hn : 0 < n) : Positive (Float.ofNat n).toModel.unpack := by
  show Positive (Float.ofScientific n false 0).toModel.unpack
  unfold Float.ofScientific
  split
  · rename_i hsmall
    have hword : n.toUInt64.toNat = n := by
      have := hsmall.1
      simp [Nat.toUInt64]
      omega
    obtain ⟨m, e, hm, hword, hcanonical, he⟩ := positive_ofUInt64 (k := n.toUInt64) (by omega)
    show Positive (UnpackedFloat.unpack Format.binary64 (UnpackedFloat.pack Format.binary64
      (UnpackedFloat.mul Format.binary64 (UnpackedFloat.unpack Format.binary64
        (UnpackedFloat.pack Format.binary64 (UnpackedFloat.ofUInt64 Format.binary64 n.toUInt64)))
        (Float.ofBits 0x3FF0000000000000).toModel.unpack)))
    rw [hword, unpack_one]
    rcases unpack_pack_finite hcanonical .positive hm with h | h
    · rw [h]
      exact .mul hm _ (by omega) (by omega)
    · rw [h]
      exact (unpack_pack_infinity .positive) ▸ rfl
  · show Positive (UnpackedFloat.unpack Format.binary64 (UnpackedFloat.pack Format.binary64
      (UnpackedFloat.ofScientific Format.binary64 n 0)))
    unfold UnpackedFloat.ofScientific
    have hlog : ¬(0 : Int) < -(2 ^ Format.binary64.exponentBits + (n.log2 : Nat)) := by
      have hpow : (2 : Int) ^ Format.binary64.exponentBits = 2048 := rfl
      omega
    have hlong : 4503599627370496 ≤ n <<< Format.binary64.mantissaBits * 10 ^ (0 : Int).toNat := by
      have hbits : 4503599627370496 ≤ 2 ^ Format.binary64.mantissaBits := by decide
      rw [Nat.shiftLeft_eq, Int.toNat_zero, Nat.pow_zero, Nat.mul_one]
      exact hbits.trans (Nat.le_mul_of_pos_left _ hn)
    rw [dif_neg (Nat.ne_of_gt hn), if_neg (by decide), if_neg hlog, if_pos (le_refl _)]
    exact .mul _ _ hlong (by decide)

/-! ## The laws -/

theorem cost_sub (a b : Float) : (Cost.sub a b).toModel.unpack =
    UnpackedFloat.unpack Format.binary64 (UnpackedFloat.pack Format.binary64
      (UnpackedFloat.sub Format.binary64 a.toModel.unpack b.toModel.unpack)) :=
  rfl

theorem cost_share (a : Float) (n : Nat) : (Cost.share a n).toModel.unpack =
    UnpackedFloat.unpack Format.binary64 (UnpackedFloat.pack Format.binary64
      (UnpackedFloat.div Format.binary64 a.toModel.unpack (Float.ofNat n).toModel.unpack)) :=
  rfl

instance : FaithfulCost Float where
  isFinite_zero := rfl
  isFinite_of_le := by
    intro a b ha hab hb
    rw [zero_le] at ha
    rw [cost_le, le_iff] at hab
    exact isFinite_of_notAfter ha hab.2.2 hb
  le_add_right := le_add
  le_add_left ha hb := by
    rw [cost_add_comm]
    exact le_add hb ha
  same_add_zero := by
    intro a b ha hb
    rw [same_zero_iff] at *
    obtain ⟨s, ha⟩ := ha
    obtain ⟨t, hb⟩ := hb
    rw [cost_add, ha, hb]
    cases s <;> cases t <;> exact ⟨_, unpack_pack_zero _⟩
  zero_le_sub := by
    intro a b hb ha hab
    rw [zero_le, cost_sub]
    obtain ⟨-, s, hsub⟩ | ⟨-, r, u, h, hsub, -⟩ := sub_cases hb ha hab
    · exact hsub ▸ NotNegative.pack (x := .zero s) trivial
    · exact hsub ▸ NotNegative.pack (x := .finite .positive r u h) rfl
  same_sub_zero := by
    intro a b hb ha hab
    have hzero := OrderedCost.le_trans ha hab
    rw [same_zero_iff, cost_sub]
    obtain ⟨halike, s, hsub⟩ | ⟨halike, r, u, h, hsub, hcanonical⟩ := sub_cases hb ha hab
    · exact iff_of_true ⟨s, hsub ▸ unpack_pack_zero s⟩ (same_of_alike ha hzero halike)
    · refine iff_of_false ?_ fun hsame => halike (same_iff.1 hsame).2.2
      rintro ⟨s, hpack⟩
      have hpositive := Positive.pack hcanonical h
      rw [← hsub, hpack] at hpositive
      exact hpositive
  zero_le_share := by
    intro a n hfinite ha hn
    rw [zero_le] at ha ⊢
    rw [cost_share]
    exact (ha.div hfinite (positive_ofNat hn)).pack
  same_share_zero := by
    intro a n ha hn
    rw [same_zero_iff] at *
    obtain ⟨s, ha⟩ := ha
    obtain ⟨t, hdiv⟩ := zero_div (s := s) (positive_ofNat hn)
    rw [cost_share, ha, hdiv]
    exact ⟨t, unpack_pack_zero t⟩

end RoadTrip.Binary64
