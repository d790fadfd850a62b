import RoadTrip.Proofs.Cost.Binary64

/-!
# Rounding to binary64 numbers

Rounding passes no binary64 number: what is at least as large as one of them is so after it has
been rounded (`exists_round`) and packed (`finite_le_pack`). The numbers are told by their mantissas
and exponents, which are canonical: the mantissa fills its 53 bits, unless the exponent is the
least one. A sum of numbers that are not negative is therefore at least each of them, also where it
overflows (`le_add`), and nothing that is not too fine for the least exponent is rounded to zero
(`exists_round_of_pos`).
-/

namespace RoadTrip.Binary64

open Float.Model Float.Model.UnpackedFloat

/-! ## Canonical numbers -/

/-- The mantissas and exponents of finite binary64 numbers, and of those that are too large. -/
structure Canonical (m : Nat) (e : Int) : Prop where
  lt : m < 9007199254740992
  le_exponent : -1074 ≤ e
  full : 4503599627370496 ≤ m ∨ e = -1074

variable {m n M : Nat} {e f E : Int}

/-- A number with the larger exponent is the larger one. -/
theorem Canonical.shiftLeft_lt (hm : Canonical m e) (hn : Canonical n f)
    (h : f < e ∨ f = e ∧ n < m) :
    n <<< (f - min e f).toNat < m <<< (e - min e f).toNat := by
  rw [Nat.shiftLeft_eq, Nat.shiftLeft_eq]
  rcases h with hlt | ⟨rfl, hlt⟩
  · have hfull : 4503599627370496 ≤ m := hm.full.resolve_right (by have := hn.le_exponent; omega)
    obtain ⟨k, hk⟩ : ∃ k, (e - min e f).toNat = k + 1 := ⟨(e - f).toNat - 1, by omega⟩
    have hzero : (f - min e f).toNat = 0 := by omega
    have hpos : 1 ≤ 2 ^ k := Nat.one_le_two_pow
    rw [hk, hzero, Nat.pow_zero, Nat.mul_one, Nat.pow_succ]
    have := hn.lt
    nlinarith
  · exact Nat.mul_lt_mul_of_pos_right hlt (Nat.two_pow_pos _)

theorem canonical_of_unpack {b : BitVec 64} {s : Sign} {h : 0 < m}
    (hb : UnpackedFloat.unpack Format.binary64 b = .finite s m e h) : Canonical m e := by
  have hmantissa : (@unpackMantissa Format.binary64 b).toNat < 4503599627370496 :=
    (@unpackMantissa Format.binary64 b).isLt
  unfold UnpackedFloat.unpack at hb
  dsimp only at hb
  split at hb
  · split at hb <;> cases hb
  · split at hb
    · rename_i hzero
      split at hb
      · cases hb
      · injection hb with _ hm he
        rw [hzero] at he
        have he : e = -1074 := he.symm
        exact ⟨by omega, by omega, .inr he⟩
    · rename_i hzero
      injection hb with _ hm he
      have hpos : (@unpackExponent Format.binary64 b).toNat ≠ 0 :=
        fun h0 => hzero (BitVec.eq_of_toNat_eq h0)
      have hbias : (Format.binary64.exponentBias : Int) = 1023 := rfl
      rw [toNat_implicit] at hm
      exact ⟨by omega, by omega, .inl (by omega)⟩

/-- Packing a canonical number keeps it, unless it is too large. -/
theorem unpack_pack_finite (hc : Canonical m e) (s : Sign) (h : 0 < m) :
    UnpackedFloat.unpack Format.binary64 (UnpackedFloat.pack Format.binary64 (.finite s m e h)) =
      .finite s m e h ∨
    UnpackedFloat.unpack Format.binary64 (UnpackedFloat.pack Format.binary64 (.finite s m e h)) =
      .infinity s := by
  have hlt := hc.lt
  have hleast := hc.le_exponent
  have hbias : (Format.binary64.exponentBias : Int) = 1023 := rfl
  unfold UnpackedFloat.pack
  dsimp only
  split
  · exact .inr (unpack_packComponents s (-1#11) 0#52)
  · rename_i hfit
    left
    have hfit : ¬2048 ≤ (e + 1023 + 52).toNat + 1 := hfit
    split
    · rename_i hlog
      have hfull : 4503599627370496 ≤ m := by
        have hlog : m.log2 = 52 := by simpa [Format.mantissaBits] using hlog
        simpa [hlog] using Nat.log2_self_le (Nat.ne_of_gt h)
      have hzero : BitVec.ofNat 11 (e + 1023 + 52).toNat ≠ 0#11 := by
        intro h0
        have h0 := congrArg BitVec.toNat h0
        rw [BitVec.toNat_ofNat, BitVec.toNat_ofNat, Nat.mod_eq_of_lt (by omega)] at h0
        omega
      have hunpack := unpack_packComponents s (BitVec.ofNat 11 (e + 1023 + 52).toNat)
        (BitVec.ofNat 52 m)
      rw [if_neg (ofNat_ne_neg_one hfit), if_neg hzero] at hunpack
      refine hunpack.trans ?_
      have hm : (1#1 ++ BitVec.ofNat 52 m).toNat = m := by
        rw [toNat_implicit, BitVec.toNat_ofNat]
        omega
      have he : ((BitVec.ofNat 11 (e + 1023 + 52).toNat).toNat : Int) - 1075 = e := by
        rw [BitVec.toNat_ofNat, Nat.mod_eq_of_lt (by omega)]
        omega
      simp only [hm, he]
    · rename_i hlog
      have hlog : m.log2 ≠ 52 := fun hl => hlog (by simp [Format.mantissaBits, hl])
      have hshort : m < 4503599627370496 := by
        refine Nat.lt_of_not_le fun hle => hlog ?_
        exact (Nat.log2_eq_iff (Nat.ne_of_gt h)).2 ⟨hle, hlt⟩
      obtain rfl : e = -1074 := hc.full.resolve_left (Nat.not_le.2 hshort)
      have hm : (BitVec.ofNat 52 m).toNat = m := by
        rw [BitVec.toNat_ofNat]
        omega
      have hzero : BitVec.ofNat 52 m ≠ 0#52 := by
        intro h0
        have h0 := congrArg BitVec.toNat h0
        rw [hm, BitVec.toNat_ofNat] at h0
        omega
      have hunpack := unpack_packComponents s 0#11 (BitVec.ofNat 52 m)
      rw [if_neg (by decide), if_pos rfl, dif_neg hzero] at hunpack
      refine hunpack.trans ?_
      simp only [hm]
      rfl

/-! ## Rounding -/

theorem mantissa_shiftRight (em : ExtendedMantissa) (k : Nat) :
    (em >>> k).mantissa = em.mantissa / 2 ^ k := by
  induction k with
  | zero => simp [HShiftRight.hShiftRight, Nat.repeat]
  | succ k ih =>
    have hstep : (em >>> (k + 1)).mantissa = (em >>> k).mantissa / 2 := rfl
    rw [hstep, ih, Nat.div_div_eq_div_mul, Nat.pow_succ]

theorem roundedMantissa_bounds (em : ExtendedMantissa) :
    em.mantissa ≤ em.roundedMantissa ∧ em.roundedMantissa ≤ em.mantissa + 1 := by
  obtain ⟨m, _ | _, _ | _⟩ := em <;>
    simp only [ExtendedMantissa.roundedMantissa, ExtendedMantissa.accuracy,
      Accuracy.roundToNearestEven] <;>
    omega

theorem targetExponent_eq : Format.binary64.targetExponent (totalExponent M E) =
    max (M.log2 + E - 52) (-1074) := by
  simp only [Format.targetExponent, totalExponent, Format.mantissaBits, Format.minExponent]
  omega

/-- The lower bits of the mantissa go up to the exponent that it is shifted to. -/
theorem shiftToTargetExponent_eq (h : E ≤ max (M.log2 + E - 52) (-1074)) :
    (shiftToTargetExponent Format.binary64 M E .exact).1.mantissa =
      M / 2 ^ (max (M.log2 + E - 52) (-1074) - E).toNat ∧
    (shiftToTargetExponent Format.binary64 M E .exact).2 = max (M.log2 + E - 52) (-1074) := by
  unfold shiftToTargetExponent shiftToExponent
  rw [targetExponent_eq]
  refine ⟨mantissa_shiftRight _ _, ?_⟩
  dsimp only
  omega

theorem log2_le_of_lt (hM : M < 9007199254740992) : M.log2 ≤ 52 := by
  rcases Nat.eq_zero_or_pos M with rfl | hpos
  · simp
  · exact Nat.le_of_lt_succ ((Nat.log2_lt (k := 53) (Nat.ne_of_gt hpos)).2 hM)

/-- A mantissa that fits stays as it is. One that has become too large by rounding is a power of
two and loses a zero. -/
theorem shiftToTargetExponent_rounded (hM : M ≤ 9007199254740992) (hE : -1074 ≤ E) :
    (M < 9007199254740992 ∧ (shiftToTargetExponent Format.binary64 M E .exact).1.mantissa = M ∧
      (shiftToTargetExponent Format.binary64 M E .exact).2 = E) ∨
    (shiftToTargetExponent Format.binary64 M E .exact).1.mantissa = 4503599627370496 ∧
      (shiftToTargetExponent Format.binary64 M E .exact).2 = E + 1 := by
  unfold shiftToTargetExponent shiftToExponent
  rw [targetExponent_eq]
  dsimp only
  rw [mantissa_shiftRight]
  rcases Nat.lt_or_eq_of_le hM with hlt | rfl
  · have hlog := log2_le_of_lt hlt
    have hshift : (max (M.log2 + E - 52) (-1074) - E).toNat = 0 := by omega
    left
    rw [hshift]
    exact ⟨hlt, Nat.div_one M, Int.add_zero E⟩
  · have hlog : Nat.log2 9007199254740992 = 53 := Nat.log2_two_pow (n := 53)
    have hshift : (max ((53 : Nat) + E - 52) (-1074) - E).toNat = 1 := by omega
    right
    rw [hlog, hshift]
    exact ⟨rfl, rfl⟩

/-- What stands at the target exponent is rounded to a canonical number, not downwards. -/
theorem exists_roundWithAccuracy {q : Nat} {t : Int} (ht : t = max (M.log2 + E - 52) (-1074))
    (hE : E ≤ t) (hq : q = M / 2 ^ (t - E).toNat) (hpos : 0 < q)
    (hfull : 4503599627370496 ≤ q ∨ t = -1074) (s : Sign) :
    ∃ r u h, roundWithAccuracy Format.binary64 s M E .exact = .finite s r u h ∧ Canonical r u ∧
      (t < u ∨ t = u ∧ q ≤ r) := by
  obtain ⟨hmantissa, hexponent⟩ := shiftToTargetExponent_eq (ht ▸ hE)
  rw [← ht, ← hq] at hmantissa
  rw [← ht] at hexponent
  have hupper : q < 9007199254740992 := by
    rw [hq, Nat.div_lt_iff_lt_mul (Nat.two_pow_pos _)]
    calc M < 2 ^ (M.log2 + 1) := Nat.lt_log2_self
      _ ≤ 2 ^ (53 + (t - E).toNat) := Nat.pow_le_pow_right Nat.two_pos (by omega)
      _ = 9007199254740992 * 2 ^ (t - E).toNat := Nat.pow_add 2 53 _
  have hbounds := roundedMantissa_bounds (shiftToTargetExponent Format.binary64 M E .exact).1
  rw [hmantissa] at hbounds
  unfold roundWithAccuracy
  dsimp only
  rw [hexponent]
  obtain ⟨hfits, hr, hu⟩ | ⟨hr, hu⟩ := shiftToTargetExponent_rounded
    (M := (shiftToTargetExponent Format.binary64 M E .exact).1.roundedMantissa) (E := t)
    (by omega) (by omega)
  all_goals
    simp only [hr, hu]
    rw [dif_neg (by omega)]
    exact ⟨_, _, by omega, rfl, ⟨by omega, by omega, by omega⟩, by omega⟩

theorem round_eq (h : E ≤ max (M.log2 + E - 52) (-1074)) (s : Sign) :
    UnpackedFloat.round Format.binary64 s M E =
      roundWithAccuracy Format.binary64 s M E .exact := by
  have hkept : decreaseExponent M E (max (M.log2 + E - 52) (-1074)) = (M, E) := by
    simp [decreaseExponent, Int.toNat_of_nonpos (Int.sub_nonpos_of_le h)]
  unfold UnpackedFloat.round
  rw [targetExponent_eq]
  dsimp only
  rw [hkept]

/-- A mantissa that is shifted to 53 bits fills them. -/
theorem full_div {k : Nat} (hM : M ≠ 0) (h : 52 + k ≤ M.log2) :
    4503599627370496 ≤ M / 2 ^ k := by
  rw [Nat.le_div_iff_mul_le (Nat.two_pow_pos k)]
  calc 4503599627370496 * 2 ^ k
    _ = 2 ^ (52 + k) := (Nat.pow_add 2 52 k).symm
    _ ≤ M := (Nat.le_log2 hM).1 h

/-- **Rounding passes no binary64 number.** What is at least as large as a canonical number is
rounded to one that is at least as large. -/
theorem exists_round (hc : Canonical m e) (hm : 0 < m) (hE : E ≤ e)
    (hM : m * 2 ^ (e - E).toNat ≤ M) (s : Sign) :
    ∃ r u h, UnpackedFloat.round Format.binary64 s M E = .finite s r u h ∧ Canonical r u ∧
      (e < u ∨ e = u ∧ m ≤ r) := by
  have hpos : M ≠ 0 :=
    Nat.ne_of_gt (Nat.lt_of_lt_of_le (Nat.mul_pos hm (Nat.two_pow_pos _)) hM)
  have hleast := hc.le_exponent
  obtain ⟨t, ht⟩ : ∃ t, t = max (M.log2 + E - 52) (-1074) := ⟨_, rfl⟩
  -- the mantissa is so long that the target exponent is not smaller than that of the number
  have het : e ≤ t := by
    rcases hc.full with hfull | rfl
    · have hlog : 52 + (e - E).toNat ≤ M.log2 := by
        rw [Nat.le_log2 hpos, Nat.pow_add]
        exact (Nat.mul_le_mul_right _ hfull).trans hM
      omega
    · omega
  have hlower : e < t ∧ 4503599627370496 ≤ M / 2 ^ (t - E).toNat ∨
      e = t ∧ m ≤ M / 2 ^ (t - E).toNat := by
    rcases het.lt_or_eq with hlt | rfl
    · exact .inl ⟨hlt, full_div hpos (by omega)⟩
    · exact .inr ⟨rfl, (Nat.le_div_iff_mul_le (Nat.two_pow_pos _)).2 hM⟩
  have hfull := hc.full
  obtain ⟨r, u, h, hround, hcanonical, hle⟩ :=
    exists_roundWithAccuracy ht (hE.trans het) rfl (by omega) (by omega) s
  rw [round_eq (ht ▸ hE.trans het)]
  exact ⟨r, u, h, hround, hcanonical, by omega⟩

/-- A mantissa of 53 bits or more is rounded to a number with no smaller exponent. -/
theorem exists_roundWithAccuracy_of_full (hM : 4503599627370496 ≤ M) (hE : -1074 ≤ E) (s : Sign) :
    ∃ r u h, roundWithAccuracy Format.binary64 s M E .exact = .finite s r u h ∧ Canonical r u ∧
      E ≤ u := by
  have hpos : M ≠ 0 := by omega
  have hlog : 52 ≤ M.log2 := (Nat.le_log2 hpos).2 hM
  obtain ⟨t, ht⟩ : ∃ t, t = max (M.log2 + E - 52) (-1074) := ⟨_, rfl⟩
  have hfull : 4503599627370496 ≤ M / 2 ^ (t - E).toNat := full_div hpos (by omega)
  obtain ⟨r, u, h, hround, hcanonical, hle⟩ :=
    exists_roundWithAccuracy ht (by omega) rfl (by omega) (.inl hfull) s
  exact ⟨r, u, h, hround, hcanonical, by omega⟩

theorem log2_shiftLeft (hM : 0 < M) (k : Nat) : (M <<< k).log2 = M.log2 + k := by
  induction k with
  | zero => rfl
  | succ k ih =>
    have hpos : M <<< k ≠ 0 := by
      rw [Nat.shiftLeft_eq]
      exact Nat.ne_of_gt (Nat.mul_pos hM (Nat.two_pow_pos k))
    rw [Nat.shiftLeft_succ, Nat.log2_two_mul hpos, ih, Nat.add_assoc]

/-- Nothing that is a multiple of the least positive number is rounded to zero. -/
theorem exists_round_of_pos (hM : 0 < M) (hE : -1074 ≤ E) (s : Sign) :
    ∃ r u h, UnpackedFloat.round Format.binary64 s M E = .finite s r u h ∧ Canonical r u ∧
      E - 52 ≤ u := by
  obtain ⟨t, ht⟩ : ∃ t, t = max (M.log2 + E - 52) (-1074) := ⟨_, rfl⟩
  have hround : UnpackedFloat.round Format.binary64 s M E =
      roundWithAccuracy Format.binary64 s (M <<< (E - t).toNat) (E - (E - t).toNat) .exact := by
    unfold UnpackedFloat.round
    rw [targetExponent_eq, ← ht]
    rfl
  have hlog := log2_shiftLeft hM (E - t).toNat
  have hpos : 0 < M <<< (E - t).toNat := by
    rw [Nat.shiftLeft_eq]
    exact Nat.mul_pos hM (Nat.two_pow_pos _)
  rw [hround]
  by_cases hfull : 4503599627370496 ≤ M <<< (E - t).toNat
  · obtain ⟨r, u, h, hfinite, hcanonical, hle⟩ :=
      exists_roundWithAccuracy_of_full (E := E - (E - t).toNat) hfull (by omega) s
    exact ⟨r, u, h, hfinite, hcanonical, by omega⟩
  · -- a mantissa that is too short for 53 bits stands at the least exponent
    have hshort : (M <<< (E - t).toNat).log2 < 52 := by
      rw [Nat.log2_lt (Nat.ne_of_gt hpos)]
      omega
    have hleast : E - (E - t).toNat = -1074 ∧ t = -1074 := by omega
    obtain ⟨r, u, h, hfinite, hcanonical, hle⟩ := exists_roundWithAccuracy (t := t)
      (M := M <<< (E - t).toNat) (E := E - (E - t).toNat) (by omega) (by omega) rfl
      (by rw [hleast.1, hleast.2]; simpa using hpos) (.inr hleast.2) s
    exact ⟨r, u, h, hfinite, hcanonical, by omega⟩

/-! ## Sums -/

theorem add_comm (x y : UnpackedFloat) :
    UnpackedFloat.add Format.binary64 x y = UnpackedFloat.add Format.binary64 y x := by
  rcases x with ⟨⟨⟩⟩ | _ | ⟨⟨⟩⟩ | ⟨s, m, e, hm⟩ <;>
    rcases y with ⟨⟨⟩⟩ | _ | ⟨⟨⟩⟩ | ⟨t, n, f, hn⟩ <;>
    first | rfl | simp only [UnpackedFloat.add, Int.min_comm f e, Int.add_comm]

theorem normalize_natCast (hM : 0 < M) (s : Sign) :
    UnpackedFloat.normalize Format.binary64 M E s =
      UnpackedFloat.round Format.binary64 .positive M E := by
  have hcompare : compare (M : Int) 0 = .gt := Int.compare_eq_gt.2 (Int.natCast_pos.2 hM)
  simp only [UnpackedFloat.normalize, hcompare, Int.toNat_natCast]

/-- A canonical number that is packed stands where it stood or further on. -/
theorem finite_le_pack (hc : Canonical n f) (hm : 0 < m) (hn : 0 < n)
    (hle : e < f ∨ e = f ∧ m ≤ n) :
    (UnpackedFloat.finite .positive m e hm).le (UnpackedFloat.unpack Format.binary64
      (UnpackedFloat.pack Format.binary64 (.finite .positive n f hn))) = true := by
  rw [le_iff]
  rcases unpack_pack_finite hc .positive hn with hpack | hpack
  · rw [hpack]
    refine ⟨nofun, nofun, ?_⟩
    unfold NotAfter position
    dsimp only
    omega
  · rw [hpack]
    exact ⟨nofun, nofun, .inl (by decide : (1 : Int) < 2)⟩

theorem finite_le_add (hc : Canonical m e) (hm : 0 < m) (hn : 0 < n) :
    (UnpackedFloat.finite .positive m e hm).le (UnpackedFloat.unpack Format.binary64
      (UnpackedFloat.pack Format.binary64 (UnpackedFloat.add Format.binary64
        (.finite .positive m e hm) (.finite .positive n f hn)))) = true := by
  have hmantissa : m * 2 ^ (e - min e f).toNat ≤
      m <<< (e - min e f).toNat + n <<< (f - min e f).toNat := by
    rw [Nat.shiftLeft_eq m]
    exact Nat.le_add_right _ _
  have hpos := Nat.lt_of_lt_of_le (Nat.mul_pos hm (Nat.two_pow_pos _)) hmantissa
  have hsum : UnpackedFloat.add Format.binary64 (.finite .positive m e hm)
      (.finite .positive n f hn) = UnpackedFloat.round Format.binary64 .positive
        (m <<< (e - min e f).toNat + n <<< (f - min e f).toNat) (min e f) := by
    rw [← normalize_natCast hpos .positive, Int.natCast_add]
    rfl
  obtain ⟨r, u, h, hround, hcanonical, hle⟩ :=
    exists_round hc hm (Int.min_le_left e f) hmantissa .positive
  rw [hsum, hround]
  exact finite_le_pack hcanonical hm h hle

theorem unpack_pack_infinity (s : Sign) : UnpackedFloat.unpack Format.binary64
    (UnpackedFloat.pack Format.binary64 (.infinity s)) = .infinity s :=
  unpack_packComponents s (-1#11) 0#52

theorem infinity_add {y : UnpackedFloat} (hy : NotNegative y) :
    UnpackedFloat.add Format.binary64 (.infinity .positive) y = .infinity .positive := by
  cases y with
  | notANumber => exact hy.elim
  | infinity s =>
    obtain rfl : s = .positive := hy
    rfl
  | zero s => rfl
  | finite s m e h => rfl

theorem le_infinity {x : UnpackedFloat} (hx : NotNegative x) :
    x.le (.infinity .positive) = true := by
  cases x with
  | notANumber => exact hx.elim
  | infinity s =>
    obtain rfl : s = .positive := hx
    rfl
  | zero s => rfl
  | finite s m e h =>
    obtain rfl : s = .positive := hx
    rfl

/-- **A sum of numbers that are not negative is at least the first of them**, rounded or infinite
as it may be. -/
theorem le_add {a b : Float} (ha : Cost.le Cost.zero a = true) (hb : Cost.le Cost.zero b = true) :
    Cost.le a (Cost.add a b) = true := by
  rw [zero_le] at ha hb
  have hself : a.toModel.unpack.le a.toModel.unpack = true := by
    rw [← cost_le]
    exact (OrderedCost.comparable_of_le (zero_le.2 ha)).2
  have hunpack := unpack_pack a
  rw [cost_le, cost_add]
  cases hx : a.toModel.unpack with
  | notANumber =>
    rw [hx] at ha
    exact ha.elim
  | zero s =>
    rw [hx] at ha
    exact (zero_le_iff s _).2 (ha.add hb).pack
  | infinity s =>
    rw [hx] at ha
    obtain rfl : s = .positive := ha
    rw [infinity_add hb, unpack_pack_infinity]
    exact le_infinity rfl
  | finite s m e hm =>
    have hc := canonical_of_unpack hx
    rw [hx] at ha hunpack hself
    cases hy : b.toModel.unpack with
    | notANumber =>
      rw [hy] at hb
      exact hb.elim
    | zero t => exact hunpack.symm ▸ hself
    | infinity t =>
      rw [hy] at hb
      obtain rfl : t = .positive := hb
      rw [add_comm, infinity_add ha, unpack_pack_infinity]
      exact le_infinity ha
    | finite t n f hn =>
      rw [hy] at hb
      obtain rfl : s = .positive := ha
      obtain rfl : t = .positive := hb
      exact finite_le_add hc hm hn

theorem cost_add_comm (a b : Float) : Cost.add a b = Cost.add b a := by
  show Float.ofModel (Float.Model.pack _) = Float.ofModel (Float.Model.pack _)
  rw [add_comm]

end RoadTrip.Binary64
