import Mathlib
import RoadTrip.Proofs.Cost.Order
import RoadTrip.Proofs.Cost.Rounded

/-!
# Binary64 costs are lawful

The laws of `LawfulCost` for the arithmetic of binary64 numbers, read off their logical model. The
order of two unpacked numbers is that of their positions (`le_iff`), and packing a number, which
is where an overflow becomes infinite, keeps its sign and makes nothing finite. Numerical equality
is that of numbers up to the sign of zero (`same_iff`), which addition respects (`addDomain`).
-/

namespace RoadTrip.Binary64

open Float.Model Float.Model.UnpackedFloat

/-! ## Order -/

/-- Where an unpacked number stands: infinities and signs first, then exponents and mantissas. -/
def position : UnpackedFloat → Int × Int × Int
  | .infinity .negative => (-2, 0, 0)
  | .finite .negative m e _ => (-1, -e, -m)
  | .finite .positive m e _ => (1, e, m)
  | .infinity .positive => (2, 0, 0)
  | .zero _ | .notANumber => (0, 0, 0)

def NotAfter (p q : Int × Int × Int) : Prop :=
  p.1 < q.1 ∨ p.1 = q.1 ∧ (p.2.1 < q.2.1 ∨ p.2.1 = q.2.1 ∧ p.2.2 ≤ q.2.2)

theorem isLE_then {a b : Int} {m n : Nat} :
    ((compare a b).then (compare m n)).isLE = true ↔ a < b ∨ a = b ∧ m ≤ n := by
  rw [Ordering.isLE_then_iff_or, Int.compare_eq_lt, Int.compare_eq_eq, Nat.isLE_compare]

theorem isGE_then {a b : Int} {m n : Nat} :
    ((compare a b).then (compare m n)).isGE = true ↔ b < a ∨ a = b ∧ n ≤ m := by
  rw [← Ordering.isLE_swap, Ordering.swap_then, Int.compare_swap, Nat.compare_swap, isLE_then]
  simp only [eq_comm]

theorem le_iff (x y : UnpackedFloat) :
    x.le y = true ↔ x ≠ .notANumber ∧ y ≠ .notANumber ∧ NotAfter (position x) (position y) := by
  have signs : compare Sign.negative Sign.negative = .eq ∧
      compare Sign.positive Sign.positive = .eq ∧ compare Sign.negative Sign.positive = .lt ∧
      compare Sign.positive Sign.negative = .gt :=
    ⟨rfl, rfl, rfl, rfl⟩
  rcases x with ⟨⟨⟩⟩ | _ | ⟨⟨⟩⟩ | ⟨⟨⟩, m, e, hm⟩ <;>
    rcases y with ⟨⟨⟩⟩ | _ | ⟨⟨⟩⟩ | ⟨⟨⟩, n, f, hn⟩ <;>
    simp [UnpackedFloat.le, UnpackedFloat.compare, NotAfter, position, isLE_then, isGE_then, signs]

theorem NotAfter.trans {p q r : Int × Int × Int} (hpq : NotAfter p q) (hqr : NotAfter q r) :
    NotAfter p r := by
  unfold NotAfter at *
  omega

theorem NotAfter.total (p q : Int × Int × Int) : NotAfter p q ∨ NotAfter q p := by
  unfold NotAfter
  omega

/-! ## Packing -/

theorem toNat_implicit (m : BitVec 52) : (1#1 ++ m).toNat = 4503599627370496 + m.toNat := by
  rw [BitVec.toNat_append, ← Nat.shiftLeft_add_eq_or_of_lt m.isLt]
  rfl

/-- What a sign, an exponent and a mantissa stand for. -/
theorem unpack_packComponents (s : Sign) (e : BitVec 11) (m : BitVec 52) :
    UnpackedFloat.unpack Format.binary64 (packComponents Format.binary64 s e m) =
      if e = -1#11 then if m = 0#52 then .infinity s else .notANumber
      else if e = 0#11 then
        if h : m = 0#52 then .zero s
        else .finite s m.toNat (e.toNat - 1075 + 1) (by
          simpa [BitVec.toNat_pos, BitVec.pos_iff_ne_zero])
      else .finite s (1#1 ++ m).toNat (e.toNat - 1075) (by rw [toNat_implicit]; omega) := by
  simp only [UnpackedFloat.unpack, unpackMantissa_packComponents, unpackExponent_packComponents,
    unpackSign_packComponents, Sign.ofBitVec_toBitVec]
  rfl

/-- Numbers that are not below zero. -/
def NotNegative : UnpackedFloat → Prop
  | .infinity s => s = .positive
  | .finite s _ _ _ => s = .positive
  | .zero _ => True
  | .notANumber => False

theorem zero_le_iff (s : Sign) (x : UnpackedFloat) :
    (UnpackedFloat.zero s).le x = true ↔ NotNegative x := by
  rcases x with ⟨⟨⟩⟩ | _ | ⟨⟨⟩⟩ | ⟨⟨⟩, m, e, hm⟩ <;>
    simp [UnpackedFloat.le, UnpackedFloat.compare, NotNegative]

theorem notNegative_components {e : BitVec 11} (he : e ≠ -1#11) (m : BitVec 52) :
    NotNegative (UnpackedFloat.unpack Format.binary64
      (packComponents Format.binary64 .positive e m)) := by
  rw [unpack_packComponents, if_neg he]
  by_cases h0 : e = 0#11
  · rw [if_pos h0]
    by_cases hm : m = 0#52
    · rw [dif_pos hm]; trivial
    · rw [dif_neg hm]; rfl
  · rw [if_neg h0]; rfl

/-- The biased exponent of a number that is packed as a normal one is not that of infinity. -/
theorem ofNat_ne_neg_one {n : Nat} (h : ¬2048 ≤ n + 1) : BitVec.ofNat 11 n ≠ -1#11 := by
  intro he
  have hn := congrArg BitVec.toNat he
  rw [BitVec.toNat_ofNat, Nat.mod_eq_of_lt (by omega)] at hn
  have : (-1#11 : BitVec 11).toNat = 2047 := rfl
  omega

theorem NotNegative.pack {x : UnpackedFloat} (h : NotNegative x) :
    NotNegative (UnpackedFloat.unpack Format.binary64 (UnpackedFloat.pack Format.binary64 x)) := by
  cases x with
  | notANumber => exact h.elim
  | infinity s =>
    obtain rfl : s = .positive := h
    exact (unpack_packComponents .positive (-1#11) 0#52) ▸ rfl
  | zero s =>
    exact (unpack_packComponents s 0#11 0#52) ▸ trivial
  | finite s m e hm =>
    obtain rfl : s = .positive := h
    unfold UnpackedFloat.pack
    dsimp only
    split
    · exact (unpack_packComponents .positive (-1#11) 0#52) ▸ rfl
    · rename_i hfit
      split
      · exact notNegative_components (ofNat_ne_neg_one hfit) _
      · exact notNegative_components (by decide) _

theorem isFinite_of_pack {x : UnpackedFloat}
    (h : (UnpackedFloat.unpack Format.binary64
      (UnpackedFloat.pack Format.binary64 x)).isFinite = true) : x.isFinite = true := by
  cases x with
  | notANumber => exact absurd h (by decide)
  | infinity s => cases s <;> exact absurd h (by decide)
  | zero s => rfl
  | finite s m e hm => rfl

/-! ## Addition -/

theorem isFinite_of_add {spec : Format} {x y : UnpackedFloat}
    (h : (UnpackedFloat.add spec x y).isFinite = true) : x.isFinite = true ∧ y.isFinite = true := by
  rcases x with ⟨⟨⟩⟩ | _ | ⟨⟨⟩⟩ | ⟨⟨⟩, m, e, hm⟩ <;>
    rcases y with ⟨⟨⟩⟩ | _ | ⟨⟨⟩⟩ | ⟨⟨⟩, n, f, hn⟩ <;>
    first | exact ⟨rfl, rfl⟩ | cases h

theorem zero_negative_add (spec : Format) (y : UnpackedFloat) :
    UnpackedFloat.add spec (.zero .negative) y = y := by
  rcases y with ⟨⟨⟩⟩ | _ | ⟨⟨⟩⟩ | ⟨⟨⟩, n, f, hn⟩ <;> rfl

theorem NotNegative.round {spec : Format} {m : Nat} {e : Int} :
    NotNegative (UnpackedFloat.round spec .positive m e) := by
  unfold UnpackedFloat.round roundWithAccuracy
  dsimp only
  split
  · trivial
  · rfl

theorem NotNegative.normalize {spec : Format} {m : Int} {e : Int} {s : Sign} (h : 0 ≤ m) :
    NotNegative (UnpackedFloat.normalize spec m e s) := by
  unfold UnpackedFloat.normalize
  split
  · rename_i hlt
    rw [Int.compare_eq_lt] at hlt
    omega
  · trivial
  · exact NotNegative.round

theorem NotNegative.add {spec : Format} {x y : UnpackedFloat} (hx : NotNegative x)
    (hy : NotNegative y) : NotNegative (UnpackedFloat.add spec x y) := by
  cases x with
  | notANumber => exact hx.elim
  | infinity s =>
    obtain rfl : s = .positive := hx
    cases y with
    | notANumber => exact hy.elim
    | infinity t => obtain rfl : t = .positive := hy; rfl
    | zero t => rfl
    | finite t n f hn => rfl
  | zero s =>
    cases y with
    | notANumber => exact hy.elim
    | infinity t => exact hy
    | zero t => cases s <;> cases t <;> trivial
    | finite t n f hn => exact hy
  | finite s m e hm =>
    obtain rfl : s = .positive := hx
    cases y with
    | notANumber => exact hy.elim
    | infinity t => exact hy
    | zero t => rfl
    | finite t n f hn =>
      obtain rfl : t = .positive := hy
      exact NotNegative.normalize (Int.add_nonneg (Int.natCast_nonneg _) (Int.natCast_nonneg _))

/-! ## The laws -/

theorem model_pack_unpack (x : Float.Model) : Float.Model.pack x.unpack = x := by
  cases x with
  | mk bits valid =>
    simp only [Float.Model.pack, Float.Model.unpack, pack_unpack_of_valid valid,
      UInt64.ofBitVec_toBitVec]

theorem cost_le (a b : Float) : Cost.le a b = a.toModel.unpack.le b.toModel.unpack := by
  show decide (decide (a.toModel.unpack.le b.toModel.unpack = true) = true) = _
  simp only [Bool.decide_eq_true]

theorem cost_add (a b : Float) : (Cost.add a b).toModel.unpack =
    UnpackedFloat.unpack Format.binary64 (UnpackedFloat.pack Format.binary64
      (UnpackedFloat.add Format.binary64 a.toModel.unpack b.toModel.unpack)) :=
  rfl

theorem zero_le {a : Float} : Cost.le Cost.zero a = true ↔ NotNegative a.toModel.unpack := by
  rw [cost_le]
  exact zero_le_iff .positive _

theorem isComparable_iff {a : Float} :
    Cost.isComparable a = true ↔ a.toModel.unpack ≠ .notANumber := by
  unfold Cost.isComparable
  rw [cost_le, le_iff]
  exact ⟨And.left, fun h => ⟨h, h, (NotAfter.total _ _).elim id id⟩⟩

instance : LawfulCost Float where
  le_trans := by
    intro a b c hab hbc
    rw [cost_le, le_iff] at *
    exact ⟨hab.1, hbc.2.1, hab.2.2.trans hbc.2.2⟩
  le_total := by
    intro a b ha hb
    rw [isComparable_iff] at ha hb
    rw [cost_le, cost_le, le_iff, le_iff]
    rcases NotAfter.total (position a.toModel.unpack) (position b.toModel.unpack) with h | h
    · exact .inl ⟨ha, hb, h⟩
    · exact .inr ⟨hb, ha, h⟩
  comparable_of_le := by
    intro a b h
    rw [cost_le, le_iff] at h
    rw [isComparable_iff, isComparable_iff]
    exact ⟨h.1, h.2.1⟩
  isComparable_of_isFinite := by
    intro a h
    rw [isComparable_iff]
    intro hn
    have h : a.toModel.unpack.isFinite = true := h
    rw [hn] at h
    cases h
  zero_le_zero := zero_le.2 trivial
  zero_le_emptySum := zero_le.2 trivial
  emptySum_add := by
    intro a
    have h : (Cost.add Cost.emptySum a).toModel = a.toModel := by
      show Float.Model.pack
        (UnpackedFloat.add Format.binary64 (.zero .negative) a.toModel.unpack) = _
      rw [zero_negative_add, model_pack_unpack]
    exact congrArg Float.ofModel h
  zero_le_add := by
    intro a b ha hb
    rw [zero_le] at *
    rw [cost_add]
    exact (ha.add hb).pack
  isFinite_of_add := by
    intro a b h
    exact isFinite_of_add (isFinite_of_pack h)

/-! ## Numerical equality -/

/-- Two numbers that are equal, or zeros of either sign. -/
def Alike (x y : UnpackedFloat) : Prop := x = y ∨ ∃ s t, x = .zero s ∧ y = .zero t

theorem alike_iff {x y : UnpackedFloat} (hx : x ≠ .notANumber) (hy : y ≠ .notANumber) :
    NotAfter (position x) (position y) ∧ NotAfter (position y) (position x) ↔ Alike x y := by
  have hposition : NotAfter (position x) (position y) ∧ NotAfter (position y) (position x) ↔
      (position x).1 = (position y).1 ∧ (position x).2.1 = (position y).2.1 ∧
        (position x).2.2 = (position y).2.2 := by
    unfold NotAfter
    omega
  rw [hposition]
  rcases x with ⟨⟨⟩⟩ | _ | s | ⟨⟨⟩, m, e, hm⟩ <;>
    rcases y with ⟨⟨⟩⟩ | _ | t | ⟨⟨⟩, n, f, hn⟩ <;>
    simp_all [Alike, position, and_comm]

theorem same_iff {a b : Float} : Cost.same a b = true ↔
    a.toModel.unpack ≠ .notANumber ∧ b.toModel.unpack ≠ .notANumber ∧
      Alike a.toModel.unpack b.toModel.unpack := by
  rw [Cost.same_iff, cost_le, cost_le, le_iff, le_iff]
  constructor
  · rintro ⟨⟨ha, hb, hab⟩, -, -, hba⟩
    exact ⟨ha, hb, (alike_iff ha hb).1 ⟨hab, hba⟩⟩
  · rintro ⟨ha, hb, h⟩
    obtain ⟨hab, hba⟩ := (alike_iff ha hb).2 h
    exact ⟨⟨ha, hb, hab⟩, hb, ha, hba⟩

theorem Alike.of_zero {s t : Sign} : Alike (.zero s) (.zero t) := .inr ⟨s, t, rfl, rfl⟩

/-- Zeros of either sign make no numerical difference to a sum. -/
theorem Alike.add {spec : Format} {w x y z : UnpackedFloat} (hwx : Alike w x) (hyz : Alike y z) :
    Alike (UnpackedFloat.add spec w y) (UnpackedFloat.add spec x z) := by
  rcases hwx with rfl | ⟨s, t, rfl, rfl⟩ <;> rcases hyz with rfl | ⟨u, v, rfl, rfl⟩
  · exact .inl rfl
  · cases w with
    | zero r => cases r <;> cases u <;> cases v <;> exact .of_zero
    | _ => exact .inl rfl
  · cases y with
    | zero r => cases r <;> cases s <;> cases t <;> exact .of_zero
    | _ => exact .inl rfl
  · cases s <;> cases t <;> cases u <;> cases v <;> exact .of_zero

theorem Alike.zero_add {spec : Format} (s : Sign) (y : UnpackedFloat) :
    Alike (UnpackedFloat.add spec (.zero s) y) y := by
  cases y with
  | zero t => cases s <;> cases t <;> exact .of_zero
  | _ => exact .inl rfl

theorem Alike.pack {x y : UnpackedFloat} (h : Alike x y) :
    Alike (UnpackedFloat.unpack Format.binary64 (UnpackedFloat.pack Format.binary64 x))
      (UnpackedFloat.unpack Format.binary64 (UnpackedFloat.pack Format.binary64 y)) := by
  rcases h with rfl | ⟨s, t, rfl, rfl⟩
  · exact .inl rfl
  · refine .inr ⟨s, t, ?_, ?_⟩
    · exact (unpack_packComponents s 0#11 0#52) 
    · exact unpack_packComponents t 0#11 0#52

theorem unpack_pack (a : Float) : UnpackedFloat.unpack Format.binary64
    (UnpackedFloat.pack Format.binary64 a.toModel.unpack) = a.toModel.unpack := by
  show (Float.Model.pack a.toModel.unpack).unpack = _
  rw [model_pack_unpack]

theorem same_of_alike {a b : Float} (ha : Cost.le Cost.zero a = true)
    (hb : Cost.le Cost.zero b = true) (h : Alike a.toModel.unpack b.toModel.unpack) :
    Cost.same a b = true :=
  same_iff.2 ⟨isComparable_iff.1 (OrderedCost.comparable_of_le ha).2,
    isComparable_iff.1 (OrderedCost.comparable_of_le hb).2, h⟩

/-- Numbers that are not negative can be added up. -/
theorem addDomain : Cost.AddDomain fun a : Float => Cost.le Cost.zero a = true where
  comparable ha := (OrderedCost.comparable_of_le ha).2
  zero := LawfulCost.zero_le_zero
  emptySum := LawfulCost.zero_le_emptySum
  add := LawfulCost.zero_le_add
  same_add := by
    intro a b c d ha hb hc hd hab hcd
    apply same_of_alike (LawfulCost.zero_le_add ha hc) (LawfulCost.zero_le_add hb hd)
    rw [cost_add, cost_add]
    exact ((same_iff.1 hab).2.2.add (same_iff.1 hcd).2.2).pack
  same_zero_add := by
    intro a ha
    apply same_of_alike (LawfulCost.zero_le_add LawfulCost.zero_le_zero ha) ha
    rw [cost_add]
    have h : Alike (UnpackedFloat.add Format.binary64 (.zero .positive) a.toModel.unpack)
        a.toModel.unpack := Alike.zero_add .positive a.toModel.unpack
    have h := h.pack
    rwa [unpack_pack] at h
  same_emptySum_add := by
    intro a ha
    rw [LawfulCost.emptySum_add]
    exact Cost.same_self (OrderedCost.comparable_of_le ha).2

end RoadTrip.Binary64
