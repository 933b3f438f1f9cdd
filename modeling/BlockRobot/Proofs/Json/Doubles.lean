import Mathlib.Algebra.Group.Nat.Defs
import BlockRobot.Json.Value

/-!
# Whole numbers as doubles

A whole number of 64 bits is finite as a double. The argument bounds exponents only, and bounds them
generously: they stay far below the largest one, so a mantissa may be shifted by more than it needs.
-/

namespace BlockRobot.Json

open Float.Model (Format UnpackedFloat totalExponent)
open Float.Model.UnpackedFloat

/-! ## Unpacked doubles -/

/-- Neither infinite nor no number, and with an exponent of at most `b`. -/
inductive ExponentLe (b : Int) : UnpackedFloat → Prop where
  | zero {s : Sign} : ExponentLe b (.zero s)
  | finite {s : Sign} {m : Nat} {e : Int} {hm : 0 < m} (exponent : e ≤ b) :
      ExponentLe b (.finite s m e hm)

/-- Likewise, and with a mantissa as short as that of a double. -/
inductive Within (b : Int) : UnpackedFloat → Prop where
  | zero {s : Sign} : Within b (.zero s)
  | finite {s : Sign} {m : Nat} {e : Int} {hm : 0 < m} (mantissa : m < 2 ^ 53) (exponent : e ≤ b) :
      Within b (.finite s m e hm)

theorem ExponentLe.mono {a b : Int} {f : UnpackedFloat} (h : ExponentLe a f) (hab : a ≤ b) :
    ExponentLe b f := by
  cases h with
  | zero => exact .zero
  | finite exponent => exact .finite (Int.le_trans exponent hab)

theorem Within.isFinite {b : Int} {f : UnpackedFloat} (h : Within b f) : f.isFinite = true := by
  cases h <;> rfl

theorem Within.neg {b : Int} {f : UnpackedFloat} (h : Within b f) : ExponentLe b f.neg := by
  cases h with
  | zero => exact .zero
  | finite _ exponent => exact .finite exponent

theorem shifted_le (m : ExtendedMantissa) (n : Nat) : (m >>> n).mantissa ≤ m.mantissa := by
  change (n.repeat ExtendedMantissa.shiftRightOne m).mantissa ≤ m.mantissa
  induction n with
  | zero => exact Nat.le_refl _
  | succ n ih => exact Nat.le_trans (Nat.div_le_self _ 2) ih

theorem roundedMantissa_le (m : ExtendedMantissa) : m.roundedMantissa ≤ m.mantissa + 1 := by
  obtain ⟨m, round, sticky⟩ := m
  have hmod : m % 2 ≤ 1 := Nat.le_of_lt_succ (Nat.mod_lt m (by decide))
  cases round <;> cases sticky <;>
    simp only [ExtendedMantissa.roundedMantissa, ExtendedMantissa.accuracy, Accuracy.roundToNearestEven] <;>
    omega

theorem mantissaBits_eq : Format.binary64.mantissaBits = 53 := rfl

theorem log2_le {m n : Nat} (h : m < 2 ^ (n + 1)) : m.log2 ≤ n := by
  by_cases hm : m = 0
  · simp [hm]
  · exact Nat.le_of_lt_succ ((Nat.log2_lt hm).mpr h)

/-- Shifting to the exponent of the format raises it by no more than the mantissa is long. -/
theorem shift_bounds {m n : Nat} (e : Int) (acc : Accuracy) (h : m < 2 ^ (n + 1)) :
    (shiftToTargetExponent Format.binary64 m e acc).1.mantissa ≤ m ∧
      (shiftToTargetExponent Format.binary64 m e acc).2 ≤ max (e + n) (-1074) := by
  have hlog := log2_le h
  constructor
  · refine Nat.le_trans (shifted_le _ _) ?_
    unfold ExtendedMantissa.ofMantissaAndAccuracy
    split <;> exact Nat.le_refl _
  · simp only [shiftToTargetExponent, shiftToExponent, Format.targetExponent, totalExponent,
      mantissaBits_eq, Format.minExponent]
    omega

theorem exponentLe_round {m n : Nat} {e b : Int} (s : Sign) (acc : Accuracy) (h : m < 2 ^ (n + 1))
    (hb : max (max (e + n) (-1074) + (n + 1)) (-1074) ≤ b) :
    ExponentLe b (roundWithAccuracy Format.binary64 s m e acc) := by
  obtain ⟨hmantissa, hexponent⟩ := shift_bounds e acc h
  unfold roundWithAccuracy
  generalize shiftToTargetExponent Format.binary64 m e acc = first at hmantissa hexponent
  obtain ⟨m₁, e₁⟩ := first
  have hrounded : m₁.roundedMantissa < 2 ^ (n + 1 + 1) := by
    have := roundedMantissa_le m₁
    have : 2 ^ (n + 1 + 1) = 2 ^ (n + 1) + 2 ^ (n + 1) := by omega
    have := Nat.two_pow_pos (n + 1)
    simp only at hmantissa
    omega
  obtain ⟨-, hexponent'⟩ := shift_bounds e₁ .exact hrounded
  dsimp only at hexponent ⊢
  by_cases hzero : (shiftToTargetExponent Format.binary64 m₁.roundedMantissa e₁ .exact).1.mantissa = 0
  · rw [dif_pos hzero]
    exact .zero
  · rw [dif_neg hzero]
    exact .finite (Int.le_trans hexponent' (by omega))

/-- The first bit of a mantissa of full length is not stored, and put back. -/
theorem toNat_append (m : BitVec 52) : (1#1 ++ m).toNat = 2 ^ 52 + m.toNat := by
  rw [BitVec.toNat_append, ← Nat.shiftLeft_add_eq_or_of_lt m.isLt]
  rfl

theorem append_pos (m : BitVec 52) : 0 < (1#1 ++ m).toNat := by
  rw [toNat_append]
  omega

theorem unpack_normal {f : BitVec Format.binary64.numBits} (hones : unpackExponent f ≠ -1#11)
    (hzero : unpackExponent f ≠ 0#11) :
    unpack Format.binary64 f = .finite (.ofBitVec (unpackSign f)) (1#1 ++ unpackMantissa f).toNat
      ((unpackExponent f).toNat - 1075) (append_pos _) := by
  unfold unpack
  rw [if_neg hones]
  exact if_neg hzero

theorem within_unpack {f : BitVec Format.binary64.numBits} {b : Int} (hb : -1074 ≤ b)
    (h : (unpackExponent f).toNat ≤ b + 1075) (hfinite : (unpackExponent f).toNat < 2047) :
    Within b (unpack Format.binary64 f) := by
  have hones : unpackExponent f ≠ -1#11 := fun heq => by
    rw [heq] at hfinite
    exact absurd hfinite (by decide)
  by_cases hzero : unpackExponent f = 0#11
  · unfold unpack
    rw [if_neg hones, if_pos hzero]
    by_cases hmantissa : unpackMantissa f = 0#52
    · rw [dif_pos hmantissa]
      exact .zero
    · rw [dif_neg hmantissa]
      refine .finite (Nat.lt_trans (unpackMantissa f).isLt (by decide)) ?_
      rw [hzero]
      exact hb
  · rw [unpack_normal hones hzero]
    exact .finite (BitVec.isLt _) (by omega)

theorem pack_zero (s : Sign) : pack Format.binary64 (.zero s) = packComponents Format.binary64 s 0 0 := rfl

/-- The exponent is stored beside a mantissa of full length only. -/
theorem pack_finite {m : Nat} {e : Int} {hm : 0 < m} (s : Sign) (he : e ≤ 970) :
    pack Format.binary64 (.finite s m e hm) = packComponents Format.binary64 s
      (if m.log2 = 52 then BitVec.ofNat 11 (e + 1075).toNat else 0#11) (BitVec.ofNat 52 m) := by
  have hbias : (e + Format.binary64.exponentBias + Format.binary64.mantissaBitsWithoutImplicit).toNat =
      (e + 1075).toNat := by
    simp only [Format.exponentBias]
    omega
  have hroom : ¬ 2 ^ Format.binary64.exponentBits ≤ (e + 1075).toNat + 1 := by
    change ¬ 2048 ≤ (e + 1075).toNat + 1
    omega
  unfold pack
  simp only [hbias, if_neg hroom, mantissaBits_eq]
  by_cases h : m.log2 = 52
  · rw [if_pos (by omega), if_pos h]
  · rw [if_neg (by omega), if_neg h]

theorem within_pack {f : UnpackedFloat} {b : Int} (h : ExponentLe b f) (hb : -1074 ≤ b)
    (hb' : b ≤ 970) : Within b (Float.Model.pack f).unpack := by
  change Within b (unpack Format.binary64 (pack Format.binary64 f))
  cases h with
  | zero =>
    rw [pack_zero]
    refine within_unpack hb ?_ ?_ <;> rw [unpackExponent_packComponents]
    · change (0 : Int) ≤ b + 1075
      omega
    · decide
  | @finite s m e hm exponent =>
    have hstored : (if m.log2 = 52 then BitVec.ofNat 11 (e + 1075).toNat else 0#11).toNat ≤ (e + 1075).toNat := by
      split
      · exact Nat.mod_le _ _
      · exact Nat.zero_le _
    rw [pack_finite s (Int.le_trans exponent hb')]
    refine within_unpack hb ?_ ?_ <;> rw [unpackExponent_packComponents] <;> omega

theorem exponentLe_mul {f g : UnpackedFloat} {a b c : Int} (hf : Within a f) (hg : Within b g)
    (hc : max (a + b + 213) (-968) ≤ c) : ExponentLe c (mul Format.binary64 f g) := by
  cases hf with
  | zero => cases hg <;> exact .zero
  | @finite s m e _ hm he =>
    cases hg with
    | zero => exact .zero
    | @finite s' m' e' _ hm' he' =>
      have hproduct : m * m' < 2 ^ (105 + 1) :=
        Nat.lt_of_lt_of_le (Nat.mul_lt_mul'' hm hm') (by decide)
      exact exponentLe_round _ _ hproduct (by omega)

theorem shiftLeft_lt {n k i j : Nat} (h : n < 2 ^ i) (hk : k ≤ j) : n <<< k < 2 ^ (i + j) := by
  rw [Nat.shiftLeft_eq, Nat.pow_add]
  calc n * 2 ^ k < 2 ^ i * 2 ^ k := Nat.mul_lt_mul_of_pos_right h (Nat.two_pow_pos k)
    _ ≤ 2 ^ i * 2 ^ j := Nat.mul_le_mul_left _ (Nat.pow_le_pow_right (by decide) hk)

theorem exponentLe_ofNat {n : Nat} (h : n < 2 ^ 64) : ExponentLe 234 (ofNat Format.binary64 n) := by
  rcases Nat.eq_zero_or_pos n with rfl | hpos
  · exact .zero
  have hcompare : compare (n : Int) 0 = .gt := Int.compare_eq_gt.mpr (by omega)
  simp only [UnpackedFloat.ofNat, UnpackedFloat.ofInt, UnpackedFloat.normalize, hcompare,
    Int.toNat_natCast, UnpackedFloat.round, decreaseExponent]
  generalize hshift : (0 - Format.binary64.targetExponent (totalExponent n 0)).toNat = k
  have hk : k ≤ 52 := by
    simp only [Format.targetExponent, totalExponent, mantissaBits_eq, Format.minExponent] at hshift
    omega
  have hmantissa : n <<< k < 2 ^ (115 + 1) := shiftLeft_lt (j := 52) h hk
  exact exponentLe_round _ _ hmantissa (by omega)

theorem exponentLe_ofScientific {n : Nat} (h : n < 2 ^ 64) :
    ExponentLe 181 (ofScientific Format.binary64 n 0) := by
  unfold ofScientific
  by_cases hzero : n = 0
  · rw [dif_pos hzero]
    exact .zero
  · have hshort : ¬ (0 : Int) < -(2 ^ Format.binary64.exponentBits + n.log2) := by
      change ¬ (0 : Int) < -(2048 + n.log2)
      omega
    rw [dif_neg hzero, if_neg (by decide), if_neg hshort, if_pos (by decide)]
    have hmantissa : n <<< 53 * 10 ^ 0 < 2 ^ (116 + 1) := by
      rw [Nat.pow_zero, Nat.mul_one]
      exact shiftLeft_lt (j := 53) h (Nat.le_refl 53)
    have hround : ExponentLe 181 (roundWithAccuracy Format.binary64 (.positive * .positive)
        (n <<< 53 * 10 ^ 0) (-53 + 0) .exact) := exponentLe_round _ _ hmantissa (by decide)
    exact hround

/-! ## Doubles -/

theorem within_ofNat {n : Nat} (h : n < 2 ^ 64) : Within 395 (Float.ofNat n).toModel.unpack := by
  change Within 395 (Float.ofScientific n false 0).toModel.unpack
  unfold Float.ofScientific
  split
  · -- A short number is converted as it is, and multiplied with one.
    have hn : n.toUInt64.toNat = n := Nat.mod_eq_of_lt h
    have hleft : Within 234 n.toUInt64.toFloat.toModel.unpack :=
      within_pack (by rw [ofUInt64, hn]; exact exponentLe_ofNat h) (by decide) (by decide)
    have hright : Within (-52) (Float.ofBits 0x3FF0000000000000).toModel.unpack :=
      .finite (by decide) (by decide)
    exact within_pack (exponentLe_mul hleft hright (by decide)) (by decide) (by decide)
  · exact within_pack (b := 395) ((exponentLe_ofScientific h).mono (by decide)) (by decide) (by decide)

theorem isFinite_ofInt {n : Int} (h : n.natAbs < 2 ^ 64) : (Float.ofInt n).isFinite = true := by
  cases n with
  | ofNat n => exact (within_ofNat h).isFinite
  | negSucc n => exact (within_pack (within_ofNat h).neg (by decide) (by decide)).isFinite

end BlockRobot.Json
