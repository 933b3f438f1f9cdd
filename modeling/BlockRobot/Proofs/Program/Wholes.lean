import Mathlib.Algebra.Group.Nat.Defs
import Mathlib.Data.Nat.Log
import BlockRobot.Program.Statement
import BlockRobot.Proofs.Json.Doubles

/-!
# Loops of a whole number of rounds

A whole number of at most 53 bits is a double, and so is its difference to a smaller one and its quotient by one:
no step from the bounds of such a loop to its count rounds. So a loop of `n` rounds counts `n`:
`LoopHead.staticCount_times`.
-/

namespace BlockRobot

namespace Whole

open Float.Model (Format UnpackedFloat totalExponent)
open Float.Model.UnpackedFloat
open Json (log2_le mantissaBits_eq pack_finite toNat_append unpack_normal)

/-- A whole number of at most 53 bits as a double, with a mantissa of full length. -/
def double (n : Nat) : UnpackedFloat :=
  if h : n = 0 then .zero .positive
  else .finite .positive (n * 2 ^ (52 - n.log2)) (n.log2 - 52)
    (Nat.mul_pos (Nat.pos_of_ne_zero h) (Nat.two_pow_pos _))

theorem double_of_ne_zero {n : Nat} (h : n ≠ 0) :
    double n = .finite .positive (n * 2 ^ (52 - n.log2)) (n.log2 - 52)
      (Nat.mul_pos (Nat.pos_of_ne_zero h) (Nat.two_pow_pos _)) := dif_neg h

theorem log2_mul_two_pow {n : Nat} (h : n ≠ 0) (k : Nat) : (n * 2 ^ k).log2 = n.log2 + k := by
  induction k with
  | zero => rw [Nat.pow_zero, Nat.mul_one, Nat.add_zero]
  | succ k ih =>
    have hne : n * 2 ^ k ≠ 0 := Nat.mul_ne_zero h (Nat.ne_of_gt (Nat.two_pow_pos k))
    rw [Nat.pow_succ, ← Nat.mul_assoc, Nat.mul_comm, Nat.log2_two_mul hne, ih, Nat.add_assoc]

theorem log2_full {n : Nat} (h : n ≠ 0) (hn : n.log2 ≤ 52) : (n * 2 ^ (52 - n.log2)).log2 = 52 := by
  rw [log2_mul_two_pow h]
  omega

theorem log2_mono {a b : Nat} (h : a ≤ b) : a.log2 ≤ b.log2 := by
  rw [Nat.log2_eq_log_two, Nat.log2_eq_log_two]
  exact Nat.log_mono_right h

/-! ## Rounding -/

theorem shiftRight_exact (m k : Nat) :
    (⟨m * 2 ^ k, false, false⟩ : ExtendedMantissa) >>> k = ⟨m, false, false⟩ := by
  change k.repeat ExtendedMantissa.shiftRightOne ⟨m * 2 ^ k, false, false⟩ = _
  induction k generalizing m with
  | zero => rw [Nat.pow_zero, Nat.mul_one]; rfl
  | succ k ih =>
    rw [Nat.pow_succ', ← Nat.mul_assoc, Nat.repeat, ih]
    simp [ExtendedMantissa.shiftRightOne]

theorem targetExponent_eq {n k : Nat} (h : n ≠ 0) :
    Format.binary64.targetExponent (totalExponent (n * 2 ^ k) (-k)) = n.log2 - 52 := by
  simp only [Format.targetExponent, totalExponent, log2_mul_two_pow h, mantissaBits_eq, Format.minExponent]
  omega

theorem shiftToTargetExponent_exact {n k : Nat} (h : n ≠ 0) (hn : n.log2 ≤ 52) (hk : 52 ≤ n.log2 + k) :
    shiftToTargetExponent Format.binary64 (n * 2 ^ k) (-k) .exact =
      ((⟨n * 2 ^ (52 - n.log2), false, false⟩ : ExtendedMantissa), (n.log2 - 52 : Int)) := by
  obtain ⟨j, rfl⟩ : ∃ j, k = 52 - n.log2 + j := ⟨n.log2 + k - 52, by omega⟩
  have hshift : ((n.log2 - 52 : Int) - -((52 - n.log2 + j : Nat) : Int)).toNat = j := by omega
  rw [shiftToTargetExponent, targetExponent_eq h, shiftToExponent, hshift, Nat.pow_add, ← Nat.mul_assoc]
  simp only [ExtendedMantissa.ofMantissaAndAccuracy, shiftRight_exact, Prod.mk.injEq, true_and]
  omega

theorem roundWithAccuracy_exact {n k : Nat} (h : n ≠ 0) (hn : n.log2 ≤ 52) (hk : 52 ≤ n.log2 + k) :
    roundWithAccuracy Format.binary64 .positive (n * 2 ^ k) (-k) .exact = double n := by
  have hfull : (n.log2 - 52 : Int) = -((52 - n.log2 : Nat) : Int) := by omega
  have hpos : n * 2 ^ (52 - n.log2) ≠ 0 := Nat.mul_ne_zero h (Nat.ne_of_gt (Nat.two_pow_pos _))
  have hrounded : (⟨n * 2 ^ (52 - n.log2), false, false⟩ : ExtendedMantissa).roundedMantissa =
      n * 2 ^ (52 - n.log2) := rfl
  -- The mantissa is full after the first shift, so the second one shifts nothing.
  have hagain := shiftToTargetExponent_exact h hn (k := 52 - n.log2) (by omega)
  rw [← hfull] at hagain
  rw [double_of_ne_zero h]
  unfold roundWithAccuracy
  rw [shiftToTargetExponent_exact h hn hk]
  dsimp only
  rw [hrounded, hagain]
  exact dif_neg hpos

theorem round_exact {n : Nat} (h : n ≠ 0) (hn : n.log2 ≤ 52) (k : Nat) :
    UnpackedFloat.round Format.binary64 .positive (n * 2 ^ k) (-k) = double n := by
  have hexponent (d : Nat) : (-(k : Int) - d) = -((k + d : Nat) : Int) := by omega
  rw [UnpackedFloat.round, targetExponent_eq h, decreaseExponent]
  simp only [Nat.shiftLeft_eq, Nat.mul_assoc, ← Nat.pow_add, hexponent]
  exact roundWithAccuracy_exact h hn (by omega)

theorem normalize_exact {n : Nat} (h : n < 2 ^ 53) (k : Nat) :
    UnpackedFloat.normalize Format.binary64 (n * 2 ^ k : Nat) (-k) .positive = double n := by
  by_cases hn : n = 0
  · subst hn
    rw [Nat.zero_mul]
    rfl
  have hpos : compare ((n * 2 ^ k : Nat) : Int) 0 = .gt := by
    rw [Int.compare_eq_gt]
    exact Int.natCast_pos.mpr (Nat.mul_pos (Nat.pos_of_ne_zero hn) (Nat.two_pow_pos k))
  rw [UnpackedFloat.normalize, hpos]
  exact round_exact hn (log2_le h) k

/-! ## Packing -/

theorem unpackSign_packComponents (e : BitVec 11) (m : BitVec 52) :
    unpackSign (packComponents Format.binary64 .positive e m) = 0#1 := by
  have hbit : (0#1 ++ e ++ m).getLsbD 63 = false := by
    rw [BitVec.getLsbD_append, BitVec.getLsbD_append]
    rfl
  refine BitVec.eq_of_getLsbD_eq fun i hi => ?_
  obtain rfl : i = 0 := by omega
  unfold unpackSign
  rw [BitVec.getLsbD_cast, BitVec.getLsbD_extractLsb]
  exact hbit

theorem toNat_append_ofNat {m : Nat} (hm : m.log2 = 52) : (1#1 ++ BitVec.ofNat 52 m).toNat = m := by
  have hne : m ≠ 0 := by
    rintro rfl
    cases hm
  have hlow : 2 ^ 52 ≤ m := by
    rw [← hm]
    exact Nat.log2_self_le hne
  have hhigh : m < 2 ^ 53 := (Nat.log2_lt hne).mp (by omega)
  rw [toNat_append, BitVec.toNat_ofNat]
  omega

theorem toNat_storedExponent {l : Nat} (h : l ≤ 52) : (BitVec.ofNat 11 (l + 1023)).toNat = l + 1023 :=
  Nat.mod_eq_of_lt (by omega)

/-- The exponent of such a double is neither that of an infinity nor that of a zero. -/
theorem storedExponent_ne {l : Nat} (h : l ≤ 52) :
    BitVec.ofNat 11 (l + 1023) ≠ -1#11 ∧ BitVec.ofNat 11 (l + 1023) ≠ 0#11 := by
  constructor
  · intro heq
    have hones : l + 1023 = 2047 := (toNat_storedExponent h).symm.trans (congrArg BitVec.toNat heq)
    omega
  · intro heq
    have hzeros : l + 1023 = 0 := (toNat_storedExponent h).symm.trans (congrArg BitVec.toNat heq)
    omega

theorem pack_double {n : Nat} (h : n ≠ 0) (hn : n.log2 ≤ 52) :
    pack Format.binary64 (double n) = packComponents Format.binary64 .positive
      (BitVec.ofNat 11 (n.log2 + 1023)) (BitVec.ofNat 52 (n * 2 ^ (52 - n.log2))) := by
  have hbiased : ((n.log2 - 52 : Int) + 1075).toNat = n.log2 + 1023 := by omega
  rw [double_of_ne_zero h, pack_finite _ (by omega), if_pos (log2_full h hn), hbiased]

theorem unpack_pack_double {n : Nat} (h : n < 2 ^ 53) : (Float.Model.pack (double n)).unpack = double n := by
  by_cases hn : n = 0
  · subst hn
    rfl
  have hlog : n.log2 ≤ 52 := log2_le h
  obtain ⟨hones, hzero⟩ := storedExponent_ne hlog
  change unpack Format.binary64 (pack Format.binary64 (double n)) = double n
  rw [pack_double hn hlog, unpack_normal (by rwa [unpackExponent_packComponents])
    (by rwa [unpackExponent_packComponents]), double_of_ne_zero hn, finite.injEq, unpackSign_packComponents,
    unpackMantissa_packComponents, unpackExponent_packComponents, toNat_append_ofNat (log2_full hn hlog),
    toNat_storedExponent hlog]
  exact ⟨rfl, rfl, by omega⟩

/-! ## Operations -/

section Finite

variable {m₁ m₂ : Nat} {e₁ e₂ : Int} {h₁ : 0 < m₁} {h₂ : 0 < m₂}

theorem sub_finite : sub Format.binary64 (.finite .positive m₁ e₁ h₁) (.finite .positive m₂ e₂ h₂) =
    normalize Format.binary64
      (((decreaseExponent m₁ e₁ (min e₁ e₂)).1 : Int) - (decreaseExponent m₂ e₂ (min e₁ e₂)).1)
      (min e₁ e₂) .positive := rfl

theorem div_finite : div Format.binary64 (.finite .positive m₁ e₁ h₁) (.finite .positive m₂ e₂ h₂) =
    let (m, e, acc) := divCore Format.binary64 m₁ e₁ m₂ e₂
    roundWithAccuracy Format.binary64 .positive m e acc := rfl

theorem lt_finite : UnpackedFloat.lt (.finite .positive m₁ e₁ h₁) (.finite .positive m₂ e₂ h₂) =
    (some ((compare e₁ e₂).then (compare m₁ m₂)) == some .lt) := rfl

end Finite

theorem double_one : double 1 = .finite .positive (2 ^ 52) (-52) (Nat.two_pow_pos 52) := rfl

theorem ofNat_eq_double {n : Nat} (h : n < 2 ^ 53) : ofNat Format.binary64 n = double n := by
  have hround := normalize_exact h 0
  rw [Nat.pow_zero, Nat.mul_one] at hround
  exact hround

theorem mul_double_one {n : Nat} (h : n < 2 ^ 53) : mul Format.binary64 (double n) (double 1) = double n := by
  by_cases hn : n = 0
  · subst hn
    rfl
  have hlog : n.log2 ≤ 52 := log2_le h
  have hexponent : (n.log2 - 52 : Int) + -52 = -((52 - n.log2 + 52 : Nat) : Int) := by omega
  have hround := roundWithAccuracy_exact hn hlog (k := 52 - n.log2 + 52) (by omega)
  rw [← hexponent, Nat.pow_add, ← Nat.mul_assoc] at hround
  rw [double_of_ne_zero hn, double_one]
  exact hround.trans (double_of_ne_zero hn)

theorem divCore_one {n : Nat} (h : n ≠ 0) (hn : n.log2 ≤ 52) :
    divCore Format.binary64 (n * 2 ^ (52 - n.log2)) (n.log2 - 52) (2 ^ 52) (-52) =
      (n * 2 ^ (53 - n.log2), (-(53 - n.log2 : Nat) : Int), .exact) := by
  have htotal : totalExponent (n * 2 ^ (52 - n.log2)) (n.log2 - 52) - totalExponent (2 ^ 52) (-52) = n.log2 := by
    rw [totalExponent, totalExponent, log2_mul_two_pow h, Nat.log2_two_pow]
    omega
  have htarget : min ((n.log2 - 52 : Int) - -52) (Format.binary64.targetExponent n.log2) =
      -(53 - n.log2 : Nat) := by
    simp only [Format.targetExponent, mantissaBits_eq, Format.minExponent]
    omega
  have hshift : ((n.log2 - 52 : Int) - -52 - -(53 - n.log2 : Nat)).toNat = 53 := by omega
  have hscaled : (n * 2 ^ (52 - n.log2)) <<< 53 = n * 2 ^ (53 - n.log2) * 2 ^ 52 := by
    rw [Nat.shiftLeft_eq, Nat.mul_assoc, Nat.mul_assoc, ← Nat.pow_add, ← Nat.pow_add]
    congr 2
    omega
  simp only [divCore, htotal, htarget, hshift, hscaled]
  rw [Nat.mul_div_cancel _ (Nat.two_pow_pos 52), Nat.mul_mod_left]
  rfl

theorem div_double_one {n : Nat} (h : n < 2 ^ 53) : div Format.binary64 (double n) (double 1) = double n := by
  by_cases hn : n = 0
  · subst hn
    rfl
  have hlog : n.log2 ≤ 52 := log2_le h
  rw [double_of_ne_zero hn, double_one, div_finite, divCore_one hn hlog]
  exact (roundWithAccuracy_exact hn hlog (by omega)).trans (double_of_ne_zero hn)

theorem decreaseExponent_double {n l : Nat} (hn : n.log2 ≤ 52) (hl : l ≤ n.log2) :
    decreaseExponent (n * 2 ^ (52 - n.log2)) (n.log2 - 52) (l - 52) =
      (n * 2 ^ (52 - l), (-(52 - l : Nat) : Int)) := by
  have hshift : ((n.log2 - 52 : Int) - (l - 52)).toNat = n.log2 - l := by omega
  have hbits : 52 - n.log2 + (n.log2 - l) = 52 - l := by omega
  rw [decreaseExponent, hshift, Nat.shiftLeft_eq, Nat.mul_assoc, ← Nat.pow_add, hbits]
  refine Prod.ext rfl ?_
  change (n.log2 - 52 : Int) - (n.log2 - l : Nat) = _
  omega

theorem sub_double {a b : Nat} (h : a < 2 ^ 53) (hle : b ≤ a) :
    sub Format.binary64 (double a) (double b) = double (a - b) := by
  by_cases hb : b = 0
  · subst hb
    by_cases ha : a = 0
    · subst ha
      rfl
    · rw [double_of_ne_zero ha]
      exact (double_of_ne_zero ha).symm
  have ha : a ≠ 0 := by omega
  have hlog : a.log2 ≤ 52 := log2_le h
  have hmono := log2_mono hle
  have hmin : min (a.log2 - 52 : Int) (b.log2 - 52) = b.log2 - 52 := by omega
  have hb' : b.log2 ≤ 52 := hmono.trans hlog
  have hdiff : ((a * 2 ^ (52 - b.log2) : Nat) : Int) - (b * 2 ^ (52 - b.log2) : Nat) =
      ((a - b) * 2 ^ (52 - b.log2) : Nat) := by
    rw [Nat.sub_mul]
    exact (Int.ofNat_sub (Nat.mul_le_mul_right _ hle)).symm
  rw [double_of_ne_zero ha, double_of_ne_zero hb, sub_finite, hmin, decreaseExponent_double hlog hmono,
    decreaseExponent_double hb' (le_refl _), hdiff]
  have hexponent : (b.log2 - 52 : Int) = -(52 - b.log2 : Nat) := by omega
  rw [hexponent]
  exact normalize_exact (Nat.lt_of_le_of_lt (Nat.sub_le a b) h) _

theorem toInt_double {n : Nat} (h : n < 2 ^ 53) (low high : Int) : (double n).toInt low high = n := by
  by_cases hn : n = 0
  · subst hn
    rfl
  have hlog : n.log2 ≤ 52 := log2_le h
  have hleft : ((n.log2 - 52 : Int) - 0).toNat = 0 := by omega
  have hright : (0 - ((n.log2 - 52 : Int) - (0 : Nat))).toNat = 52 - n.log2 := by omega
  rw [double_of_ne_zero hn]
  change roundToInt .positive (n * 2 ^ (52 - n.log2)) (n.log2 - 52) = n
  rw [roundToInt]
  simp only [decreaseExponent, hleft, shiftToExponent, hright, ExtendedMantissa.ofMantissaAndAccuracy,
    Nat.shiftLeft_zero, shiftRight_exact]
  rfl

theorem toUInt64_double {n : Nat} (h : n < 2 ^ 53) : (double n).toUInt64.toNat = n := by
  rw [toUInt64, toInt_double h, Int.toNat_natCast, UInt64.ofNatClamp, dif_pos (h.trans (by decide))]
  rfl

theorem lt_double {a b : Nat} : (double a).lt (double b) = decide (a < b) := by
  by_cases ha : a = 0
  · subst ha
    by_cases hb : b = 0
    · subst hb
      rfl
    · rw [double_of_ne_zero hb, decide_eq_true (Nat.pos_of_ne_zero hb)]
      rfl
  · by_cases hb : b = 0
    · subst hb
      rw [double_of_ne_zero ha, decide_eq_false (Nat.not_lt_zero a)]
      rfl
    · rw [double_of_ne_zero ha, double_of_ne_zero hb, lt_finite]
      rcases Nat.lt_trichotomy a.log2 b.log2 with hlt | heq | hgt
      · have hexponent : compare (a.log2 - 52 : Int) (b.log2 - 52) = .lt := by
          rw [Int.compare_eq_lt]
          omega
        have hab : a < b := Nat.lt_of_not_le fun hle => absurd (log2_mono hle) (Nat.not_le.mpr hlt)
        rw [hexponent, decide_eq_true hab]
        rfl
      · have hmantissa : compare (a * 2 ^ (52 - b.log2)) (b * 2 ^ (52 - b.log2)) = .lt ↔ a < b := by
          rw [Nat.compare_eq_lt, Nat.mul_lt_mul_right (Nat.two_pow_pos _)]
        have hexponent : compare (b.log2 - 52 : Int) (b.log2 - 52) = .eq := Std.ReflCmp.compare_self
        rw [heq, hexponent, Ordering.then, Bool.eq_iff_iff, beq_iff_eq, Option.some_inj, hmantissa,
          decide_eq_true_iff]
      · have hexponent : compare (a.log2 - 52 : Int) (b.log2 - 52) = .gt := by
          rw [Int.compare_eq_gt]
          omega
        have hab : ¬ a < b := fun hlt => absurd (log2_mono hlt.le) (Nat.not_le.mpr hgt)
        rw [hexponent, decide_eq_false hab]
        rfl

/-! ## Floats -/

def float (n : Nat) : Float := .ofModel (.pack (double n))

theorem unpack_float {n : Nat} (h : n < 2 ^ 53) : (float n).toModel.unpack = double n := unpack_pack_double h

theorem float_one : Float.ofBits 0x3FF0000000000000 = float 1 := by decide +kernel

theorem ofNat_eq_float {n : Nat} (h : n < 2 ^ 53) : Float.ofNat n = float n := by
  have hsize : n.toUInt64.toNat = n := Nat.mod_eq_of_lt (Nat.lt_trans h (by decide))
  have hwhole : n.toUInt64.toFloat = float n := by
    change Float.ofModel (.pack (ofNat Format.binary64 n.toUInt64.toNat)) = _
    rw [hsize, ofNat_eq_double h]
    rfl
  have hscaled : Float.ofNat n = n.toUInt64.toFloat * Float.ofBits 0x3FF0000000000000 :=
    dif_pos ⟨h, Nat.zero_le 22⟩
  rw [hscaled, hwhole, float_one]
  change Float.ofModel (.pack (mul Format.binary64 (float n).toModel.unpack (float 1).toModel.unpack)) = _
  rw [unpack_float h, unpack_float (by decide), mul_double_one h]
  rfl

theorem sub_float {a b : Nat} (h : a < 2 ^ 53) (hle : b ≤ a) : float a - float b = float (a - b) := by
  change Float.ofModel (.pack (sub Format.binary64 (float a).toModel.unpack (float b).toModel.unpack)) = _
  rw [unpack_float h, unpack_float (Nat.lt_of_le_of_lt hle h), sub_double h hle]
  rfl

theorem div_float_one {n : Nat} (h : n < 2 ^ 53) : float n / float 1 = float n := by
  change Float.ofModel (.pack (div Format.binary64 (float n).toModel.unpack (float 1).toModel.unpack)) = _
  rw [unpack_float h, unpack_float (by decide), div_double_one h]
  rfl

theorem toUInt64_float {n : Nat} (h : n < 2 ^ 53) : (float n).toUInt64.toNat = n := by
  change (float n).toModel.unpack.toUInt64.toNat = n
  rw [unpack_float h, toUInt64_double h]

theorem less_float {a b : Nat} (ha : a < 2 ^ 53) (hb : b < 2 ^ 53) :
    Scalar.less (float a) (float b) = decide (a < b) := by
  change decide (decide ((float a).toModel.unpack.lt (float b).toModel.unpack = true) = true) = _
  rw [Bool.decide_eq_true, Bool.decide_eq_true, unpack_float ha, unpack_float hb, lt_double]

end Whole

open Whole

/-- A loop of a whole number of rounds counts them, on doubles as well, as long as all of them are doubles. -/
theorem LoopHead.staticCount_times {n : Nat} (h : n < 2 ^ 53) : (LoopHead.times n).staticCount = some n := by
  have hstep : (Scalar.isZero (Scalar.ofNat 1 : Float) || !Scalar.isFinite (Scalar.ofNat 1 : Float)) = false := by
    decide +kernel
  have hone : (Scalar.ofNat 1 : Float) = float 1 := ofNat_eq_float (by decide)
  have hzero : (Scalar.ofNat 0 : Float) = float 0 := ofNat_eq_float (by decide)
  have hlast : (Scalar.ofNat n : Float) = float n := ofNat_eq_float h
  have hup : Scalar.less (float 0) (float 1) = true := less_float (by decide) (by decide)
  have hdown : Scalar.less (float 1) (float 0) = false := less_float (by decide) (by decide)
  have hempty : Scalar.less (float n) (float 1) = decide (n < 1) := less_float h (by decide)
  change (Span.times n : Span Float).count = some n
  rw [Span.count, Span.times]
  simp only [hstep]
  simp only [hone, hzero, hlast, hup, hdown, hempty, Bool.true_and, Bool.false_and, Bool.or_false, decide_eq_true_eq,
    Bool.false_eq_true, if_false]
  rcases Nat.eq_zero_or_pos n with rfl | hpos
  · rfl
  · have hway : Scalar.whole ((float n - float 1) / float 1) = n - 1 := by
      rw [sub_float h hpos, div_float_one (by omega)]
      exact toUInt64_float (by omega)
    rw [if_neg (by omega), hway, Nat.sub_add_cancel hpos, Nat.min_eq_left (h.le.trans (by decide))]

end BlockRobot
