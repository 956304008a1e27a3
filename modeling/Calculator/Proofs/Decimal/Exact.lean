import Calculator.Number
import Mathlib

/-!
# Decimals that are doubles

A decimal stands for a rational number. If that is a double, then nothing is lost when the decimal
is turned into one: a positive power of ten makes the significand longer, a negative one divides it
with nothing left over, and in either case rounding only takes off zeros at the end.
-/

namespace Calculator

open Float.Model Float.Model.UnpackedFloat

variable {m n : Nat} {e e' : Int} {d : Decimal}

namespace Decimal

/-! ### Values -/

/-- The number that a decimal stands for. -/
def toRat (d : Decimal) : ℚ :=
  d.digits * 10 ^ d.exponent

@[simp] lemma toRat_trim (d : Decimal) : d.trim.toRat = d.toRat := by
  fun_induction trim d with
  | case1 d h => simp [toRat, h]
  | case2 d h h10 ih =>
    have hdigits : (d.digits : ℚ) = (d.digits / 10 : Nat) * 10 := by
      exact_mod_cast (Nat.div_mul_cancel (Nat.dvd_of_mod_eq_zero h10)).symm
    rw [ih, toRat, toRat, hdigits, zpow_add_one₀ (by norm_num)]
    ring
  | case3 d h h10 => rfl

/-- Written out in decimal a number stays the same. -/
lemma toRat_ofBinary (m : Nat) (e : Int) : (ofBinary m e).toRat = m * 2 ^ e := by
  cases e with
  | ofNat k => simp [ofBinary, toRat]
  | negSucc k =>
    have hten : (10 : ℚ) ^ (k + 1) = 2 ^ (k + 1) * 5 ^ (k + 1) := by
      rw [← mul_pow]
      norm_num
    simp only [ofBinary, toRat, Nat.pow_eq, Nat.cast_mul, Nat.cast_pow, zpow_negSucc, hten]
    push_cast
    field_simp

end Decimal

/-! ### Rounding -/

/-- A significand and an exponent that a double is kept with: the significand has 53 bits, or fewer
and the exponent is the least one. -/
def IsCanonical (m : Nat) (e : Int) : Prop :=
  Format.binary64.targetExponent (totalExponent m e) = e

lemma targetExponent_eq (m : Nat) (e : Int) :
    Format.binary64.targetExponent (totalExponent m e) = max (m.log2 + e - 52) (-1074) := by
  simp only [Format.targetExponent, totalExponent, Format.mantissaBits, Format.minExponent]
  norm_num
  omega

lemma isCanonical_iff : IsCanonical m e ↔ max (m.log2 + e - 52) (-1074) = e := by
  rw [IsCanonical, targetExponent_eq]

/-- Zeros at the end of a significand are shifted off without a trace. -/
lemma shiftRight_mul_two_pow (m k : Nat) :
    (⟨m * 2 ^ k, false, false⟩ : ExtendedMantissa) >>> k = ⟨m, false, false⟩ := by
  induction k generalizing m with
  | zero => simp [HShiftRight.hShiftRight, Nat.repeat]
  | succ k ih =>
    have hshift : (⟨m * 2 ^ (k + 1), false, false⟩ : ExtendedMantissa) >>> (k + 1) =
        ((⟨m * 2 * 2 ^ k, false, false⟩ : ExtendedMantissa) >>> k).shiftRightOne := by
      rw [mul_assoc, ← pow_succ']
      rfl
    rw [hshift, ih]
    simp [ExtendedMantissa.shiftRightOne]

lemma log2_mul_two_pow (hm : 0 < m) (k : Nat) : (m * 2 ^ k).log2 = m.log2 + k := by
  induction k with
  | zero => simp
  | succ k ih =>
    have hne : m * 2 ^ k ≠ 0 := (Nat.mul_pos hm (Nat.two_pow_pos k)).ne'
    rw [pow_succ', mul_left_comm, Nat.log2_two_mul hne, ih, Nat.add_assoc]

lemma shiftToTargetExponent_mul_two_pow (hm : 0 < m) (h : IsCanonical m e) (hle : e' ≤ e) :
    shiftToTargetExponent Format.binary64 (m * 2 ^ (e - e').toNat) e' .exact =
      (⟨m, false, false⟩, e) := by
  have htarget : Format.binary64.targetExponent
      (totalExponent (m * 2 ^ (e - e').toNat) e') = e := by
    rw [isCanonical_iff] at h
    rw [targetExponent_eq, log2_mul_two_pow hm]
    omega
  rw [shiftToTargetExponent, htarget, shiftToExponent]
  simp only [ExtendedMantissa.ofMantissaAndAccuracy, shiftRight_mul_two_pow, Prod.mk.injEq,
    true_and]
  omega

/-- Rounding keeps a double, whatever its exponent was lowered to. -/
theorem roundWithAccuracy_eq (s : Sign) (hm : 0 < m) (h : IsCanonical m e) (hle : e' ≤ e) :
    roundWithAccuracy Format.binary64 s (m * 2 ^ (e - e').toNat) e' .exact =
      .finite s m e hm := by
  have hsecond := shiftToTargetExponent_mul_two_pow hm h le_rfl
  rw [sub_self, Int.toNat_zero, pow_zero, mul_one] at hsecond
  rw [roundWithAccuracy, shiftToTargetExponent_mul_two_pow hm h hle]
  simp only [ExtendedMantissa.roundedMantissa, ExtendedMantissa.accuracy,
    Accuracy.roundToNearestEven, hsecond, hm.ne', ↓reduceDIte]

/-! ### Reading -/

lemma lt_two_zpow_log2 (m : Nat) (e : Int) : (m : ℚ) * 2 ^ e < 2 ^ (m.log2 + 1 + e) := by
  have hm : (m : ℚ) < 2 ^ (m.log2 + 1) := by exact_mod_cast Nat.lt_log2_self
  rw [zpow_add₀ (by norm_num)]
  have := mul_lt_mul_of_pos_right hm (zpow_pos (a := (2 : ℚ)) (by norm_num) e)
  exact_mod_cast this

lemma two_zpow_log2_le (hm : 0 < m) (e : Int) : (2 : ℚ) ^ (m.log2 + e) ≤ m * 2 ^ e := by
  have hm : (2 : ℚ) ^ m.log2 ≤ m := by exact_mod_cast Nat.log2_self_le hm.ne'
  rw [zpow_add₀ (by norm_num)]
  have := mul_le_mul_of_nonneg_right hm (zpow_pos (a := (2 : ℚ)) (by norm_num) e).le
  exact_mod_cast this

lemma eq_mul_two_pow (hle : e' ≤ e) (h : (n : ℚ) * 2 ^ e' = m * 2 ^ e) :
    n = m * 2 ^ (e - e').toNat := by
  have hsplit : (2 : ℚ) ^ e = 2 ^ (e - e').toNat * 2 ^ e' := by
    rw [← zpow_natCast, ← zpow_add₀ (by norm_num)]
    congr 1
    omega
  rw [hsplit, ← mul_assoc] at h
  have := mul_right_cancel₀ (zpow_ne_zero e' (by norm_num)) h
  exact_mod_cast this

namespace Decimal

lemma two_zpow_le_toRat (hd : 0 < d.digits) (he : 0 ≤ d.exponent) :
    (2 : ℚ) ^ d.exponent ≤ d.toRat := by
  obtain ⟨k, hk⟩ := Int.eq_ofNat_of_zero_le he
  have hdigits : (1 : ℚ) ≤ d.digits := by exact_mod_cast hd
  have hpow : (2 : ℚ) ^ k ≤ 10 ^ k := pow_le_pow_left₀ (by norm_num) (by norm_num) k
  rw [toRat, hk, zpow_natCast, zpow_natCast]
  exact hpow.trans (le_mul_of_one_le_left (by positivity) hdigits)

lemma toRat_lt_two_zpow (he : d.exponent ≤ 0) : d.toRat < 2 ^ (d.digits.log2 + 1 + d.exponent) := by
  obtain ⟨k, hk⟩ := Int.eq_ofNat_of_zero_le (Int.neg_nonneg.2 he)
  obtain hk : d.exponent = -k := by omega
  have hpow : ((10 : ℚ) ^ k)⁻¹ ≤ (2 ^ k)⁻¹ :=
    inv_anti₀ (by positivity) (pow_le_pow_left₀ (by norm_num) (by norm_num) k)
  have hpow : (10 : ℚ) ^ d.exponent ≤ 2 ^ d.exponent := by
    rwa [hk, zpow_neg, zpow_neg, zpow_natCast, zpow_natCast]
  exact (mul_le_mul_of_nonneg_left hpow (Nat.cast_nonneg _)).trans_lt (lt_two_zpow_log2 _ _)

/-- A positive power of ten is multiplied in. -/
lemma mul_eq (hm : 0 < m) (h : IsCanonical m e) (hD : 0 < d.digits) (hE : 0 ≤ d.exponent)
    (hd : d.toRat = m * 2 ^ e) :
    roundWithAccuracy Format.binary64 .positive (d.digits <<< 53 * 10 ^ d.exponent.toNat) (-53)
      .exact = .finite .positive m e hm := by
  have hone : (2 : ℚ) ^ (0 : Int) < 2 ^ (m.log2 + 1 + e) :=
    calc (2 : ℚ) ^ (0 : Int) ≤ 2 ^ d.exponent := zpow_le_zpow_right₀ (by norm_num) hE
      _ ≤ d.toRat := two_zpow_le_toRat hD hE
      _ = m * 2 ^ e := hd
      _ < 2 ^ (m.log2 + 1 + e) := lt_two_zpow_log2 m e
  have hlog := (zpow_lt_zpow_iff_right₀ (by norm_num)).1 hone
  have hle : -53 ≤ e := by
    rw [isCanonical_iff] at h
    omega
  have hscaled : d.digits <<< 53 * 10 ^ d.exponent.toNat = m * 2 ^ (e - -53).toNat := by
    apply eq_mul_two_pow hle
    rw [← hd, toRat, Nat.shiftLeft_eq]
    obtain ⟨k, hk⟩ := Int.eq_ofNat_of_zero_le hE
    rw [hk]
    push_cast
    simp only [Int.toNat_natCast, zpow_natCast]
    field_simp
    norm_num
  rw [hscaled]
  exact roundWithAccuracy_eq .positive hm h hle

end Decimal

lemma log2_lt_of_eq {D T : Nat} (hD : 0 < D) (h : (D : ℚ) = m * 2 ^ e * T) :
    (D.log2 : Int) < m.log2 + 1 + e + (T.log2 + 1) := by
  refine (zpow_lt_zpow_iff_right₀ (a := (2 : ℚ)) (by norm_num)).1 ?_
  have hT : (T : ℚ) < 2 ^ ((T.log2 : Int) + 1) := by exact_mod_cast Nat.lt_log2_self
  calc (2 : ℚ) ^ (D.log2 : Int) ≤ D := by exact_mod_cast Nat.log2_self_le hD.ne'
    _ = m * 2 ^ e * T := h
    _ < 2 ^ (m.log2 + 1 + e) * 2 ^ ((T.log2 : Int) + 1) :=
      mul_lt_mul'' (lt_two_zpow_log2 m e) hT (by positivity) (by positivity)
    _ = 2 ^ (m.log2 + 1 + e + (T.log2 + 1)) := (zpow_add₀ (by norm_num) _ _).symm

/-- If the quotient is a double, then enough bits of it are computed, and nothing is left over. -/
lemma divCore_eq {D T : Nat} (h : IsCanonical m e) (hD : 0 < D) (hT : 0 < T)
    (hquotient : (D : ℚ) = m * 2 ^ e * T) :
    ∃ t ≤ e, divCore Format.binary64 D 0 T 0 = (m * 2 ^ (e - t).toNat, t, .exact) := by
  have hlog := log2_lt_of_eq hD hquotient
  rw [isCanonical_iff] at h
  rw [divCore]
  -- the quotient is computed to the exponent `t`, which is low enough for it to be exact
  generalize ht : min (0 - 0) (Format.binary64.targetExponent
    (totalExponent D 0 - totalExponent T 0)) = t
  obtain ⟨hle, hzero⟩ : t ≤ e ∧ t ≤ 0 := by
    simp only [totalExponent, Format.targetExponent, Format.mantissaBits, Format.minExponent] at ht
    norm_num at ht
    omega
  have hshifted : D <<< (0 - 0 - t).toNat = m * 2 ^ (e - t).toNat * T := by
    obtain ⟨k, hk⟩ := Int.eq_ofNat_of_zero_le (a := -t) (by omega)
    rw [mul_right_comm]
    apply eq_mul_two_pow hle
    obtain rfl : t = -k := by omega
    have hcancel : (2 : ℚ) ^ k * 2 ^ (-(k : Int)) = 1 := by
      rw [zpow_neg, zpow_natCast, mul_inv_cancel₀ (by positivity)]
    rw [show (0 - 0 - -(k : Int)).toNat = k by omega, Nat.shiftLeft_eq]
    push_cast
    rw [mul_assoc, hcancel, mul_one, hquotient]
    ring
  refine ⟨t, hle, ?_⟩
  simp only [hshifted, Nat.mul_div_cancel _ hT, Nat.mul_mod_left, accuracyOfFraction, if_true]

namespace Decimal

lemma digits_eq (he : d.exponent ≤ 0) :
    (d.digits : ℚ) = d.toRat * (10 ^ (-d.exponent).toNat : Nat) := by
  obtain ⟨k, hk⟩ := Int.eq_ofNat_of_zero_le (Int.neg_nonneg.2 he)
  obtain hk' : d.exponent = -k := by omega
  rw [toRat, hk', neg_neg, Int.toNat_natCast, zpow_neg, zpow_natCast]
  push_cast
  field_simp

lemma digits_pos (hm : 0 < m) (hd : d.toRat = m * 2 ^ e) : 0 < d.digits := by
  by_contra hD
  have hzero : d.toRat = 0 := by simp [toRat, Nat.eq_zero_of_not_pos hD]
  have hpos : (0 : ℚ) < m * 2 ^ e := by positivity
  rw [← hd, hzero] at hpos
  exact hpos.false

/-- The power of ten is not so large that no double can come of it. -/
lemma exponent_le (hm : 0 < m) (h : IsCanonical m e) (he : e ≤ 971) (hd : d.toRat = m * 2 ^ e) :
    d.exponent ≤ 2 ^ 11 := by
  rw [isCanonical_iff] at h
  by_contra hE
  have hlt : (2 : ℚ) ^ d.exponent < 2 ^ (m.log2 + 1 + e) :=
    calc (2 : ℚ) ^ d.exponent ≤ d.toRat := two_zpow_le_toRat (digits_pos hm hd) (by omega)
      _ = m * 2 ^ e := hd
      _ < 2 ^ (m.log2 + 1 + e) := lt_two_zpow_log2 m e
  have := (zpow_lt_zpow_iff_right₀ (by norm_num)).1 hlt
  omega

/-- The power of ten is not so small that no double but zero can come of it. -/
lemma le_exponent (hm : 0 < m) (h : IsCanonical m e) (hd : d.toRat = m * 2 ^ e) :
    -(2 ^ 11 + d.digits.log2) ≤ d.exponent := by
  rw [isCanonical_iff] at h
  by_contra hE
  have hlt : (2 : ℚ) ^ (m.log2 + e) < 2 ^ (d.digits.log2 + 1 + d.exponent) :=
    calc (2 : ℚ) ^ (m.log2 + e) ≤ m * 2 ^ e := two_zpow_log2_le hm e
      _ = d.toRat := hd.symm
      _ < 2 ^ (d.digits.log2 + 1 + d.exponent) := toRat_lt_two_zpow (by omega)
  have := (zpow_lt_zpow_iff_right₀ (by norm_num)).1 hlt
  omega

/-- A decimal whose value is a double is read as that double. -/
theorem ofScientific_eq (hm : 0 < m) (h : IsCanonical m e) (he : e ≤ 971)
    (hd : d.toRat = m * 2 ^ e) :
    UnpackedFloat.ofScientific Format.binary64 d.digits d.exponent = .finite .positive m e hm := by
  have hD := digits_pos hm hd
  rw [UnpackedFloat.ofScientific, dif_neg hD.ne', if_neg (exponent_le hm h he hd).not_gt,
    if_neg (le_exponent hm h hd).not_gt]
  split
  · next hE => exact mul_eq hm h hD hE hd
  · next hE =>
    have hquotient := digits_eq (d := d) (by omega)
    rw [hd] at hquotient
    obtain ⟨t, hle, hdiv⟩ := divCore_eq h hD (by positivity) hquotient
    simp only [UnpackedFloat.div, hdiv]
    exact roundWithAccuracy_eq .positive hm h hle

theorem toFloat_of_toRat (hm : 0 < m) (h : IsCanonical m e) (he : e ≤ 971)
    (hd : d.toRat = m * 2 ^ e) :
    d.toFloat = .ofModel (.pack (.finite .positive m e hm)) := by
  rw [← toRat_trim] at hd
  rw [toFloat, Float.Model.ofScientific, ofScientific_eq hm h he hd]

end Decimal

/-! ### Doubles -/

lemma toNat_one_append (v : BitVec 52) : (1#1 ++ v).toNat = 2 ^ 52 + v.toNat := by
  have h := Nat.two_pow_add_eq_or_of_lt v.isLt 1
  rw [mul_one] at h
  rw [BitVec.toNat_append, h]
  rfl

/-- A double is kept with a canonical significand. -/
theorem isCanonical_of_unpack {x : Number} {s : Sign} {hm : 0 < m}
    (h : x.toModel.unpack = .finite s m e hm) : IsCanonical m e ∧ e ≤ 971 := by
  rw [isCanonical_iff]
  rw [Float.Model.unpack] at h
  revert h
  fun_cases UnpackedFloat.unpack Format.binary64 x.toModel.toBits.toBitVec with
  | case1 => rintro ⟨⟩
  | case2 => rintro ⟨⟩
  | case3 => rintro ⟨⟩
  | case4 mvec evec exp svec sign hones hzero hne =>
    -- a subnormal number: the exponent is the least one, and the leading bit is missing
    intro h
    injection h with _ hmvec hexp
    have hlt : m < 2 ^ 52 := hmvec ▸ mvec.isLt
    have hlog : m.log2 < 52 := (Nat.log2_lt hm.ne').2 hlt
    have hexp : e = -1074 := by
      rw [← hexp]
      simp [exp, hzero, Format.exponentBias]
    omega
  | case5 mvec evec exp svec sign hones hzero =>
    -- a normal number: the leading bit is put in front of the others
    intro h
    injection h with _ hmvec hexp
    have hlog : m.log2 = 52 := by
      have happend : m = 2 ^ 52 + mvec.toNat := hmvec ▸ toNat_one_append mvec
      have hlt : mvec.toNat < 2 ^ 52 := mvec.isLt
      rw [Nat.log2_eq_iff hm.ne']
      omega
    have hlt : evec.toNat < 2047 := by
      have hlt : evec.toNat < 2 ^ 11 := evec.isLt
      have hne : evec.toNat ≠ 2047 := fun heq => hones (BitVec.eq_of_toNat_eq heq)
      omega
    have hpos : evec.toNat ≠ 0 := fun heq => hzero (BitVec.eq_of_toNat_eq heq)
    have hexp : e = evec.toNat - 1075 := by
      rw [← hexp]
      simp [exp, Format.exponentBias]
    omega

end Calculator
