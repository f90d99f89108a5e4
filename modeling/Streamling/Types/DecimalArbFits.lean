import Mathlib
import Streamling.Types.DecimalArbBytes

/-!
# What fits a precision and a scale

Counting the digits of the normal form decides what a column of a precision
and a scale can hold: the numbers that are a whole number of units of the last
digit, fewer than a power of ten of them.
-/

namespace BigDecimal

/-! ## Normal forms -/

theorem digits_stripZeros_mod
    (fuel : ℕ) (d : BigDecimal) (hne : d.digits ≠ 0)
    (hfuel : d.digits.natAbs ≤ fuel) :
    (stripZeros fuel d).digits % 10 ≠ 0 := by
  induction fuel generalizing d with
  | zero => omega
  | succ fuel ih =>
      unfold stripZeros
      split
      · rename_i hzero
        apply ih
        · show d.digits / 10 ≠ 0
          omega
        · show (d.digits / 10).natAbs ≤ fuel
          omega
      · assumption

/-- The digits of a normal form do not end with a zero. -/
theorem digits_normalized_mod
    {d : BigDecimal} (h : d.digits ≠ 0) : d.normalized.digits % 10 ≠ 0 := by
  rw [normalized, if_neg h]
  exact digits_stripZeros_mod _ d h (Nat.le_refl _)

theorem digits_normalized_ne_zero
    {d : BigDecimal} (h : d.digits ≠ 0) : d.normalized.digits ≠ 0 := by
  have hmod := digits_normalized_mod h
  omega

theorem normalized_of_digits_eq_zero
    {d : BigDecimal} (h : d.digits = 0) : d.normalized = ⟨0, 0⟩ := by
  rw [normalized, if_pos h]

/-- A number that is not zero is a whole number of units exactly at the scale
of its normal form and the finer ones. -/
theorem exists_units_iff
    {d : BigDecimal} (hne : d.digits ≠ 0) {s : ℤ} :
    (∃ m : ℤ, d.value * (10 : ℚ) ^ s = m) ↔ d.normalized.scale ≤ s := by
  refine ⟨?_, exists_units⟩
  rintro ⟨m, hm⟩
  by_contra hlt
  rw [← value_normalized, value_mul_zpow] at hm
  have hexp : s - d.normalized.scale =
      -((d.normalized.scale - s).toNat : ℤ) := by omega
  have hpow : (10 : ℚ) ^ (d.normalized.scale - s).toNat ≠ 0 :=
    pow_ne_zero _ (by norm_num)
  rw [hexp, zpow_neg, zpow_natCast, ← div_eq_mul_inv,
    div_eq_iff hpow] at hm
  have hdigits : d.normalized.digits =
      m * 10 ^ (d.normalized.scale - s).toNat := by
    exact_mod_cast hm
  obtain ⟨k, hk⟩ : ∃ k, (d.normalized.scale - s).toNat = k + 1 :=
    Nat.exists_eq_succ_of_ne_zero (by omega)
  apply digits_normalized_mod hne
  rw [hdigits, hk, pow_succ, ← mul_assoc]
  exact Int.mul_emod_left _ _

end BigDecimal

namespace Streamling

namespace DecimalArbValue

/-- The number is a whole number of units of the last digit, of absolute value
below the power of ten of the precision. -/
def FitsAt (precision scale : ℕ) (x : ℚ) : Prop :=
  ∃ m : ℤ, x * (10 : ℚ) ^ (scale : ℤ) = m ∧ |m| < 10 ^ precision

theorem digitCount_le_iff {n : ℤ} (h : n ≠ 0) {k : ℕ} :
    digitCount n ≤ k ↔ |n| < 10 ^ k := by
  rw [digitCount, if_neg h, Nat.digits_length_le_iff (by norm_num)]
  rw [← Int.natCast_natAbs]
  exact_mod_cast Iff.rfl

theorem digitCount_pos (n : ℤ) : 0 < digitCount n := by
  unfold digitCount
  split_ifs with h
  · exact Nat.one_pos
  · rw [List.length_pos_iff]
    exact Nat.digits_ne_nil_iff_ne_zero.mpr (Int.natAbs_ne_zero.mpr h)

/-- Counting the digits before the point of a number that is not zero. -/
theorem integerDigitCount_le_iff
    {v : DecimalArbValue} (hne : v.bd.digits ≠ 0) {k : ℕ} :
    v.integerDigitCount ≤ k ↔
      (digitCount v.bd.normalized.digits : ℤ) ≤
        k + v.bd.normalized.scale := by
  have hnormal := BigDecimal.digits_normalized_ne_zero hne
  simp only [integerDigitCount, if_neg hnormal]
  split_ifs with hscale <;> omega

/-- The two digit counts of a value bound the number of its units. -/
theorem digit_counts_iff
    (v : DecimalArbValue) {precision scale : ℕ} (hle : scale ≤ precision) :
    (v.integerDigitCount ≤ precision - scale ∧
      v.fractionalDigitCount ≤ scale) ↔ FitsAt precision scale v.value := by
  by_cases hzero : v.bd.digits = 0
  · have hvalue : v.value = 0 := BigDecimal.value_eq_zero_iff.mpr hzero
    have hnormal := BigDecimal.normalized_of_digits_eq_zero hzero
    constructor
    · intro _
      exact ⟨0, by simp [hvalue], by simp⟩
    · intro _
      simp [integerDigitCount, fractionalDigitCount, hnormal]
  · have hfraction : v.fractionalDigitCount ≤ scale ↔
        v.bd.normalized.scale ≤ scale := by
      rw [fractionalDigitCount]
      omega
    rw [integerDigitCount_le_iff hzero, hfraction]
    have hnormal := BigDecimal.digits_normalized_ne_zero hzero
    have hpos := digitCount_pos v.bd.normalized.digits
    -- the units are the normal digits behind `shift` zeros
    have hbound (hscale : v.bd.normalized.scale ≤ scale) {m : ℤ}
        (hm : v.value * (10 : ℚ) ^ (scale : ℤ) = m) :
        (digitCount v.bd.normalized.digits : ℤ) ≤
          (precision - scale : ℕ) + v.bd.normalized.scale ↔
        |m| < 10 ^ precision := by
      obtain ⟨shift, hshift⟩ :=
        Int.eq_ofNat_of_zero_le (sub_nonneg.mpr hscale)
      have hunits : m = v.bd.normalized.digits * 10 ^ shift := by
        rw [value, ← BigDecimal.value_normalized,
          BigDecimal.value_mul_zpow, hshift, zpow_natCast] at hm
        exact_mod_cast hm.symm
      have hpow : (0 : ℤ) < 10 ^ shift := by positivity
      rw [hunits, abs_mul, abs_of_pos hpow]
      by_cases hroom : shift ≤ precision
      · have hsplit : (10 : ℤ) ^ precision =
            10 ^ (precision - shift) * 10 ^ shift := by
          rw [← pow_add, Nat.sub_add_cancel hroom]
        rw [hsplit, mul_lt_mul_iff_left₀ hpow, ← digitCount_le_iff hnormal]
        omega
      · have hone : 1 ≤ |v.bd.normalized.digits| := Int.one_le_abs hnormal
        have hgrow : (10 : ℤ) ^ precision ≤ 10 ^ shift :=
          pow_le_pow_right₀ (by norm_num) (by omega)
        constructor
        · intro _
          omega
        · intro hlt
          nlinarith
    constructor
    · rintro ⟨hinteger, hscale⟩
      obtain ⟨m, hm⟩ := BigDecimal.exists_units hscale
      exact ⟨m, hm, (hbound hscale hm).mp hinteger⟩
    · rintro ⟨m, hm, hlt⟩
      have hscale := (BigDecimal.exists_units_iff hzero).mp ⟨m, hm⟩
      exact ⟨(hbound hscale hm).mpr hlt, hscale⟩

theorem scale_le_of_validatePrecisionScale
    {precision scale : ℕ}
    (h : validatePrecisionScale precision scale = .ok ()) :
    scale ≤ precision := by
  unfold validatePrecisionScale at h
  split_ifs at h
  omega

theorem validatePrecisionScale_eq_ok_iff {precision scale : ℕ} :
    validatePrecisionScale precision scale = .ok () ↔
      1 ≤ precision ∧ precision ≤ maxPrecision ∧ scale ≤ precision := by
  unfold validatePrecisionScale
  split_ifs
  · simp
    omega
  · simp
    omega
  · simp
    omega
  · simp
    omega

/-- A value is accepted for a precision and a scale exactly if the two are
valid and the number of its units is below the power of ten. -/
theorem checkFits_eq_ok_iff
    (v : DecimalArbValue) (precision scale : ℕ) (column : String) :
    v.checkFits precision scale column = .ok () ↔
      validatePrecisionScale precision scale = .ok () ∧
        FitsAt precision scale v.value := by
  unfold checkFits
  cases hvalid : validatePrecisionScale precision scale with
  | error e => simp [bind, Except.bind]
  | ok u =>
      have hle := scale_le_of_validatePrecisionScale hvalid
      rw [← digit_counts_iff v hle]
      simp only [bind, Except.bind, true_and]
      split_ifs with hinteger hfraction
      · simp [hinteger]
      · simp [hfraction]
      · simp only [pure, Except.pure, true_iff]
        omega

@[simp] theorem value_fromBigdecimal (bd : BigDecimal) :
    (fromBigdecimal bd).value = bd.value :=
  value_canonicalize bd

/-- What fits is the number of a value. -/
theorem FitsAt.exists_value
    {precision scale : ℕ} {x : ℚ} (h : FitsAt precision scale x) :
    ∃ v : DecimalArbValue, v.value = x := by
  obtain ⟨m, hm, -⟩ := h
  have hpow : (10 : ℚ) ^ (scale : ℤ) ≠ 0 := zpow_ne_zero _ (by norm_num)
  refine ⟨fromBigintAndScale m scale, mul_right_cancel₀ hpow ?_⟩
  rw [value_fromBigintAndScale_mul, hm]

theorem FitsAt.mono
    {precision precision' scale scale' : ℕ} {x : ℚ}
    (h : FitsAt precision scale x) (hscale : scale ≤ scale')
    (hinteger : precision + scale' ≤ precision' + scale) :
    FitsAt precision' scale' x := by
  obtain ⟨m, hm, hlt⟩ := h
  obtain ⟨shift, rfl⟩ := Nat.exists_eq_add_of_le hscale
  have h10 : (10 : ℚ) ≠ 0 := by norm_num
  refine ⟨m * 10 ^ shift, ?_, ?_⟩
  · rw [Nat.cast_add, zpow_add₀ h10, ← mul_assoc, hm, zpow_natCast]
    push_cast
    rfl
  · have hpow : (0 : ℤ) < 10 ^ shift := by positivity
    rw [abs_mul, abs_of_pos hpow]
    calc |m| * 10 ^ shift < 10 ^ precision * 10 ^ shift :=
          mul_lt_mul_of_pos_right hlt hpow
      _ = 10 ^ (precision + shift) := (pow_add _ _ _).symm
      _ ≤ 10 ^ precision' :=
          pow_le_pow_right₀ (by norm_num) (by omega)

end DecimalArbValue

end Streamling
