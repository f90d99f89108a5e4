import Mathlib

/-!
# Decimal numbers of arbitrary precision

A decimal is an integer of digits with a scale, the number of digits after
the point; a negative scale stands for trailing zeros.  Different pairs denote
the same number.  Arithmetic is exact; rounding to a coarser scale is to the
nearest, and to the even neighbour at a tie.
-/

/-- An integer of digits and a scale. -/
structure BigDecimal where
  digits : ℤ
  scale : ℤ
  deriving DecidableEq, Repr

namespace BigDecimal

/-- The number a decimal denotes. -/
def value (d : BigDecimal) : ℚ :=
  d.digits * (10 : ℚ) ^ (-d.scale)

/-- The integer nearest to `a / b`, the even one at a tie. -/
def divHalfEven (a b : ℤ) : ℤ :=
  let q := a / b
  let r := a % b
  if 2 * r < b then q
  else if b < 2 * r then q + 1
  else if q % 2 = 0 then q
  else q + 1

/-- The same number at another scale: exact at a finer one, rounded at a
coarser one. -/
def withScaleRound (d : BigDecimal) (scale : ℤ) : BigDecimal :=
  if d.scale ≤ scale then
    ⟨d.digits * 10 ^ (scale - d.scale).toNat, scale⟩
  else ⟨divHalfEven d.digits (10 ^ (d.scale - scale).toNat), scale⟩

/-- Remove up to `fuel` trailing zeros of the digits. -/
def stripZeros : ℕ → BigDecimal → BigDecimal
  | 0, d => d
  | fuel + 1, d =>
      if d.digits % 10 = 0 then
        stripZeros fuel ⟨d.digits / 10, d.scale - 1⟩
      else d

/-- The form without trailing zeros; zero has scale zero. -/
def normalized (d : BigDecimal) : BigDecimal :=
  if d.digits = 0 then ⟨0, 0⟩
  else stripZeros d.digits.natAbs d

theorem value_eq_zero_iff {d : BigDecimal} : d.value = 0 ↔ d.digits = 0 := by
  have hpow : (10 : ℚ) ^ (-d.scale) ≠ 0 := zpow_ne_zero _ (by norm_num)
  rw [value, mul_eq_zero, Int.cast_eq_zero]
  exact or_iff_left hpow

/-- The number in units of its last digit at a scale. -/
theorem value_mul_zpow (d : BigDecimal) (s : ℤ) :
    d.value * (10 : ℚ) ^ s = d.digits * (10 : ℚ) ^ (s - d.scale) := by
  have h10 : (10 : ℚ) ≠ 0 := by norm_num
  rw [value, mul_assoc, ← zpow_add₀ h10]
  congr 2
  ring

theorem value_mk_mul_zpow (m s : ℤ) :
    (mk m s).value * (10 : ℚ) ^ s = m := by
  rw [value_mul_zpow]
  simp

/-! ## Rounding -/

theorem divHalfEven_mul (m : ℤ) {b : ℤ} (hb : 0 < b) :
    divHalfEven (m * b) b = m := by
  have hq : m * b / b = m := Int.mul_ediv_cancel m (ne_of_gt hb)
  have hr : m * b % b = 0 := Int.mul_emod_left m b
  simp [divHalfEven, hq, hr, hb]

@[simp] theorem scale_withScaleRound (d : BigDecimal) (s : ℤ) :
    (d.withScaleRound s).scale = s := by
  unfold withScaleRound
  split <;> rfl

/-- A number that is a whole number of units at a scale is not rounded. -/
theorem digits_withScaleRound
    {d : BigDecimal} {s m : ℤ} (h : d.value * (10 : ℚ) ^ s = m) :
    (d.withScaleRound s).digits = m := by
  rw [value_mul_zpow] at h
  unfold withScaleRound
  split
  · rename_i hle
    have hexp : ((s - d.scale).toNat : ℤ) = s - d.scale :=
      Int.toNat_of_nonneg (by omega)
    rw [← hexp, zpow_natCast] at h
    exact_mod_cast h
  · rename_i hlt
    have hexp : ((d.scale - s).toNat : ℤ) = d.scale - s :=
      Int.toNat_of_nonneg (by omega)
    have hneg : s - d.scale = -((d.scale - s).toNat : ℤ) := by omega
    have hpow : (10 : ℚ) ^ (d.scale - s).toNat ≠ 0 :=
      pow_ne_zero _ (by norm_num)
    rw [hneg, zpow_neg, zpow_natCast] at h
    have hdigits : d.digits = m * 10 ^ (d.scale - s).toNat := by
      have hmul := (div_eq_iff hpow).mp ((div_eq_mul_inv _ _).trans h)
      exact_mod_cast hmul
    rw [hdigits]
    exact divHalfEven_mul m (by positivity)

/-! ## Normal form -/

theorem value_stripZeros (fuel : ℕ) (d : BigDecimal) :
    (stripZeros fuel d).value = d.value := by
  induction fuel generalizing d with
  | zero => rfl
  | succ fuel ih =>
      unfold stripZeros
      split
      · rename_i hdvd
        rw [ih]
        have hdigits : d.digits = d.digits / 10 * 10 := by omega
        have hcast : (d.digits : ℚ) = ((d.digits / 10 : ℤ) : ℚ) * 10 := by
          exact_mod_cast hdigits
        have h10 : (10 : ℚ) ≠ 0 := by norm_num
        simp only [value]
        rw [hcast, mul_assoc]
        congr 1
        rw [← zpow_one_add₀ h10]
        congr 1
        ring
      · rfl

@[simp] theorem value_normalized (d : BigDecimal) :
    d.normalized.value = d.value := by
  unfold normalized
  split
  · rename_i hzero
    rw [value_eq_zero_iff.mpr hzero]
    exact value_eq_zero_iff.mpr rfl
  · exact value_stripZeros _ d

/-- A decimal whose normal form has no more than `s` digits after the point
is a whole number of units at scale `s`. -/
theorem exists_units
    {d : BigDecimal} {s : ℤ} (h : d.normalized.scale ≤ s) :
    ∃ m : ℤ, d.value * (10 : ℚ) ^ s = m := by
  refine ⟨d.normalized.digits * 10 ^ (s - d.normalized.scale).toNat, ?_⟩
  have hexp : ((s - d.normalized.scale).toNat : ℤ) =
      s - d.normalized.scale := Int.toNat_of_nonneg (by omega)
  rw [← value_normalized, value_mul_zpow, ← hexp, zpow_natCast]
  push_cast
  rfl

end BigDecimal
