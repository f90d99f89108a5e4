import Mathlib
import Streamling.Support.HalfEven

/-!
# Arithmetic of decimals

Sums, differences, products and remainders are exact: operands are brought to
the finer scale, where they are integers.  A quotient is computed in integers
and rounded once, half to even, at the scale that is asked for.
-/

namespace BigDecimal

/-! ## Exact operations -/

/-- The digits at a scale that is not coarser. -/
def digitsAt (d : BigDecimal) (scale : ℤ) : ℤ :=
  d.digits * 10 ^ (scale - d.scale).toNat

def add (a b : BigDecimal) : BigDecimal :=
  let scale := max a.scale b.scale
  ⟨a.digitsAt scale + b.digitsAt scale, scale⟩

def sub (a b : BigDecimal) : BigDecimal :=
  let scale := max a.scale b.scale
  ⟨a.digitsAt scale - b.digitsAt scale, scale⟩

def mul (a b : BigDecimal) : BigDecimal :=
  ⟨a.digits * b.digits, a.scale + b.scale⟩

/-- The remainder of the quotient that is cut towards zero. -/
def rem (a b : BigDecimal) : BigDecimal :=
  let scale := max a.scale b.scale
  ⟨(a.digitsAt scale).tmod (b.digitsAt scale), scale⟩

theorem cast_digitsAt {d : BigDecimal} {scale : ℤ} (h : d.scale ≤ scale) :
    (d.digitsAt scale : ℚ) = d.value * (10 : ℚ) ^ scale := by
  have hexp : ((scale - d.scale).toNat : ℤ) = scale - d.scale :=
    Int.toNat_of_nonneg (by omega)
  rw [value_mul_zpow, ← hexp, zpow_natCast, digitsAt]
  push_cast
  rfl

theorem value_eq_of_units
    {d : BigDecimal} {x : ℚ} (h : d.digits = x * (10 : ℚ) ^ d.scale) :
    d.value = x := by
  have hpow : (10 : ℚ) ^ d.scale ≠ 0 := zpow_ne_zero _ (by norm_num)
  rw [value, h, mul_assoc, zpow_neg, mul_inv_cancel₀ hpow, mul_one]

@[simp] theorem value_add (a b : BigDecimal) :
    (a.add b).value = a.value + b.value := by
  apply value_eq_of_units
  have ha := cast_digitsAt (le_max_left a.scale b.scale)
  have hb := cast_digitsAt (le_max_right a.scale b.scale)
  simp only [add]
  push_cast
  rw [ha, hb]
  ring

@[simp] theorem value_sub (a b : BigDecimal) :
    (a.sub b).value = a.value - b.value := by
  apply value_eq_of_units
  have ha := cast_digitsAt (le_max_left a.scale b.scale)
  have hb := cast_digitsAt (le_max_right a.scale b.scale)
  simp only [sub]
  push_cast
  rw [ha, hb]
  ring

@[simp] theorem value_mul (a b : BigDecimal) :
    (a.mul b).value = a.value * b.value := by
  have h10 : (10 : ℚ) ≠ 0 := by norm_num
  rw [value, value, value, mul, neg_add, zpow_add₀ h10]
  push_cast
  ring

/-- A number cut towards zero. -/
def truncate (x : ℚ) : ℤ :=
  if 0 ≤ x then ⌊x⌋ else ⌈x⌉

/-- The remainder of the quotient that is cut towards zero. -/
def remainder (x y : ℚ) : ℚ :=
  x - y * truncate (x / y)

theorem truncate_div_natCast (m : ℤ) {n : ℕ} (hn : 0 < n) :
    truncate ((m : ℚ) / n) = m.tdiv n := by
  have hpos : (0 : ℚ) < n := by exact_mod_cast hn
  unfold truncate
  by_cases hm : 0 ≤ m
  · have hnonneg : (0 : ℚ) ≤ (m : ℚ) / n :=
      div_nonneg (by exact_mod_cast hm) hpos.le
    rw [if_pos hnonneg, Rat.floor_intCast_div_natCast,
      Int.tdiv_eq_ediv_of_nonneg hm]
  · have hneg : (m : ℚ) / n < 0 :=
      div_neg_of_neg_of_pos (by exact_mod_cast not_le.mp hm) hpos
    have hflip : m.tdiv n = -((-m).tdiv n) := by rw [Int.neg_tdiv, neg_neg]
    rw [if_neg (not_le.mpr hneg), Rat.ceil_intCast_div_natCast, hflip,
      Int.tdiv_eq_ediv_of_nonneg (by omega)]

theorem truncate_div (m n : ℤ) : truncate ((m : ℚ) / n) = m.tdiv n := by
  rcases lt_trichotomy n 0 with hneg | rfl | hpos
  · obtain ⟨k, hk⟩ := Int.eq_ofNat_of_zero_le (by omega : 0 ≤ -n)
    have hn : n = -(k : ℤ) := by omega
    have hstep := truncate_div_natCast (-m) (by omega : 0 < k)
    rw [hn, Int.tdiv_neg, ← Int.neg_tdiv, ← hstep]
    congr 1
    push_cast
    rw [div_neg, neg_div]
  · simp [truncate]
  · obtain ⟨k, rfl⟩ := Int.eq_ofNat_of_zero_le hpos.le
    exact truncate_div_natCast m (by omega)

theorem cast_tmod (m n : ℤ) : (m.tmod n : ℚ) = remainder m n := by
  have hsplit := Int.mul_tdiv_add_tmod m n
  have hcast : (n : ℚ) * (m.tdiv n : ℤ) + (m.tmod n : ℤ) = m := by
    exact_mod_cast hsplit
  rw [remainder, truncate_div]
  linarith

theorem remainder_mul (x y : ℚ) {c : ℚ} (hc : c ≠ 0) :
    remainder (x * c) (y * c) = remainder x y * c := by
  rw [remainder, remainder, mul_div_mul_right _ _ hc]
  ring

@[simp] theorem value_rem (a b : BigDecimal) :
    (a.rem b).value = remainder a.value b.value := by
  have hpow : (10 : ℚ) ^ max a.scale b.scale ≠ 0 :=
    zpow_ne_zero _ (by norm_num)
  apply value_eq_of_units
  simp only [rem]
  rw [cast_tmod, cast_digitsAt (le_max_left _ _),
    cast_digitsAt (le_max_right _ _), remainder_mul _ _ hpow]

/-! ## Division -/

/-- The quotient at a scale.  The power of ten goes to the side that keeps
both integral; the quotient of the magnitudes is rounded half to even, and
takes the sign after that. -/
def exactDivAtScale (a b : BigDecimal) (scale : ℕ) : BigDecimal :=
  let shift := (scale : ℤ) + b.scale - a.scale
  let n := if 0 ≤ shift then a.digits * 10 ^ shift.toNat else a.digits
  let d := if 0 ≤ shift then b.digits else b.digits * 10 ^ (-shift).toNat
  let negative := decide (n < 0) != decide (d < 0)
  let q := n.natAbs / d.natAbs
  let twiceRemainder := n.natAbs % d.natAbs * 2
  let q :=
    if d.natAbs < twiceRemainder ∨ (twiceRemainder = d.natAbs ∧ q % 2 = 1)
    then q + 1 else q
  ⟨if negative then -(q : ℤ) else q, scale⟩

@[simp] theorem scale_exactDivAtScale (a b : BigDecimal) (scale : ℕ) :
    (a.exactDivAtScale b scale).scale = scale := rfl

/-- The rounded quotient of magnitudes. -/
theorem rounds_natAbs_div (n : ℕ) {d : ℕ} (hd : 0 < d) :
    HalfEven.Rounds ((n : ℚ) / d)
      ((if d < n % d * 2 ∨ (n % d * 2 = d ∧ n / d % 2 = 1)
        then n / d + 1 else n / d : ℕ) : ℤ) := by
  have hstep := HalfEven.rounds_of_div_mod (a := n) (b := d)
    (m := ((if d < n % d * 2 ∨ (n % d * 2 = d ∧ n / d % 2 = 1)
        then n / d + 1 else n / d : ℕ) : ℤ)) (by exact_mod_cast hd)
  have hdiv : (n : ℤ) / d = ((n / d : ℕ) : ℤ) := (Int.natCast_div n d).symm
  have hmod : (n : ℤ) % d = ((n % d : ℕ) : ℤ) := (Int.natCast_mod n d).symm
  rw [hdiv, hmod] at hstep
  simp only [Int.cast_natCast] at hstep
  apply hstep
  · intro h
    rw [if_neg (by omega)]
  · intro h
    rw [if_pos (by omega)]
    push_cast
    rfl
  · intro h
    split_ifs <;> omega

/-- The quotient of integers by magnitudes and signs. -/
theorem rounds_signed_div (n d : ℤ) {q : ℤ}
    (h : HalfEven.Rounds ((n.natAbs : ℚ) / d.natAbs) q) :
    HalfEven.Rounds ((n : ℚ) / d)
      (if (decide (n < 0) != decide (d < 0)) = true then -q else q) := by
  have habs (i : ℤ) : (i.natAbs : ℚ) = if i < 0 then -(i : ℚ) else i := by
    rw [Nat.cast_natAbs, Int.cast_abs]
    split_ifs with hneg
    · exact abs_of_neg (by exact_mod_cast hneg)
    · exact abs_of_nonneg (by exact_mod_cast not_lt.mp hneg)
  rw [habs n, habs d] at h
  by_cases hnNeg : n < 0
  · by_cases hdNeg : d < 0
    · simpa [hnNeg, hdNeg, neg_div_neg_eq] using h
    · have hflip := h.neg
      simpa [hnNeg, hdNeg, neg_div] using hflip
  · by_cases hdNeg : d < 0
    · have hflip := h.neg
      simpa [hnNeg, hdNeg, div_neg] using hflip
    · simpa [hnNeg, hdNeg] using h

/-- The exact quotient, rounded once. -/
theorem digits_exactDivAtScale
    (a b : BigDecimal) (scale : ℕ) (hb : b.digits ≠ 0) :
    (a.exactDivAtScale b scale).digits = HalfEven.roundHalfEven
      (a.value / b.value * (10 : ℚ) ^ (scale : ℤ)) := by
  have h10 : (10 : ℚ) ≠ 0 := by norm_num
  have hquotient : a.value / b.value * (10 : ℚ) ^ (scale : ℤ) =
      (a.digits : ℚ) / b.digits *
        (10 : ℚ) ^ ((scale : ℤ) + b.scale - a.scale) := by
    have hbQ : (b.digits : ℚ) ≠ 0 := by exact_mod_cast hb
    have hpow : (10 : ℚ) ^ b.scale ≠ 0 := zpow_ne_zero _ h10
    have hpow' : (10 : ℚ) ^ a.scale ≠ 0 := zpow_ne_zero _ h10
    rw [value, value, sub_eq_add_neg, zpow_add₀ h10, zpow_add₀ h10,
      zpow_neg, zpow_neg]
    field_simp
  rw [hquotient]
  set shift := (scale : ℤ) + b.scale - a.scale with hshift
  apply HalfEven.Rounds.eq_roundHalfEven
  by_cases hnonneg : 0 ≤ shift
  · have hexp : (shift.toNat : ℤ) = shift := Int.toNat_of_nonneg hnonneg
    have hratio : (a.digits : ℚ) / b.digits * (10 : ℚ) ^ shift =
        ((a.digits * 10 ^ shift.toNat : ℤ) : ℚ) / b.digits := by
      have hpow : (10 : ℚ) ^ shift = 10 ^ shift.toNat := by
        rw [← zpow_natCast, hexp]
      rw [hpow]
      push_cast
      ring
    rw [hratio]
    have hround := rounds_signed_div (a.digits * 10 ^ shift.toNat)
      b.digits
      (rounds_natAbs_div _ (Int.natAbs_pos.mpr hb))
    simpa only [exactDivAtScale, ← hshift, if_pos hnonneg] using hround
  · have hexp : ((-shift).toNat : ℤ) = -shift :=
      Int.toNat_of_nonneg (by omega)
    have hden : b.digits * 10 ^ (-shift).toNat ≠ 0 :=
      mul_ne_zero hb (pow_ne_zero _ (by norm_num))
    have hratio : (a.digits : ℚ) / b.digits * (10 : ℚ) ^ shift =
        (a.digits : ℚ) / ((b.digits * 10 ^ (-shift).toNat : ℤ) : ℚ) := by
      have hflip : shift = -((-shift).toNat : ℤ) := by omega
      rw [hflip, zpow_neg, zpow_natCast, ← hflip]
      push_cast
      rw [div_mul_eq_div_div, div_eq_mul_inv (_ / _)]
    rw [hratio]
    have hround := rounds_signed_div a.digits _
      (rounds_natAbs_div _ (Int.natAbs_pos.mpr hden))
    simpa only [exactDivAtScale, ← hshift, if_neg hnonneg] using hround

end BigDecimal
