import Mathlib
import Streamling.Support.BigDecimal

/-!
# Rounding to the nearest integer

The nearest integer to a rational, the even one at a tie.  The relation says
what rounding means and determines its result, so that a rounding which is
computed from quotients and remainders is recognized by it.
-/

namespace HalfEven

/-- The integer is nearest to the number, and even at a tie. -/
structure Rounds (x : ℚ) (m : ℤ) : Prop where
  near : |x - m| ≤ 1 / 2
  tie : |x - m| = 1 / 2 → Even m

theorem Rounds.unique {x : ℚ} {m k : ℤ} (hm : Rounds x m) (hk : Rounds x k) :
    m = k := by
  by_contra hne
  have hdist : (1 : ℚ) ≤ |(m : ℚ) - k| := by
    exact_mod_cast Int.one_le_abs (sub_ne_zero.mpr hne)
  have htriangle : |(m : ℚ) - k| ≤ |x - m| + |x - k| := by
    have hsplit : (m : ℚ) - k = (x - k) - (x - m) := by ring
    rw [hsplit, add_comm]
    exact abs_sub _ _
  have hmHalf : |x - m| = 1 / 2 := by linarith [hm.near, hk.near]
  have hkHalf : |x - k| = 1 / 2 := by linarith [hm.near, hk.near]
  have hone : |m - k| = 1 := by
    apply le_antisymm
    · have hle : |(m : ℚ) - k| ≤ 1 := by linarith
      exact_mod_cast hle
    · exact Int.one_le_abs (sub_ne_zero.mpr hne)
  obtain ⟨a, ha⟩ := hm.tie hmHalf
  obtain ⟨b, hb⟩ := hk.tie hkHalf
  rcases abs_eq (by norm_num : (0 : ℤ) ≤ 1) |>.mp hone with h | h <;> omega

theorem Rounds.neg {x : ℚ} {m : ℤ} (h : Rounds x m) : Rounds (-x) (-m) := by
  have hdist : |(-x) - ((-m : ℤ) : ℚ)| = |x - m| := by
    rw [← abs_neg]
    congr 1
    push_cast
    ring
  constructor
  · rw [hdist]
    exact h.near
  · intro htie
    rw [hdist] at htie
    exact (h.tie htie).neg

theorem Rounds.intCast (m : ℤ) : Rounds m m := by
  constructor
  · simp
  · intro htie
    norm_num at htie

/-- Rounding does not leave an interval between integers. -/
theorem Rounds.abs_le {x : ℚ} {m n : ℤ} (h : Rounds x m) (hx : |x| ≤ n) :
    |m| ≤ n := by
  by_contra hnot
  have hstep : (n : ℚ) + 1 ≤ |(m : ℚ)| := by
    have hint : n + 1 ≤ |m| := by omega
    exact_mod_cast hint
  have htriangle : |(m : ℚ)| ≤ |x| + |x - m| := by
    have hsplit : (m : ℚ) = x - (x - m) := by ring
    calc |(m : ℚ)| = |x - (x - m)| := by rw [← hsplit]
      _ ≤ |x| + |x - m| := abs_sub _ _
  linarith [h.near]

/-- The nearest integer, the even one at a tie. -/
def roundHalfEven (x : ℚ) : ℤ :=
  let q := ⌊x⌋
  if x - q < 1 / 2 then q
  else if 1 / 2 < x - q then q + 1
  else if q % 2 = 0 then q
  else q + 1

theorem rounds_of_floor
    {x : ℚ} {q m : ℤ} (hlow : (q : ℚ) ≤ x) (hhigh : x < q + 1)
    (hdown : x - q < 1 / 2 → m = q) (hup : 1 / 2 < x - q → m = q + 1)
    (htie : x - q = 1 / 2 → m = if q % 2 = 0 then q else q + 1) :
    Rounds x m := by
  rcases lt_trichotomy (x - q) (1 / 2) with hlt | heq | hgt
  · rw [hdown hlt]
    have habs : |x - q| = x - q := abs_of_nonneg (by linarith)
    exact ⟨by linarith, fun h => by linarith⟩
  · rw [htie heq]
    split_ifs with heven
    · refine ⟨?_, fun _ => Int.even_iff.mpr heven⟩
      rw [heq]
      norm_num
    · refine ⟨?_, fun _ => Int.even_iff.mpr (by omega)⟩
      have hdist : x - ((q + 1 : ℤ) : ℚ) = -(1 / 2) := by
        push_cast
        linarith
      rw [hdist]
      norm_num
  · rw [hup hgt]
    have hdist : x - ((q + 1 : ℤ) : ℚ) = -(q + 1 - x) := by
      push_cast
      ring
    have habs : |x - ((q + 1 : ℤ) : ℚ)| = q + 1 - x := by
      rw [hdist, abs_neg, abs_of_nonneg (by linarith)]
    exact ⟨by linarith, fun h => by linarith⟩

theorem rounds_roundHalfEven (x : ℚ) : Rounds x (roundHalfEven x) := by
  apply rounds_of_floor (Int.floor_le x) (Int.lt_floor_add_one x)
  · intro hlt
    simp only [roundHalfEven, if_pos hlt]
  · intro hgt
    simp only [roundHalfEven, if_neg (not_lt.mpr hgt.le), if_pos hgt]
  · intro heq
    simp only [roundHalfEven, heq, lt_irrefl, if_false]

theorem Rounds.eq_roundHalfEven {x : ℚ} {m : ℤ} (h : Rounds x m) :
    m = roundHalfEven x :=
  h.unique (rounds_roundHalfEven x)

@[simp] theorem roundHalfEven_intCast (m : ℤ) : roundHalfEven m = m :=
  (Rounds.intCast m).eq_roundHalfEven.symm

@[simp] theorem roundHalfEven_neg (x : ℚ) :
    roundHalfEven (-x) = -roundHalfEven x :=
  (rounds_roundHalfEven x).neg.eq_roundHalfEven.symm

theorem abs_roundHalfEven_le {x : ℚ} {n : ℤ} (h : |x| ≤ n) :
    |roundHalfEven x| ≤ n :=
  (rounds_roundHalfEven x).abs_le h

/-! ## Rounding by quotient and remainder -/

theorem rounds_of_div_mod
    {a b m : ℤ} (hb : 0 < b)
    (hdown : 2 * (a % b) < b → m = a / b)
    (hup : b < 2 * (a % b) → m = a / b + 1)
    (htie : 2 * (a % b) = b → m = if a / b % 2 = 0 then a / b else a / b + 1) :
    Rounds ((a : ℚ) / b) m := by
  have hbQ : (0 : ℚ) < b := by exact_mod_cast hb
  have hsplit : (b : ℚ) * (a / b : ℤ) + (a % b : ℤ) = a := by
    exact_mod_cast Int.mul_ediv_add_emod a b
  have hrest : (a : ℚ) / b - (a / b : ℤ) = (a % b : ℤ) / b := by
    field_simp
    linarith
  have hnonneg : (0 : ℚ) ≤ (a % b : ℤ) := by
    exact_mod_cast Int.emod_nonneg a hb.ne'
  have hlt : ((a % b : ℤ) : ℚ) < b := by
    exact_mod_cast Int.emod_lt_of_pos a hb
  have hlow : (0 : ℚ) ≤ (a % b : ℤ) / b := by positivity
  have hhigh : ((a % b : ℤ) : ℚ) / b < 1 := (div_lt_one hbQ).mpr hlt
  apply rounds_of_floor (q := a / b)
  · linarith
  · linarith
  · intro h
    rw [hrest, div_lt_div_iff₀ hbQ (by norm_num)] at h
    apply hdown
    have hcast : ((2 * (a % b) : ℤ) : ℚ) < b := by
      push_cast
      linarith
    exact_mod_cast hcast
  · intro h
    rw [hrest, div_lt_div_iff₀ (by norm_num) hbQ] at h
    apply hup
    have hcast : ((b : ℤ) : ℚ) < ((2 * (a % b) : ℤ) : ℚ) := by
      push_cast
      linarith
    exact_mod_cast hcast
  · intro h
    rw [hrest, div_eq_div_iff hbQ.ne' (by norm_num)] at h
    apply htie
    have hcast : ((2 * (a % b) : ℤ) : ℚ) = b := by
      push_cast
      linarith
    exact_mod_cast hcast

theorem rounds_divHalfEven (a : ℤ) {b : ℤ} (hb : 0 < b) :
    Rounds ((a : ℚ) / b) (BigDecimal.divHalfEven a b) := by
  apply rounds_of_div_mod hb
  · intro h
    simp only [BigDecimal.divHalfEven, if_pos h]
  · intro h
    simp only [BigDecimal.divHalfEven, if_neg (not_lt.mpr h.le), if_pos h]
  · intro h
    simp only [BigDecimal.divHalfEven, h, lt_irrefl, if_false]

end HalfEven

namespace BigDecimal

/-- Rounding to a scale: the number in units of the scale, rounded to the
nearest integer. -/
theorem digits_withScaleRound_eq (d : BigDecimal) (s : ℤ) :
    (d.withScaleRound s).digits =
      HalfEven.roundHalfEven (d.value * (10 : ℚ) ^ s) := by
  by_cases hle : d.scale ≤ s
  · have hunits : d.value * (10 : ℚ) ^ s =
        ((d.digits * 10 ^ (s - d.scale).toNat : ℤ) : ℚ) := by
      have hexp : ((s - d.scale).toNat : ℤ) = s - d.scale :=
        Int.toNat_of_nonneg (by omega)
      rw [value_mul_zpow, ← hexp, zpow_natCast]
      push_cast
      rfl
    rw [digits_withScaleRound hunits, hunits, HalfEven.roundHalfEven_intCast]
  · have hexp : s - d.scale = -((d.scale - s).toNat : ℤ) := by omega
    have hquotient : d.value * (10 : ℚ) ^ s =
        (d.digits : ℚ) / ((10 ^ (d.scale - s).toNat : ℤ) : ℚ) := by
      rw [value_mul_zpow, hexp, zpow_neg, zpow_natCast, div_eq_mul_inv]
      push_cast
      rfl
    have hdigits : (d.withScaleRound s).digits =
        divHalfEven d.digits (10 ^ (d.scale - s).toNat) := by
      rw [withScaleRound, if_neg hle]
    rw [hdigits, hquotient]
    exact (HalfEven.rounds_divHalfEven _ (by positivity)).eq_roundHalfEven

theorem value_withScaleRound (d : BigDecimal) (s : ℤ) :
    (d.withScaleRound s).value * (10 : ℚ) ^ s =
      HalfEven.roundHalfEven (d.value * (10 : ℚ) ^ s) := by
  rw [← digits_withScaleRound_eq]
  have hmk := value_mk_mul_zpow (d.withScaleRound s).digits s
  have heta : mk (d.withScaleRound s).digits s = d.withScaleRound s := by
    have hscale := scale_withScaleRound d s
    generalize d.withScaleRound s = r at hscale ⊢
    subst hscale
    rfl
  rwa [heta] at hmk

end BigDecimal
