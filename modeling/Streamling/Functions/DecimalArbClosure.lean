import Mathlib
import Streamling.Functions.DecimalArbOps

/-!
# Decimal arithmetic is closed and exact

The rules for the precision and scale of a result leave room for the exact
result of every pair of values that fit the operands, unless the precision is
capped; then a result that does not fit is an error.  Rows are independent of
each other.
-/

namespace Streamling

open DecimalArbValue HalfEven
open BigDecimal (remainder)

/-! ## The types of the results -/

/-- The precision that a rule asks for, before the cap. -/
def neededPrecision (kind : BinaryOpKind) (p1 s1 p2 s2 : ℕ) : ℕ :=
  match kind with
  | .add | .sub => max (p1 - s1) (p2 - s2) + max s1 s2 + 1
  | .mul => p1 + p2 + 1
  | .div => p1 - s1 + s2 + max s1 defaultDivScale
  | .mod => min (p1 - s1) (p2 - s2) + max s1 s2

theorem outputPrecisionScale_fst (kind : BinaryOpKind) (p1 s1 p2 s2 : ℕ) :
    (outputPrecisionScale kind p1 s1 p2 s2).1 =
      min (neededPrecision kind p1 s1 p2 s2) maxPrecision := by
  cases kind <;> rfl

theorem outputPrecisionScale_valid
    (kind : BinaryOpKind) {p1 s1 p2 s2 : ℕ}
    (h1 : validatePrecisionScale p1 s1 = .ok ())
    (h2 : validatePrecisionScale p2 s2 = .ok ()) :
    validatePrecisionScale (outputPrecisionScale kind p1 s1 p2 s2).1
      (outputPrecisionScale kind p1 s1 p2 s2).2 = .ok () := by
  rw [validatePrecisionScale_eq_ok_iff] at h1 h2 ⊢
  simp only [maxPrecision] at h1 h2 ⊢
  cases kind <;>
    simp only [outputPrecisionScale, capPrecision, maxPrecision,
      defaultDivScale] <;>
    omega

/-- Without the cap, the scale of a result is that of its exact value. -/
theorem outputPrecisionScale_snd
    (kind : BinaryOpKind) {p1 s1 p2 s2 : ℕ}
    (h1 : s1 ≤ p1) (h2 : s2 ≤ p2)
    (hneeded : neededPrecision kind p1 s1 p2 s2 ≤ maxPrecision)
    (hmul : kind = .mul) :
    (outputPrecisionScale kind p1 s1 p2 s2).2 = s1 + s2 := by
  subst hmul
  simp only [neededPrecision] at hneeded
  simp only [outputPrecisionScale, capPrecision]
  omega

/-! ## Exact results -/

/-- The number a function stands for: the exact result, and for a quotient
the exact one rounded half to even at the scale of the result. -/
def exactResult (kind : BinaryOpKind) (sOut : ℕ) (x y : ℚ) : ℚ :=
  match kind with
  | .add => x + y
  | .sub => x - y
  | .mul => x * y
  | .div =>
      roundHalfEven (x / y * (10 : ℚ) ^ (sOut : ℤ)) *
        (10 : ℚ) ^ (-(sOut : ℤ))
  | .mod => remainder x y

/-- A quotient or a remainder by zero. -/
def ZeroDivisor (kind : BinaryOpKind) (y : ℚ) : Prop :=
  (kind = .div ∨ kind = .mod) ∧ y = 0

theorem binaryOp_zeroDivisor
    {kind : BinaryOpKind} {a b : BigDecimal} (sOut : ℕ)
    (h : ZeroDivisor kind b.value) :
    ∃ e, binaryOp kind a b sOut = .error e := by
  obtain ⟨rfl | rfl, hzero⟩ := h
  · exact ⟨_, if_pos (BigDecimal.value_eq_zero_iff.mp hzero)⟩
  · exact ⟨_, if_pos (BigDecimal.value_eq_zero_iff.mp hzero)⟩

theorem binaryOp_exact
    {kind : BinaryOpKind} {a b : BigDecimal} (sOut : ℕ)
    (h : ¬ ZeroDivisor kind b.value) :
    ∃ r, binaryOp kind a b sOut = .ok r ∧
      r.value = exactResult kind sOut a.value b.value := by
  cases kind with
  | add => exact ⟨_, rfl, BigDecimal.value_add a b⟩
  | sub => exact ⟨_, rfl, BigDecimal.value_sub a b⟩
  | mul => exact ⟨_, rfl, BigDecimal.value_mul a b⟩
  | div =>
      have hb : b.digits ≠ 0 := fun hzero =>
        h ⟨Or.inl rfl, BigDecimal.value_eq_zero_iff.mpr hzero⟩
      refine ⟨_, if_neg hb, ?_⟩
      rw [exactResult, ← BigDecimal.digits_exactDivAtScale a b sOut hb]
      rfl
  | mod =>
      have hb : b.digits ≠ 0 := fun hzero =>
        h ⟨Or.inr rfl, BigDecimal.value_eq_zero_iff.mpr hzero⟩
      exact ⟨_, if_neg hb, BigDecimal.value_rem a b⟩

/-! ## Units of the results -/

/-- Both operands in units of one scale. -/
theorem units_of_fits
    {p s : ℕ} {x : ℚ} (h : FitsAt p s x) {scale : ℕ} (hle : s ≤ scale) :
    ∃ m : ℤ, x * (10 : ℚ) ^ (scale : ℤ) = m ∧
      |m| < 10 ^ (p + (scale - s)) := by
  exact h.mono hle (by omega)

/-- A sum of two numbers of a width has at most one digit more. -/
theorem abs_add_abs_lt
    {m k : ℤ} {w w1 w2 : ℕ} (hm : |m| < 10 ^ w1) (hk : |k| < 10 ^ w2)
    (h1 : w1 ≤ w) (h2 : w2 ≤ w) : |m| + |k| < 10 ^ (w + 1) := by
  have hm' : |m| < 10 ^ w :=
    hm.trans_le (pow_le_pow_right₀ (by norm_num) h1)
  have hk' : |k| < 10 ^ w :=
    hk.trans_le (pow_le_pow_right₀ (by norm_num) h2)
  have hpos : (0 : ℤ) < 10 ^ w := by positivity
  rw [pow_succ]
  linarith

theorem abs_tmod_lt {m k : ℤ} (hk : k ≠ 0) :
    |m.tmod k| ≤ |m| ∧ |m.tmod k| < |k| := by
  rw [← Int.natCast_natAbs, ← Int.natCast_natAbs, ← Int.natCast_natAbs,
    Int.natAbs_tmod]
  constructor
  · exact_mod_cast Nat.mod_le _ _
  · exact_mod_cast Nat.mod_lt _ (Int.natAbs_pos.mpr hk)

theorem units_ne_zero
    {y : ℚ} {s : ℕ} {k : ℤ} (hk : y * (10 : ℚ) ^ (s : ℤ) = k)
    (hy : y ≠ 0) : k ≠ 0 := by
  rintro rfl
  rw [Int.cast_zero] at hk
  exact mul_ne_zero hy (zpow_ne_zero _ (by norm_num)) hk

/-- A quotient is at most the dividend by the least divisor. -/
theorem abs_quotient_le
    {x y : ℚ} {s1 s2 sOut : ℕ} {m k : ℤ}
    (hm : x * (10 : ℚ) ^ (s1 : ℤ) = m) (hk : y * (10 : ℚ) ^ (s2 : ℤ) = k)
    (hkne : k ≠ 0) (hs : s1 ≤ sOut) :
    |x / y * (10 : ℚ) ^ (sOut : ℤ)| ≤
      ((|m| * 10 ^ (s2 + (sOut - s1)) : ℤ) : ℚ) := by
  have h10 : (10 : ℚ) ≠ 0 := by norm_num
  have hquotient : x / y * (10 : ℚ) ^ (sOut : ℤ) =
      (m : ℚ) / k * 10 ^ (s2 + (sOut - s1)) := by
    have hpow1 : (10 : ℚ) ^ s1 ≠ 0 := pow_ne_zero _ h10
    have hpow2 : (10 : ℚ) ^ s2 ≠ 0 := pow_ne_zero _ h10
    have hsplit : (10 : ℚ) ^ sOut = 10 ^ (sOut - s1) * 10 ^ s1 := by
      rw [← pow_add, Nat.sub_add_cancel hs]
    rw [← hm, ← hk, zpow_natCast, zpow_natCast, zpow_natCast, hsplit,
      pow_add]
    field_simp
  have hkQ : (1 : ℚ) ≤ |(k : ℚ)| := by exact_mod_cast Int.one_le_abs hkne
  have hpow : (0 : ℚ) < 10 ^ (s2 + (sOut - s1)) := by positivity
  rw [hquotient, abs_mul, abs_div, abs_of_pos hpow]
  push_cast
  exact mul_le_mul_of_nonneg_right (div_le_self (abs_nonneg _) hkQ) hpow.le

/-- At the scale of the result, unless it is capped, the exact result is a
whole number of units, with no more digits than the rule asks for. -/
theorem exactResult_units
    {kind : BinaryOpKind} {p1 s1 p2 s2 : ℕ} {x y : ℚ}
    (hx : FitsAt p1 s1 x) (hy : FitsAt p2 s2 y)
    (hp1 : s1 ≤ p1) (hp2 : s2 ≤ p2)
    (hscale : kind = .mul →
      (outputPrecisionScale kind p1 s1 p2 s2).2 = s1 + s2) :
    ∃ m : ℤ, exactResult kind (outputPrecisionScale kind p1 s1 p2 s2).2 x y *
        (10 : ℚ) ^ ((outputPrecisionScale kind p1 s1 p2 s2).2 : ℤ) = m ∧
      (¬ ZeroDivisor kind y →
        |m| < 10 ^ neededPrecision kind p1 s1 p2 s2) := by
  have h10 : (10 : ℚ) ≠ 0 := by norm_num
  cases kind with
  | add =>
      obtain ⟨m, hm, hmLt⟩ := units_of_fits hx (le_max_left s1 s2)
      obtain ⟨k, hk, hkLt⟩ := units_of_fits hy (le_max_right s1 s2)
      refine ⟨m + k, ?_, fun _ => ?_⟩
      · simp only [exactResult, outputPrecisionScale]
        rw [add_mul, hm, hk]
        push_cast
        rfl
      · refine (abs_add_le m k).trans_lt
          (abs_add_abs_lt hmLt hkLt ?_ ?_) <;> omega
  | sub =>
      obtain ⟨m, hm, hmLt⟩ := units_of_fits hx (le_max_left s1 s2)
      obtain ⟨k, hk, hkLt⟩ := units_of_fits hy (le_max_right s1 s2)
      refine ⟨m - k, ?_, fun _ => ?_⟩
      · simp only [exactResult, outputPrecisionScale]
        rw [sub_mul, hm, hk]
        push_cast
        rfl
      · refine (abs_sub m k).trans_lt
          (abs_add_abs_lt hmLt hkLt ?_ ?_) <;> omega
  | mul =>
      rw [hscale rfl]
      obtain ⟨m, hm, hmLt⟩ := hx
      obtain ⟨k, hk, hkLt⟩ := hy
      refine ⟨m * k, ?_, fun _ => ?_⟩
      · rw [Nat.cast_add, zpow_add₀ h10, Int.cast_mul, ← hm, ← hk]
        simp only [exactResult]
        ring
      · rw [abs_mul]
        calc |m| * |k| < 10 ^ p1 * 10 ^ p2 :=
              mul_lt_mul'' hmLt hkLt (abs_nonneg _) (abs_nonneg _)
          _ = 10 ^ (p1 + p2) := (pow_add _ _ _).symm
          _ ≤ 10 ^ (p1 + p2 + 1) :=
              pow_le_pow_right₀ (by norm_num) (by omega)
  | div =>
      obtain ⟨m, hm, hmLt⟩ := hx
      obtain ⟨k, hk, -⟩ := hy
      set sOut := (outputPrecisionScale .div p1 s1 p2 s2).2 with hsOut
      have hs : s1 ≤ sOut := le_max_left _ _
      refine ⟨roundHalfEven (x / y * (10 : ℚ) ^ (sOut : ℤ)), ?_, ?_⟩
      · simp only [exactResult]
        rw [mul_assoc, ← zpow_add₀ h10, neg_add_cancel, zpow_zero, mul_one]
      · intro hdivisor
        have hkne := units_ne_zero hk fun hzero =>
          hdivisor ⟨Or.inl rfl, hzero⟩
        refine (abs_roundHalfEven_le
          (abs_quotient_le hm hk hkne hs)).trans_lt ?_
        calc |m| * 10 ^ (s2 + (sOut - s1))
            < 10 ^ p1 * 10 ^ (s2 + (sOut - s1)) :=
              mul_lt_mul_of_pos_right hmLt (by positivity)
          _ = 10 ^ (p1 + (s2 + (sOut - s1))) := (pow_add _ _ _).symm
          _ = 10 ^ (p1 - s1 + s2 + sOut) := by
              congr 1
              omega
  | mod =>
      obtain ⟨m, hm, hmLt⟩ := units_of_fits hx (le_max_left s1 s2)
      obtain ⟨k, hk, hkLt⟩ := units_of_fits hy (le_max_right s1 s2)
      have hpow : (10 : ℚ) ^ ((max s1 s2 : ℕ) : ℤ) ≠ 0 :=
        zpow_ne_zero _ h10
      refine ⟨m.tmod k, ?_, ?_⟩
      · rw [BigDecimal.cast_tmod, ← hm, ← hk,
          BigDecimal.remainder_mul _ _ hpow]
        rfl
      · intro hdivisor
        have hkne := units_ne_zero hk fun hzero =>
          hdivisor ⟨Or.inr rfl, hzero⟩
        obtain ⟨hdividend, hless⟩ := abs_tmod_lt (m := m) hkne
        simp only [neededPrecision]
        rcases le_total (p1 - s1) (p2 - s2) with hle | hle
        · refine (hdividend.trans_lt hmLt).trans_le
            (pow_le_pow_right₀ (by norm_num) ?_)
          omega
        · refine (hless.trans hkLt).trans_le
            (pow_le_pow_right₀ (by norm_num) ?_)
          omega

/-- Without the cap there is room for every exact result. -/
theorem exactResult_fits
    {kind : BinaryOpKind} {p1 s1 p2 s2 : ℕ} {x y : ℚ}
    (hx : FitsAt p1 s1 x) (hy : FitsAt p2 s2 y)
    (hp1 : s1 ≤ p1) (hp2 : s2 ≤ p2)
    (hneeded : neededPrecision kind p1 s1 p2 s2 ≤ maxPrecision)
    (hdivisor : ¬ ZeroDivisor kind y) :
    FitsAt (outputPrecisionScale kind p1 s1 p2 s2).1
      (outputPrecisionScale kind p1 s1 p2 s2).2
      (exactResult kind (outputPrecisionScale kind p1 s1 p2 s2).2 x y) := by
  obtain ⟨m, hm, hlt⟩ := exactResult_units hx hy hp1 hp2
    (outputPrecisionScale_snd kind hp1 hp2 hneeded)
  rw [outputPrecisionScale_fst, Nat.min_eq_left hneeded]
  exact ⟨m, hm, hlt hdivisor⟩

/-! ## Rows -/

/-- A row computes the exact result if that fits, and nothing that fits
otherwise. -/
theorem binaryRow_spec
    {kind : BinaryOpKind} {p1 s1 p2 s2 : ℕ} {a b : DecimalArbValue}
    {left right : List (Option (List UInt8))} {i : ℕ}
    (ha : FitsAt p1 s1 a.value) (hb : FitsAt p2 s2 b.value)
    (hp1 : s1 ≤ p1) (hp2 : s2 ≤ p2)
    (hleft : decodeRow left i s1 = .ok (some a))
    (hright : decodeRow right i s2 = .ok (some b))
    (cell : Option (List UInt8)) :
    (∃ v, binaryRow kind (binaryOp kind) s1 s2
        (outputPrecisionScale kind p1 s1 p2 s2).2 left right i = .ok v ∧
      Stores (outputPrecisionScale kind p1 s1 p2 s2).1
        (outputPrecisionScale kind p1 s1 p2 s2).2 v cell) ↔
      ¬ ZeroDivisor kind b.value ∧
        ∃ v, v.value = exactResult kind
            (outputPrecisionScale kind p1 s1 p2 s2).2 a.value b.value ∧
          Stores (outputPrecisionScale kind p1 s1 p2 s2).1
            (outputPrecisionScale kind p1 s1 p2 s2).2 (some v) cell := by
  set out := outputPrecisionScale kind p1 s1 p2 s2 with hout
  have hrow : binaryRow kind (binaryOp kind) s1 s2 out.2 left right i =
      (binaryOp kind a.bd b.bd out.2).bind fun result =>
        if (kind = .mul ∧ out.2 < s1 + s2) ∧
            (result.withScaleRound out.2).value ≠ result.value then
          .error (.productNotRepresentable (s1 + s2) out.2)
        else .ok (some (fromBigdecimal (result.withScaleRound out.2))) := by
    simp only [binaryRow, hleft, hright, bind, Except.bind, pure,
      Except.pure]
    rfl
  rw [hrow]
  by_cases hdivisor : ZeroDivisor kind b.value
  · obtain ⟨e, he⟩ := binaryOp_zeroDivisor (a := a.bd) out.2 hdivisor
    simp [he, Except.bind, hdivisor]
  · obtain ⟨r, hr, hvalue⟩ := binaryOp_exact (a := a.bd) out.2 hdivisor
    have hexact : r.value = exactResult kind out.2 a.value b.value := hvalue
    simp only [hr, Except.bind, hdivisor, not_false_eq_true, true_and]
    have hround := BigDecimal.value_withScaleRound r out.2
    have hpow : (10 : ℚ) ^ (out.2 : ℤ) ≠ 0 := zpow_ne_zero _ (by norm_num)
    -- rounding changes nothing exactly if the result is in whole units
    have hunits (m : ℤ) (hm : r.value * (10 : ℚ) ^ (out.2 : ℤ) = m) :
        (r.withScaleRound out.2).value = r.value := by
      rw [hm, roundHalfEven_intCast, ← hm] at hround
      exact mul_right_cancel₀ hpow hround
    by_cases hrefused : (kind = .mul ∧ out.2 < s1 + s2) ∧
        (r.withScaleRound out.2).value ≠ r.value
    · rw [if_pos hrefused]
      simp only [reduceCtorEq, false_and, exists_const, false_iff]
      rintro ⟨v, hv, ⟨m, hm, -⟩, -⟩
      rw [hv, ← hexact] at hm
      exact hrefused.2 (hunits m hm)
    · rw [if_neg hrefused]
      have hsame : (r.withScaleRound out.2).value = r.value := by
        by_cases hcapped : kind = .mul ∧ out.2 < s1 + s2
        · by_contra hne
          exact hrefused ⟨hcapped, hne⟩
        · have hscale : kind = .mul → out.2 = s1 + s2 := by
            intro hmul
            have hle : out.2 ≤ s1 + s2 := by
              rw [hout, hmul]
              exact Nat.min_le_left _ _
            have hnot := not_and.mp hcapped hmul
            omega
          obtain ⟨m, hm, -⟩ := exactResult_units ha hb hp1 hp2 hscale
          exact hunits m (hexact ▸ hm)
      have hnumber : (fromBigdecimal (r.withScaleRound out.2)).value =
          exactResult kind out.2 a.value b.value := by
        rw [fromBigdecimal, value_canonicalize, hsame, hexact]
      constructor
      · rintro ⟨v, hv, hstores⟩
        obtain rfl := Except.ok.inj hv
        exact ⟨_, hnumber, hstores⟩
      · rintro ⟨v, hv, hfits, hcell⟩
        refine ⟨_, rfl, ?_, ?_⟩
        · rw [hnumber, ← hv]
          exact hfits
        · rw [hcell, toCanonicalBytesAtScale_congr hfits
            (hv.trans hnumber.symm)]

/-! ## Columns -/

/-- The cells of a column store values that fit its type. -/
def TypedColumn (p s : ℕ) (cells : List (Option (List UInt8)))
    (values : List (Option DecimalArbValue)) : Prop :=
  List.Forall₂ (fun cell v => decodeValue cell s = .ok v ∧
    ∀ w, v = some w → FitsAt p s w.value) cells values

/-- The value of row `i`, of a scalar that of its one row. -/
def rowValue (values : List (Option DecimalArbValue)) (i : ℕ) :
    Option DecimalArbValue :=
  (values[if values.length = 1 then 0 else i]?).join

/-- The columns have one length, or one of them is a scalar. -/
def Broadcasts (left right : ℕ) : Prop :=
  left = right ∨ left = 1 ∨ right = 1

/-- The cell of a row: null if an operand is, and otherwise the exact
result. -/
def RowResult (kind : BinaryOpKind) (out : ℕ × ℕ)
    (lhs rhs : Option DecimalArbValue) (cell : Option (List UInt8)) : Prop :=
  match lhs, rhs with
  | some a, some b =>
      ¬ ZeroDivisor kind b.value ∧
        ∃ v, v.value = exactResult kind out.2 a.value b.value ∧
          Stores out.1 out.2 (some v) cell
  | _, _ => cell = none

/-- The row has no result: its divisor is zero, or its exact result does not
fit. -/
def RowFails (kind : BinaryOpKind) (out : ℕ × ℕ)
    (lhs rhs : Option DecimalArbValue) : Prop :=
  ∃ a b, lhs = some a ∧ rhs = some b ∧
    (ZeroDivisor kind b.value ∨
      ¬ FitsAt out.1 out.2 (exactResult kind out.2 a.value b.value))

theorem rowResult_total
    {kind : BinaryOpKind} {out : ℕ × ℕ} {lhs rhs : Option DecimalArbValue} :
    (∃ cell, RowResult kind out lhs rhs cell) ↔ ¬ RowFails kind out lhs rhs
    := by
  rcases lhs with _ | a
  · simp [RowResult, RowFails]
  · rcases rhs with _ | b
    · simp [RowResult, RowFails]
    · constructor
      · rintro ⟨cell, hdivisor, v, hv, hfits, -⟩ ⟨_, _, ha, hb, hfails⟩
        obtain rfl := Option.some.inj ha
        obtain rfl := Option.some.inj hb
        exact hfails.elim hdivisor fun hnot => hnot (hv ▸ hfits)
      · intro hrow
        have hdivisor : ¬ ZeroDivisor kind b.value := fun hzero =>
          hrow ⟨a, b, rfl, rfl, Or.inl hzero⟩
        have hfits : FitsAt out.1 out.2
            (exactResult kind out.2 a.value b.value) := by
          by_contra hnot
          exact hrow ⟨a, b, rfl, rfl, Or.inr hnot⟩
        obtain ⟨v, hv⟩ := hfits.exists_value
        exact ⟨_, hdivisor, v, hv, hv.symm ▸ hfits, rfl⟩

theorem decodeRow_of_typed
    {p s : ℕ} {cells : List (Option (List UInt8))}
    {values : List (Option DecimalArbValue)}
    (h : TypedColumn p s cells values) {i : ℕ}
    (hi : (if cells.length = 1 then 0 else i) < cells.length) :
    decodeRow cells i s = .ok (rowValue values i) ∧
      ∀ w, rowValue values i = some w → FitsAt p s w.value := by
  have hlength := h.length_eq
  obtain ⟨-, hrows⟩ := List.forall₂_iff_get.mp h
  have hi' : (if values.length = 1 then 0 else i) < values.length := by
    rw [← hlength]
    exact hi
  obtain ⟨hdecode, hfits⟩ := hrows _ hi (hlength ▸ hi)
  have hvalue : rowValue values i =
      values.get ⟨if cells.length = 1 then 0 else i, hlength ▸ hi⟩ := by
    simp only [rowValue, ← hlength]
    rw [List.getElem?_eq_getElem (hlength ▸ hi)]
    rfl
  rw [hvalue]
  refine ⟨?_, hfits⟩
  simp only [decodeRow, broadcastRow, List.getElem?_eq_getElem hi]
  have hget : cells[if cells.length = 1 then 0 else i] =
      cells.get ⟨if cells.length = 1 then 0 else i, hi⟩ := rfl
  rw [hget, hdecode]
  rfl

theorem broadcastRow_lt
    {left right i : ℕ} (hshape : Broadcasts left right)
    (hi : i < broadcastLen left right) :
    (if left = 1 then 0 else i) < left ∧
      (if right = 1 then 0 else i) < right := by
  unfold Broadcasts at hshape
  unfold broadcastLen at hi
  split_ifs at hi ⊢ <;> omega

/-- Row `i` of a binary function on typed columns. -/
theorem storedRow_iff
    (kind : BinaryOpKind) {p1 s1 p2 s2 : ℕ}
    {left right : List (Option (List UInt8))}
    {x y : List (Option DecimalArbValue)}
    (hp1 : s1 ≤ p1) (hp2 : s2 ≤ p2)
    (hx : TypedColumn p1 s1 left x) (hy : TypedColumn p2 s2 right y)
    (hshape : Broadcasts left.length right.length) {i : ℕ}
    (hi : i < broadcastLen left.length right.length)
    (cell : Option (List UInt8)) :
    (∃ v, binaryRow kind (binaryOp kind) s1 s2
        (outputPrecisionScale kind p1 s1 p2 s2).2 left right i = .ok v ∧
      Stores (outputPrecisionScale kind p1 s1 p2 s2).1
        (outputPrecisionScale kind p1 s1 p2 s2).2 v cell) ↔
      RowResult kind (outputPrecisionScale kind p1 s1 p2 s2) (rowValue x i)
        (rowValue y i) cell := by
  obtain ⟨hli, hri⟩ := broadcastRow_lt hshape hi
  obtain ⟨hleft, hleftFits⟩ := decodeRow_of_typed hx hli
  obtain ⟨hright, hrightFits⟩ := decodeRow_of_typed hy hri
  rcases hlhs : rowValue x i with _ | a
  · simp [binaryRow, hleft, hright, hlhs, RowResult, Stores, bind,
      Except.bind, pure, Except.pure]
  · rcases hrhs : rowValue y i with _ | b
    · simp [binaryRow, hleft, hright, hlhs, hrhs, RowResult, Stores, bind,
        Except.bind, pure, Except.pure]
    · exact binaryRow_spec (hleftFits a hlhs) (hrightFits b hrhs) hp1 hp2
        (hlhs ▸ hleft) (hrhs ▸ hright) cell

/-- Result types are valid.  A column is computed row by row: null for a null
operand, the exact result, for a quotient rounded once, where it fits, and an
error of the whole for a zero divisor or a result that does not fit.  Unless
the precision is capped every result fits, so that only zero divisors are
errors. -/
theorem decimal_arithmetic_closed
    (kind : BinaryOpKind) (column : String) (p1 s1 p2 s2 : ℕ)
    (h1 : validatePrecisionScale p1 s1 = .ok ())
    (h2 : validatePrecisionScale p2 s2 = .ok ()) :
    validatePrecisionScale (outputPrecisionScale kind p1 s1 p2 s2).1
        (outputPrecisionScale kind p1 s1 p2 s2).2 = .ok () ∧
      ∀ (left right : List (Option (List UInt8)))
        (x y : List (Option DecimalArbValue)),
        TypedColumn p1 s1 left x → TypedColumn p2 s2 right y →
        Broadcasts left.length right.length →
        (∀ out, invokeBinary kind (binaryOp kind) column p1 s1 p2 s2 left
            right = .ok out ↔
          (out.precision, out.scale) =
              outputPrecisionScale kind p1 s1 p2 s2 ∧
            List.Forall₂ (fun i cell =>
              RowResult kind (outputPrecisionScale kind p1 s1 p2 s2)
                (rowValue x i) (rowValue y i) cell)
              (List.range (broadcastLen left.length right.length))
              out.inner) ∧
        ((∃ e, invokeBinary kind (binaryOp kind) column p1 s1 p2 s2 left
            right = .error e) ↔
          ∃ i < broadcastLen left.length right.length,
            RowFails kind (outputPrecisionScale kind p1 s1 p2 s2)
              (rowValue x i) (rowValue y i)) ∧
        (neededPrecision kind p1 s1 p2 s2 ≤ maxPrecision →
          ((∃ e, invokeBinary kind (binaryOp kind) column p1 s1 p2 s2 left
              right = .error e) ↔
            ∃ i < broadcastLen left.length right.length,
              ∃ a b, rowValue x i = some a ∧ rowValue y i = some b ∧
                ZeroDivisor kind b.value)) := by
  have hvalid := outputPrecisionScale_valid kind h1 h2
  have hp1 := scale_le_of_validatePrecisionScale h1
  have hp2 := scale_le_of_validatePrecisionScale h2
  refine ⟨hvalid, ?_⟩
  intro left right x y hx hy hshape
  have hok (out : DecimalArbArray) :
      invokeBinary kind (binaryOp kind) column p1 s1 p2 s2 left right =
        .ok out ↔
      (out.precision, out.scale) = outputPrecisionScale kind p1 s1 p2 s2 ∧
        List.Forall₂ (fun i cell =>
          RowResult kind (outputPrecisionScale kind p1 s1 p2 s2)
            (rowValue x i) (rowValue y i) cell)
          (List.range (broadcastLen left.length right.length))
          out.inner := by
    have hinvoke : invokeBinary kind (binaryOp kind) column p1 s1 p2 s2 left
        right = buildRows .value column
          (outputPrecisionScale kind p1 s1 p2 s2).1
          (outputPrecisionScale kind p1 s1 p2 s2).2
          (binaryRow kind (binaryOp kind) s1 s2
            (outputPrecisionScale kind p1 s1 p2 s2).2 left right)
          (List.range (broadcastLen left.length right.length)) := rfl
    rw [hinvoke, buildRows_eq_ok_iff, Prod.ext_iff]
    have hrows : List.Forall₂ _ (List.range (broadcastLen left.length
        right.length)) out.inner ↔ List.Forall₂ _ _ _ :=
      ExceptLists.forall₂_congr_of_mem fun i hi cell =>
        storedRow_iff kind hp1 hp2 hx hy hshape
          (List.mem_range.mp hi) cell
    rw [hrows]
    simp only [hvalid, true_and, and_assoc]
  have herror : (∃ e, invokeBinary kind (binaryOp kind) column p1 s1 p2 s2
      left right = .error e) ↔
      ∃ i < broadcastLen left.length right.length,
        RowFails kind (outputPrecisionScale kind p1 s1 p2 s2)
          (rowValue x i) (rowValue y i) := by
    rw [ExceptLists.exists_error_iff]
    have hexists : (∃ out, invokeBinary kind (binaryOp kind) column p1 s1 p2
        s2 left right = .ok out) ↔
        ∀ i ∈ List.range (broadcastLen left.length right.length),
          ∃ cell, RowResult kind (outputPrecisionScale kind p1 s1 p2 s2)
            (rowValue x i) (rowValue y i) cell := by
      rw [← ExceptLists.exists_forall₂_iff]
      constructor
      · rintro ⟨out, hout⟩
        exact ⟨out.inner, ((hok out).mp hout).2⟩
      · rintro ⟨cells, hcells⟩
        exact ⟨⟨cells, _, _⟩, (hok _).mpr ⟨rfl, hcells⟩⟩
    rw [hexists]
    simp only [rowResult_total, List.mem_range]
    push Not
    rfl
  refine ⟨hok, herror, ?_⟩
  intro hneeded
  rw [herror]
  -- a result that does not fit needs the cap
  constructor
  · rintro ⟨i, hi, a, b, ha, hb, hzero | hnot⟩
    · exact ⟨i, hi, a, b, ha, hb, hzero⟩
    · obtain ⟨hli, hri⟩ := broadcastRow_lt hshape hi
      have hfitsA := (decodeRow_of_typed hx hli).2 a ha
      have hfitsB := (decodeRow_of_typed hy hri).2 b hb
      by_contra hall
      push Not at hall
      exact hnot (exactResult_fits hfitsA hfitsB hp1 hp2 hneeded
        (hall i hi a b ha hb))
  · rintro ⟨i, hi, a, b, ha, hb, hzero⟩
    exact ⟨i, hi, a, b, ha, hb, Or.inl hzero⟩

/-- A quotient by a scalar zero: the null row alone would be null, the other
one is an error. -/
theorem decimal_arithmetic_closed_zero :
    validatePrecisionScale (outputPrecisionScale .div 3 2 1 0).1
        (outputPrecisionScale .div 3 2 1 0).2 = .ok () ∧
      ∃ e, decimalArbDiv "q" 3 2 1 0 [none, some [0, 125]] [some [0]] =
        .error e := by
  obtain ⟨hvalid, hcolumns⟩ := decimal_arithmetic_closed .div "q" 3 2 1 0
    (by decide) (by decide)
  have hleft : TypedColumn 3 2 [none, some [0, 125]]
      [none, some (fromBigintAndScale 125 2)] := by
    refine .cons ⟨rfl, by simp⟩ (.cons ⟨rfl, ?_⟩ .nil)
    rintro w hw
    obtain rfl := Option.some.inj hw
    exact ⟨125, value_fromBigintAndScale_mul 125 2, by norm_num⟩
  have hright : TypedColumn 1 0 [some [0]] [some (fromBigintAndScale 0 0)] := by
    refine .cons ⟨rfl, ?_⟩ .nil
    rintro w hw
    obtain rfl := Option.some.inj hw
    exact ⟨0, value_fromBigintAndScale_mul 0 0, by norm_num⟩
  obtain ⟨-, -, hzero⟩ := hcolumns _ _ _ _ hleft hright
    (Or.inr (Or.inr rfl))
  refine ⟨hvalid, (hzero (by decide)).mpr ⟨1, by decide, _, _, rfl, rfl,
    Or.inl rfl, ?_⟩⟩
  exact BigDecimal.value_eq_zero_iff.mpr rfl

end Streamling
