import Mathlib
import Streamling.Support.HalfEven
import Streamling.Support.SignedWords
import Streamling.Types.DecimalArbArray

/-!
# Casts to and from fixed-width decimals

A `Decimal128` or `Decimal256` column stores signed words of 128 or 256 bits,
in units of its scale.  Widening decodes the words and appends their values;
narrowing rounds every value to the scale, half to even, puts the result in a
word and compares it with the power of ten of the precision.

What the array builder accepts as a precision and a scale is a parameter.
-/

namespace Streamling

/-! ## Words -/

abbrev I128 : Type := BitVec 128

abbrev ArrowI256 : Type := BitVec 256

def bigintToI128 (value : ℤ) : Option I128 :=
  BigEndian.toWord 16 128 value

def bigintToArrowI256 (value : ℤ) : Option ArrowI256 :=
  BigEndian.toWord 32 256 value

def i128FitsPrecision (value : I128) (precision : ℕ) : Bool :=
  let bound : I128 :=
    (fun bound => BigEndian.saturatingMul bound 10)^[precision] 1
  (-bound).slt value && value.slt bound

def arrowI256FitsPrecision (value : ArrowI256) (precision : ℕ) : Bool :=
  let bound : ArrowI256 := (fun bound => bound * 10)^[precision] 1
  (-bound).slt value && value.slt bound

/-! ## Casts -/

inductive DecimalKind where
  | decimal128
  | decimal256
  deriving DecidableEq, Repr

/-- The errors of narrowing, with what their texts mention. -/
inductive DecimalCastError where
  | precisionOutOfRange (kind : DecimalKind) (precision : ℕ)
      (column : String)
  | builderRejected (kind : DecimalKind) (precision : ℕ) (scale : ℤ)
      (column : String)
  | overflows (kind : DecimalKind) (value : BigDecimal) (column : String)
  | exceedsPrecision (kind : DecimalKind) (value : BigDecimal)
      (precision : ℕ) (column : String)
  | value (error : DecimalArbError)
  deriving DecidableEq, Repr

namespace DecimalArbArray

def fromDecimal128 (source : List (Option I128)) (sourceScale : ℤ)
    (targetPrecision targetScale : ℕ) (column : String) :
    Except DecimalArbError DecimalArbArray :=
  buildRows id column targetPrecision targetScale
    (fun cell => .ok (cell.map fun x =>
      DecimalArbValue.fromBigintAndScale x.toInt sourceScale)) source

/-- The words are read from their bytes. -/
def fromDecimal256 (source : List (Option ArrowI256)) (sourceScale : ℤ)
    (targetPrecision targetScale : ℕ) (column : String) :
    Except DecimalArbError DecimalArbArray :=
  buildRows id column targetPrecision targetScale
    (fun cell => .ok (cell.map fun x =>
      let bytes := BigEndian.toSignedBytes 32 x.toInt
      DecimalArbValue.fromBigintAndScale (BigEndian.ofSignedBytes bytes)
        sourceScale)) source

/-- One narrowed row. -/
def narrow {w : ℕ} (kind : DecimalKind) (convert : ℤ → Option (BitVec w))
    (fitsPrecision : BitVec w → ℕ → Bool) (scale : ℕ)
    (targetPrecision : ℕ) (targetScale : ℤ) (column : String)
    (cell : Option (List UInt8)) :
    Except DecimalCastError (Option (BitVec w)) := do
  match ← (decodeValue cell scale).mapError .value with
  | none => return none
  | some v =>
      let bigint := (v.bd.withScaleRound targetScale).digits
      match convert bigint with
      | none => throw (.overflows kind v.bd column)
      | some word =>
          if fitsPrecision word targetPrecision then return some word
          else throw (.exceedsPrecision kind v.bd targetPrecision column)

def toDecimal {w : ℕ} (kind : DecimalKind) (maximum : ℕ)
    (convert : ℤ → Option (BitVec w)) (fitsPrecision : BitVec w → ℕ → Bool)
    (accepts : ℕ → ℤ → Bool) (a : DecimalArbArray)
    (targetPrecision : ℕ) (targetScale : ℤ) (column : String) :
    Except DecimalCastError (List (Option (BitVec w))) :=
  if targetPrecision = 0 ∨ maximum < targetPrecision then
    .error (.precisionOutOfRange kind targetPrecision column)
  else if ¬ accepts targetPrecision targetScale then
    .error (.builderRejected kind targetPrecision targetScale column)
  else
    a.inner.mapM (narrow kind convert fitsPrecision a.scale targetPrecision
      targetScale column)

def toDecimal128 (accepts : ℕ → ℤ → Bool) (a : DecimalArbArray)
    (targetPrecision : ℕ) (targetScale : ℤ) (column : String) :
    Except DecimalCastError (List (Option I128)) :=
  toDecimal .decimal128 38 bigintToI128 i128FitsPrecision accepts a
    targetPrecision targetScale column

def toDecimal256 (accepts : ℕ → ℤ → Bool) (a : DecimalArbArray)
    (targetPrecision : ℕ) (targetScale : ℤ) (column : String) :
    Except DecimalCastError (List (Option ArrowI256)) :=
  toDecimal .decimal256 76 bigintToArrowI256 arrowI256FitsPrecision accepts a
    targetPrecision targetScale column

end DecimalArbArray

/-! ## Words of a precision -/

/-- Words hold the numbers below the powers of ten of the precisions, and the
comparison with the power of ten is exact. -/
structure ExactWords {w : ℕ} (maximum : ℕ) (convert : ℤ → Option (BitVec w))
    (fitsPrecision : BitVec w → ℕ → Bool) : Prop where
  value : ∀ i x, convert i = some x → x.toInt = i
  total : ∀ i p, p ≤ maximum → |i| < 10 ^ p → ∃ x, convert i = some x
  fits : ∀ x p, p ≤ maximum →
    (fitsPrecision x p = true ↔ |x.toInt| < 10 ^ p)

theorem natAbs_lt_of_abs_lt {i : ℤ} {n : ℕ} (h : |i| < n) : i.natAbs < n := by
  rw [← Int.natCast_natAbs] at h
  exact_mod_cast h

theorem abs_lt_of_precision_le
    {i : ℤ} {p maximum : ℕ} (hp : p ≤ maximum) (h : |i| < 10 ^ p) :
    |i| < 10 ^ maximum :=
  h.trans_le (pow_le_pow_right₀ (by norm_num) hp)

theorem pow_ten_lt
    {p maximum : ℕ} {bound : ℤ} (hp : p ≤ maximum)
    (h : (10 : ℤ) ^ maximum < bound) : (10 : ℤ) ^ p < bound :=
  (pow_le_pow_right₀ (by norm_num) hp).trans_lt h

theorem i128_exactWords :
    ExactWords 38 bigintToI128 i128FitsPrecision where
  value i := (BigEndian.toWord_spec i 15).1
  total i p hp h := by
    apply (BigEndian.toWord_spec i 15).2
    have hlt := natAbs_lt_of_abs_lt
      (n := 10 ^ 38) (by exact_mod_cast abs_lt_of_precision_le hp h)
    exact hlt.trans (by norm_num)
  fits x p hp := by
    have hbound : ((fun bound : I128 =>
        BigEndian.saturatingMul bound 10)^[p] 1).toInt = 10 ^ p := by
      apply BigEndian.toInt_iterate_ten rfl
      · intro y hnonneg hlt
        have hten : (10 : I128).toInt = 10 := rfl
        rw [← hten] at hlt ⊢
        apply BigEndian.toInt_saturatingMul
        rw [BigEndian.not_smulOverflow_iff]
        rw [hten] at hlt ⊢
        exact ⟨by omega, hlt⟩
      · exact pow_ten_lt hp (by norm_num)
    simp only [i128FitsPrecision]
    rw [BigEndian.slt_neg_and_slt_iff, hbound]
    rw [hbound]
    positivity

theorem i256_exactWords :
    ExactWords 76 bigintToArrowI256 arrowI256FitsPrecision where
  value i := (BigEndian.toWord_spec i 31).1
  total i p hp h := by
    apply (BigEndian.toWord_spec i 31).2
    have hlt := natAbs_lt_of_abs_lt
      (n := 10 ^ 76) (by exact_mod_cast abs_lt_of_precision_le hp h)
    exact hlt.trans (by norm_num)
  fits x p hp := by
    have hbound : ((fun bound : ArrowI256 => bound * 10)^[p] 1).toInt =
        10 ^ p := by
      apply BigEndian.toInt_iterate_ten rfl
      · intro y hnonneg hlt
        have hten : (10 : ArrowI256).toInt = 10 := rfl
        rw [← hten] at hlt ⊢
        apply BitVec.toInt_mul_of_not_smulOverflow
        rw [BigEndian.not_smulOverflow_iff]
        rw [hten] at hlt ⊢
        exact ⟨by omega, hlt⟩
      · exact pow_ten_lt hp (by norm_num)
    simp only [arrowI256FitsPrecision]
    rw [BigEndian.slt_neg_and_slt_iff, hbound]
    rw [hbound]
    positivity

/-! ## Narrowing -/

open DecimalArbValue HalfEven

/-- The row of a narrowed column: null for null, and otherwise the number of
units, rounded half to even, if that is below the power of ten. -/
def Narrowed {w : ℕ} (scale precision : ℕ) (targetScale : ℤ)
    (cell : Option (List UInt8)) (row : Option (BitVec w)) : Prop :=
  (cell = none ∧ row = none) ∨
    ∃ v x, decodeValue cell scale = .ok (some v) ∧ row = some x ∧
      x.toInt = roundHalfEven (v.value * (10 : ℚ) ^ targetScale) ∧
      |x.toInt| < 10 ^ precision

/-- Narrowing the row has a result. -/
def Narrowable (scale precision : ℕ) (targetScale : ℤ)
    (cell : Option (List UInt8)) : Prop :=
  cell = none ∨ ∃ v, decodeValue cell scale = .ok (some v) ∧
    |roundHalfEven (v.value * (10 : ℚ) ^ targetScale)| < 10 ^ precision

theorem decodeValue_eq_ok_none {cell : Option (List UInt8)} {scale : ℕ} :
    decodeValue cell scale = .ok none ↔ cell = none := by
  cases cell with
  | none => simp [decodeValue]
  | some bytes =>
      simp only [decodeValue, reduceCtorEq, iff_false]
      cases fromCanonicalBytesAtScale bytes scale <;>
        simp [bind, Except.bind, pure, Except.pure]

section Narrowing

variable {w maximum : ℕ} {convert : ℤ → Option (BitVec w)}
  {fitsPrecision : BitVec w → ℕ → Bool}

theorem narrow_eq_ok_iff
    (hwords : ExactWords maximum convert fitsPrecision)
    (kind : DecimalKind) (scale : ℕ) {precision : ℕ} (targetScale : ℤ)
    (column : String) (cell : Option (List UInt8)) (row : Option (BitVec w))
    (hprecision : precision ≤ maximum) :
    DecimalArbArray.narrow kind convert fitsPrecision scale precision
        targetScale column cell = .ok row ↔
      Narrowed scale precision targetScale cell row := by
  unfold DecimalArbArray.narrow Narrowed
  rcases hdecode : decodeValue cell scale with e | _ | v
  · have hsome : cell ≠ none := by
      rintro rfl
      simp [decodeValue] at hdecode
    simp [Except.mapError, bind, Except.bind, hsome]
  · have hnone := decodeValue_eq_ok_none.mp hdecode
    simp only [Except.mapError, bind, Except.bind, pure, Except.pure, hnone,
      Except.ok.injEq, true_and, reduceCtorEq, false_and, exists_const]
    rw [or_iff_left (by rintro ⟨_, h⟩; exact h)]
    exact eq_comm
  · have hsome : cell ≠ none := by
      rintro rfl
      simp [decodeValue] at hdecode
    have hround := BigDecimal.digits_withScaleRound_eq v.bd targetScale
    simp only [Except.mapError, bind, Except.bind, pure, Except.pure, hsome,
      false_and, false_or, Except.ok.injEq, Option.some.injEq]
    rw [hround]
    cases hconvert : convert
        (roundHalfEven (v.bd.value * (10 : ℚ) ^ targetScale)) with
    | none =>
        simp only [throw, throwThe, MonadExceptOf.throw, reduceCtorEq,
          false_iff]
        rintro ⟨u, x, rfl, -, hx, hlt⟩
        rw [hx] at hlt
        obtain ⟨y, hy⟩ := hwords.total _ precision hprecision hlt
        rw [value, hconvert] at hy
        simp at hy
    | some x =>
        have hvalue := hwords.value _ x hconvert
        have hfits := hwords.fits x precision hprecision
        by_cases hlt : |x.toInt| < 10 ^ precision
        · simp only [hfits.mpr hlt, if_true, Except.ok.injEq]
          constructor
          · rintro rfl
            exact ⟨v, x, rfl, rfl, hvalue, hlt⟩
          · rintro ⟨u, y, rfl, rfl, hy, -⟩
            rw [BitVec.eq_of_toInt_eq (hvalue.trans hy.symm)]
        · simp only [mt hfits.mp hlt, Bool.false_eq_true, if_false, throw,
            throwThe, MonadExceptOf.throw, reduceCtorEq, false_iff]
          rintro ⟨u, y, rfl, -, hy, hlt'⟩
          rw [hy] at hlt'
          rw [hvalue] at hlt
          exact hlt hlt'

theorem exists_narrowed_iff
    (hwords : ExactWords maximum convert fitsPrecision)
    {scale precision : ℕ} {targetScale : ℤ} {cell : Option (List UInt8)}
    (hprecision : precision ≤ maximum) :
    (∃ row : Option (BitVec w),
      Narrowed scale precision targetScale cell row) ↔
      Narrowable scale precision targetScale cell := by
  constructor
  · rintro ⟨row, ⟨hcell, -⟩ | ⟨v, x, hv, -, hx, hlt⟩⟩
    · exact Or.inl hcell
    · exact Or.inr ⟨v, hv, hx ▸ hlt⟩
  · rintro (hcell | ⟨v, hv, hlt⟩)
    · exact ⟨none, Or.inl ⟨hcell, rfl⟩⟩
    · obtain ⟨x, hx⟩ := hwords.total _ precision hprecision hlt
      have hvalue := hwords.value _ x hx
      exact ⟨some x, Or.inr ⟨v, x, hv, rfl, hvalue, hvalue ▸ hlt⟩⟩

/-- An array is narrowed row by row, and fails if a row does not narrow. -/
theorem toDecimal_spec
    (hwords : ExactWords maximum convert fitsPrecision)
    {kind : DecimalKind} {accepts : ℕ → ℤ → Bool} {a : DecimalArbArray}
    {precision : ℕ} {targetScale : ℤ} {column : String}
    (hpos : 1 ≤ precision) (hprecision : precision ≤ maximum)
    (haccepts : accepts precision targetScale = true) :
    (∀ out, DecimalArbArray.toDecimal kind maximum convert fitsPrecision
        accepts a precision targetScale column = .ok out ↔
        List.Forall₂ (Narrowed a.scale precision targetScale) a.inner out) ∧
      ((∃ e, DecimalArbArray.toDecimal kind maximum convert fitsPrecision
        accepts a precision targetScale column = .error e) ↔
        ∃ cell ∈ a.inner,
          ¬ Narrowable a.scale precision targetScale cell) := by
  have hloop : DecimalArbArray.toDecimal kind maximum convert fitsPrecision
      accepts a precision targetScale column =
      a.inner.mapM (DecimalArbArray.narrow kind convert fitsPrecision a.scale
        precision targetScale column) := by
    rw [DecimalArbArray.toDecimal, if_neg (by omega),
      if_neg (by simp [haccepts])]
  have hrow (cell : Option (List UInt8)) (row : Option (BitVec w)) :=
    narrow_eq_ok_iff hwords kind a.scale targetScale column cell row
      hprecision
  constructor
  · intro out
    simp only [hloop, ExceptLists.mapM_eq_ok_iff, hrow]
  · have hexists : (∃ rows, a.inner.mapM (DecimalArbArray.narrow kind convert
        fitsPrecision a.scale precision targetScale column) = .ok rows) ↔ _ :=
      ExceptLists.exists_mapM_eq_ok_iff
    simp only [hrow, exists_narrowed_iff hwords hprecision] at hexists
    rw [hloop]
    cases hresult : a.inner.mapM (DecimalArbArray.narrow kind convert
        fitsPrecision a.scale precision targetScale column) with
    | error e =>
        have hnot := mt hexists.mpr (by simp [hresult])
        push Not at hnot
        exact ⟨fun _ => hnot, fun _ => ⟨e, rfl⟩⟩
    | ok out =>
        have hall := hexists.mp ⟨out, hresult⟩
        constructor
        · rintro ⟨e, he⟩
          simp at he
        · rintro ⟨cell, hmem, hnot⟩
          exact absurd (hall cell hmem) hnot

end Narrowing

/-! ## Widening and narrowing again -/

theorem ofSignedBytes_word (x : ArrowI256) :
    BigEndian.ofSignedBytes (BigEndian.toSignedBytes 32 x.toInt) =
      x.toInt := by
  have hlength := BigEndian.length_toSignedBytes 32 x.toInt
  have hlow := BitVec.le_toInt x
  have hhigh := BitVec.toInt_lt (x := x)
  apply BigEndian.eq_of_modEq_of_bounds
    (BigEndian.ofSignedBytes_bounds (k := 31) hlength)
  · norm_num at hlow hhigh ⊢
    omega
  · have hmod := BigEndian.ofSignedBytes_modEq
      (BigEndian.toSignedBytes 32 x.toInt)
    rw [hlength] at hmod
    exact hmod.trans (BigEndian.ofBytes_toSignedBytes_modEq 32 x.toInt)

theorem fromDecimal256_eq
    (source : List (Option ArrowI256)) (sourceScale : ℤ)
    (targetPrecision targetScale : ℕ) (column : String) :
    DecimalArbArray.fromDecimal256 source sourceScale targetPrecision
        targetScale column =
      buildRows id column targetPrecision targetScale
        (fun cell => .ok (cell.map fun x =>
          fromBigintAndScale x.toInt sourceScale)) source := by
  simp only [DecimalArbArray.fromDecimal256, ofSignedBytes_word]

/-- Words within the precision are stored, and their rows narrow to them. -/
theorem widened_narrows
    {w : ℕ} {source : List (Option (BitVec w))} {precision scale : ℕ}
    (column : String)
    (hvalid : validatePrecisionScale precision scale = .ok ())
    (hrange : ∀ x, some x ∈ source → |x.toInt| < 10 ^ precision) :
    ∃ a, buildRows id column precision scale
        (fun cell : Option (BitVec w) => .ok (cell.map fun x =>
          fromBigintAndScale x.toInt scale)) source = .ok a ∧
      List.Forall₂ (Narrowed a.scale precision scale) a.inner source := by
  have hfits {x : BitVec w} (hx : some x ∈ source) :
      FitsAt precision scale (fromBigintAndScale x.toInt scale).value :=
    ⟨x.toInt, value_fromBigintAndScale_mul x.toInt scale, hrange x hx⟩
  refine ⟨⟨source.map fun cell => cell.map fun x =>
    (fromBigintAndScale x.toInt scale).toCanonicalBytesAtScale scale,
    precision, scale⟩, ?_, ?_⟩
  · rw [buildRows_eq_ok_iff]
    refine ⟨hvalid, rfl, rfl, ?_⟩
    rw [List.forall₂_map_right_iff, List.forall₂_same]
    intro cell hcell
    refine ⟨_, rfl, ?_⟩
    rcases cell with _ | x
    · exact Eq.refl none
    · exact ⟨hfits hcell, rfl⟩
  · rw [List.forall₂_map_left_iff, List.forall₂_same]
    intro cell hcell
    rcases cell with _ | x
    · exact Or.inl ⟨rfl, rfl⟩
    · obtain ⟨v, hv, hvalue⟩ := decodeValue_of_fits (hfits hcell)
      refine Or.inr ⟨v, x, hv, rfl, ?_, hrange x hcell⟩
      rw [hvalue, value_fromBigintAndScale_mul, roundHalfEven_intCast]

/-- What fits a precision and a scale is decided exactly; narrowing rounds
half to even and fails only for a row that does not fit; and an array of words
within the precision is found again after widening. -/
theorem decimal_narrowing_exact
    (accepts128 accepts256 : ℕ → ℤ → Bool) :
    (∀ (v : DecimalArbValue) (precision scale : ℕ) (column : String),
      validatePrecisionScale precision scale = .ok () →
      (v.checkFits precision scale column = .ok () ↔
        ∃ m : ℤ, v.value * (10 : ℚ) ^ (scale : ℤ) = m ∧
          |m| < 10 ^ precision)) ∧
    (∀ (a : DecimalArbArray) (precision : ℕ) (scale : ℤ) (column : String),
      1 ≤ precision → precision ≤ 38 → accepts128 precision scale = true →
      (∀ out, a.toDecimal128 accepts128 precision scale column = .ok out ↔
        List.Forall₂ (Narrowed a.scale precision scale) a.inner out) ∧
      ((∃ e, a.toDecimal128 accepts128 precision scale column = .error e) ↔
        ∃ cell ∈ a.inner, ¬ Narrowable a.scale precision scale cell)) ∧
    (∀ (a : DecimalArbArray) (precision : ℕ) (scale : ℤ) (column : String),
      1 ≤ precision → precision ≤ 76 → accepts256 precision scale = true →
      (∀ out, a.toDecimal256 accepts256 precision scale column = .ok out ↔
        List.Forall₂ (Narrowed a.scale precision scale) a.inner out) ∧
      ((∃ e, a.toDecimal256 accepts256 precision scale column = .error e) ↔
        ∃ cell ∈ a.inner, ¬ Narrowable a.scale precision scale cell)) ∧
    (∀ (source : List (Option I128)) (precision scale : ℕ) (column : String),
      1 ≤ precision → precision ≤ 38 → scale ≤ precision →
      accepts128 precision scale = true →
      (∀ x, some x ∈ source → |x.toInt| < 10 ^ precision) →
      ∃ a, DecimalArbArray.fromDecimal128 source scale precision scale
          column = .ok a ∧
        a.toDecimal128 accepts128 precision scale column = .ok source) ∧
    ∀ (source : List (Option ArrowI256)) (precision scale : ℕ)
      (column : String),
      1 ≤ precision → precision ≤ 76 → scale ≤ precision →
      accepts256 precision scale = true →
      (∀ x, some x ∈ source → |x.toInt| < 10 ^ precision) →
      ∃ a, DecimalArbArray.fromDecimal256 source scale precision scale
          column = .ok a ∧
        a.toDecimal256 accepts256 precision scale column = .ok source := by
  have hvalid {precision scale maximum : ℕ} (hpos : 1 ≤ precision)
      (hmaximum : maximum ≤ maxPrecision) (hle : precision ≤ maximum)
      (hscale : scale ≤ precision) :
      validatePrecisionScale precision scale = .ok () :=
    validatePrecisionScale_eq_ok_iff.mpr
      ⟨hpos, hle.trans hmaximum, hscale⟩
  refine ⟨?_, ?_, ?_, ?_, ?_⟩
  · intro v precision scale column hps
    rw [checkFits_eq_ok_iff]
    exact and_iff_right hps
  · intro a precision scale column hpos hle haccepts
    exact toDecimal_spec i128_exactWords hpos hle haccepts
  · intro a precision scale column hpos hle haccepts
    exact toDecimal_spec i256_exactWords hpos hle haccepts
  · intro source precision scale column hpos hle hscale haccepts hrange
    obtain ⟨a, ha, hrows⟩ := widened_narrows column
      (hvalid hpos (by decide) hle hscale) hrange
    exact ⟨a, ha, ((toDecimal_spec i128_exactWords hpos hle
      haccepts).1 source).mpr hrows⟩
  · intro source precision scale column hpos hle hscale haccepts hrange
    obtain ⟨a, ha, hrows⟩ := widened_narrows column
      (hvalid hpos (by decide) hle hscale) hrange
    exact ⟨a, (fromDecimal256_eq _ _ _ _ _).trans ha,
      ((toDecimal_spec i256_exactWords hpos hle haccepts).1 source).mpr
        hrows⟩

/-- The precisions and scales that Arrow accepts up to a maximum. -/
def arrowAccepts (maximum precision : ℕ) (scale : ℤ) : Bool :=
  1 ≤ precision && precision ≤ maximum && scale ≤ maximum &&
    (scale ≤ 0 || scale ≤ precision)

/-- A value that fits, a tie that is narrowed to the even neighbour, and a
column with a null. -/
theorem decimal_narrowing_exact_tie :
    (fromBigintAndScale 125 2).checkFits 3 2 "v" = .ok () ∧
      (∀ out, DecimalArbArray.toDecimal128 (arrowAccepts 38)
          ⟨[some [0, 125], none], 3, 2⟩ 2 1 "v" = .ok out ↔
        List.Forall₂ (Narrowed 2 2 1) [some [0, 125], none] out) ∧
      ∃ a, DecimalArbArray.fromDecimal256 [some 7, none] 1 2 1 "v" = .ok a ∧
        a.toDecimal256 (arrowAccepts 76) 2 1 "v" = .ok [some 7, none] := by
  have hall := decimal_narrowing_exact (arrowAccepts 38) (arrowAccepts 76)
  refine ⟨?_, ?_, ?_⟩
  · exact (hall.1 _ 3 2 "v" (by decide)).mpr ⟨125,
      value_fromBigintAndScale_mul 125 2, by norm_num⟩
  · exact (hall.2.1 ⟨[some [0, 125], none], 3, 2⟩ 2 1 "v" (by norm_num)
      (by norm_num) (by decide)).1
  · refine hall.2.2.2.2 [some 7, none] 2 1 "v" (by norm_num) (by norm_num)
      (by norm_num) (by decide) ?_
    intro x hx
    obtain rfl : x = 7 := by simpa using hx
    decide

end Streamling
