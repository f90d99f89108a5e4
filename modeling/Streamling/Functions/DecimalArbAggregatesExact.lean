import Mathlib
import Streamling.Functions.DecimalArbPartials

/-!
# Aggregates do not depend on partitions

Whatever tree of accumulators the rows are spread over, the outcome is that of
one accumulator fed all of them: null if there is no value, the exact result
if it fits the declared type, and else an error.  Only an average can stop
earlier, at a partial sum that does not fit the type of the sum.
-/

namespace Streamling

open PartialFolds DecimalArbValue HalfEven

/-! ## Numbers -/

/-- The number that a cell stores in a column of the scale. -/
def numberOf (scale : ℕ) (cell : Cell) : Option ℚ :=
  ((decodeValue cell scale).toOption.join).map value

/-- The numbers of the rows that are not null. -/
def numbers (scale : ℕ) (rows : Multiset Cell) : Multiset ℚ :=
  rows.filterMap (numberOf scale)

/-- The number of some units of a scale. -/
def ofUnits (scale : ℕ) (u : ℤ) : ℚ :=
  u * (10 : ℚ) ^ (-(scale : ℤ))

theorem ofUnits_injective (scale : ℕ) : Function.Injective (ofUnits scale) := by
  intro u w h
  have hpow : (10 : ℚ) ^ (-(scale : ℤ)) ≠ 0 := zpow_ne_zero _ (by norm_num)
  exact_mod_cast mul_right_cancel₀ hpow h

theorem ofUnits_le {scale : ℕ} {u w : ℤ} :
    ofUnits scale u ≤ ofUnits scale w ↔ u ≤ w := by
  have hpow : (0 : ℚ) < (10 : ℚ) ^ (-(scale : ℤ)) := by positivity
  rw [ofUnits, ofUnits, mul_le_mul_iff_left₀ hpow, Int.cast_le]

theorem value_mk_units (scale : ℕ) (u : ℤ) :
    BigDecimal.value ⟨u, scale⟩ = ofUnits scale u := rfl

theorem numberOf_eq
    {cell : Cell} (h : Canonical cell) (scale : ℕ) :
    numberOf scale cell = (unitOf cell).map (ofUnits scale) := by
  rcases canonical_cases h with rfl | ⟨u, rfl⟩
  · rfl
  · rw [numberOf, decodeValue_encodeDigits, unitOf_encodeDigits]
    have hvalue : (fromBigintAndScale u scale).value = ofUnits scale u := by
      rw [fromBigintAndScale, value_canonicalize, value_mk_units]
    exact congrArg some hvalue

theorem numbers_eq
    {rows : Multiset Cell} (h : ∀ cell ∈ rows, Canonical cell) (scale : ℕ) :
    numbers scale rows = (units rows).map (ofUnits scale) := by
  obtain ⟨cells, rfl⟩ := Quot.exists_rep rows
  show Multiset.ofList (cells.filterMap (numberOf scale)) =
    Multiset.ofList ((cells.filterMap unitOf).map (ofUnits scale))
  rw [List.map_filterMap]
  apply congrArg Multiset.ofList
  apply List.filterMap_congr
  intro cell hcell
  exact numberOf_eq (h cell hcell) scale

theorem sum_map_ofUnits (scale : ℕ) (us : Multiset ℤ) :
    (us.map (ofUnits scale)).sum = ofUnits scale us.sum := by
  induction us using Multiset.induction with
  | empty => simp [ofUnits]
  | cons u us ih =>
      rw [Multiset.map_cons, Multiset.sum_cons, ih, Multiset.sum_cons]
      simp only [ofUnits]
      push_cast
      ring

/-! ## What an aggregate is -/

/-- The mean of numbers, rounded half to even at a scale. -/
def IsMean (scale : ℕ) (xs : Multiset ℚ) (x : ℚ) : Prop :=
  x * (10 : ℚ) ^ (scale : ℤ) =
    roundHalfEven (xs.sum / xs.card * (10 : ℚ) ^ (scale : ℤ))

/-- The number is the aggregate of the numbers, at the scale of the result. -/
def Aggregate.Of (aggregate : Aggregate) (scale : ℕ) (xs : Multiset ℚ)
    (x : ℚ) : Prop :=
  match aggregate with
  | .sum => x = xs.sum
  | .avg => IsMean scale xs x
  | .extreme .min => x ∈ xs ∧ ∀ y ∈ xs, x ≤ y
  | .extreme .max => x ∈ xs ∧ ∀ y ∈ xs, y ≤ x
  | .sumDistinct => x = xs.dedup.sum
  | .avgDistinct => IsMean scale xs.dedup x

/-- The outcome is null for no number, and else the aggregate, if it fits the
type. -/
def Aggregate.Meets (aggregate : Aggregate) (precision scale : ℕ)
    (xs : Multiset ℚ) (outcome : Except DecimalArbError Cell) : Prop :=
  (xs = 0 → outcome = .ok none) ∧
  (xs ≠ 0 → ∃ x, (∀ y, aggregate.Of scale xs y ↔ y = x) ∧
    (FitsAt precision scale x → ∀ v : DecimalArbValue, v.value = x →
      outcome = .ok (some (v.toCanonicalBytesAtScale scale))) ∧
    (¬ FitsAt precision scale x → ∃ e, outcome = .error e))

theorem encodeChecked_spec
    {precision scale : ℕ}
    (hvalid : validatePrecisionScale precision scale = .ok ())
    (d : BigDecimal) (column : String) :
    (FitsAt precision scale d.value → ∀ v : DecimalArbValue,
      v.value = d.value → encodeChecked d precision scale column =
        .ok (some (v.toCanonicalBytesAtScale scale))) ∧
    (¬ FitsAt precision scale d.value →
      ∃ e, encodeChecked d precision scale column = .error e) := by
  have hvalue : (fromBigdecimal d).value = d.value := value_canonicalize d
  have hcheck := checkFits_eq_ok_iff (fromBigdecimal d) precision scale column
  rw [hvalue] at hcheck
  constructor
  · intro hfits v hv
    have hok := hcheck.mpr ⟨hvalid, hfits⟩
    rw [← hvalue] at hfits hv
    simp only [encodeChecked, hok, bind, Except.bind,
      toCanonicalBytesAtScale_congr hfits hv.symm]
    rfl
  · intro hfits
    cases hchecked : (fromBigdecimal d).checkFits precision scale column with
    | ok _ =>
        rw [hchecked] at hcheck
        exact absurd (hcheck.mp rfl).2 hfits
    | error e =>
        refine ⟨e, ?_⟩
        simp only [encodeChecked, hchecked, bind, Except.bind]

/-- A summary of units that is checked and encoded. -/
theorem meets_encodeUnit
    {aggregate : Aggregate} {precision outScale scale : ℕ}
    (hvalid : validatePrecisionScale precision outScale = .ok ())
    {us : Multiset ℤ} {summary : Option ℤ} {column : String}
    (hnone : us = 0 → summary = none)
    (hsome : us ≠ 0 → ∃ u, summary = some u ∧
      ∀ y, aggregate.Of outScale (us.map (ofUnits scale)) y ↔
        y = ofUnits scale u) :
    aggregate.Meets precision outScale (us.map (ofUnits scale))
      (encodeUnit summary scale precision outScale column) := by
  constructor
  · intro hzero
    rw [hnone (Multiset.map_eq_zero.mp hzero)]
    rfl
  · intro hne
    obtain ⟨u, rfl, hof⟩ := hsome (mt Multiset.map_eq_zero.mpr hne)
    exact ⟨ofUnits scale u, hof, encodeChecked_spec hvalid ⟨u, scale⟩ column⟩

/-- A quotient of a sum and a count, checked and encoded. -/
theorem mean_spec
    (scale : ℕ) {precision outScale : ℕ}
    (hvalid : validatePrecisionScale precision outScale = .ok ())
    {us : Multiset ℤ} (hne : us ≠ 0) :
    ∃ x, (∀ y, IsMean outScale (us.map (ofUnits scale)) y ↔ y = x) ∧
      (FitsAt precision outScale x → ∀ v : DecimalArbValue, v.value = x →
        encodeChecked (BigDecimal.exactDivAtScale ⟨us.sum, scale⟩
          ⟨us.card, 0⟩ outScale) precision outScale "avg" =
          .ok (some (v.toCanonicalBytesAtScale outScale))) ∧
      (¬ FitsAt precision outScale x →
        ∃ e, encodeChecked (BigDecimal.exactDivAtScale ⟨us.sum, scale⟩
          ⟨us.card, 0⟩ outScale) precision outScale "avg" = .error e) := by
  have hcount : (us.card : ℤ) ≠ 0 := by
    rw [Int.natCast_ne_zero, ne_eq, Multiset.card_eq_zero]
    exact hne
  set quotient := BigDecimal.exactDivAtScale ⟨us.sum, scale⟩ ⟨us.card, 0⟩
    outScale with hquotient
  have hdigits := BigDecimal.digits_exactDivAtScale ⟨us.sum, scale⟩
    ⟨us.card, 0⟩ outScale hcount
  have hvalue : quotient.value * (10 : ℚ) ^ (outScale : ℤ) =
      quotient.digits := by
    rw [BigDecimal.value_mul_zpow, hquotient,
      BigDecimal.scale_exactDivAtScale, sub_self, zpow_zero, mul_one]
  have hmean : IsMean outScale (us.map (ofUnits scale)) quotient.value := by
    rw [IsMean, hvalue, hquotient, hdigits, sum_map_ofUnits,
      Multiset.card_map, value_mk_units]
    simp [BigDecimal.value]
  refine ⟨quotient.value, ?_, encodeChecked_spec hvalid quotient "avg"⟩
  intro y
  constructor
  · intro hy
    have hpow : (10 : ℚ) ^ (outScale : ℤ) ≠ 0 :=
      zpow_ne_zero _ (by norm_num)
    exact mul_right_cancel₀ hpow (hy.trans hmean.symm)
  · rintro rfl
    exact hmean

/-! ## The aggregates -/

theorem sumOutputPrecisionScale_valid
    {p s : ℕ} (h : validatePrecisionScale p s = .ok ()) :
    validatePrecisionScale (sumOutputPrecisionScale p s).1 s = .ok () := by
  rw [validatePrecisionScale_eq_ok_iff] at h ⊢
  simp only [sumOutputPrecisionScale, sumPrecisionHeadroom, maxPrecision] at *
  omega

theorem avgOutputPrecisionScale_valid
    {p s : ℕ} (h : validatePrecisionScale p s = .ok ()) :
    validatePrecisionScale (avgOutputPrecisionScale p s).1
      (avgOutputPrecisionScale p s).2 = .ok () := by
  rw [validatePrecisionScale_eq_ok_iff] at h ⊢
  simp only [avgOutputPrecisionScale, maxPrecision] at *
  omega

/-- What an aggregate does: its result, as a function of the rows, and which
rows a state can be sent for. -/
structure Aggregate.Computes (aggregate : Aggregate) (p s : ℕ)
    (Fits : Multiset Cell → Prop) where
  result : Multiset Cell → Except DecimalArbError Cell
  summarizes : (aggregate.accumulator p s).Summarizes Canonical Fits result
  meets : ∀ rows : Multiset Cell, (∀ cell ∈ rows, Canonical cell) →
    (aggregate = .avg → (numbers s rows).card < 2 ^ 63) →
    aggregate.Meets (aggregate.outputPrecisionScale p s).1
      (aggregate.outputPrecisionScale p s).2 (numbers s rows) (result rows)

theorem dedup_map_ofUnits (scale : ℕ) (us : Multiset ℤ) :
    (us.map (ofUnits scale)).dedup = us.dedup.map (ofUnits scale) :=
  Multiset.dedup_map_of_injective (ofUnits_injective scale) us

def sumComputes {p s : ℕ} (hvalid : validatePrecisionScale p s = .ok ()) :
    Aggregate.sum.Computes p s fun _ => True where
  result := _
  summarizes := sumSummarizes p s
  meets := by
    intro rows hrows _
    rw [numbers_eq hrows]
    apply meets_encodeUnit (sumOutputPrecisionScale_valid hvalid)
    · exact total_eq_none.mpr
    · intro hne
      refine ⟨_, total_eq_some.mpr ⟨hne, rfl⟩, fun y => ?_⟩
      rw [Aggregate.Of, sum_map_ofUnits]

def distinctSumComputes {p s : ℕ}
    (hvalid : validatePrecisionScale p s = .ok ()) :
    Aggregate.sumDistinct.Computes p s fun _ => True where
  result := _
  summarizes := distinctSumSummarizes p s
  meets := by
    intro rows hrows _
    rw [numbers_eq hrows]
    apply meets_encodeUnit (sumOutputPrecisionScale_valid hvalid)
    · intro hzero
      rw [hzero]
      rfl
    · intro hne
      refine ⟨_, total_eq_some.mpr ⟨mt dedup_eq_zero.mp hne, rfl⟩,
        fun y => ?_⟩
      rw [Aggregate.Of, dedup_map_ofUnits, sum_map_ofUnits]

theorem extreme_of_iff
    (kind : Extreme) (outScale scale : ℕ) {us : Multiset ℤ} {u : ℤ}
    (hu : extremeOf kind us = some u) (y : ℚ) :
    (Aggregate.extreme kind).Of outScale (us.map (ofUnits scale)) y ↔
      y = ofUnits scale u := by
  obtain ⟨hmem, hbounds⟩ := extremeOf_eq_some.mp hu
  have hmap : ofUnits scale u ∈ us.map (ofUnits scale) :=
    Multiset.mem_map_of_mem _ hmem
  have hof : (Aggregate.extreme kind).Of outScale (us.map (ofUnits scale))
      (ofUnits scale u) := by
    cases kind with
    | min =>
        refine ⟨hmap, fun z hz => ?_⟩
        obtain ⟨w, hw, rfl⟩ := Multiset.mem_map.mp hz
        exact ofUnits_le.mpr (hbounds w hw)
    | max =>
        refine ⟨hmap, fun z hz => ?_⟩
        obtain ⟨w, hw, rfl⟩ := Multiset.mem_map.mp hz
        exact ofUnits_le.mpr (hbounds w hw)
  constructor
  · intro hy
    cases kind with
    | min => exact le_antisymm (hy.2 _ hmap) (hof.2 y hy.1)
    | max => exact le_antisymm (hof.2 y hy.1) (hy.2 _ hmap)
  · rintro rfl
    exact hof

def extremeComputes (kind : Extreme) {p s : ℕ}
    (hvalid : validatePrecisionScale p s = .ok ()) :
    (Aggregate.extreme kind).Computes p s fun _ => True where
  result := _
  summarizes := extremeSummarizes kind p s
  meets := by
    intro rows hrows _
    rw [numbers_eq hrows]
    apply meets_encodeUnit hvalid
    · exact extremeOf_eq_none.mpr
    · intro hne
      cases hextreme : extremeOf kind (units rows) with
      | none => exact absurd (extremeOf_eq_none.mp hextreme) hne
      | some u => exact ⟨u, rfl, extreme_of_iff kind _ s hextreme⟩

def avgComputes {p s : ℕ} (hvalid : validatePrecisionScale p s = .ok ()) :
    Aggregate.avg.Computes p s (SumFits p s) where
  result := _
  summarizes := avgSummarizes p s
  meets := by
    intro rows hrows hcard
    have hcard := hcard rfl
    rw [numbers_eq hrows] at hcard ⊢
    rw [Multiset.card_map] at hcard
    have hwrap : wrapI64 (units rows).card = (units rows).card :=
      wrapI64_of_lt (Int.natCast_nonneg _) (by exact_mod_cast hcard)
    rw [avgUnits, hwrap]
    constructor
    · intro hzero
      rw [Multiset.map_eq_zero.mp hzero, Multiset.card_zero]
      rfl
    · intro hne
      have hne := mt Multiset.map_eq_zero.mpr hne
      have hcount : ((units rows).card : ℤ) ≠ 0 := by
        rw [Int.natCast_ne_zero, ne_eq, Multiset.card_eq_zero]
        exact hne
      rw [if_neg hcount]
      exact mean_spec s (avgOutputPrecisionScale_valid hvalid) hne

def distinctAvgComputes {p s : ℕ}
    (hvalid : validatePrecisionScale p s = .ok ()) :
    Aggregate.avgDistinct.Computes p s fun _ => True where
  result := _
  summarizes := distinctAvgSummarizes p s
  meets := by
    intro rows hrows _
    rw [numbers_eq hrows]
    constructor
    · intro hzero
      rw [if_pos (dedup_eq_zero.mpr (Multiset.map_eq_zero.mp hzero))]
    · intro hne
      have hne := mt dedup_eq_zero.mp (mt Multiset.map_eq_zero.mpr hne)
      rw [if_neg hne]
      have hmean := mean_spec s (avgOutputPrecisionScale_valid hvalid) hne
      rw [← dedup_map_ofUnits] at hmean
      exact hmean

/-- The state of an average is sent only if its sum fits the type of the sum;
that of every other aggregate always. -/
def Aggregate.Sendable (aggregate : Aggregate) (p s : ℕ)
    (rows : Multiset Cell) : Prop :=
  aggregate = .avg →
    FitsAt (sumOutputPrecisionScale p s).1 s (numbers s rows).sum

theorem sumFits_iff
    {p s : ℕ} (hvalid : validatePrecisionScale p s = .ok ())
    {rows : Multiset Cell} (hrows : ∀ cell ∈ rows, Canonical cell) :
    SumFits p s rows ↔ Aggregate.avg.Sendable p s rows := by
  have hspec := encodeChecked_spec (sumOutputPrecisionScale_valid hvalid)
    ⟨(units rows).sum, s⟩ "avg_sum"
  rw [Aggregate.Sendable, numbers_eq hrows, sum_map_ofUnits]
  constructor
  · rintro ⟨cell, hcell⟩ -
    by_contra hnot
    obtain ⟨e, he⟩ := hspec.2 hnot
    rw [he] at hcell
    cases hcell
  · intro hfits
    exact ⟨_, hspec.1 (hfits rfl) _ (value_canonicalize _)⟩

theorem Aggregate.Computes.outcome_spec
    {aggregate : Aggregate} {p s : ℕ} {Fits : Multiset Cell → Prop}
    (h : aggregate.Computes p s Fits)
    (hfits : ∀ rows : Multiset Cell, (∀ cell ∈ rows, Canonical cell) →
      (Fits rows ↔ aggregate.Sendable p s rows))
    {feed : Feed Cell} (hrows : ∀ cell ∈ feed.rows, Canonical cell)
    (order : ℕ) :
    (feed.AllSent (aggregate.Sendable p s) →
      (∀ batches order', (batches.flatten : Multiset Cell) = feed.rows →
        (aggregate.accumulator p s).outcome feed order =
          (aggregate.accumulator p s).outcome (single batches) order') ∧
      ((aggregate = .avg → (numbers s feed.rows).card < 2 ^ 63) →
        aggregate.Meets (aggregate.outputPrecisionScale p s).1
          (aggregate.outputPrecisionScale p s).2 (numbers s feed.rows)
          ((aggregate.accumulator p s).outcome feed order))) ∧
    (¬ feed.AllSent (aggregate.Sendable p s) →
      ∃ e, (aggregate.accumulator p s).outcome feed order = .error e) := by
  obtain ⟨hok, herror⟩ := h.summarizes.outcome_eq hrows order
  rw [← allSent_congr hfits feed hrows]
  refine ⟨fun hsent => ⟨?_, ?_⟩, herror⟩
  · intro batches order' hbatches
    rw [← rows_single] at hbatches
    have hvalid : ∀ cell ∈ (single batches).rows, Canonical cell := by
      rw [hbatches]
      exact hrows
    rw [hok hsent, (h.summarizes.outcome_eq hvalid order').1
      (allSent_single Fits batches), hbatches]
  · intro hcard
    rw [hok hsent]
    exact h.meets feed.rows hrows hcard

/-- For every aggregate over a column of a valid type and every tree of
accumulators over its rows: if every average that sends its state has a sum
that fits the type of the sum, the outcome is that of one accumulator fed all
rows in any batches, and it is null, the exact aggregate or an error as
declared; else it is an error.  Only averages can be refused so. -/
theorem aggregates_ignore_partitions
    {p s : ℕ} (hvalid : validatePrecisionScale p s = .ok ())
    (aggregate : Aggregate) (feed : Feed Cell)
    (hrows : ∀ cell ∈ feed.rows, ∃ v, Stores p s v cell) (order : ℕ) :
    (feed.AllSent (aggregate.Sendable p s) →
      (∀ batches order', (batches.flatten : Multiset Cell) = feed.rows →
        (aggregate.accumulator p s).outcome feed order =
          (aggregate.accumulator p s).outcome (single batches) order') ∧
      ((aggregate = .avg → (numbers s feed.rows).card < 2 ^ 63) →
        aggregate.Meets (aggregate.outputPrecisionScale p s).1
          (aggregate.outputPrecisionScale p s).2 (numbers s feed.rows)
          ((aggregate.accumulator p s).outcome feed order))) ∧
    (¬ feed.AllSent (aggregate.Sendable p s) →
      ∃ e, (aggregate.accumulator p s).outcome feed order = .error e) ∧
    (aggregate ≠ .avg → feed.AllSent (aggregate.Sendable p s)) := by
  have hcanonical : ∀ cell ∈ feed.rows, Canonical cell := by
    intro cell hcell
    obtain ⟨v, hv⟩ := hrows cell hcell
    exact canonical_of_stores hv
  have hother (hne : aggregate ≠ .avg) (rows : Multiset Cell) :
      aggregate.Sendable p s rows := fun h => absurd h hne
  have htrue (hne : aggregate ≠ .avg) (rows : Multiset Cell)
      (_ : ∀ cell ∈ rows, Canonical cell) :
      True ↔ aggregate.Sendable p s rows :=
    iff_of_true trivial (hother hne rows)
  rw [← and_assoc]
  refine ⟨?_, fun hne => allSent_of_forall (hother hne) feed⟩
  cases aggregate with
  | sum =>
      exact (sumComputes hvalid).outcome_spec (htrue (by simp)) hcanonical
        order
  | avg =>
      exact (avgComputes hvalid).outcome_spec
        (fun rows hrows => sumFits_iff hvalid hrows) hcanonical order
  | extreme kind =>
      exact (extremeComputes kind hvalid).outcome_spec (htrue (by simp))
        hcanonical order
  | sumDistinct =>
      exact (distinctSumComputes hvalid).outcome_spec (htrue (by simp))
        hcanonical order
  | avgDistinct =>
      exact (distinctAvgComputes hvalid).outcome_spec (htrue (by simp))
        hcanonical order

theorem stores_units
    {p : ℕ} (s : ℕ) {u : ℤ} (h : |u| < 10 ^ p) :
    Stores p s (some (fromBigintAndScale u s)) (some (encodeDigits u)) := by
  have hunits := value_fromBigintAndScale_mul u s
  exact ⟨⟨u, hunits, h⟩,
    congrArg some (toCanonicalBytesAtScale_of_units hunits).symm⟩

/-- Two partitions of a column with equal values in both. -/
theorem aggregates_ignore_partitions_twice :
    let parts : Parts Cell :=
      .cons (.update .new [some (encodeDigits 150), none]) 0
        (.cons (.update .new [some (encodeDigits 225),
          some (encodeDigits 150)]) 1 .nil)
    (distinctSumAccumulator 5 2).outcome (.merge .new parts) 0 =
      (distinctSumAccumulator 5 2).outcome (single
        [[some (encodeDigits 225)], [none, some (encodeDigits 150),
          some (encodeDigits 150)]]) 0 := by
  intro parts
  have hrows : ∀ cell ∈ (Feed.merge .new parts).rows,
      ∃ v, Stores 5 2 v cell := by
    intro cell hcell
    have hcell : cell = some (encodeDigits 150) ∨ cell = none ∨
        cell = some (encodeDigits 225) := by
      simp only [parts, Feed.rows, Parts.rows, Multiset.mem_add,
        Multiset.mem_coe, List.mem_cons, List.not_mem_nil,
        Multiset.notMem_zero, or_false, false_or] at hcell
      tauto
    rcases hcell with rfl | rfl | rfl
    · exact ⟨_, stores_units 2 (by norm_num)⟩
    · exact ⟨none, rfl⟩
    · exact ⟨_, stores_units 2 (by norm_num)⟩
  have hall := aggregates_ignore_partitions (p := 5) (s := 2) rfl
    .sumDistinct (.merge .new parts) hrows 0
  have hsent := hall.2.2 (by simp)
  refine (hall.1 hsent).1 _ 0 ?_
  simp only [parts, Feed.rows, Parts.rows, zero_add, add_zero,
    Multiset.coe_add, Multiset.coe_eq_coe]
  decide

/-- The sum of a partition overflows the type of the sum, though the mean of
all rows is zero. -/
theorem partial_average_refused :
    ∃ high low : Cell, (∃ v, Stores maxPrecision 0 v high) ∧
      (∃ v, Stores maxPrecision 0 v low) ∧
      (∃ e, (avgAccumulator maxPrecision 0).outcome
        (.merge .new (.cons (.update .new [high, high]) 0
          (.cons (.update .new [low, low]) 0 .nil))) 0 = .error e) ∧
      (avgAccumulator maxPrecision 0).outcome
        (single [[high, high, low, low]]) 0 = .ok (some [0]) := by
  obtain ⟨bound, hbound⟩ : ∃ bound : ℤ, bound = 10 ^ maxPrecision :=
    ⟨_, rfl⟩
  have hlarge : 1 < bound := by
    rw [hbound]
    exact one_lt_pow₀ (by norm_num) (by simp [maxPrecision])
  have hvalid : validatePrecisionScale maxPrecision 0 = .ok () := rfl
  set high : Cell := some (encodeDigits (bound - 1)) with hhigh
  set low : Cell := some (encodeDigits (1 - bound)) with hlow
  have hcanonical (u : ℤ) : Canonical (some (encodeDigits u)) := by
    rw [Canonical, unitOf_encodeDigits]
    rfl
  have hcells : ∀ cell ∈ [high, high, low, low], Canonical cell := by
    simp [hhigh, hlow, hcanonical]
  have hspec {feed : Feed Cell} (hrows : feed.rows =
      ([high, high, low, low] : List Cell)) :=
    (avgComputes hvalid).outcome_spec
      (fun rows hrows => sumFits_iff hvalid hrows)
      (show ∀ cell ∈ feed.rows, Canonical cell by rw [hrows]; exact hcells) 0
  refine ⟨high, low, ⟨_, stores_units 0 ?_⟩, ⟨_, stores_units 0 ?_⟩, ?_, ?_⟩
  · rw [← hbound, abs_of_pos (by omega)]
    omega
  · rw [← hbound, abs_of_neg (by omega)]
    omega
  · apply (hspec (by
      simp only [Feed.rows, Parts.rows, zero_add, add_zero]
      rfl)).2
    rintro ⟨-, -, hsent, -⟩
    obtain ⟨m, hm, hlt⟩ := hsent rfl
    have hpart : ∀ cell ∈ (Feed.update .new [high, high]).rows,
        Canonical cell := by
      simp [Feed.rows, hhigh, hcanonical]
    have hsum : (units (Feed.update .new [high, high]).rows).sum =
        2 * (bound - 1) := by
      rw [Feed.rows, Feed.rows, zero_add, hhigh, units_cons_some,
        units_cons_some, Multiset.sum_cons, Multiset.sum_cons]
      show bound - 1 + (bound - 1 + (units 0).sum) = _
      rw [units_zero, Multiset.sum_zero]
      ring
    have hprecision : (sumOutputPrecisionScale maxPrecision 0).1 =
        maxPrecision := rfl
    rw [numbers_eq hpart, sum_map_ofUnits, hsum] at hm
    rw [hprecision, ← hbound] at hlt
    have hm : 2 * (bound - 1) = m := by
      have hcast : ((2 * (bound - 1) : ℤ) : ℚ) = m := by
        simpa [ofUnits] using hm
      exact_mod_cast hcast
    rw [← hm, abs_of_pos (by omega)] at hlt
    omega
  · obtain ⟨hok, -⟩ := hspec (rows_single [[high, high, low, low]])
    have hunits : units ([high, high, low, low] : List Cell) =
        {bound - 1, bound - 1, 1 - bound, 1 - bound} := by
      simp only [hhigh, hlow, units_cons_some]
      rfl
    have hnumbers : numbers 0 (single [[high, high, low, low]]).rows =
        Multiset.map (ofUnits 0)
          {bound - 1, bound - 1, 1 - bound, 1 - bound} := by
      rw [rows_single, ← hunits]
      exact numbers_eq hcells 0
    have hmeets := (hok (allSent_single _ _)).2 fun _ => by
      rw [hnumbers]
      simp
    rw [hnumbers] at hmeets
    obtain ⟨x, hx, hfits, -⟩ := hmeets.2 (by simp)
    have hzero : (0 : ℚ) = x := by
      rw [← hx 0]
      show IsMean _ _ _
      have hsum : Multiset.sum {bound - 1, bound - 1, 1 - bound,
          1 - bound} = 0 := by
        simp only [Multiset.insert_eq_cons, Multiset.sum_cons,
          Multiset.sum_singleton]
        ring
      have hround : roundHalfEven 0 = 0 := by
        exact_mod_cast roundHalfEven_intCast 0
      rw [IsMean, sum_map_ofUnits, hsum]
      simp [ofUnits, hround]
    subst hzero
    exact hfits ⟨0, by simp, by simp [maxPrecision]⟩ (fromBigintAndScale 0 0)
      (by simp [fromBigintAndScale, BigDecimal.value])

end Streamling
