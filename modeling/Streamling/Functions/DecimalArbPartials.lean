import Mathlib
import Streamling.Functions.DecimalArbAggregates

/-!
# Partial aggregates

Every accumulator keeps a summary of the units of the rows below it: their
sum and count, their extreme, or the set of them.  Sending a state and merging
it adds the summaries, and the result is a function of the summary.
-/

namespace Streamling

open PartialFolds DecimalArbValue

/-! ## Units -/

/-- The units that a cell stores. -/
def unitOf (cell : Cell) : Option ℤ :=
  cell.bind fun bytes => (decodeDigits bytes).toOption

/-- The units of the rows that are not null. -/
def units (rows : Multiset Cell) : Multiset ℤ :=
  rows.filterMap unitOf

/-- The cell stores canonical bytes, or null. -/
def Canonical (cell : Cell) : Prop :=
  cell = (unitOf cell).map encodeDigits

@[simp] theorem unitOf_none : unitOf none = none := rfl

@[simp] theorem unitOf_encodeDigits (u : ℤ) :
    unitOf (some (encodeDigits u)) = some u := by
  rw [unitOf, Option.bind_some, decodeDigits_encodeDigits]
  rfl

@[simp] theorem units_zero : units 0 = 0 := rfl

theorem units_add (rows more : Multiset Cell) :
    units (rows + more) = units rows + units more :=
  Multiset.filterMap_add _ _ _

theorem units_cons_none (cells : List Cell) :
    units ((none :: cells : List Cell) : Multiset Cell) = units cells := by
  rw [← Multiset.cons_coe, units, Multiset.filterMap_cons_none _ _ unitOf_none]
  rfl

theorem units_cons_some (u : ℤ) (cells : List Cell) :
    units ((some (encodeDigits u) :: cells : List Cell) : Multiset Cell) =
      u ::ₘ units cells := by
  rw [← Multiset.cons_coe, units,
    Multiset.filterMap_cons_some _ _ _ (unitOf_encodeDigits u)]
  rfl

theorem canonical_cases {cell : Cell} (h : Canonical cell) :
    cell = none ∨ ∃ u, cell = some (encodeDigits u) := by
  rw [Canonical] at h
  cases hunit : unitOf cell with
  | none => exact .inl (by rw [h, hunit]; rfl)
  | some u => exact .inr ⟨u, by rw [h, hunit]; rfl⟩

theorem canonical_of_stores
    {p s : ℕ} {v : Option DecimalArbValue} {cell : Cell}
    (h : Stores p s v cell) : Canonical cell := by
  cases v with
  | none =>
      obtain rfl : cell = none := h
      rfl
  | some v =>
      obtain ⟨⟨m, hm, -⟩, rfl⟩ := h
      rw [toCanonicalBytesAtScale_of_units hm, Canonical,
        unitOf_encodeDigits]
      rfl

theorem decodeValue_encodeDigits (u : ℤ) (scale : ℕ) :
    decodeValue (some (encodeDigits u)) scale =
      .ok (some (fromBigintAndScale u scale)) := by
  rw [decodeValue, fromCanonicalBytesAtScale_encodeDigits]
  rfl

/-! ## Decimals that hold units -/

/-- The decimal is the number of units of a scale: at that scale, or zero at
a coarser one. -/
structure HoldsUnits (scale : ℕ) (d : BigDecimal) (u : ℤ) : Prop where
  scale_le : d.scale ≤ scale
  digits : d.digits = u
  at_scale : u ≠ 0 → d.scale = scale

theorem holdsUnits_zero (scale : ℕ) : HoldsUnits scale ⟨0, 0⟩ 0 :=
  ⟨Int.natCast_nonneg scale, rfl, fun h => absurd rfl h⟩

theorem holdsUnits_fromBigintAndScale (u : ℤ) (scale : ℕ) :
    HoldsUnits scale (fromBigintAndScale u scale).bd u := by
  unfold fromBigintAndScale canonicalize
  split
  · rename_i hzero
    obtain rfl : u = 0 := hzero
    exact holdsUnits_zero scale
  · exact ⟨le_refl _, rfl, fun _ => rfl⟩

theorem HoldsUnits.add
    {scale : ℕ} {a b : BigDecimal} {x y : ℤ} (ha : HoldsUnits scale a x)
    (hb : HoldsUnits scale b y) : HoldsUnits scale (a.add b) (x + y) := by
  have hdigits (d : BigDecimal) (u : ℤ) (h : HoldsUnits scale d u) (k : ℤ)
      (hk : d.scale ≤ k) (hle : k ≤ scale) : d.digitsAt k = u := by
    by_cases hu : u = 0
    · rw [BigDecimal.digitsAt, h.digits, hu, zero_mul]
    · have hsame : k = d.scale := by
        have := h.at_scale hu
        omega
      rw [BigDecimal.digitsAt, h.digits, hsame, sub_self, Int.toNat_zero,
        pow_zero, mul_one]
  have hle : max a.scale b.scale ≤ scale := max_le ha.scale_le hb.scale_le
  constructor
  · exact hle
  · show a.digitsAt _ + b.digitsAt _ = x + y
    rw [hdigits a x ha _ (le_max_left _ _) hle,
      hdigits b y hb _ (le_max_right _ _) hle]
  · intro hne
    show max a.scale b.scale = scale
    by_cases hx : x = 0
    · have hy : y ≠ 0 := by
        rintro rfl
        exact hne (by rw [hx, add_zero])
      rw [hb.at_scale hy]
      exact max_eq_right ha.scale_le
    · rw [ha.at_scale hx]
      exact max_eq_left hb.scale_le

theorem HoldsUnits.value_mul
    {scale : ℕ} {d : BigDecimal} {u : ℤ} (h : HoldsUnits scale d u) :
    d.value * (10 : ℚ) ^ (scale : ℤ) = u := by
  by_cases hu : u = 0
  · have hvalue : d.value = 0 :=
      BigDecimal.value_eq_zero_iff.mpr (h.digits.trans hu)
    rw [hvalue, hu, zero_mul, Int.cast_zero]
  · rw [BigDecimal.value_mul_zpow, h.at_scale hu, h.digits, sub_self,
      zpow_zero, mul_one]

/-- Only the units decide the value. -/
theorem HoldsUnits.fromBigdecimal_eq
    {scale : ℕ} {d : BigDecimal} {u : ℤ} (h : HoldsUnits scale d u) :
    fromBigdecimal d = fromBigintAndScale u scale := by
  obtain ⟨digits, dscale⟩ := d
  obtain rfl : digits = u := h.digits
  by_cases hu : digits = 0
  · subst hu
    simp [fromBigdecimal, fromBigintAndScale, canonicalize]
  · obtain rfl : dscale = scale := h.at_scale hu
    rfl

theorem HoldsUnits.bytes
    {scale : ℕ} {d : BigDecimal} {u : ℤ} (h : HoldsUnits scale d u) :
    (fromBigdecimal d).toCanonicalBytesAtScale scale = encodeDigits u := by
  rw [h.fromBigdecimal_eq, toCanonicalBytesAtScale_of_units
    (value_fromBigintAndScale_mul u scale)]

theorem HoldsUnits.encodeChecked_eq
    {scale : ℕ} {d : BigDecimal} {u : ℤ} (h : HoldsUnits scale d u)
    (precision outScale : ℕ) (column : String) :
    encodeChecked d precision outScale column =
      encodeChecked ⟨u, scale⟩ precision outScale column := by
  unfold encodeChecked
  rw [h.fromBigdecimal_eq]
  rfl

/-- A quotient only depends on the numbers. -/
theorem HoldsUnits.exactDivAtScale_eq
    {scale : ℕ} {d : BigDecimal} {u : ℤ} (h : HoldsUnits scale d u)
    {count : ℤ} (hcount : count ≠ 0) (outScale : ℕ) :
    d.exactDivAtScale ⟨count, 0⟩ outScale =
      BigDecimal.exactDivAtScale ⟨u, scale⟩ ⟨count, 0⟩ outScale := by
  have hvalue : d.value = BigDecimal.value ⟨u, scale⟩ := by
    have hpow : (10 : ℚ) ^ (scale : ℤ) ≠ 0 :=
      zpow_ne_zero _ (by norm_num)
    apply mul_right_cancel₀ hpow
    rw [h.value_mul, BigDecimal.value_mk_mul_zpow]
  have hdigits (a : BigDecimal) :=
    BigDecimal.digits_exactDivAtScale a ⟨count, 0⟩ outScale hcount
  have heq : (d.exactDivAtScale ⟨count, 0⟩ outScale).digits =
      (BigDecimal.exactDivAtScale ⟨u, scale⟩ ⟨count, 0⟩ outScale).digits := by
    rw [hdigits, hdigits, hvalue]
  rcases hd : d.exactDivAtScale ⟨count, 0⟩ outScale with ⟨digits, k⟩
  rcases hu : BigDecimal.exactDivAtScale ⟨u, scale⟩ ⟨count, 0⟩ outScale with
    ⟨digits', k'⟩
  have hk := congrArg BigDecimal.scale hd
  have hk' := congrArg BigDecimal.scale hu
  rw [BigDecimal.scale_exactDivAtScale] at hk hk'
  rw [hd, hu] at heq
  simp only at heq hk hk'
  rw [heq, ← hk, ← hk']

/-! ## Loops over cells that send a summary -/

/-- The cell is the encoded summary of the rows. -/
def SendsUnit (summary : Multiset ℤ → Option ℤ) (cell : Cell)
    (rows : Multiset Cell) : Prop :=
  cell = (summary (units rows)).map encodeDigits

theorem units_singleton (cell : Cell) :
    units {cell} = (unitOf cell).elim 0 fun u => {u} := by
  rw [← Multiset.cons_zero]
  cases hunit : unitOf cell with
  | none => rw [units, Multiset.filterMap_cons_none _ _ hunit]; rfl
  | some u => rw [units, Multiset.filterMap_cons_some _ _ _ hunit]; rfl

theorem sum_map_singleton (cells : List Cell) :
    (cells.map fun cell => ({cell} : Multiset Cell)).sum = cells := by
  induction cells with
  | nil => rfl
  | cons cell cells ih =>
      rw [List.map_cons, List.sum_cons, ih, Multiset.singleton_add]
      rfl

/-- The rows of a batch are their own summaries. -/
theorem forall₂_sendsUnit
    {summary : Multiset ℤ → Option ℤ} (hzero : summary 0 = none)
    (hone : ∀ u, summary {u} = some u) {cells : List Cell}
    (hcells : ∀ cell ∈ cells, Canonical cell) :
    List.Forall₂ (SendsUnit summary) cells
      (cells.map fun cell => ({cell} : Multiset Cell)) := by
  induction cells with
  | nil => exact .nil
  | cons cell cells ih =>
      rw [List.forall_mem_cons] at hcells
      refine .cons ?_ (ih hcells.2)
      rw [SendsUnit, units_singleton]
      have hcell := hcells.1
      rw [Canonical] at hcell
      cases hunit : unitOf cell with
      | none =>
          rw [hunit] at hcell
          rw [Option.elim_none, hzero, hcell]
      | some u =>
          rw [hunit] at hcell
          rw [Option.elim_some, hone, hcell]

/-! ## Sums -/

/-- The sum of some units; none if there are none. -/
def total (us : Multiset ℤ) : Option ℤ :=
  if us = 0 then none else some us.sum

@[simp] theorem total_zero : total 0 = none := rfl

theorem total_eq_none {us : Multiset ℤ} : total us = none ↔ us = 0 := by
  simp [total]

theorem total_eq_some {us : Multiset ℤ} {u : ℤ} :
    total us = some u ↔ us ≠ 0 ∧ us.sum = u := by
  simp [total]

theorem total_singleton (u : ℤ) : total {u} = some u := by
  simp [total]

/-- A partial sum holds the sum of the units, if there are any. -/
def HoldsTotal (scale : ℕ) (sum : Option BigDecimal) (us : Multiset ℤ) :
    Prop :=
  Option.Rel (HoldsUnits scale) sum (total us)

theorem holdsTotal_some
    {scale : ℕ} {d : BigDecimal} {us : Multiset ℤ} (hne : us ≠ 0)
    (h : HoldsUnits scale d us.sum) : HoldsTotal scale (some d) us := by
  rw [HoldsTotal, total, if_neg hne]
  exact .some h

theorem HoldsTotal.getD
    {scale : ℕ} {sum : Option BigDecimal} {us : Multiset ℤ}
    (h : HoldsTotal scale sum us) :
    HoldsUnits scale (sum.getD ⟨0, 0⟩) us.sum := by
  rw [HoldsTotal] at h
  cases htotal : total us with
  | none =>
      rw [htotal] at h
      cases h
      rw [total_eq_none.mp htotal]
      exact holdsUnits_zero scale
  | some u =>
      rw [htotal] at h
      cases h with
      | some h =>
          rw [(total_eq_some.mp htotal).2]
          exact h

theorem addRows_ok
    {scale : ℕ} {cells : List Cell} {sent : List (Multiset Cell)}
    (h : List.Forall₂ (SendsUnit total) cells sent)
    {sum : Option BigDecimal} {us : Multiset ℤ}
    (hsum : HoldsTotal scale sum us) :
    ∃ after, SumAccumulator.addRows scale sum cells = .ok after ∧
      HoldsTotal scale after (us + units sent.sum) := by
  induction h generalizing sum us with
  | nil => exact ⟨sum, rfl, by simpa using hsum⟩
  | @cons cell rows cells sent hcell _ ih =>
      rw [List.sum_cons, units_add, ← add_assoc]
      rw [SendsUnit] at hcell
      cases htotal : total (units rows) with
      | none =>
          rw [htotal] at hcell
          obtain rfl : cell = none := hcell
          rw [total_eq_none.mp htotal, add_zero]
          exact ih hsum
      | some u =>
          rw [htotal] at hcell
          obtain rfl : cell = some (encodeDigits u) := hcell
          obtain ⟨hne, hu⟩ := total_eq_some.mp htotal
          have hadd : HoldsTotal scale
              (some ((sum.getD ⟨0, 0⟩).add (fromBigintAndScale u scale).bd))
              (us + units rows) := by
            apply holdsTotal_some
            · intro hzero
              rw [add_eq_zero] at hzero
              exact hne hzero.2
            · rw [Multiset.sum_add, hu]
              exact hsum.getD.add (holdsUnits_fromBigintAndScale u scale)
          obtain ⟨after, hafter, hholds⟩ := ih hadd
          refine ⟨after, ?_, hholds⟩
          rw [SumAccumulator.addRows, decodeValue_encodeDigits]
          exact hafter

/-- The checked encoding of a summary. -/
def encodeUnit (summary : Option ℤ) (scale precision outScale : ℕ)
    (column : String) : Except DecimalArbError Cell :=
  match summary with
  | none => .ok none
  | some u => encodeChecked ⟨u, scale⟩ precision outScale column

/-- A summary is sent as its units. -/
theorem map_bytes_of_rel
    {scale : ℕ} {current : Option BigDecimal} {summary : Option ℤ}
    (h : Option.Rel (HoldsUnits scale) current summary) :
    (current.map fun d => (fromBigdecimal d).toCanonicalBytesAtScale scale) =
      summary.map encodeDigits := by
  cases h with
  | none => rfl
  | some h => rw [Option.map_some, h.bytes, Option.map_some]

/-- A summary is checked and encoded as its units. -/
theorem encodeUnit_of_rel
    {scale : ℕ} {current : Option BigDecimal} {summary : Option ℤ}
    (h : Option.Rel (HoldsUnits scale) current summary)
    (precision outScale : ℕ) (column : String) :
    current.elim (.ok none)
        (fun d => encodeChecked d precision outScale column) =
      encodeUnit summary scale precision outScale column := by
  cases h with
  | none => rfl
  | some h => exact h.encodeChecked_eq precision outScale column

theorem SumAccumulator.evaluate_eq (a : SumAccumulator) :
    a.evaluate = a.sum.elim (.ok none) fun sum =>
      encodeChecked sum a.outputPrecision a.outputScale "sum" := by
  unfold SumAccumulator.evaluate
  cases a.sum with
  | none => rfl
  | some sum => rfl

def sumSummarizes (p s : ℕ) :
    (sumAccumulator p s).Summarizes Canonical (fun _ => True)
      (fun rows => encodeUnit (total (units rows)) s
        (sumOutputPrecisionScale p s).1 s "sum") where
  Tracks acc rows := ∃ sum, HoldsTotal s sum (units rows) ∧
    acc = ⟨sum, s, s, (sumOutputPrecisionScale p s).1⟩
  Sends := SendsUnit total
  new := ⟨none, .none, rfl⟩
  update := by
    rintro _ rows batch ⟨sum, hsum, rfl⟩ hbatch
    have hsends := forall₂_sendsUnit total_zero total_singleton hbatch
    obtain ⟨after, hafter, hholds⟩ := addRows_ok hsends hsum
    rw [sum_map_singleton, ← units_add] at hholds
    refine ⟨_, ?_, after, hholds, rfl⟩
    simp only [sumAccumulator, SumAccumulator.updateBatch, bind, Except.bind,
      hafter]
    rfl
  merge := by
    rintro _ rows states sent ⟨sum, hsum, rfl⟩ hsends
    obtain ⟨after, hafter, hholds⟩ := addRows_ok hsends hsum
    rw [← units_add] at hholds
    refine ⟨_, ?_, after, hholds, rfl⟩
    simp only [sumAccumulator, SumAccumulator.mergeBatch, bind, Except.bind,
      hafter]
    rfl
  sends := by
    rintro _ rows order ⟨sum, hsum, rfl⟩ -
    exact ⟨_, rfl, map_bytes_of_rel hsum⟩
  refuses := fun _ _ _ _ h => absurd trivial h
  evaluate := by
    rintro _ rows order ⟨sum, hsum, rfl⟩
    show SumAccumulator.evaluate _ = _
    rw [SumAccumulator.evaluate_eq]
    exact encodeUnit_of_rel hsum _ _ _

/-! ## Averages -/

theorem wrapI64_add (m n : ℤ) : wrapI64 (wrapI64 m + n) = wrapI64 (m + n) := by
  unfold wrapI64
  rw [Int.bmod_add_bmod]

theorem wrapI64_add_wrapI64 (m n : ℤ) :
    wrapI64 (wrapI64 m + wrapI64 n) = wrapI64 (m + n) := by
  rw [wrapI64_add, add_comm, wrapI64_add, add_comm]

theorem wrapI64_of_lt {n : ℤ} (h : 0 ≤ n) (hlt : n < 2 ^ 63) :
    wrapI64 n = n := by
  unfold wrapI64
  rw [Int.bmod_eq_of_le (by omega) (by omega)]

/-- The accumulator of an average over some units. -/
def avgHolding (p s : ℕ) (sum : BigDecimal) (us : Multiset ℤ) :
    AvgAccumulator :=
  ⟨sum, wrapI64 us.card, s, s, (sumOutputPrecisionScale p s).1,
    (avgOutputPrecisionScale p s).1, (avgOutputPrecisionScale p s).2⟩

theorem avgUpdate_ok
    {p s : ℕ} {cells : List Cell} (hcells : ∀ cell ∈ cells, Canonical cell)
    {sum : BigDecimal} {us : Multiset ℤ} (hsum : HoldsUnits s sum us.sum) :
    ∃ after, (avgHolding p s sum us).updateBatch cells =
        .ok (avgHolding p s after (us + units cells)) ∧
      HoldsUnits s after (us + units cells).sum := by
  induction cells generalizing sum us with
  | nil => exact ⟨sum, by simp [AvgAccumulator.updateBatch], by simpa⟩
  | cons cell cells ih =>
      rw [List.forall_mem_cons] at hcells
      rcases canonical_cases hcells.1 with rfl | ⟨u, rfl⟩
      · rw [units_cons_none]
        exact ih hcells.2 hsum
      · have hadd : HoldsUnits s (sum.add (fromBigintAndScale u s).bd)
            (us + {u}).sum := by
          rw [Multiset.sum_add, Multiset.sum_singleton]
          exact hsum.add (holdsUnits_fromBigintAndScale u s)
        obtain ⟨after, hafter, hholds⟩ := ih hcells.2 hadd
        have hsplit : us + units (some (encodeDigits u) :: cells : List Cell) =
            us + {u} + units cells := by
          rw [units_cons_some, add_assoc, Multiset.singleton_add]
        rw [hsplit]
        refine ⟨after, ?_, hholds⟩
        rw [← hafter, AvgAccumulator.updateBatch]
        simp only [avgHolding, decodeValue_encodeDigits, bind, Except.bind,
          wrapI64_add, Multiset.card_add, Multiset.card_singleton,
          Nat.cast_add, Nat.cast_one]

/-- The state of an average is the sum and the count of its units. -/
def SendsAvg (state : Cell × Option ℤ) (rows : Multiset Cell) : Prop :=
  state = (some (encodeDigits (units rows).sum),
    some (wrapI64 (units rows).card))

theorem avgMerge_ok
    {p s : ℕ} {states : List (Cell × Option ℤ)}
    {sent : List (Multiset Cell)} (h : List.Forall₂ SendsAvg states sent)
    {sum : BigDecimal} {us : Multiset ℤ} (hsum : HoldsUnits s sum us.sum) :
    ∃ after, (avgHolding p s sum us).mergeBatch states =
        .ok (avgHolding p s after (us + units sent.sum)) ∧
      HoldsUnits s after (us + units sent.sum).sum := by
  induction h generalizing sum us with
  | nil => exact ⟨sum, by simp [AvgAccumulator.mergeBatch], by simpa⟩
  | @cons state rows states sent hstate _ ih =>
      rw [SendsAvg] at hstate
      subst hstate
      have hadd : HoldsUnits s
          (sum.add (fromBigintAndScale (units rows).sum s).bd)
          (us + units rows).sum := by
        rw [Multiset.sum_add]
        exact hsum.add (holdsUnits_fromBigintAndScale _ s)
      obtain ⟨after, hafter, hholds⟩ := ih hadd
      rw [List.sum_cons, units_add, ← add_assoc]
      refine ⟨after, ?_, hholds⟩
      rw [← hafter, AvgAccumulator.mergeBatch]
      simp only [avgHolding, decodeValue_encodeDigits, bind, Except.bind,
        wrapI64_add_wrapI64, Multiset.card_add, Nat.cast_add]

/-- The sum fits the type that the state of an average is sent as. -/
def SumFits (p s : ℕ) (rows : Multiset Cell) : Prop :=
  ∃ cell, encodeChecked ⟨(units rows).sum, s⟩
    (sumOutputPrecisionScale p s).1 s "avg_sum" = .ok cell

/-- The mean of units, with a wrapped count. -/
def avgUnits (p s : ℕ) (us : Multiset ℤ) : Except DecimalArbError Cell :=
  if wrapI64 us.card = 0 then .ok none
  else
    encodeChecked (BigDecimal.exactDivAtScale ⟨us.sum, s⟩
        ⟨wrapI64 us.card, 0⟩ (avgOutputPrecisionScale p s).2)
      (avgOutputPrecisionScale p s).1 (avgOutputPrecisionScale p s).2 "avg"

theorem encodeChecked_eq_ok
    {scale : ℕ} {d : BigDecimal} {u : ℤ} (h : HoldsUnits scale d u)
    {precision : ℕ} {column : String} {cell : Cell}
    (hok : encodeChecked d precision scale column = .ok cell) :
    cell = some (encodeDigits u) := by
  unfold encodeChecked at hok
  cases hfits : (fromBigdecimal d).checkFits precision scale column with
  | error e => simp [hfits, bind, Except.bind] at hok
  | ok _ =>
      simp only [hfits, bind, Except.bind, pure, Except.pure] at hok
      rw [← Except.ok.inj hok, h.bytes]

theorem evaluate_avgHolding
    {p s : ℕ} {sum : BigDecimal} {us : Multiset ℤ}
    (hsum : HoldsUnits s sum us.sum) :
    (avgHolding p s sum us).evaluate = avgUnits p s us := by
  rw [AvgAccumulator.evaluate, avgUnits, avgHolding]
  generalize wrapI64 us.card = count
  by_cases hcount : count = 0
  · rw [if_pos hcount, if_pos hcount]
  · rw [if_neg hcount, if_neg hcount, hsum.exactDivAtScale_eq hcount]

def avgSummarizes (p s : ℕ) :
    (avgAccumulator p s).Summarizes Canonical (SumFits p s)
      (fun rows => avgUnits p s (units rows)) where
  Tracks acc rows := ∃ sum, HoldsUnits s sum (units rows).sum ∧
    acc = avgHolding p s sum (units rows)
  Sends := SendsAvg
  new := ⟨⟨0, 0⟩, holdsUnits_zero s, rfl⟩
  update := by
    rintro _ rows batch ⟨sum, hsum, rfl⟩ hbatch
    obtain ⟨after, hafter, hholds⟩ := avgUpdate_ok hbatch hsum
    rw [← units_add] at hafter hholds
    exact ⟨_, hafter, after, hholds, rfl⟩
  merge := by
    rintro _ rows states sent ⟨sum, hsum, rfl⟩ hsends
    obtain ⟨after, hafter, hholds⟩ := avgMerge_ok hsends hsum
    rw [← units_add] at hafter hholds
    exact ⟨_, hafter, after, hholds, rfl⟩
  sends := by
    rintro _ rows order ⟨sum, hsum, rfl⟩ ⟨cell, hcell⟩
    rw [← hsum.encodeChecked_eq] at hcell
    refine ⟨(cell, some (wrapI64 (units rows).card)), ?_, ?_⟩
    · show AvgAccumulator.state _ = _
      simp only [AvgAccumulator.state, avgHolding, bind, Except.bind, hcell]
      rfl
    · rw [SendsAvg, encodeChecked_eq_ok hsum hcell]
  refuses := by
    rintro _ rows order ⟨sum, hsum, rfl⟩ hfits
    cases hcell : encodeChecked sum (sumOutputPrecisionScale p s).1 s
        "avg_sum" with
    | ok cell =>
        rw [hsum.encodeChecked_eq] at hcell
        exact absurd ⟨cell, hcell⟩ hfits
    | error e =>
        refine ⟨e, ?_⟩
        show AvgAccumulator.state _ = _
        simp only [AvgAccumulator.state, avgHolding, bind, Except.bind, hcell]
        rfl
  evaluate := by
    rintro _ rows order ⟨sum, hsum, rfl⟩
    simp only [avgAccumulator, evaluate_avgHolding hsum]

/-! ## Extremes -/

/-- The first is at least as extreme as the second. -/
def Extreme.Bounds (kind : Extreme) (u w : ℤ) : Prop :=
  match kind with
  | .min => u ≤ w
  | .max => w ≤ u

/-- The extreme of some units; none if there are none. -/
def extremeOf (kind : Extreme) (us : Multiset ℤ) : Option ℤ :=
  if h : us.toFinset.Nonempty then
    some (match kind with
      | .min => us.toFinset.min' h
      | .max => us.toFinset.max' h)
  else none

theorem extremeOf_eq_none {kind : Extreme} {us : Multiset ℤ} :
    extremeOf kind us = none ↔ us = 0 := by
  unfold extremeOf
  split_ifs with h
  · rw [Multiset.toFinset_nonempty] at h
    simp [h]
  · rw [Multiset.toFinset_nonempty, not_not] at h
    simp [h]

theorem extremeOf_eq_some {kind : Extreme} {us : Multiset ℤ} {u : ℤ} :
    extremeOf kind us = some u ↔ u ∈ us ∧ ∀ w ∈ us, kind.Bounds u w := by
  have hmem (w : ℤ) : w ∈ us ↔ w ∈ us.toFinset := Multiset.mem_toFinset.symm
  unfold extremeOf
  split_ifs with h
  · rw [Option.some.injEq]
    cases kind with
    | min =>
        constructor
        · rintro rfl
          refine ⟨(hmem _).mpr (Finset.min'_mem _ h), fun w hw => ?_⟩
          exact Finset.min'_le _ w ((hmem w).mp hw)
        · rintro ⟨hu, hle⟩
          apply le_antisymm
          · exact Finset.min'_le _ u ((hmem u).mp hu)
          · exact hle _ ((hmem _).mpr (Finset.min'_mem _ h))
    | max =>
        constructor
        · rintro rfl
          refine ⟨(hmem _).mpr (Finset.max'_mem _ h), fun w hw => ?_⟩
          exact Finset.le_max' _ w ((hmem w).mp hw)
        · rintro ⟨hu, hle⟩
          apply le_antisymm
          · exact hle _ ((hmem _).mpr (Finset.max'_mem _ h))
          · exact Finset.le_max' _ u ((hmem u).mp hu)
  · constructor
    · intro hnone
      cases hnone
    · rintro ⟨hu, -⟩
      exact absurd ⟨u, (hmem u).mp hu⟩ h

theorem extremeOf_singleton (kind : Extreme) (u : ℤ) :
    extremeOf kind {u} = some u := by
  rw [extremeOf_eq_some]
  refine ⟨Multiset.mem_singleton_self u, fun w hw => ?_⟩
  rw [Multiset.mem_singleton.mp hw]
  cases kind <;> exact le_refl u

theorem Extreme.Bounds.trans
    {kind : Extreme} {u v w : ℤ} (huv : kind.Bounds u v)
    (hvw : kind.Bounds v w) : kind.Bounds u w := by
  cases kind with
  | min => exact le_trans huv hvw
  | max => exact le_trans hvw huv

/-- The more extreme of two extremes is that of both parts. -/
theorem extremeOf_add
    {kind : Extreme} {us vs : Multiset ℤ} {u v : ℤ}
    (hu : extremeOf kind us = some u) (hv : extremeOf kind vs = some v)
    (hle : kind.Bounds u v) :
    extremeOf kind (us + vs) = some u ∧ extremeOf kind (vs + us) = some u := by
  rw [add_comm vs us, and_self, extremeOf_eq_some]
  rw [extremeOf_eq_some] at hu hv
  refine ⟨Multiset.mem_add.mpr (.inl hu.1), fun w hw => ?_⟩
  rcases Multiset.mem_add.mp hw with hw | hw
  · exact hu.2 w hw
  · exact hle.trans (hv.2 w hw)

theorem HoldsUnits.value_lt_iff
    {scale : ℕ} {a b : BigDecimal} {x y : ℤ} (ha : HoldsUnits scale a x)
    (hb : HoldsUnits scale b y) : a.value < b.value ↔ x < y := by
  have hpow : (0 : ℚ) < (10 : ℚ) ^ (scale : ℤ) := by positivity
  rw [← mul_lt_mul_iff_left₀ hpow, ha.value_mul, hb.value_mul, Int.cast_lt]

/-- The value that is kept is the more extreme one. -/
theorem keep_iff
    (kind : Extreme) {scale : ℕ} {a b : BigDecimal} {x y : ℤ}
    (ha : HoldsUnits scale a x) (hb : HoldsUnits scale b y) :
    (kind.keep a b = true → kind.Bounds y x) ∧
      (kind.keep a b = false → kind.Bounds x y) := by
  cases kind with
  | min =>
      have hlt := hb.value_lt_iff ha
      simp only [Extreme.keep, Extreme.Bounds, decide_eq_true_eq,
        decide_eq_false_iff_not, hlt]
      omega
  | max =>
      have hlt := ha.value_lt_iff hb
      simp only [Extreme.keep, Extreme.Bounds, decide_eq_true_eq,
        decide_eq_false_iff_not, hlt]
      omega

/-- An accumulator holds the extreme of the units, if there are any. -/
def HoldsExtreme (kind : Extreme) (scale : ℕ) (current : Option BigDecimal)
    (us : Multiset ℤ) : Prop :=
  Option.Rel (HoldsUnits scale) current (extremeOf kind us)

theorem HoldsExtreme.observe
    {kind : Extreme} {p s : ℕ} {current : Option BigDecimal}
    {us vs : Multiset ℤ} {u : ℤ} (h : HoldsExtreme kind s current us)
    (hu : extremeOf kind vs = some u) :
    ∃ after, ExtremeAccumulator.observe ⟨kind, current, s, p⟩
        (fromBigintAndScale u s).bd = ⟨kind, after, s, p⟩ ∧
      HoldsExtreme kind s after (us + vs) := by
  have hcandidate := holdsUnits_fromBigintAndScale u s
  rw [HoldsExtreme] at h
  cases hus : extremeOf kind us with
  | none =>
      rw [hus] at h
      cases h
      refine ⟨_, rfl, ?_⟩
      rw [HoldsExtreme, extremeOf_eq_none.mp hus, zero_add, hu]
      exact .some hcandidate
  | some c =>
      rw [hus] at h
      obtain ⟨held, hcurrent⟩ : ∃ held, HoldsUnits s held c ∧
          current = some held := by
        cases h with
        | some hheld => exact ⟨_, hheld, rfl⟩
      obtain ⟨hcurrent, rfl⟩ := hcurrent
      obtain ⟨hreplace, hkeep⟩ := keep_iff kind hcurrent hcandidate
      cases hdecide : kind.keep held (fromBigintAndScale u s).bd with
      | true =>
          refine ⟨some (fromBigintAndScale u s).bd, ?_, ?_⟩
          · simp only [ExtremeAccumulator.observe, hdecide, if_true]
          · rw [HoldsExtreme, (extremeOf_add hu hus (hreplace hdecide)).2]
            exact .some hcandidate
      | false =>
          refine ⟨some held, ?_, ?_⟩
          · simp only [ExtremeAccumulator.observe, hdecide,
              Bool.false_eq_true, if_false]
          · rw [HoldsExtreme, (extremeOf_add hus hu (hkeep hdecide)).1]
            exact .some hcurrent

theorem extremeUpdate_ok
    {kind : Extreme} {p s : ℕ} {cells : List Cell}
    {sent : List (Multiset Cell)}
    (h : List.Forall₂ (SendsUnit (extremeOf kind)) cells sent)
    {current : Option BigDecimal} {us : Multiset ℤ}
    (hcurrent : HoldsExtreme kind s current us) :
    ∃ after, ExtremeAccumulator.updateBatch ⟨kind, current, s, p⟩ cells =
        .ok ⟨kind, after, s, p⟩ ∧
      HoldsExtreme kind s after (us + units sent.sum) := by
  induction h generalizing current us with
  | nil => exact ⟨current, rfl, by simpa using hcurrent⟩
  | @cons cell rows cells sent hcell _ ih =>
      rw [List.sum_cons, units_add, ← add_assoc]
      rw [SendsUnit] at hcell
      cases hextreme : extremeOf kind (units rows) with
      | none =>
          rw [hextreme] at hcell
          obtain rfl : cell = none := hcell
          rw [extremeOf_eq_none.mp hextreme, add_zero]
          exact ih hcurrent
      | some u =>
          rw [hextreme] at hcell
          obtain rfl : cell = some (encodeDigits u) := hcell
          obtain ⟨observed, hobserve, hholds⟩ :=
            hcurrent.observe (p := p) hextreme
          obtain ⟨after, hafter, hrest⟩ := ih hholds
          refine ⟨after, ?_, hrest⟩
          rw [ExtremeAccumulator.updateBatch, decodeValue_encodeDigits,
            ← hafter, ← hobserve]
          rfl

theorem ExtremeAccumulator.evaluate_eq (a : ExtremeAccumulator) :
    a.evaluate = a.current.elim (.ok none) fun current =>
      encodeChecked current a.precision a.scale a.extreme.functionName := by
  unfold ExtremeAccumulator.evaluate
  cases a.current with
  | none => rfl
  | some current => rfl

def extremeSummarizes (kind : Extreme) (p s : ℕ) :
    (extremeAccumulator kind p s).Summarizes Canonical (fun _ => True)
      (fun rows => encodeUnit (extremeOf kind (units rows)) s p s
        kind.functionName) where
  Tracks acc rows := ∃ current, HoldsExtreme kind s current (units rows) ∧
    acc = ⟨kind, current, s, p⟩
  Sends := SendsUnit (extremeOf kind)
  new := ⟨none, by
    rw [HoldsExtreme, units_zero, extremeOf_eq_none.mpr rfl]
    exact .none, rfl⟩
  update := by
    rintro _ rows batch ⟨current, hcurrent, rfl⟩ hbatch
    have hsends := forall₂_sendsUnit (extremeOf_eq_none.mpr rfl)
      (extremeOf_singleton kind) hbatch
    obtain ⟨after, hafter, hholds⟩ := extremeUpdate_ok hsends hcurrent
    rw [sum_map_singleton, ← units_add] at hholds
    exact ⟨_, hafter, after, hholds, rfl⟩
  merge := by
    rintro _ rows states sent ⟨current, hcurrent, rfl⟩ hsends
    obtain ⟨after, hafter, hholds⟩ := extremeUpdate_ok hsends hcurrent
    rw [← units_add] at hholds
    exact ⟨_, hafter, after, hholds, rfl⟩
  sends := by
    rintro _ rows order ⟨current, hcurrent, rfl⟩ -
    exact ⟨_, rfl, map_bytes_of_rel hcurrent⟩
  refuses := fun _ _ _ _ h => absurd trivial h
  evaluate := by
    rintro _ rows order ⟨current, hcurrent, rfl⟩
    show ExtremeAccumulator.evaluate _ = _
    rw [ExtremeAccumulator.evaluate_eq]
    exact encodeUnit_of_rel hcurrent _ _ _

/-! ## Distinct values -/

namespace DistinctValues

/-- The set holds the bytes of the units, each once. -/
structure Holds (d : DistinctValues) (us : Multiset ℤ) : Prop where
  canonical : ∀ bytes ∈ d.values, Canonical (some bytes)
  units : units (d.values.map some : List Cell) = us.dedup

theorem holds_empty : Holds ⟨[]⟩ 0 :=
  ⟨by simp, rfl⟩

theorem Holds.mem_iff
    {d : DistinctValues} {us : Multiset ℤ} (h : d.Holds us) (u : ℤ) :
    encodeDigits u ∈ d.values ↔ u ∈ us := by
  rw [← Multiset.mem_dedup, ← h.units, Streamling.units,
    Multiset.mem_filterMap]
  simp only [Multiset.mem_coe, List.mem_map]
  constructor
  · intro hmem
    exact ⟨_, ⟨_, hmem, rfl⟩, unitOf_encodeDigits u⟩
  · rintro ⟨_, ⟨bytes, hbytes, rfl⟩, hunit⟩
    have hcanonical := h.canonical bytes hbytes
    rw [Canonical, hunit] at hcanonical
    obtain rfl : bytes = encodeDigits u := Option.some.inj hcanonical
    exact hbytes

theorem Holds.insert
    {d : DistinctValues} {us : Multiset ℤ} (h : d.Holds us) (u : ℤ) :
    (d.insert (encodeDigits u)).Holds (us + {u}) := by
  have hcons : us + {u} = u ::ₘ us := by
    rw [add_comm, Multiset.singleton_add]
  unfold DistinctValues.insert
  split_ifs with hmem
  · refine ⟨h.canonical, ?_⟩
    rw [hcons, Multiset.dedup_cons_of_mem ((h.mem_iff u).mp hmem), h.units]
  · constructor
    · intro bytes hbytes
      rcases List.mem_append.mp hbytes with hbytes | hbytes
      · exact h.canonical bytes hbytes
      · rw [List.mem_singleton.mp hbytes, Canonical, unitOf_encodeDigits]
        rfl
    · rw [hcons, Multiset.dedup_cons_of_notMem (mt (h.mem_iff u).mpr hmem),
        ← h.units, List.map_append, ← Multiset.coe_add, units_add,
        add_comm, ← Multiset.singleton_add]
      congr 1
      exact (units_cons_some u []).trans rfl

theorem Holds.update
    {d : DistinctValues} {us : Multiset ℤ} (h : d.Holds us)
    {cells : List Cell} (hcells : ∀ cell ∈ cells, Canonical cell) :
    (d.update cells).Holds (us + Streamling.units cells) := by
  induction cells generalizing d us with
  | nil =>
      rw [DistinctValues.update]
      simpa using h
  | cons cell cells ih =>
      rw [List.forall_mem_cons] at hcells
      rcases canonical_cases hcells.1 with rfl | ⟨u, rfl⟩
      · rw [units_cons_none]
        exact ih h hcells.2
      · rw [units_cons_some, ← Multiset.singleton_add, ← add_assoc]
        exact ih (h.insert u) hcells.2

/-- The list of a state has the bytes of the units of the rows, each once. -/
def Sends (state : Option (List Cell)) (rows : Multiset Cell) : Prop :=
  ∃ cells, state = some cells ∧ (∀ cell ∈ cells, Canonical cell) ∧
    Streamling.units cells = (Streamling.units rows).dedup

theorem dedup_add_dedup (us vs : Multiset ℤ) :
    (us + vs.dedup).dedup = (us + vs).dedup := by
  apply (Multiset.nodup_dedup _).ext (Multiset.nodup_dedup _) |>.mpr
  simp

theorem Holds.merge
    {d : DistinctValues} {us : Multiset ℤ} (h : d.Holds us)
    {states : List (Option (List Cell))} {sent : List (Multiset Cell)}
    (hsends : List.Forall₂ Sends states sent) :
    (d.merge states).Holds (us + Streamling.units sent.sum) := by
  induction hsends generalizing d us with
  | nil =>
      rw [DistinctValues.merge]
      simpa using h
  | cons hstate _ ih =>
      obtain ⟨cells, rfl, hcells, hunits⟩ := hstate
      rw [List.sum_cons, units_add, ← add_assoc]
      apply ih
      have hupdate := h.update hcells
      rw [hunits] at hupdate
      refine ⟨hupdate.canonical, ?_⟩
      rw [hupdate.units, dedup_add_dedup]

theorem perm_iterated (d : DistinctValues) (order : ℕ) :
    (d.iterated order).Perm d.values := by
  unfold iterated
  cases horder : d.values.permutations[order]? with
  | none => exact List.Perm.refl _
  | some list =>
      exact List.mem_permutations.mp (List.mem_of_getElem? horder)

theorem units_iterated (d : DistinctValues) (order : ℕ) :
    Streamling.units ((d.iterated order).map some : List Cell) =
      Streamling.units (d.values.map some : List Cell) := by
  congr 1
  exact Multiset.coe_eq_coe.mpr ((d.perm_iterated order).map some)

theorem Holds.state
    {d : DistinctValues} {rows : Multiset Cell}
    (h : d.Holds (Streamling.units rows)) (order : ℕ) :
    Sends (d.state order) rows := by
  refine ⟨_, rfl, ?_, ?_⟩
  · intro cell hcell
    obtain ⟨bytes, hbytes, rfl⟩ := List.mem_map.mp hcell
    exact h.canonical bytes ((d.perm_iterated order).mem_iff.mp hbytes)
  · rw [units_iterated, h.units]

/-- The set has as many values as there are units. -/
theorem Holds.len_eq
    {d : DistinctValues} {us : Multiset ℤ} (h : d.Holds us) :
    d.len = us.dedup.card := by
  have hcard (values : List (List UInt8))
      (hvalues : ∀ bytes ∈ values, Canonical (some bytes)) :
      (Streamling.units (values.map some : List Cell)).card =
        values.length := by
    induction values with
    | nil => rfl
    | cons bytes values ih =>
        rw [List.forall_mem_cons] at hvalues
        rcases canonical_cases hvalues.1 with hnone | ⟨u, hu⟩
        · cases hnone
        · rw [List.map_cons, hu, units_cons_some, Multiset.card_cons,
            ih hvalues.2, List.length_cons]
  rw [← h.units, hcard d.values h.canonical, len]

theorem sumFrom_ok
    {scale : ℕ} {values : List (List UInt8)}
    (hvalues : ∀ bytes ∈ values, Canonical (some bytes))
    {acc : BigDecimal} {x : ℤ} (hacc : HoldsUnits scale acc x) :
    ∃ d, sumFrom scale acc values = .ok d ∧
      HoldsUnits scale d
        (x + (Streamling.units (values.map some : List Cell)).sum) := by
  induction values generalizing acc x with
  | nil => exact ⟨acc, rfl, by simpa using hacc⟩
  | cons bytes values ih =>
      rw [List.forall_mem_cons] at hvalues
      rcases canonical_cases hvalues.1 with hnone | ⟨u, hu⟩
      · cases hnone
      · obtain rfl := Option.some.inj hu
        obtain ⟨d, hd, hholds⟩ :=
          ih hvalues.2 (hacc.add (holdsUnits_fromBigintAndScale u scale))
        rw [List.map_cons, units_cons_some, Multiset.sum_cons, ← add_assoc]
        refine ⟨d, ?_, hholds⟩
        rw [sumFrom, fromCanonicalBytesAtScale_encodeDigits]
        exact hd

theorem Holds.sum
    {d : DistinctValues} {us : Multiset ℤ} (h : d.Holds us)
    (scale order : ℕ) :
    ∃ sum, d.sum scale order = .ok sum ∧
      HoldsUnits scale sum us.dedup.sum := by
  have hcanonical : ∀ bytes ∈ d.iterated order, Canonical (some bytes) :=
    fun bytes hbytes =>
      h.canonical bytes ((d.perm_iterated order).mem_iff.mp hbytes)
  obtain ⟨sum, hsum, hholds⟩ :=
    sumFrom_ok hcanonical (holdsUnits_zero scale)
  rw [units_iterated, h.units, zero_add] at hholds
  exact ⟨sum, hsum, hholds⟩

end DistinctValues

theorem dedup_eq_zero {us : Multiset ℤ} : us.dedup = 0 ↔ us = 0 := by
  constructor
  · intro h
    rw [Multiset.eq_zero_iff_forall_notMem] at h ⊢
    intro u hu
    exact h u (Multiset.mem_dedup.mpr hu)
  · rintro rfl
    rfl

def distinctSumSummarizes (p s : ℕ) :
    (distinctSumAccumulator p s).Summarizes Canonical (fun _ => True)
      (fun rows => encodeUnit (total (units rows).dedup) s
        (sumOutputPrecisionScale p s).1 s "sum") where
  Tracks acc rows := ∃ values : DistinctValues, values.Holds (units rows) ∧
    acc = ⟨values, s, s, (sumOutputPrecisionScale p s).1⟩
  Sends := DistinctValues.Sends
  new := ⟨_, DistinctValues.holds_empty, rfl⟩
  update := by
    rintro _ rows batch ⟨values, hvalues, rfl⟩ hbatch
    have hupdate := hvalues.update hbatch
    rw [← units_add] at hupdate
    exact ⟨_, rfl, _, hupdate, rfl⟩
  merge := by
    rintro _ rows states sent ⟨values, hvalues, rfl⟩ hsends
    have hmerge := hvalues.merge hsends
    rw [← units_add] at hmerge
    exact ⟨_, rfl, _, hmerge, rfl⟩
  sends := by
    rintro _ rows order ⟨values, hvalues, rfl⟩ -
    exact ⟨_, rfl, hvalues.state order⟩
  refuses := fun _ _ _ _ h => absurd trivial h
  evaluate := by
    rintro _ rows order ⟨values, hvalues, rfl⟩
    show DistinctSumAccumulator.evaluate _ order = _
    unfold DistinctSumAccumulator.evaluate
    simp only [hvalues.len_eq, Multiset.card_eq_zero]
    by_cases hzero : (units rows).dedup = 0
    · rw [if_pos hzero, total_eq_none.mpr hzero]
      rfl
    · obtain ⟨sum, hsum, hholds⟩ := hvalues.sum s order
      rw [if_neg hzero, total_eq_some.mpr ⟨hzero, rfl⟩, hsum]
      exact hholds.encodeChecked_eq _ _ _

def distinctAvgSummarizes (p s : ℕ) :
    (distinctAvgAccumulator p s).Summarizes Canonical (fun _ => True)
      (fun rows =>
        if (units rows).dedup = 0 then .ok none
        else
          encodeChecked (BigDecimal.exactDivAtScale
              ⟨(units rows).dedup.sum, s⟩
              ⟨(units rows).dedup.card, 0⟩
              (avgOutputPrecisionScale p s).2)
            (avgOutputPrecisionScale p s).1 (avgOutputPrecisionScale p s).2
            "avg") where
  Tracks acc rows := ∃ values : DistinctValues, values.Holds (units rows) ∧
    acc = ⟨values, s, (avgOutputPrecisionScale p s).1,
      (avgOutputPrecisionScale p s).2⟩
  Sends := DistinctValues.Sends
  new := ⟨_, DistinctValues.holds_empty, rfl⟩
  update := by
    rintro _ rows batch ⟨values, hvalues, rfl⟩ hbatch
    have hupdate := hvalues.update hbatch
    rw [← units_add] at hupdate
    exact ⟨_, rfl, _, hupdate, rfl⟩
  merge := by
    rintro _ rows states sent ⟨values, hvalues, rfl⟩ hsends
    have hmerge := hvalues.merge hsends
    rw [← units_add] at hmerge
    exact ⟨_, rfl, _, hmerge, rfl⟩
  sends := by
    rintro _ rows order ⟨values, hvalues, rfl⟩ -
    exact ⟨_, rfl, hvalues.state order⟩
  refuses := fun _ _ _ _ h => absurd trivial h
  evaluate := by
    rintro _ rows order ⟨values, hvalues, rfl⟩
    show DistinctAvgAccumulator.evaluate _ order = _
    unfold DistinctAvgAccumulator.evaluate
    simp only [hvalues.len_eq, Multiset.card_eq_zero]
    by_cases hzero : (units rows).dedup = 0
    · rw [if_pos hzero, if_pos hzero]
      rfl
    · obtain ⟨sum, hsum, hholds⟩ := hvalues.sum s order
      have hcount : ((units rows).dedup.card : ℤ) ≠ 0 := by
        rw [Int.natCast_ne_zero, ne_eq, Multiset.card_eq_zero]
        exact hzero
      rw [if_neg hzero, if_neg hzero, hsum, ← hholds.exactDivAtScale_eq hcount]
      rfl

end Streamling
