import Mathlib
import Streamling.Operators.RebatchOrdering
import Streamling.Types.ArrowArray

/-!
# The byte budget of a flush

The accumulator adds up one size for each column.  A measure of columns that
the size bounds and that slicing does not enlarge stays within the budget over
every flush of several batches; the payload of each buffer of `i32` offsets is
such a measure, so merging what is flushed overflows none of them.
-/

namespace Streamling

/-! ## Calls of an accumulator -/

section Calls

variable {ρ κ μ : Type*}

/-- The calls of an accumulator.  Whether the flush interval has elapsed is
the clock's choice. -/
inductive AccumulatorCall (ρ κ μ : Type*) where
  | push (batch : ColumnBatch ρ κ μ)
  | checkTimeFlush (elapsed : Bool)
  | flush

namespace BatchAccumulator

def checkTimeFlush (ops : ColumnOps κ) (a : BatchAccumulator ρ κ μ)
    (elapsed : Bool) :
    BatchAccumulator ρ κ μ × Option (List (ColumnBatch ρ κ μ)) :=
  if elapsed && !a.isEmpty then a.flush ops else (a, none)

def call (ops : ColumnOps κ) (a : BatchAccumulator ρ κ μ) :
    AccumulatorCall ρ κ μ →
      BatchAccumulator ρ κ μ × Option (List (ColumnBatch ρ κ μ))
  | .push batch => a.push ops batch
  | .checkTimeFlush elapsed => a.checkTimeFlush ops elapsed
  | .flush => a.flush ops

/-- What the calls flush. -/
def flushResults (ops : ColumnOps κ) (a : BatchAccumulator ρ κ μ) :
    List (AccumulatorCall ρ κ μ) → List (List (ColumnBatch ρ κ μ))
  | [] => []
  | c :: calls =>
      (a.call ops c).2.toList ++ flushResults ops (a.call ops c).1 calls

end BatchAccumulator

end Calls

/-! ## The budget of a measure -/

section Measure

variable {ρ κ μ : Type*}

/-- The measure of a column of a batch, zero without that column. -/
def ColumnBatch.measureAt (measure : κ → ℕ) (c : ℕ)
    (batch : ColumnBatch ρ κ μ) : ℕ :=
  (batch.columns[c]?.map measure).getD 0

def ColumnBatch.HasColumn (c : ℕ) (batch : ColumnBatch ρ κ μ) : Prop :=
  c < batch.columns.length

instance (c : ℕ) :
    DecidablePred (ColumnBatch.HasColumn (ρ := ρ) (κ := κ) (μ := μ) c) :=
  fun batch => inferInstanceAs (Decidable (c < batch.columns.length))

/-- The size bounds the measure of a valid column, and slices of it are valid
and measure no more. -/
structure ColumnOps.Bounds (ops : ColumnOps κ) (valid : κ → Prop)
    (measure : κ → ℕ) : Prop where
  le : ∀ column, valid column →
    measure column ≤ ops.maxI32OffsetPayloadSize column
  slice_valid : ∀ offset length column, valid column →
    valid (ops.slice offset length column)
  slice_le : ∀ offset length column, valid column →
    measure (ops.slice offset length column) ≤ measure column

namespace BatchAccumulator

theorem length_addPayloadSizes
    (totals sizes : List ℕ) :
    (addPayloadSizes totals sizes).length = totals.length := by
  induction totals generalizing sizes with
  | nil => cases sizes <;> rfl
  | cons total totals ih =>
      cases sizes with
      | nil => rfl
      | cons size sizes => simp [addPayloadSizes, ih]

theorem getElem?_addPayloadSizes
    {totals : List ℕ} (sizes : List ℕ) {c : ℕ} (hc : c < totals.length) :
    (addPayloadSizes totals sizes)[c]?.getD 0 =
      totals[c]?.getD 0 + sizes[c]?.getD 0 := by
  induction totals generalizing sizes c with
  | nil => simp at hc
  | cons total totals ih =>
      cases sizes with
      | nil => simp [addPayloadSizes]
      | cons size sizes =>
          cases c with
          | zero => simp [addPayloadSizes]
          | succ c =>
              have hc' : c < totals.length := by simpa using hc
              simpa [addPayloadSizes] using ih sizes hc'

theorem le_of_not_crosses
    {maxColumnBytes : ℕ} {included sizes : List ℕ}
    (h : crossesByteBudget maxColumnBytes included sizes ≠ true) {c : ℕ}
    (hc : c < included.length) (hc' : c < sizes.length) :
    included[c]?.getD 0 + sizes[c]?.getD 0 ≤ maxColumnBytes := by
  rw [List.getElem?_eq_getElem hc, List.getElem?_eq_getElem hc']
  by_contra hlt
  refine h (List.any_eq_true.mpr ⟨(included[c], sizes[c]), ?_, ?_⟩)
  · rw [List.mem_iff_getElem]
    exact ⟨c, by simpa using ⟨hc, hc'⟩, by simp⟩
  · simpa using hlt

section Loop

variable (measure : κ → ℕ) (c maxColumnBytes : ℕ)

/-- The totals of the loop count the measure of a column, and keep to the
budget once two batches have the column. -/
structure Within (toReturn : List (ColumnBatch ρ κ μ))
    (included : List ℕ) : Prop where
  sum_le : (toReturn.map (ColumnBatch.measureAt measure c)).sum ≤
    included[c]?.getD 0
  cap : 2 ≤ (toReturn.filter fun batch => batch.HasColumn c).length →
    included[c]?.getD 0 ≤ maxColumnBytes

variable {measure} {c maxColumnBytes}

theorem Within.bound
    {toReturn : List (ColumnBatch ρ κ μ)} {included : List ℕ}
    (h : Within measure c maxColumnBytes toReturn included)
    (htwo : 2 ≤ (toReturn.filter fun batch => batch.HasColumn c).length) :
    (toReturn.map (ColumnBatch.measureAt measure c)).sum ≤ maxColumnBytes :=
  h.sum_le.trans (h.cap htwo)

/-- Taking a batch, or the first rows of one, that does not cross the
budget. -/
theorem Within.push
    {toReturn : List (ColumnBatch ρ κ μ)} {included : List ℕ}
    (h : Within measure c maxColumnBytes toReturn included)
    (hc : c < included.length) {sizes : List ℕ}
    (hcross : ¬ (toReturn ≠ [] ∧
      crossesByteBudget maxColumnBytes included sizes = true))
    {piece : ColumnBatch ρ κ μ}
    (hmeasure : piece.measureAt measure c ≤ sizes[c]?.getD 0)
    (hcolumns : piece.columns.length = sizes.length) :
    Within measure c maxColumnBytes (toReturn ++ [piece])
      (addPayloadSizes included sizes) where
  sum_le := by
    have hsum := h.sum_le
    rw [getElem?_addPayloadSizes sizes hc, List.map_append, List.sum_append]
    simp only [List.map_cons, List.map_nil, List.sum_cons, List.sum_nil]
    omega
  cap := by
    intro htwo
    rw [getElem?_addPayloadSizes sizes hc]
    by_cases hhas : piece.HasColumn c
    · by_cases hempty : toReturn = []
      · subst hempty
        have hone := List.length_filter_le
          (fun batch : ColumnBatch ρ κ μ => decide (batch.HasColumn c))
          ([] ++ [piece])
        simp only [List.nil_append, List.length_singleton] at hone htwo
        omega
      · refine le_of_not_crosses (fun htrue => hcross ⟨hempty, htrue⟩) hc ?_
        rw [← hcolumns]
        exact hhas
    · have hnone : sizes[c]? = none := by
        rw [List.getElem?_eq_none_iff, ← hcolumns]
        exact Nat.not_lt.mp hhas
      rw [List.filter_append, List.filter_cons_of_neg (by simpa using hhas),
        List.filter_nil, List.append_nil] at htwo
      rw [hnone]
      exact h.cap htwo

/-- A measure of valid columns stays within the budget through the loop. -/
theorem flushLoop_within
    {ops : ColumnOps κ} {valid : κ → Prop} (hbounds : ops.Bounds valid measure)
    (batchSize : ℕ) (queue toReturn : List (ColumnBatch ρ κ μ))
    (rowsIncluded : ℕ) {included : List ℕ}
    (hvalid : ∀ batch ∈ queue, ∀ column ∈ batch.columns, valid column)
    (hc : c < included.length)
    (h : Within measure c maxColumnBytes toReturn included) :
    ∃ totals, Within measure c maxColumnBytes
      (flushLoop ops batchSize maxColumnBytes queue toReturn rowsIncluded
        included).1 totals := by
  induction queue generalizing toReturn rowsIncluded included with
  | nil => exact ⟨included, h⟩
  | cons batch queue ih =>
      have hbatch := hvalid batch List.mem_cons_self
      have hsize (column : κ) (hcolumn : batch.columns[c]? = some column) :
          (batch.columnPayloadSizes ops)[c]?.getD 0 =
            ops.maxI32OffsetPayloadSize column := by
        rw [ColumnBatch.columnPayloadSizes, List.getElem?_map, hcolumn]
        rfl
      have hwhole : batch.measureAt measure c ≤
          (batch.columnPayloadSizes ops)[c]?.getD 0 := by
        rw [ColumnBatch.measureAt]
        cases hcolumn : batch.columns[c]? with
        | none => exact Nat.zero_le _
        | some column =>
            rw [hsize column hcolumn]
            exact hbounds.le column
              (hbatch column (List.mem_of_getElem? hcolumn))
      have hslice (offset length : ℕ) :
          (batch.slice ops offset length).measureAt measure c ≤
            (batch.columnPayloadSizes ops)[c]?.getD 0 := by
        rw [ColumnBatch.measureAt, ColumnBatch.slice, List.getElem?_map]
        cases hcolumn : batch.columns[c]? with
        | none => exact Nat.zero_le _
        | some column =>
            have hmem := hbatch column (List.mem_of_getElem? hcolumn)
            rw [hsize column hcolumn]
            exact (hbounds.slice_le offset length column hmem).trans
              (hbounds.le column hmem)
      simp only [flushLoop]
      by_cases hcross : toReturn ≠ [] ∧ crossesByteBudget maxColumnBytes
          included (batch.columnPayloadSizes ops) = true
      · rw [if_pos hcross]
        exact ⟨included, h⟩
      · rw [if_neg hcross]
        have hpush := h.push hc hcross hwhole
          (by simp [ColumnBatch.columnPayloadSizes])
        by_cases hfits : rowsIncluded + batch.numRows ≤ batchSize
        · rw [if_pos hfits]
          refine ih _ _ (fun b hb => hvalid b (List.mem_cons_of_mem _ hb)) ?_
            hpush
          rw [length_addPayloadSizes]
          exact hc
        · rw [if_neg hfits]
          split_ifs
          · exact ⟨_, hpush⟩
          · exact ⟨_, h.push hc hcross (hslice _ _)
              (by simp [ColumnBatch.slice, ColumnBatch.columnPayloadSizes])⟩
          · exact ⟨included, h⟩

end Loop

/-- The loop takes at most `batchSize` rows. -/
theorem flushLoop_rows
    (ops : ColumnOps κ) {batchSize : ℕ} (hpos : 0 < batchSize)
    (maxColumnBytes : ℕ) (queue toReturn : List (ColumnBatch ρ κ μ))
    {rowsIncluded : ℕ} (included : List ℕ)
    (hrows : (toReturn.map ColumnBatch.numRows).sum = rowsIncluded)
    (hle : rowsIncluded ≤ batchSize) :
    ((flushLoop ops batchSize maxColumnBytes queue toReturn rowsIncluded
      included).1.map ColumnBatch.numRows).sum ≤ batchSize := by
  induction queue generalizing toReturn rowsIncluded included with
  | nil => exact hrows.trans_le hle
  | cons batch queue ih =>
      simp only [flushLoop]
      split_ifs with hcross hfits hwhole hneeded
      · exact hrows.trans_le hle
      · refine ih (toReturn ++ [batch]) _ ?_ hfits
        simp [hrows]
      · -- without rows taken the batch would have fitted in part
        obtain ⟨hzero, rfl⟩ := hwhole
        have hnone : rowsIncluded = 0 := hrows.symm
        omega
      · have hslice : (batch.slice ops 0 (batchSize - rowsIncluded)).numRows ≤
            batchSize - rowsIncluded := by
          simp [ColumnBatch.slice, ColumnBatch.numRows]
        simp only [List.map_append, List.sum_append, hrows, List.map_cons,
          List.map_nil, List.sum_cons, List.sum_nil]
        omega
      · exact hrows.trans_le hle

/-! ## Over the calls of an accumulator -/

/-- A batch of the queue, or rows of one. -/
def Piece (ops : ColumnOps κ) (queue : List (ColumnBatch ρ κ μ))
    (batch : ColumnBatch ρ κ μ) : Prop :=
  ∃ whole ∈ queue, batch.columns.length = whole.columns.length ∧
    (whole.numRows = 0 → batch.numRows = 0) ∧
    ((batch.columns = whole.columns) ∨
      ∃ offset length,
        batch.columns = whole.columns.map (ops.slice offset length))

theorem piece_slice
    (ops : ColumnOps κ) {queue : List (ColumnBatch ρ κ μ)}
    {whole : ColumnBatch ρ κ μ} (h : whole ∈ queue) (offset length : ℕ) :
    Piece ops queue (whole.slice ops offset length) := by
  refine ⟨whole, h, by simp [ColumnBatch.slice], ?_,
    Or.inr ⟨offset, length, rfl⟩⟩
  intro hzero
  have hrows : whole.rows = [] := List.length_eq_zero_iff.mp hzero
  simp [ColumnBatch.slice, ColumnBatch.numRows, hrows]

theorem piece_of_flush
    {ops : ColumnOps κ} {a : BatchAccumulator ρ κ μ} :
    (∀ taken ∈ (a.flush ops).2, ∀ batch ∈ taken,
      Piece ops a.accumulatedBatches batch) ∧
    ∀ batch ∈ (a.flush ops).1.accumulatedBatches,
      Piece ops a.accumulatedBatches batch := by
  have hself (batch : ColumnBatch ρ κ μ)
      (h : batch ∈ a.accumulatedBatches) :
      Piece ops a.accumulatedBatches batch :=
    ⟨batch, h, rfl, id, Or.inl rfl⟩
  obtain ⟨-, hflush⟩ | ⟨taken, left, -, hflush, hsplit⟩ := flush_cases ops a
  · rw [hflush]
    exact ⟨by simp, hself⟩
  · have hall : ∀ batch ∈ taken ++ left,
        Piece ops a.accumulatedBatches batch := by
      obtain hsame | ⟨front, batch, cut, back, hqueue, -, hsame⟩ := hsplit
      · rw [hsame]
        exact hself
      · have hmem : batch ∈ a.accumulatedBatches := by simp [hqueue]
        rw [hsame]
        intro b hb
        simp only [List.mem_append, List.mem_cons] at hb
        obtain hb | rfl | rfl | hb := hb
        · exact hself b (by simp [hqueue, hb])
        · exact piece_slice ops hmem 0 cut
        · exact piece_slice ops hmem cut (batch.numRows - cut)
        · exact hself b (by simp [hqueue, hb])
    rw [hflush]
    constructor
    · intro taken' htaken batch hbatch
      obtain rfl := Option.some.inj htaken
      exact hall batch (List.mem_append_left _ hbatch)
    · exact fun batch hbatch => hall batch (List.mem_append_right _ hbatch)

/-- What is queued is valid, and there is a total for every column of a batch
with rows. -/
structure Tracked (valid : κ → Prop) (a : BatchAccumulator ρ κ μ) : Prop where
  valid : ∀ batch ∈ a.accumulatedBatches, ∀ column ∈ batch.columns,
    valid column
  width : ∀ batch ∈ a.accumulatedBatches, batch.numRows ≠ 0 →
    batch.columns.length ≤ a.currentColumnPayloadSizes.length

theorem length_recount
    (ops : ColumnOps κ) (a : BatchAccumulator ρ κ μ)
    (queue : List (ColumnBatch ρ κ μ)) :
    (a.recount ops queue).currentColumnPayloadSizes.length =
      a.currentColumnPayloadSizes.length := by
  have hfold (totals : List ℕ) :
      (queue.foldl
        (fun totals batch =>
          addPayloadSizes totals (batch.columnPayloadSizes ops))
        totals).length = totals.length := by
    induction queue generalizing totals with
    | nil => rfl
    | cons batch queue ih =>
        rw [List.foldl_cons, ih, length_addPayloadSizes]
  rw [recount, hfold, List.length_map]

theorem flush_fixed
    (ops : ColumnOps κ) (a : BatchAccumulator ρ κ μ) :
    (a.flush ops).1.batchSize = a.batchSize ∧
      (a.flush ops).1.maxColumnBytes = a.maxColumnBytes ∧
      (a.flush ops).1.currentColumnPayloadSizes.length =
        a.currentColumnPayloadSizes.length := by
  unfold flush
  split_ifs
  · exact ⟨rfl, rfl, rfl⟩
  · exact ⟨rfl, rfl, length_recount ops a _⟩

theorem enqueue_fixed
    (ops : ColumnOps κ) (a : BatchAccumulator ρ κ μ)
    (batch : ColumnBatch ρ κ μ) :
    (a.enqueue ops batch).batchSize = a.batchSize ∧
      (a.enqueue ops batch).maxColumnBytes = a.maxColumnBytes := by
  unfold enqueue
  split_ifs
  · exact ⟨rfl, rfl⟩
  · exact ⟨rfl, rfl⟩
  · exact ⟨rfl, rfl⟩

section Tracked

variable {ops : ColumnOps κ} {valid : κ → Prop} {measure : κ → ℕ}
  {a : BatchAccumulator ρ κ μ}

theorem Tracked.enqueue
    (h : Tracked valid a) {batch : ColumnBatch ρ κ μ}
    (hbatch : ∀ column ∈ batch.columns, valid column) :
    Tracked valid (a.enqueue ops batch) := by
  have hvalid : ∀ b ∈ a.accumulatedBatches ++ [batch],
      ∀ column ∈ b.columns, valid column := by
    intro b hb
    rcases List.mem_append.mp hb with hb | hb
    · exact h.valid b hb
    · obtain rfl := List.mem_singleton.mp hb
      exact hbatch
  unfold BatchAccumulator.enqueue
  split_ifs with hempty hmessages
  · exact h
  · refine ⟨hvalid, ?_⟩
    intro b hb hrows
    rcases List.mem_append.mp hb with hb | hb
    · exact h.width b hb hrows
    · obtain rfl := List.mem_singleton.mp hb
      exact absurd hempty hrows
  · refine ⟨hvalid, ?_⟩
    intro b hb hrows
    rw [length_addPayloadSizes, resizePayloadSizes, List.length_append,
      List.length_replicate]
    rcases List.mem_append.mp hb with hb | hb
    · exact (h.width b hb hrows).trans (Nat.le_add_right _ _)
    · obtain rfl := List.mem_singleton.mp hb
      omega

theorem Tracked.flush
    (h : Tracked valid a) (hbounds : ops.Bounds valid measure) :
    Tracked valid (a.flush ops).1 := by
  refine ⟨?_, ?_⟩
  · intro batch hbatch column hcolumn
    obtain ⟨whole, hwhole, -, -, hsame | ⟨offset, length, hslice⟩⟩ :=
      piece_of_flush.2 batch hbatch
    · rw [hsame] at hcolumn
      exact h.valid whole hwhole column hcolumn
    · rw [hslice] at hcolumn
      obtain ⟨source, hsource, rfl⟩ := List.mem_map.mp hcolumn
      exact hbounds.slice_valid _ _ _ (h.valid whole hwhole source hsource)
  · intro batch hbatch hrows
    obtain ⟨whole, hwhole, hlength, hzero, -⟩ :=
      piece_of_flush.2 batch hbatch
    rw [hlength, (flush_fixed ops a).2.2]
    exact h.width whole hwhole fun hnone => hrows (hzero hnone)

theorem flushLoop_eq_of_flush
    {taken : List (ColumnBatch ρ κ μ)}
    (hflush : (a.flush ops).2 = some taken) :
    (flushLoop ops a.batchSize a.maxColumnBytes a.accumulatedBatches [] 0
      (a.currentColumnPayloadSizes.map fun _ => 0)).1 = taken := by
  unfold BatchAccumulator.flush at hflush
  split_ifs at hflush with hempty
  dsimp only at hflush
  split_ifs at hflush with hnone
  exact Option.some.inj hflush

/-- What one flush returns keeps to the budget. -/
theorem Tracked.flush_sum_le
    (h : Tracked valid a) (hbounds : ops.Bounds valid measure)
    {taken : List (ColumnBatch ρ κ μ)} (hflush : (a.flush ops).2 = some taken)
    {c : ℕ}
    (htwo : 2 ≤ (taken.filter fun batch =>
      batch.numRows ≠ 0 ∧ batch.HasColumn c).length) :
    (taken.map (ColumnBatch.measureAt measure c)).sum ≤ a.maxColumnBytes := by
  obtain ⟨batch, hbatch⟩ : ∃ batch, batch ∈ taken.filter fun batch =>
      batch.numRows ≠ 0 ∧ batch.HasColumn c :=
    List.exists_mem_of_length_pos (by omega)
  obtain ⟨hmem, hdata⟩ := List.mem_filter.mp hbatch
  obtain ⟨hrows, hhas⟩ := of_decide_eq_true hdata
  obtain ⟨whole, hwhole, hlength, hzero, -⟩ :=
    piece_of_flush.1 taken hflush batch hmem
  have hwidth := h.width whole hwhole fun hnone => hrows (hzero hnone)
  have hc : c < (a.currentColumnPayloadSizes.map fun _ => 0).length := by
    have hlt : c < batch.columns.length := hhas
    rw [List.length_map]
    omega
  have hstart : Within (ρ := ρ) (μ := μ) measure c a.maxColumnBytes []
      (a.currentColumnPayloadSizes.map fun _ => 0) :=
    ⟨Nat.zero_le _, by simp⟩
  obtain ⟨totals, hwithin⟩ := flushLoop_within hbounds a.batchSize
    a.accumulatedBatches [] 0 h.valid hc hstart
  rw [flushLoop_eq_of_flush hflush] at hwithin
  refine hwithin.bound (htwo.trans ?_)
  refine List.Sublist.length_le (List.monotone_filter_right taken ?_)
  intro b hb
  have hb := of_decide_eq_true hb
  exact decide_eq_true hb.2

theorem flush_rows_le
    (hpos : 0 < a.batchSize) {taken : List (ColumnBatch ρ κ μ)}
    (hflush : (a.flush ops).2 = some taken) :
    (taken.map ColumnBatch.numRows).sum ≤ a.batchSize := by
  rw [← flushLoop_eq_of_flush hflush]
  exact flushLoop_rows ops hpos _ _ [] _ rfl (Nat.zero_le _)

/-- A call flushes an accumulator that is tracked, or nothing. -/
theorem Tracked.call
    (h : Tracked valid a) {c : AccumulatorCall ρ κ μ}
    (hcall : ∀ batch, c = .push batch →
      ∀ column ∈ batch.columns, valid column) :
    ∃ b : BatchAccumulator ρ κ μ, Tracked valid b ∧
      b.batchSize = a.batchSize ∧ b.maxColumnBytes = a.maxColumnBytes ∧
      (a.call ops c = (b, none) ∨ a.call ops c = b.flush ops) := by
  cases c with
  | push batch =>
      have hfixed := enqueue_fixed ops a batch
      refine ⟨a.enqueue ops batch, h.enqueue (hcall batch rfl), hfixed.1,
        hfixed.2, ?_⟩
      change a.push ops batch = _ ∨ a.push ops batch = _
      unfold BatchAccumulator.push
      split_ifs
      · exact Or.inr rfl
      · exact Or.inl rfl
  | checkTimeFlush elapsed =>
      refine ⟨a, h, rfl, rfl, ?_⟩
      change a.checkTimeFlush ops elapsed = _ ∨
        a.checkTimeFlush ops elapsed = _
      unfold BatchAccumulator.checkTimeFlush
      split_ifs
      · exact Or.inr rfl
      · exact Or.inl rfl
  | flush => exact ⟨a, h, rfl, rfl, Or.inr rfl⟩

/-- Every result of a run is what a tracked accumulator flushed. -/
theorem Tracked.flushResults
    (h : Tracked valid a) (hbounds : ops.Bounds valid measure)
    {calls : List (AccumulatorCall ρ κ μ)}
    (hcalls : ∀ batch, .push batch ∈ calls →
      ∀ column ∈ batch.columns, valid column)
    {taken : List (ColumnBatch ρ κ μ)}
    (htaken : taken ∈ a.flushResults ops calls) :
    ∃ b : BatchAccumulator ρ κ μ, Tracked valid b ∧
      b.batchSize = a.batchSize ∧ b.maxColumnBytes = a.maxColumnBytes ∧
      (b.flush ops).2 = some taken := by
  induction calls generalizing a with
  | nil => cases htaken
  | cons c calls ih =>
      rw [BatchAccumulator.flushResults] at htaken
      obtain ⟨b, hb, hsize, hmax, hresult⟩ := h.call (c := c)
        fun batch hc => hcalls batch (hc ▸ List.mem_cons_self)
      have hrest (batch : ColumnBatch ρ κ μ) (hmem : .push batch ∈ calls) :=
        hcalls batch (List.mem_cons_of_mem _ hmem)
      rcases hresult with hresult | hresult
      · rw [hresult] at htaken
        obtain ⟨d, hd, hsize', hmax', hflush⟩ := ih hb hrest htaken
        exact ⟨d, hd, hsize'.trans hsize, hmax'.trans hmax, hflush⟩
      · rw [hresult] at htaken
        rcases List.mem_append.mp htaken with htaken | htaken
        · exact ⟨b, hb, hsize, hmax, Option.mem_toList.mp htaken⟩
        · have hfixed := flush_fixed ops b
          obtain ⟨d, hd, hsize', hmax', hflush⟩ :=
            ih (hb.flush hbounds) hrest htaken
          exact ⟨d, hd, hsize'.trans (hfixed.1.trans hsize),
            hmax'.trans (hfixed.2.1.trans hmax), hflush⟩

end Tracked

end BatchAccumulator

end Measure

/-! ## The offsets of arrays -/

open Arrow

variable {ρ μ : Type*}

/-- The kernels on arrays; concatenation is Arrow's. -/
def arrowOps (concat : List (List ArrowArray) → Option (List ArrowArray)) :
    ColumnOps ArrowArray where
  maxI32OffsetPayloadSize := ArrowArray.maxI32OffsetPayloadSize
  slice := ArrowArray.slice
  concat := concat

theorem arrowOps_bounds
    (concat : List (List ArrowArray) → Option (List ArrowArray))
    (buffer : ArrowArray.Buffer) :
    (arrowOps concat).Bounds ArrowArray.Ordered
      (ArrowArray.payload buffer) where
  le := fun column _ => ArrowArray.payload_le buffer column
  slice_valid := fun offset length _ h => h.slice offset length
  slice_le := fun offset length _ h =>
    ArrowArray.payload_slice_le buffer h offset length

/-- The largest `i32`. -/
def maxMergedColumnBytes : ℕ := 2147483647

/-- The payload of a buffer over a column of several batches. -/
def totalPayload (c : ℕ) (buffer : ArrowArray.Buffer)
    (batches : List (ColumnBatch ρ ArrowArray μ)) : ℕ :=
  (batches.map
    (ColumnBatch.measureAt (ArrowArray.payload buffer) c)).sum

/-- Some buffer of `i32` offsets is too small for what is concatenated. -/
def OffsetOverflow (columns : List (List ArrowArray)) : Prop :=
  ∃ (c : ℕ) (buffer : ArrowArray.Buffer), maxMergedColumnBytes <
    (columns.map fun batch : List ArrowArray =>
      (batch[c]?.map (ArrowArray.payload buffer)).getD 0).sum

/-- The batches that a merge concatenates. -/
def dataBatches (batches : List (ColumnBatch ρ ArrowArray μ)) :
    List (ColumnBatch ρ ArrowArray μ) :=
  batches.filter fun batch => batch.numRows ≠ 0

/-- A merge concatenates the columns of the data batches, if there are
several. -/
theorem mergeBatches_ok
    {concat : List (List ArrowArray) → Option (List ArrowArray)}
    {batches : List (ColumnBatch ρ ArrowArray μ)}
    (h : 2 ≤ (dataBatches batches).length →
      concat ((dataBatches batches).map ColumnBatch.columns) ≠ none) :
    ∃ merged, mergeBatches (arrowOps concat) batches = .ok merged := by
  cases batches with
  | nil => exact ⟨none, rfl⟩
  | cons first batches =>
      simp only [mergeBatches]
      split
      · exact ⟨_, rfl⟩
      · exact ⟨_, rfl⟩
      next hnil hsingle =>
        have htwo : 2 ≤ (dataBatches (first :: batches)).length := by
          rcases hdata : dataBatches (first :: batches) with
            _ | ⟨single, _ | ⟨second, rest⟩⟩
          · exact absurd hdata hnil
          · exact absurd hdata (hsingle single)
          · simp
        split
        · exact ⟨_, rfl⟩
        next hconcat => exact absurd hconcat (h htwo)

/-- What fits the budget does not overflow when it is concatenated. -/
theorem not_offsetOverflow
    {batches : List (ColumnBatch ρ ArrowArray μ)}
    (hwidth : ∀ a ∈ batches, ∀ b ∈ batches,
      a.columns.length = b.columns.length)
    (htwo : 2 ≤ (dataBatches batches).length)
    (hfit : ∀ c buffer,
      2 ≤ (batches.filter fun batch =>
        batch.numRows ≠ 0 ∧ batch.HasColumn c).length →
      totalPayload c buffer batches ≤ maxMergedColumnBytes) :
    ¬ OffsetOverflow ((dataBatches batches).map ColumnBatch.columns) := by
  rintro ⟨c, buffer, hover⟩
  rw [List.map_map] at hover
  have hle : ((dataBatches batches).map
      (ColumnBatch.measureAt (ArrowArray.payload buffer) c)).sum ≤
      totalPayload c buffer batches :=
    (List.filter_sublist.map _).sum_le_sum fun _ _ => Nat.zero_le _
  obtain ⟨batch, hbatch⟩ := List.exists_mem_of_length_pos
    (l := dataBatches batches) (by omega)
  have hmem := (List.mem_filter.mp hbatch).1
  by_cases hc : c < batch.columns.length
  · refine absurd (hover.trans_le (hle.trans (hfit c buffer ?_)))
      (Nat.lt_irrefl _)
    have hfilter : (batches.filter fun batch =>
        batch.numRows ≠ 0 ∧ batch.HasColumn c) = dataBatches batches := by
      refine List.filter_congr ?_
      intro b hb
      have hhas : b.HasColumn c := hc.trans_eq (hwidth b hb batch hmem).symm
      simp [hhas]
    rw [hfilter]
    exact htwo
  · have hzero : ((dataBatches batches).map
        (ColumnBatch.measureAt (ArrowArray.payload buffer) c)).sum = 0 := by
      refine List.sum_eq_zero ?_
      intro x hx
      obtain ⟨b, hb, rfl⟩ := List.mem_map.mp hx
      have hnone : b.columns[c]? = none := by
        rw [List.getElem?_eq_none_iff,
          hwidth b (List.mem_filter.mp hb).1 batch hmem]
        exact Nat.not_lt.mp hc
      rw [ColumnBatch.measureAt, hnone]
      rfl
    exact absurd (hover.trans_eq hzero) (Nat.not_lt_zero _)

/-- A batch with one row and one string of the given length. -/
def stringBatch (row length : ℕ) : ColumnBatch ℕ ArrowArray ℕ :=
  ⟨[row], [.utf8 [0, length]], []⟩

end Streamling
