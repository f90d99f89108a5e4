import Streamling.Operators.BatchAccumulator

/-!
# The order of messages through one accumulator

A checkpoint message must not overtake rows that entered before it.  An
accumulator keeps that order as far as its splits are clean: a message leaves
with the first slice of its batch, behind everything queued earlier, but in
front of the rows of its own batch that lie behind the cut.
-/

namespace Streamling

variable {ρ κ μ : Type*}

/-- The rows of a stream, in order. -/
def streamRows (stream : List (ColumnBatch ρ κ μ)) : List ρ :=
  stream.flatMap ColumnBatch.rows

@[simp] theorem streamRows_nil :
    streamRows ([] : List (ColumnBatch ρ κ μ)) = [] := rfl

@[simp] theorem streamRows_cons (batch : ColumnBatch ρ κ μ)
    (stream : List (ColumnBatch ρ κ μ)) :
    streamRows (batch :: stream) = batch.rows ++ streamRows stream := rfl

@[simp] theorem streamRows_append (xs ys : List (ColumnBatch ρ κ μ)) :
    streamRows (xs ++ ys) = streamRows xs ++ streamRows ys := by
  simp [streamRows]

/-! ## The order of a stream

The order is stated for any relation `older`, saying which rows a message
must not overtake.  `gone` are the rows that left before the stream begins. -/

section Order

variable (older : μ → ρ → Prop)

/-- Every message of the batch has all older rows at or before the batch. -/
def NotOvertaking (gone : List ρ) (batch : ColumnBatch ρ κ μ) : Prop :=
  ∀ m ∈ batch.messages, ∀ row, older m row → row ∈ gone ++ batch.rows

/-- No message of the stream overtakes an older row. -/
def InOrder : List ρ → List (ColumnBatch ρ κ μ) → Prop
  | _, [] => True
  | gone, batch :: stream =>
      NotOvertaking older gone batch ∧ InOrder (gone ++ batch.rows) stream

variable {older}

theorem inOrder_append
    {gone : List ρ} {xs ys : List (ColumnBatch ρ κ μ)} :
    InOrder older gone (xs ++ ys) ↔
      InOrder older gone xs ∧ InOrder older (gone ++ streamRows xs) ys := by
  induction xs generalizing gone with
  | nil => simp [InOrder]
  | cons batch xs ih => simp [InOrder, ih, and_assoc]

/-- Messages collected at the end of a group have waited at least as long as
on their own batch. -/
theorem inOrder_singleton_of_inOrder
    {gone : List ρ} {xs : List (ColumnBatch ρ κ μ)}
    {merged : ColumnBatch ρ κ μ} (h : InOrder older gone xs)
    (hrows : merged.rows = streamRows xs)
    (hmessages : merged.messages = xs.flatMap ColumnBatch.messages) :
    InOrder older gone [merged] := by
  refine ⟨?_, trivial⟩
  intro m hm row hrow
  rw [hmessages, List.mem_flatMap] at hm
  obtain ⟨batch, hbatch, hm⟩ := hm
  obtain ⟨front, back, rfl⟩ := List.append_of_mem hbatch
  have hnot := (inOrder_append.mp h).2.1 m hm row hrow
  rw [hrows]
  simp only [streamRows_append, streamRows_cons, List.mem_append]
    at hnot ⊢
  rcases hnot with (hgone | hfront) | hown
  · exact Or.inl hgone
  · exact Or.inr (Or.inl hfront)
  · exact Or.inr (Or.inr (Or.inl hown))

/-- A batch may be cut in two if its messages are not younger than a row
behind the cut. -/
theorem inOrder_split
    {gone : List ρ} {front back : List (ColumnBatch ρ κ μ)}
    {batch first rest : ColumnBatch ρ κ μ}
    (h : InOrder older gone (front ++ batch :: back))
    (hrows : first.rows ++ rest.rows = batch.rows)
    (hmessages : first.messages = batch.messages)
    (hstripped : rest.messages = [])
    (hclean : ∀ m ∈ batch.messages, ∀ row ∈ rest.rows, ¬ older m row) :
    InOrder older gone (front ++ first :: rest :: back) := by
  obtain ⟨hfront, hbatch, hback⟩ := inOrder_append.mp h
  refine inOrder_append.mpr ⟨hfront, ?_, ?_, ?_⟩
  · intro m hm row hrow
    rw [hmessages] at hm
    have hmem := hbatch m hm row hrow
    rw [← hrows, ← List.append_assoc] at hmem
    rcases List.mem_append.mp hmem with hmem | hmem
    · exact hmem
    · exact absurd hrow (hclean m hm row hmem)
  · simp [NotOvertaking, hstripped]
  · rw [List.append_assoc, hrows]
    exact hback

end Order

/-! ## Where a flush splits -/

namespace BatchAccumulator

/-- The batch that the loop of `flush` cuts in two, and after how many
rows. -/
def loopSplit (ops : ColumnOps κ) (batchSize maxColumnBytes : ℕ) :
    List (ColumnBatch ρ κ μ) → List (ColumnBatch ρ κ μ) → ℕ → List ℕ →
      Option (ColumnBatch ρ κ μ × ℕ)
  | [], _, _, _ => none
  | batch :: queue, toReturn, rowsIncluded, included =>
      let sizes := batch.columnPayloadSizes ops
      if toReturn ≠ [] ∧
          crossesByteBudget maxColumnBytes included sizes = true then none
      else if rowsIncluded + batch.numRows ≤ batchSize then
        loopSplit ops batchSize maxColumnBytes queue (toReturn ++ [batch])
          (rowsIncluded + batch.numRows) (addPayloadSizes included sizes)
      else if 0 < batchSize - rowsIncluded then
        some (batch, batchSize - rowsIncluded)
      else none

/-- The batch the next flush cuts in two, and after how many rows. -/
def flushSplit (ops : ColumnOps κ) (a : BatchAccumulator ρ κ μ) :
    Option (ColumnBatch ρ κ μ × ℕ) :=
  loopSplit ops a.batchSize a.maxColumnBytes a.accumulatedBatches [] 0
    (a.currentColumnPayloadSizes.map fun _ => 0)

/-- The next flush leaves no row behind the cut that is older than a message
of the batch it splits. -/
def SplitsClean (older : μ → ρ → Prop) (ops : ColumnOps κ)
    (a : BatchAccumulator ρ κ μ) : Prop :=
  ∀ split ∈ a.flushSplit ops, ∀ m ∈ split.1.messages,
    ∀ row ∈ split.1.rows.drop split.2, ¬ older m row

instance (older : μ → ρ → Prop) [∀ m row, Decidable (older m row)]
    (ops : ColumnOps κ) (a : BatchAccumulator ρ κ μ) :
    Decidable (a.SplitsClean older ops) :=
  inferInstanceAs (Decidable (∀ split ∈ a.flushSplit ops, _))

theorem slice_rows_append (ops : ColumnOps κ)
    (batch : ColumnBatch ρ κ μ) (cut : ℕ) :
    (batch.slice ops 0 cut).rows ++
        (batch.slice ops cut (batch.numRows - cut)).rows =
      batch.rows := by
  have htail : (batch.rows.drop cut).take (batch.rows.length - cut) =
      batch.rows.drop cut := List.take_of_length_le (by simp)
  simp only [ColumnBatch.slice, ColumnBatch.numRows, List.drop_zero, htail,
    List.take_append_drop]

/-- The loop hands over the queue as it is, or with the one batch it splits
replaced by its two slices. -/
theorem flushLoop_spec (ops : ColumnOps κ) (batchSize maxColumnBytes : ℕ)
    (queue toReturn : List (ColumnBatch ρ κ μ)) (rowsIncluded : ℕ)
    (included : List ℕ) {taken left : List (ColumnBatch ρ κ μ)}
    (hresult : flushLoop ops batchSize maxColumnBytes queue toReturn
      rowsIncluded included = (taken, left)) :
    taken ++ left = toReturn ++ queue ∨
      ∃ front batch cut back, queue = front ++ batch :: back ∧
        loopSplit ops batchSize maxColumnBytes queue toReturn
          rowsIncluded included = some (batch, cut) ∧
        taken ++ left = toReturn ++ front ++
          batch.slice ops 0 cut ::
            (batch.slice ops cut
              (batch.numRows - cut)).stripCheckpointMessages :: back := by
  induction queue generalizing toReturn rowsIncluded included with
  | nil =>
      obtain ⟨rfl, rfl⟩ := Prod.mk.inj hresult
      exact Or.inl rfl
  | cons batch queue ih =>
      simp only [flushLoop] at hresult
      simp only [loopSplit]
      by_cases hcross : toReturn ≠ [] ∧ crossesByteBudget maxColumnBytes
          included (batch.columnPayloadSizes ops) = true
      · rw [if_pos hcross] at hresult
        obtain ⟨rfl, rfl⟩ := Prod.mk.inj hresult
        exact Or.inl rfl
      · rw [if_neg hcross] at hresult
        rw [if_neg hcross]
        by_cases hfits : rowsIncluded + batch.numRows ≤ batchSize
        · rw [if_pos hfits] at hresult
          rw [if_pos hfits]
          rcases ih _ _ _ hresult with
            hsame | ⟨front, b, cut, back, rfl, hsplit, hcut⟩
          · exact Or.inl (by simpa using hsame)
          · exact Or.inr ⟨batch :: front, b, cut, back, rfl, hsplit,
              by simpa using hcut⟩
        · rw [if_neg hfits] at hresult
          rw [if_neg hfits]
          by_cases hneeded : 0 < batchSize - rowsIncluded
          · have hnot : ¬ (batchSize - rowsIncluded = 0 ∧ toReturn = []) :=
              fun h => absurd h.1 (Nat.pos_iff_ne_zero.mp hneeded)
            rw [if_neg hnot, if_pos hneeded] at hresult
            obtain ⟨rfl, rfl⟩ := Prod.mk.inj hresult
            rw [if_pos hneeded]
            exact Or.inr ⟨[], batch, _, queue, rfl, rfl, by simp⟩
          · left
            by_cases hwhole : batchSize - rowsIncluded = 0 ∧ toReturn = []
            · rw [if_pos hwhole] at hresult
              obtain ⟨rfl, rfl⟩ := Prod.mk.inj hresult
              simp
            · rw [if_neg hwhole, if_neg hneeded] at hresult
              obtain ⟨rfl, rfl⟩ := Prod.mk.inj hresult
              rfl

/-- The loop returns something if there is anything to return. -/
theorem flushLoop_ne_nil (ops : ColumnOps κ) (batchSize maxColumnBytes : ℕ)
    (queue toReturn : List (ColumnBatch ρ κ μ)) (rowsIncluded : ℕ)
    (included : List ℕ) (h : toReturn ≠ [] ∨ queue ≠ []) :
    (flushLoop ops batchSize maxColumnBytes queue toReturn rowsIncluded
      included).1 ≠ [] := by
  induction queue generalizing toReturn rowsIncluded included with
  | nil =>
      rcases h with h | h
      · simpa [flushLoop] using h
      · exact absurd rfl h
  | cons batch queue ih =>
      simp only [flushLoop]
      split
      next hcross => exact hcross.1
      · split
        · exact ih _ _ _ (Or.inl (by simp))
        · split
          · simp
          next hwhole =>
            split
            · simp
            next hneeded =>
              intro hnil
              exact hwhole ⟨Nat.eq_zero_of_not_pos hneeded, hnil⟩

/-- What a flush does: nothing to an empty queue; otherwise it returns a
non-empty group and leaves a queue, which together are the old queue up to one
split. -/
theorem flush_cases (ops : ColumnOps κ) (a : BatchAccumulator ρ κ μ) :
    (a.accumulatedBatches = [] ∧ a.flush ops = (a, none)) ∨
      ∃ taken left, taken ≠ [] ∧
        a.flush ops = (a.recount ops left, some taken) ∧
        (taken ++ left = a.accumulatedBatches ∨
          ∃ front batch cut back,
            a.accumulatedBatches = front ++ batch :: back ∧
            a.flushSplit ops = some (batch, cut) ∧
            taken ++ left = front ++ batch.slice ops 0 cut ::
              (batch.slice ops cut
                (batch.numRows - cut)).stripCheckpointMessages :: back) := by
  by_cases hempty : a.accumulatedBatches = []
  · exact Or.inl ⟨hempty, by simp [flush, hempty]⟩
  · right
    obtain ⟨taken, left, hresult⟩ :
        ∃ taken left, flushLoop ops a.batchSize a.maxColumnBytes
          a.accumulatedBatches [] 0
          (a.currentColumnPayloadSizes.map fun _ => 0) = (taken, left) :=
      ⟨_, _, rfl⟩
    have hne : taken ≠ [] := by
      have := flushLoop_ne_nil ops a.batchSize a.maxColumnBytes
        a.accumulatedBatches [] 0
        (a.currentColumnPayloadSizes.map fun _ => 0) (Or.inr hempty)
      rwa [hresult] at this
    refine ⟨taken, left, hne, ?_, ?_⟩
    · simp only [flush, if_neg hempty, hresult, if_neg hne]
    · simpa [flushSplit] using
        flushLoop_spec ops _ _ _ _ _ _ hresult

end BatchAccumulator

/-! ## One accumulator keeps the order -/

theorem mergeBatches_rows_messages {ops : ColumnOps κ}
    {batches : List (ColumnBatch ρ κ μ)} {merged : ColumnBatch ρ κ μ}
    (h : mergeBatches ops batches = .ok (some merged)) :
    merged.rows = streamRows batches ∧
      merged.messages = batches.flatMap ColumnBatch.messages := by
  have hdata : streamRows batches = streamRows
      (batches.filter fun batch => batch.numRows ≠ 0) := by
    clear h
    induction batches with
    | nil => rfl
    | cons batch batches ih =>
        by_cases hb : batch.numRows = 0
        · have : batch.rows = [] := List.length_eq_zero_iff.mp hb
          simp [hb, this, ih]
        · simp [hb, ih]
  cases batches with
  | nil => simp [mergeBatches] at h
  | cons first batches =>
      simp only [mergeBatches] at h
      split at h
      next hnone =>
        simp only [Except.ok.injEq, Option.some.injEq] at h
        subst h
        exact ⟨by rw [hdata, hnone]; rfl, rfl⟩
      next single hsingle =>
        simp only [Except.ok.injEq, Option.some.injEq] at h
        subst h
        exact ⟨by rw [hdata, hsingle]; simp, rfl⟩
      · split at h
        · simp only [Except.ok.injEq, Option.some.injEq] at h
          subst h
          exact ⟨hdata.symm, rfl⟩
        · simp at h

theorem mergeBatches_ne_none {ops : ColumnOps κ}
    {batches : List (ColumnBatch ρ κ μ)} (h : batches ≠ []) :
    mergeBatches ops batches ≠ .ok none := by
  cases batches with
  | nil => exact absurd rfl h
  | cons first batches =>
      simp only [mergeBatches]
      split
      · simp
      · simp
      · split <;> simp

namespace Rebatch

/-- The stream so far is in order, and so is the queue behind it; together
they hold the rows received. -/
structure Ordered (older : μ → ρ → Prop) (received : List ρ)
    (r : Rebatch ρ κ μ) : Prop where
  output : InOrder older [] r.output
  queue : r.failed = false → InOrder older (streamRows r.output)
    r.accumulator.accumulatedBatches
  rows : r.failed = false → streamRows r.output ++
    streamRows r.accumulator.accumulatedBatches = received

/-- Every flush so far split clean. -/
def AllSplitsClean (older : μ → ρ → Prop) (ops : ColumnOps κ)
    (r : Rebatch ρ κ μ) : Prop :=
  ∀ a ∈ r.flushed, a.SplitsClean older ops

instance (older : μ → ρ → Prop) [∀ m row, Decidable (older m row)]
    (ops : ColumnOps κ) (r : Rebatch ρ κ μ) :
    Decidable (r.AllSplitsClean older ops) :=
  inferInstanceAs (Decidable (∀ a ∈ r.flushed, _))

section Steps

variable {older : μ → ρ → Prop} {ops : ColumnOps κ}
  {received : List ρ} {r : Rebatch ρ κ μ}

theorem Ordered.flushOnce (h : r.Ordered older received)
    (hclean : r.accumulator.SplitsClean older ops)
    (hlive : r.failed = false) :
    (r.flushOnce ops).Ordered older received := by
  rcases r.accumulator.flush_cases ops with
    ⟨-, hnone⟩ | ⟨taken, left, hne, hflush, hsplit⟩
  · have heq : r.flushOnce ops =
        { r with flushed := r.flushed ++ [r.accumulator] } := by
      simp [Rebatch.flushOnce, hnone]
    rw [heq]
    exact ⟨h.output, h.queue, h.rows⟩
  · -- The group and the queue left behind are in order, split or not.
    have hboth : InOrder older (streamRows r.output) (taken ++ left) ∧
        streamRows taken ++ streamRows left =
          streamRows r.accumulator.accumulatedBatches := by
      rw [← streamRows_append]
      rcases hsplit with hsame | ⟨front, batch, cut, back, hq, hs, hcut⟩
      · rw [hsame]
        exact ⟨h.queue hlive, rfl⟩
      · have hrows := BatchAccumulator.slice_rows_append ops batch cut
        rw [hcut]
        constructor
        · refine inOrder_split (hq ▸ h.queue hlive) hrows rfl rfl ?_
          intro m hm row hrow
          refine hclean (batch, cut) hs m hm row ?_
          simpa [ColumnBatch.stripCheckpointMessages, ColumnBatch.slice,
            ColumnBatch.numRows] using List.mem_of_mem_take hrow
        · rw [hq]
          simp only [streamRows_append, streamRows_cons,
            ColumnBatch.stripCheckpointMessages]
          rw [← List.append_assoc (batch.slice ops 0 cut).rows, hrows]
    obtain ⟨hinorder, hrows⟩ := hboth
    obtain ⟨htaken, hleft⟩ := inOrder_append.mp hinorder
    simp only [Rebatch.flushOnce, hflush, yieldMerged]
    split
    next merged hmerge =>
      obtain ⟨hmrows, hmmsgs⟩ := mergeBatches_rows_messages hmerge
      have hsingle := inOrder_singleton_of_inOrder htaken hmrows hmmsgs
      refine ⟨?_, ?_, ?_⟩
      · exact inOrder_append.mpr ⟨h.output, by simpa using hsingle⟩
      · intro _
        simpa [hmrows, BatchAccumulator.recount] using hleft
      · intro hl
        rw [← h.rows hlive, ← hrows]
        simp [hmrows, BatchAccumulator.recount]
    next hmerge => exact absurd hmerge (mergeBatches_ne_none hne)
    · exact ⟨h.output, by simp, by simp⟩

theorem flushOnce_flushed (ops : ColumnOps κ) (r : Rebatch ρ κ μ) :
    (r.flushOnce ops).flushed = r.flushed ++ [r.accumulator] := by
  simp only [Rebatch.flushOnce]
  split
  · simp only [yieldMerged]
    split <;> rfl
  · rfl

/-- The flushes recorded before a loop are recorded after it. -/
theorem flushed_flushWhile (ops : ColumnOps κ)
    (more : BatchAccumulator ρ κ μ → Bool) (fuel : ℕ)
    (r : Rebatch ρ κ μ) :
    r.flushed <+: (r.flushWhile ops more fuel).flushed := by
  induction fuel generalizing r with
  | zero => exact List.prefix_refl _
  | succ fuel ih =>
      have hone : r.flushed <+: (r.flushOnce ops).flushed := by
        rw [flushOnce_flushed]
        exact List.prefix_append _ _
      simp only [flushWhile]
      split
      · exact List.prefix_refl _
      · split
        · exact hone.trans (ih (r.flushOnce ops))
        · exact hone

theorem Ordered.flushWhile (h : r.Ordered older received)
    (more : BatchAccumulator ρ κ μ → Bool) (fuel : ℕ)
    (hclean : (r.flushWhile ops more fuel).AllSplitsClean older ops) :
    (r.flushWhile ops more fuel).Ordered older received := by
  induction fuel generalizing r with
  | zero => exact h
  | succ fuel ih =>
      simp only [Rebatch.flushWhile] at hclean ⊢
      split at hclean
      next hstop =>
        rw [if_pos hstop]
        exact h
      next hgo =>
        rw [if_neg hgo]
        have hlive : r.failed = false := by
          by_contra hfail
          exact hgo (Or.inl (by simpa using hfail))
        have hmem : r.accumulator ∈ (r.flushOnce ops).flushed := by
          simp [flushOnce_flushed]
        split at hclean
        next hsome =>
          have hnow := hclean r.accumulator
            ((flushed_flushWhile ops more fuel _).subset hmem)
          exact ih (h.flushOnce hnow hlive) hclean
        next hnone => exact h.flushOnce (hclean r.accumulator hmem) hlive

/-- Queueing a batch that does not overtake what was received keeps the
order. -/
theorem Ordered.enqueue (h : r.Ordered older received)
    {batch : ColumnBatch ρ κ μ}
    (hbatch : NotOvertaking older received batch) :
    Ordered older (received ++ batch.rows)
      { r with accumulator := r.accumulator.enqueue ops batch } := by
  have hqueued : r.accumulator.accumulatedBatches ++ [batch] =
        (r.accumulator.enqueue ops batch).accumulatedBatches ∨
      (batch.rows = [] ∧ r.accumulator.accumulatedBatches =
        (r.accumulator.enqueue ops batch).accumulatedBatches) := by
    simp only [BatchAccumulator.enqueue]
    split
    next hzero =>
      split
      · exact Or.inr ⟨List.length_eq_zero_iff.mp hzero, rfl⟩
      · exact Or.inl rfl
    · exact Or.inl rfl
  refine ⟨h.output, ?_, ?_⟩
  · intro hlive
    rcases hqueued with hq | ⟨-, hq⟩
    · simp only [← hq]
      refine inOrder_append.mpr ⟨h.queue hlive, ?_, trivial⟩
      rw [h.rows hlive]
      exact hbatch
    · simp only [← hq]
      exact h.queue hlive
  · intro hlive
    rcases hqueued with hq | ⟨hnil, hq⟩
    · simp only [← hq, streamRows_append, ← List.append_assoc,
        h.rows hlive]
      simp
    · simp only [← hq, hnil, List.append_nil]
      exact h.rows hlive

theorem Ordered.handleBatch (h : r.Ordered older received)
    (hlive : r.failed = false) {batch : ColumnBatch ρ κ μ}
    (hbatch : NotOvertaking older received batch)
    (hclean : (r.handleBatch ops batch).AllSplitsClean older ops) :
    (r.handleBatch ops batch).Ordered older (received ++ batch.rows) := by
  have hqueued : Ordered older (received ++ batch.rows)
      { r with accumulator := r.accumulator.enqueue ops batch } :=
    h.enqueue hbatch
  simp only [Rebatch.handleBatch] at hclean ⊢
  split at hclean
  next hpush =>
    rw [if_pos hpush]
    refine Ordered.flushWhile (hqueued.flushOnce ?_ hlive) _ _ hclean
    exact hclean _ ((flushed_flushWhile ops _ _ _).subset
      (by simp [flushOnce_flushed]))
  next hpush =>
    rw [if_neg hpush]
    exact Ordered.flushWhile hqueued _ _ hclean

end Steps

/-! ## A whole rebatched stream -/

/-- The input batches among the events. -/
def inputs (events : List (RebatchEvent ρ κ μ)) :
    List (ColumnBatch ρ κ μ) :=
  events.filterMap fun
    | .batch batch => some batch
    | .tick => none

theorem flushed_handleEvent (ops : ColumnOps κ) (r : Rebatch ρ κ μ)
    (event : RebatchEvent ρ κ μ) :
    r.flushed <+: (r.handleEvent ops event).flushed := by
  cases event with
  | tick =>
      simp only [handleEvent]
      split
      · exact List.prefix_refl _
      · rw [flushOnce_flushed]
        exact List.prefix_append _ _
  | batch batch =>
      simp only [handleEvent]
      split
      · exact List.prefix_refl _
      · refine List.IsPrefix.trans ?_ (flushed_flushWhile ops _ _ _)
        split
        · rw [flushOnce_flushed]
          exact List.prefix_append _ _
        · exact List.prefix_refl _

theorem flushed_foldl (ops : ColumnOps κ)
    (events : List (RebatchEvent ρ κ μ)) (r : Rebatch ρ κ μ) :
    r.flushed <+: (events.foldl (handleEvent ops) r).flushed := by
  induction events generalizing r with
  | nil => exact List.prefix_refl _
  | cons event events ih =>
      exact (flushed_handleEvent ops r event).trans (ih _)

theorem Ordered.handleEvent {older : μ → ρ → Prop} {ops : ColumnOps κ}
    {received : List ρ} {r : Rebatch ρ κ μ}
    (h : r.Ordered older received) (event : RebatchEvent ρ κ μ)
    (hinput : ∀ batch ∈ inputs [event],
      NotOvertaking older received batch)
    (hclean : (r.handleEvent ops event).AllSplitsClean older ops) :
    (r.handleEvent ops event).Ordered older
      (received ++ streamRows (inputs [event])) := by
  cases hfail : r.failed with
  | true =>
      -- A failed stream yields nothing more.
      have hsame : r.handleEvent ops event = r := by
        cases event <;> simp [Rebatch.handleEvent, hfail]
      rw [hsame]
      exact ⟨h.output, by simp [hfail], by simp [hfail]⟩
  | false =>
      cases event with
      | tick =>
          simp only [Rebatch.handleEvent, hfail, Bool.false_eq_true,
            if_false] at hclean ⊢
          have hnow := hclean r.accumulator (by simp [flushOnce_flushed])
          simpa [inputs] using h.flushOnce hnow hfail
      | batch batch =>
          simp only [Rebatch.handleEvent, hfail, Bool.false_eq_true,
            if_false] at hclean ⊢
          have hb := hinput batch (by simp [inputs])
          simpa [inputs] using h.handleBatch hfail hb hclean

/-- An accumulator whose input is in order, and whose flushes all split
clean, yields a stream in order. -/
theorem inOrder_processStream {older : μ → ρ → Prop} {ops : ColumnOps κ}
    {batchSize maxColumnBytes : ℕ} {events : List (RebatchEvent ρ κ μ)}
    {ended : Bool} (hinput : InOrder older [] (inputs events))
    (hclean : (processStream ops batchSize maxColumnBytes events
      ended).AllSplitsClean older ops) :
    InOrder older [] (processStream ops batchSize maxColumnBytes events
      ended).output := by
  -- The invariant along the fold, from any state in order.
  have hfold : ∀ (events : List (RebatchEvent ρ κ μ)) (received : List ρ)
      (r : Rebatch ρ κ μ), r.Ordered older received →
      InOrder older received (inputs events) →
      (events.foldl (Rebatch.handleEvent ops) r).AllSplitsClean older ops →
      (events.foldl (Rebatch.handleEvent ops) r).Ordered older
        (received ++ streamRows (inputs events)) := by
    intro events
    induction events with
    | nil =>
        intro received r h _ _
        simpa [inputs] using h
    | cons event events ih =>
        intro received r h hin hcl
        have hsplit : inputs (event :: events) =
            inputs [event] ++ inputs events := by
          rw [inputs, inputs, inputs, ← List.filterMap_append]
          rfl
        rw [hsplit] at hin ⊢
        obtain ⟨hhead, htail⟩ := inOrder_append.mp hin
        have hnow : (r.handleEvent ops event).AllSplitsClean older ops :=
          fun a ha => hcl a ((flushed_foldl ops events _).subset ha)
        have hone := h.handleEvent event (by
          intro batch hbatch
          cases event with
          | tick => simp [inputs] at hbatch
          | batch b =>
              obtain rfl : batch = b := by simpa [inputs] using hbatch
              exact hhead.1) hnow
        have := ih _ _ hone htail hcl
        rwa [List.append_assoc, ← streamRows_append] at this
  have hstart : (Rebatch.new batchSize maxColumnBytes :
      Rebatch ρ κ μ).Ordered older [] :=
    ⟨trivial, fun _ => trivial, fun _ => rfl⟩
  cases ended with
  | false => exact (hfold events [] _ hstart hinput hclean).output
  | true =>
      have hcl : (events.foldl (Rebatch.handleEvent ops)
          (Rebatch.new batchSize maxColumnBytes)).AllSplitsClean
            older ops :=
        fun a ha => hclean a ((flushed_flushWhile ops _ _ _).subset ha)
      exact ((hfold events [] _ hstart hinput hcl).flushWhile _ _
        hclean).output

end Rebatch

end Streamling
