import Mathlib
import Streamling.Operators.RebatchOrdering

/-!
# The batch accumulator loses nothing and repeats nothing

What the accumulator has yielded and what it still queues are together what it
received, rows and messages alike: a split keeps the messages on the first
slice and the rows on both.  The row count is the count of the queue.  A flush
of a non-empty queue leaves less behind, counting rows and batches, so the
loops that drain the queue end.
-/

namespace Streamling

variable {ρ κ μ τ : Type*}

/-- The messages of a stream, in order. -/
def streamMessages (stream : List (ColumnBatch ρ κ μ)) : List μ :=
  stream.flatMap ColumnBatch.messages

@[simp] theorem streamMessages_nil :
    streamMessages ([] : List (ColumnBatch ρ κ μ)) = [] := rfl

@[simp] theorem streamMessages_cons (batch : ColumnBatch ρ κ μ)
    (stream : List (ColumnBatch ρ κ μ)) :
    streamMessages (batch :: stream) =
      batch.messages ++ streamMessages stream := rfl

@[simp] theorem streamMessages_append (xs ys : List (ColumnBatch ρ κ μ)) :
    streamMessages (xs ++ ys) = streamMessages xs ++ streamMessages ys := by
  simp [streamMessages]

/-- The kernels keep the types of columns, and columns of the same types can
be concatenated. -/
structure ColumnOps.Typed (ops : ColumnOps κ) (typeOf : κ → τ) : Prop where
  slice : ∀ offset length column,
    typeOf (ops.slice offset length column) = typeOf column
  concat : ∀ columns,
    (∀ a ∈ columns, ∀ b ∈ columns, a.map typeOf = b.map typeOf) →
    ops.concat columns ≠ none

namespace BatchAccumulator

/-! ## Flushing shrinks the queue -/

/-- What is queued, in rows and batches. -/
def queuedSize (queue : List (ColumnBatch ρ κ μ)) : ℕ :=
  queue.length + (queue.map ColumnBatch.numRows).sum

theorem queuedSize_cons (batch : ColumnBatch ρ κ μ)
    (queue : List (ColumnBatch ρ κ μ)) :
    queuedSize (batch :: queue) = batch.numRows + 1 + queuedSize queue := by
  simp only [queuedSize, List.length_cons, List.map_cons, List.sum_cons]
  omega

theorem flushLoop_queuedSize
    (ops : ColumnOps κ) (batchSize maxColumnBytes : ℕ)
    (queue toReturn : List (ColumnBatch ρ κ μ)) (rowsIncluded : ℕ)
    (included : List ℕ) :
    let left := (flushLoop ops batchSize maxColumnBytes queue toReturn
      rowsIncluded included).2
    queuedSize left ≤ queuedSize queue ∧
      (toReturn = [] → queue ≠ [] → queuedSize left < queuedSize queue) := by
  induction queue generalizing toReturn rowsIncluded included with
  | nil => simp [flushLoop]
  | cons batch queue ih =>
      simp only [flushLoop]
      split
      next hcross =>
        exact ⟨le_refl _, fun hnil _ => absurd hnil hcross.1⟩
      next =>
        split
        next =>
          have hrest := (ih (toReturn ++ [batch])
            (rowsIncluded + batch.numRows) (addPayloadSizes included
              (batch.columnPayloadSizes ops))).1
          rw [queuedSize_cons]
          exact ⟨by omega, fun _ _ => by omega⟩
        next hover =>
          split
          next =>
            dsimp only
            rw [queuedSize_cons]
            exact ⟨by omega, fun _ _ => by omega⟩
          next hwhole =>
            split
            next hneeded =>
              have hrows : ((batch.slice ops (batchSize - rowsIncluded)
                  (batch.numRows - (batchSize - rowsIncluded))
                  ).stripCheckpointMessages).numRows <
                  batch.numRows := by
                simp only [ColumnBatch.stripCheckpointMessages,
                  ColumnBatch.slice, ColumnBatch.numRows, List.length_take,
                  List.length_drop] at hover hneeded ⊢
                omega
              rw [queuedSize_cons, queuedSize_cons]
              exact ⟨by omega, fun _ _ => by omega⟩
            next hneeded =>
              refine ⟨le_refl _, fun hnil _ => ?_⟩
              exact absurd ⟨Nat.eq_zero_of_not_pos hneeded, hnil⟩ hwhole

/-- A flush of a non-empty queue returns something and leaves less. -/
theorem flush_shrinks
    (ops : ColumnOps κ) {a : BatchAccumulator ρ κ μ}
    (h : a.accumulatedBatches ≠ []) :
    (a.flush ops).2 ≠ none ∧
      queuedSize (a.flush ops).1.accumulatedBatches <
        queuedSize a.accumulatedBatches := by
  have hne := flushLoop_ne_nil ops a.batchSize a.maxColumnBytes
    a.accumulatedBatches [] 0
    (a.currentColumnPayloadSizes.map fun _ => 0) (Or.inr h)
  have hsize := (flushLoop_queuedSize ops a.batchSize a.maxColumnBytes
    a.accumulatedBatches [] 0
    (a.currentColumnPayloadSizes.map fun _ => 0)).2 rfl h
  simp only [flush, if_neg h, if_neg hne]
  exact ⟨by simp, hsize⟩

/-! ## The row count -/

/-- The count is the number of rows queued. -/
def Counted (a : BatchAccumulator ρ κ μ) : Prop :=
  a.currentRowCount = (a.accumulatedBatches.map ColumnBatch.numRows).sum

theorem Counted.flush
    {ops : ColumnOps κ} {a : BatchAccumulator ρ κ μ} (h : a.Counted) :
    (a.flush ops).1.Counted := by
  unfold BatchAccumulator.flush
  split
  · exact h
  · rfl

theorem Counted.enqueue
    {ops : ColumnOps κ} {a : BatchAccumulator ρ κ μ} (h : a.Counted)
    (batch : ColumnBatch ρ κ μ) : (a.enqueue ops batch).Counted := by
  unfold BatchAccumulator.enqueue
  split
  · rename_i hempty
    split
    · exact h
    · simp [Counted, hempty, ← h.symm]
  · have hcount : a.currentRowCount =
        (a.accumulatedBatches.map ColumnBatch.numRows).sum := h
    simp [Counted, hcount]

theorem Counted.push
    {ops : ColumnOps κ} {a : BatchAccumulator ρ κ μ} (h : a.Counted)
    (batch : ColumnBatch ρ κ μ) : (a.push ops batch).1.Counted := by
  unfold BatchAccumulator.push
  split
  · exact (h.enqueue batch).flush
  · exact h.enqueue batch

/-- The operations on an accumulator. -/
inductive Operation (ρ κ μ : Type*) where
  | push (batch : ColumnBatch ρ κ μ)
  | flush

def operate (ops : ColumnOps κ) (a : BatchAccumulator ρ κ μ) :
    Operation ρ κ μ → BatchAccumulator ρ κ μ
  | .push batch => (a.push ops batch).1
  | .flush => (a.flush ops).1

theorem counted_foldl_operate
    (ops : ColumnOps κ) (operations : List (Operation ρ κ μ))
    {a : BatchAccumulator ρ κ μ} (h : a.Counted) :
    (operations.foldl (operate ops) a).Counted := by
  induction operations generalizing a with
  | nil => exact h
  | cons operation operations ih =>
      apply ih
      cases operation with
      | push batch => exact h.push batch
      | flush => exact h.flush

end BatchAccumulator

/-! ## Merging -/

/-- Batches of one schema are merged without an error. -/
theorem exists_mergeBatches
    {ops : ColumnOps κ} {typeOf : κ → τ} (htyped : ops.Typed typeOf)
    {schema : List τ} {batches : List (ColumnBatch ρ κ μ)}
    (hne : batches ≠ [])
    (hschema : ∀ batch ∈ batches, batch.columns.map typeOf = schema) :
    ∃ merged, mergeBatches ops batches = .ok (some merged) := by
  have hconcat : ops.concat ((batches.filter fun batch =>
      batch.numRows ≠ 0).map ColumnBatch.columns) ≠ none := by
    apply htyped.concat
    intro a ha b hb
    obtain ⟨batch, hbatch, rfl⟩ := List.mem_map.mp ha
    obtain ⟨other, hother, rfl⟩ := List.mem_map.mp hb
    rw [hschema batch (List.mem_of_mem_filter hbatch),
      hschema other (List.mem_of_mem_filter hother)]
  cases batches with
  | nil => exact absurd rfl hne
  | cons first batches =>
      simp only [mergeBatches]
      split
      · exact ⟨_, rfl⟩
      · exact ⟨_, rfl⟩
      · split
        · exact ⟨_, rfl⟩
        · rename_i hnone
          exact absurd hnone hconcat

namespace Rebatch

/-! ## What a rebatched stream holds -/

/-- The stream has not failed, and what it yielded and what it queues are
the rows and the messages received. -/
structure Conserved (typeOf : κ → τ) (schema : List τ)
    (received : List (ColumnBatch ρ κ μ)) (r : Rebatch ρ κ μ) : Prop where
  live : r.failed = false
  rows : streamRows r.output ++
    streamRows r.accumulator.accumulatedBatches = streamRows received
  messages : streamMessages r.output ++
    streamMessages r.accumulator.accumulatedBatches =
      streamMessages received
  schema : ∀ batch ∈ r.accumulator.accumulatedBatches,
    batch.columns.map typeOf = schema

section Steps

variable {ops : ColumnOps κ} {typeOf : κ → τ} {schema : List τ}
  {received : List (ColumnBatch ρ κ μ)} {r : Rebatch ρ κ μ}

theorem conserved_new
    (typeOf : κ → τ) (schema : List τ) (batchSize maxColumnBytes : ℕ) :
    Conserved typeOf schema []
      (new batchSize maxColumnBytes : Rebatch ρ κ μ) :=
  ⟨rfl, rfl, rfl, by simp [new, BatchAccumulator.new]⟩

theorem Conserved.enqueue
    (ops : ColumnOps κ) (h : r.Conserved typeOf schema received)
    {batch : ColumnBatch ρ κ μ} (hbatch : batch.columns.map typeOf = schema) :
    Conserved typeOf schema (received ++ [batch])
      { r with accumulator := r.accumulator.enqueue ops batch } := by
  by_cases hdropped : batch.numRows = 0 ∧ batch.messages = []
  · have hrows : batch.rows = [] := List.length_eq_zero_iff.mp hdropped.1
    have hsame : r.accumulator.enqueue ops batch = r.accumulator := by
      rw [BatchAccumulator.enqueue, if_pos hdropped.1, if_pos hdropped.2]
    rw [hsame]
    refine ⟨h.live, ?_, ?_, h.schema⟩
    · rw [h.rows]
      simp [hrows]
    · rw [h.messages]
      simp [hdropped.2]
  · have hqueue : (r.accumulator.enqueue ops batch).accumulatedBatches =
        r.accumulator.accumulatedBatches ++ [batch] := by
      unfold BatchAccumulator.enqueue
      split
      · rename_i hempty
        rw [if_neg (fun hnil => hdropped ⟨hempty, hnil⟩)]
      · rfl
    refine ⟨h.live, ?_, ?_, ?_⟩
    · simp only [hqueue, streamRows_append, ← List.append_assoc, h.rows]
    · simp only [hqueue, streamMessages_append, ← List.append_assoc,
        h.messages]
    · intro other hother
      simp only [hqueue] at hother
      rcases List.mem_append.mp hother with hold | hnew
      · exact h.schema other hold
      · obtain rfl := List.mem_singleton.mp hnew
        exact hbatch

/-- The group flushed and the queue left hold what was queued, split or
not. -/
theorem conserved_split
    (htyped : ops.Typed typeOf) {a : BatchAccumulator ρ κ μ}
    {taken left : List (ColumnBatch ρ κ μ)}
    (hschema : ∀ batch ∈ a.accumulatedBatches,
      batch.columns.map typeOf = schema)
    (hsplit : taken ++ left = a.accumulatedBatches ∨
      ∃ front batch cut back,
        a.accumulatedBatches = front ++ batch :: back ∧
        a.flushSplit ops = some (batch, cut) ∧
        taken ++ left = front ++ batch.slice ops 0 cut ::
          (batch.slice ops cut
            (batch.numRows - cut)).stripCheckpointMessages :: back) :
    streamRows taken ++ streamRows left =
        streamRows a.accumulatedBatches ∧
      streamMessages taken ++ streamMessages left =
        streamMessages a.accumulatedBatches ∧
      ∀ batch ∈ taken ++ left, batch.columns.map typeOf = schema := by
  rw [← streamRows_append, ← streamMessages_append]
  rcases hsplit with hsame | ⟨front, batch, cut, back, hqueue, -, hcut⟩
  · rw [hsame]
    exact ⟨rfl, rfl, hschema⟩
  · have hrows := BatchAccumulator.slice_rows_append ops batch cut
    have hslice : ∀ offset length,
        (batch.slice ops offset length).columns.map typeOf = schema := by
      intro offset length
      rw [← hschema batch (by simp [hqueue])]
      simp only [ColumnBatch.slice, List.map_map]
      apply List.map_congr_left
      intro column _
      exact htyped.slice offset length column
    rw [hcut, hqueue]
    refine ⟨?_, ?_, ?_⟩
    · simp only [streamRows_append, streamRows_cons,
        ColumnBatch.stripCheckpointMessages]
      rw [← List.append_assoc (batch.slice ops 0 cut).rows, hrows]
    · simp only [streamMessages_append, streamMessages_cons,
        ColumnBatch.stripCheckpointMessages, ColumnBatch.slice,
        List.nil_append]
    · intro other hother
      rcases List.mem_append.mp hother with hfront | hrest
      · exact hschema other (by simp [hqueue, hfront])
      · rcases List.mem_cons.mp hrest with rfl | hrest
        · exact hslice 0 cut
        · rcases List.mem_cons.mp hrest with rfl | hback
          · exact hslice cut (batch.numRows - cut)
          · exact hschema other (by simp [hqueue, hback])

theorem Conserved.flushOnce
    (htyped : ops.Typed typeOf) (h : r.Conserved typeOf schema received) :
    (r.flushOnce ops).Conserved typeOf schema received := by
  rcases r.accumulator.flush_cases ops with
    ⟨-, hnone⟩ | ⟨taken, left, hne, hflush, hsplit⟩
  · have heq : r.flushOnce ops =
        { r with flushed := r.flushed ++ [r.accumulator] } := by
      simp [Rebatch.flushOnce, hnone]
    rw [heq]
    exact ⟨h.live, h.rows, h.messages, h.schema⟩
  · obtain ⟨hrows, hmessages, hschema⟩ :=
      conserved_split htyped h.schema hsplit
    obtain ⟨merged, hmerge⟩ := exists_mergeBatches htyped hne
      (fun batch hbatch => hschema batch (List.mem_append_left _ hbatch))
    obtain ⟨hmrows, hmmessages⟩ := mergeBatches_rows_messages hmerge
    simp only [Rebatch.flushOnce, hflush, yieldMerged, hmerge]
    refine ⟨h.live, ?_, ?_, ?_⟩
    · rw [← h.rows, ← hrows]
      simp [hmrows, BatchAccumulator.recount]
    · rw [← h.messages, ← hmessages]
      simp [hmmessages, BatchAccumulator.recount, streamMessages]
    · intro batch hbatch
      exact hschema batch (List.mem_append_right _ hbatch)

theorem Conserved.flushWhile
    (htyped : ops.Typed typeOf) (h : r.Conserved typeOf schema received)
    (more : BatchAccumulator ρ κ μ → Bool) (fuel : ℕ) :
    (r.flushWhile ops more fuel).Conserved typeOf schema received := by
  induction fuel generalizing r with
  | zero => exact h
  | succ fuel ih =>
      simp only [Rebatch.flushWhile]
      split
      · exact h
      · split
        · exact ih (h.flushOnce htyped)
        · exact h.flushOnce htyped

theorem Conserved.handleEvent
    (htyped : ops.Typed typeOf) (h : r.Conserved typeOf schema received)
    (event : RebatchEvent ρ κ μ)
    (hevent : ∀ batch ∈ inputs [event],
      batch.columns.map typeOf = schema) :
    (r.handleEvent ops event).Conserved typeOf schema
      (received ++ inputs [event]) := by
  cases event with
  | tick =>
      simp only [Rebatch.handleEvent, h.live, Bool.false_eq_true, if_false]
      simpa [inputs] using h.flushOnce htyped
  | batch batch =>
      have hqueued := h.enqueue ops (hevent batch (by simp [inputs]))
      have hevent' : r.handleEvent ops (.batch batch) =
          r.handleBatch ops batch := by
        simp [Rebatch.handleEvent, h.live]
      rw [hevent']
      unfold Rebatch.handleBatch
      split
      · exact (hqueued.flushOnce htyped).flushWhile htyped _ _
      · exact hqueued.flushWhile htyped _ _

theorem Conserved.foldl
    (htyped : ops.Typed typeOf) (events : List (RebatchEvent ρ κ μ))
    (h : r.Conserved typeOf schema received)
    (hevents : ∀ batch ∈ inputs events,
      batch.columns.map typeOf = schema) :
    (events.foldl (Rebatch.handleEvent ops) r).Conserved typeOf schema
      (received ++ inputs events) := by
  induction events generalizing r received with
  | nil => simpa [inputs] using h
  | cons event events ih =>
      have hsplit : inputs (event :: events) =
          inputs [event] ++ inputs events := by
        rw [inputs, inputs, inputs, ← List.filterMap_append]
        rfl
      rw [hsplit] at hevents ⊢
      have hone := h.handleEvent htyped event
        (fun batch hb => hevents batch (List.mem_append_left _ hb))
      have hrest := ih hone
        (fun batch hb => hevents batch (List.mem_append_right _ hb))
      rwa [List.append_assoc] at hrest

end Steps

/-! ## The loops end -/

theorem accumulator_flushOnce (ops : ColumnOps κ) (r : Rebatch ρ κ μ) :
    (r.flushOnce ops).accumulator = (r.accumulator.flush ops).1 := by
  simp only [Rebatch.flushOnce]
  split
  · simp only [yieldMerged]
    split <;> rfl
  · rfl

/-- With the bound computed from the queue, a drain loop stops only because
the stream failed, because no more is asked for, or because nothing is left. -/
theorem flushWhile_ends
    (ops : ColumnOps κ) (more : BatchAccumulator ρ κ μ → Bool) (fuel : ℕ)
    (r : Rebatch ρ κ μ)
    (hfuel : BatchAccumulator.queuedSize r.accumulator.accumulatedBatches <
      fuel) :
    let r' := r.flushWhile ops more fuel
    r'.failed = true ∨ more r'.accumulator = false ∨
      r'.accumulator.accumulatedBatches = [] := by
  induction fuel generalizing r with
  | zero => omega
  | succ fuel ih =>
      simp only [Rebatch.flushWhile]
      split
      · rename_i hstop
        rcases hstop with hfailed | hdone
        · exact Or.inl hfailed
        · exact Or.inr (Or.inl hdone)
      · split
        · rename_i batches hsome
          apply ih
          have hne : r.accumulator.accumulatedBatches ≠ [] := by
            intro hnil
            simp [BatchAccumulator.flush, hnil] at hsome
          have hless := (BatchAccumulator.flush_shrinks ops hne).2
          rw [accumulator_flushOnce]
          omega
        · rename_i hnone
          right
          right
          by_contra hne
          rw [accumulator_flushOnce] at hne
          have hempty : r.accumulator.accumulatedBatches = [] := by
            by_contra hqueue
            exact (BatchAccumulator.flush_shrinks ops hqueue).1 hnone
          apply hne
          simp [BatchAccumulator.flush, hempty]

/-- The accumulator conserves its input: to the end of every input of one
schema, under every schedule of ticks, the output has the rows and the
messages of the input in order.  After any operations the row count is that of
the queue, every flush of a non-empty queue leaves less behind, and no drain
loop stops early. -/
theorem batch_accumulator_conserves
    (ops : ColumnOps κ) (typeOf : κ → τ) (htyped : ops.Typed typeOf)
    (schema : List τ) (batchSize maxColumnBytes : ℕ)
    (events : List (RebatchEvent ρ κ μ))
    (hschema : ∀ batch ∈ inputs events,
      batch.columns.map typeOf = schema) :
    (let r := processStream ops batchSize maxColumnBytes events true;
      r.failed = false ∧ r.accumulator.accumulatedBatches = [] ∧
        streamRows r.output = streamRows (inputs events) ∧
        streamMessages r.output = streamMessages (inputs events)) ∧
      (∀ operations : List (BatchAccumulator.Operation ρ κ μ),
        let a := operations.foldl (BatchAccumulator.operate ops)
          (.new batchSize maxColumnBytes)
        a.currentRowCount =
            (a.accumulatedBatches.map ColumnBatch.numRows).sum ∧
          (a.accumulatedBatches ≠ [] → (a.flush ops).2 ≠ none ∧
            BatchAccumulator.queuedSize
                (a.flush ops).1.accumulatedBatches <
              BatchAccumulator.queuedSize a.accumulatedBatches)) ∧
      ∀ (more : BatchAccumulator ρ κ μ → Bool) (r : Rebatch ρ κ μ),
        let r' := r.flushWhile ops more
          (flushBound r.accumulator.accumulatedBatches)
        r'.failed = true ∨ more r'.accumulator = false ∨
          r'.accumulator.accumulatedBatches = [] := by
  have hbound : ∀ queue : List (ColumnBatch ρ κ μ),
      BatchAccumulator.queuedSize queue < flushBound queue := by
    intro queue
    simp [BatchAccumulator.queuedSize, flushBound]
  refine ⟨?_, ?_, ?_⟩
  · have hfold := (conserved_new typeOf schema batchSize
      maxColumnBytes).foldl htyped events hschema
    have hend := hfold.flushWhile htyped (fun a => !a.isEmpty) (flushBound
      (events.foldl (Rebatch.handleEvent ops)
        (Rebatch.new batchSize
          maxColumnBytes)).accumulator.accumulatedBatches)
    have hempty := flushWhile_ends ops (fun a => !a.isEmpty) _
      (events.foldl (Rebatch.handleEvent ops)
        (Rebatch.new batchSize maxColumnBytes)) (hbound _)
    have hnil : (processStream ops batchSize maxColumnBytes events
        true).accumulator.accumulatedBatches = [] := by
      rcases hempty with hfailed | hdone | hnil
      · exact absurd hfailed (by simp [hend.live])
      · rw [Bool.not_eq_false'] at hdone
        exact List.isEmpty_iff.mp hdone
      · exact hnil
    refine ⟨hend.live, hnil, ?_, ?_⟩
    · have hrows : streamRows (processStream ops batchSize maxColumnBytes
          events true).output ++ streamRows (processStream ops batchSize
          maxColumnBytes events true).accumulator.accumulatedBatches =
          streamRows ([] ++ inputs events) := hend.rows
      simpa [hnil] using hrows
    · have hmessages : streamMessages (processStream ops batchSize
          maxColumnBytes events true).output ++ streamMessages
          (processStream ops batchSize maxColumnBytes events
            true).accumulator.accumulatedBatches =
          streamMessages ([] ++ inputs events) := hend.messages
      simpa [hnil] using hmessages
  · intro operations
    refine ⟨?_, fun hne => BatchAccumulator.flush_shrinks ops hne⟩
    exact BatchAccumulator.counted_foldl_operate ops operations rfl
  · intro more r
    exact flushWhile_ends ops more _ r (hbound _)

/-- Kernels on batches of one column of numbers. -/
def numberColumn : ColumnOps (List ℕ) where
  maxI32OffsetPayloadSize := List.length
  slice := fun offset length column => (column.drop offset).take length
  concat := fun columns => some [columns.flatten.flatten]

theorem numberColumn_typed : numberColumn.Typed fun _ => () :=
  ⟨fun _ _ _ => rfl, fun _ _ => by simp [numberColumn]⟩

/-- Three rows with a message are cut at two, a tick finds one more row, and a
batch with nothing but a message ends the input. -/
theorem batch_accumulator_conserves_cut :
    (processStream numberColumn 2 100
        [.batch ⟨[1, 2, 3], [[1, 2, 3]], ["m"]⟩, .batch ⟨[4], [[4]], []⟩,
          .tick, .batch ⟨[], [[]], ["n"]⟩] true).output =
        [⟨[1, 2], [[1, 2]], ["m"]⟩, ⟨[3], [[3]], []⟩, ⟨[4], [[4]], []⟩,
          ⟨[], [[]], ["n"]⟩] ∧
      streamMessages (processStream numberColumn 2 100
        [.batch ⟨[1, 2, 3], [[1, 2, 3]], ["m"]⟩, .batch ⟨[4], [[4]], []⟩,
          .tick, .batch ⟨[], [[]], ["n"]⟩] true).output = ["m", "n"] := by
  refine ⟨by decide +kernel, ?_⟩
  have h := batch_accumulator_conserves numberColumn (fun _ => ())
    numberColumn_typed [()] 2 100
    [.batch ⟨[1, 2, 3], [[1, 2, 3]], ["m"]⟩, .batch ⟨[4], [[4]], []⟩,
      .tick, .batch ⟨[], [[]], ["n"]⟩] (by simp [inputs])
  exact h.1.2.2.2

end Rebatch

end Streamling
