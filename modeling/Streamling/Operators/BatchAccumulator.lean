import Mathlib

/-!
# The batch accumulator

The accumulator queues record batches and flushes them in groups of at most
`batchSize` rows, splitting a batch at the boundary and cutting a group short
before a column would exceed `maxColumnBytes`.  The groups are merged into one
batch each.  Checkpoint messages stay with the first slice of a split batch
and are collected onto the merged batch.

A batch has row identities, columns and messages.  What the accumulator needs
of columns is what the Arrow kernels offer: a payload size, slicing and
concatenation, which may fail.  No law is assumed of them.
-/

namespace Streamling

/-- The Arrow kernels the accumulator uses on columns of type `κ`. -/
structure ColumnOps (κ : Type*) where
  /-- The largest payload fed into an `i32`-offset buffer. -/
  maxI32OffsetPayloadSize : κ → ℕ
  slice : ℕ → ℕ → κ → κ
  /-- Concatenate the columns of several batches. -/
  concat : List (List κ) → Option (List κ)

/-- A record batch: the identities of its rows, its columns and the checkpoint
messages in its metadata. -/
structure ColumnBatch (ρ κ μ : Type*) where
  rows : List ρ
  columns : List κ
  messages : List μ
  deriving DecidableEq

namespace ColumnBatch

variable {ρ κ μ : Type*}

def numRows (batch : ColumnBatch ρ κ μ) : ℕ := batch.rows.length

/-- The rows `offset, …, offset + length - 1`, with the batch's metadata. -/
def slice (ops : ColumnOps κ) (offset length : ℕ)
    (batch : ColumnBatch ρ κ μ) : ColumnBatch ρ κ μ where
  rows := (batch.rows.drop offset).take length
  columns := batch.columns.map (ops.slice offset length)
  messages := batch.messages

def stripCheckpointMessages (batch : ColumnBatch ρ κ μ) :
    ColumnBatch ρ κ μ :=
  { batch with messages := [] }

/-- The payload size of every column. -/
def columnPayloadSizes (ops : ColumnOps κ) (batch : ColumnBatch ρ κ μ) :
    List ℕ :=
  batch.columns.map ops.maxI32OffsetPayloadSize

end ColumnBatch

/-- Add `sizes` to the running totals, column by column. -/
def addPayloadSizes : List ℕ → List ℕ → List ℕ
  | total :: totals, size :: sizes =>
      (total + size) :: addPayloadSizes totals sizes
  | totals, _ => totals

/-- Pad the totals with zeros up to `columns` columns. -/
def resizePayloadSizes (totals : List ℕ) (columns : ℕ) : List ℕ :=
  totals ++ List.replicate (columns - totals.length) 0

structure BatchAccumulator (ρ κ μ : Type*) where
  batchSize : ℕ
  maxColumnBytes : ℕ
  accumulatedBatches : List (ColumnBatch ρ κ μ)
  currentRowCount : ℕ
  currentColumnPayloadSizes : List ℕ
  deriving DecidableEq

namespace BatchAccumulator

variable {ρ κ μ : Type*}

def new (batchSize maxColumnBytes : ℕ) : BatchAccumulator ρ κ μ where
  batchSize := batchSize
  maxColumnBytes := maxColumnBytes
  accumulatedBatches := []
  currentRowCount := 0
  currentColumnPayloadSizes := []

def isEmpty (a : BatchAccumulator ρ κ μ) : Bool :=
  a.accumulatedBatches.isEmpty

def shouldFlushBySize (a : BatchAccumulator ρ κ μ) : Bool :=
  decide (a.batchSize ≤ a.currentRowCount) ||
    a.currentColumnPayloadSizes.any fun size =>
      decide (a.maxColumnBytes < size)

/-- Whether another batch would take a column over the byte budget. -/
def crossesByteBudget (maxColumnBytes : ℕ) (included sizes : List ℕ) :
    Bool :=
  (included.zip sizes).any fun p => decide (maxColumnBytes < p.1 + p.2)

/-- The loop of `flush`: from the front of the queue, with the batches
returned so far, their rows and their payload sizes.  The result is the
batches to return and the queue left behind. -/
def flushLoop (ops : ColumnOps κ) (batchSize maxColumnBytes : ℕ) :
    List (ColumnBatch ρ κ μ) → List (ColumnBatch ρ κ μ) → ℕ → List ℕ →
      List (ColumnBatch ρ κ μ) × List (ColumnBatch ρ κ μ)
  | [], toReturn, _, _ => (toReturn, [])
  | batch :: queue, toReturn, rowsIncluded, included =>
      let sizes := batch.columnPayloadSizes ops
      if toReturn ≠ [] ∧
          crossesByteBudget maxColumnBytes included sizes = true then
        (toReturn, batch :: queue)
      else if rowsIncluded + batch.numRows ≤ batchSize then
        flushLoop ops batchSize maxColumnBytes queue (toReturn ++ [batch])
          (rowsIncluded + batch.numRows) (addPayloadSizes included sizes)
      else
        let rowsNeeded := batchSize - rowsIncluded
        if rowsNeeded = 0 ∧ toReturn = [] then
          (toReturn ++ [batch], queue)
        else if 0 < rowsNeeded then
          (toReturn ++ [batch.slice ops 0 rowsNeeded],
            (batch.slice ops rowsNeeded
              (batch.numRows - rowsNeeded)).stripCheckpointMessages ::
                queue)
        else (toReturn, batch :: queue)

/-- The counters recomputed from the queue left behind. -/
def recount (ops : ColumnOps κ) (a : BatchAccumulator ρ κ μ)
    (queue : List (ColumnBatch ρ κ μ)) : BatchAccumulator ρ κ μ :=
  { a with
    accumulatedBatches := queue
    currentRowCount := (queue.map ColumnBatch.numRows).sum
    currentColumnPayloadSizes :=
      queue.foldl
        (fun totals batch =>
          addPayloadSizes totals (batch.columnPayloadSizes ops))
        (a.currentColumnPayloadSizes.map fun _ => 0) }

/-- Flush up to `batchSize` rows from the front of the queue. -/
def flush (ops : ColumnOps κ) (a : BatchAccumulator ρ κ μ) :
    BatchAccumulator ρ κ μ × Option (List (ColumnBatch ρ κ μ)) :=
  if a.accumulatedBatches = [] then (a, none)
  else
    let result := flushLoop ops a.batchSize a.maxColumnBytes
      a.accumulatedBatches [] 0
      (a.currentColumnPayloadSizes.map fun _ => 0)
    (a.recount ops result.2,
      if result.1 = [] then none else some result.1)

/-- The first half of `push`: queue the batch.  An empty batch without
checkpoint messages is dropped. -/
def enqueue (ops : ColumnOps κ) (a : BatchAccumulator ρ κ μ)
    (batch : ColumnBatch ρ κ μ) : BatchAccumulator ρ κ μ :=
  if batch.numRows = 0 then
    if batch.messages = [] then a
    else
      { a with accumulatedBatches := a.accumulatedBatches ++ [batch] }
  else
    { a with
      accumulatedBatches := a.accumulatedBatches ++ [batch]
      currentRowCount := a.currentRowCount + batch.numRows
      currentColumnPayloadSizes :=
        addPayloadSizes
          (resizePayloadSizes a.currentColumnPayloadSizes
            batch.columns.length)
          (batch.columnPayloadSizes ops) }

/-- Whether `push` flushes after queueing the batch: a message with nothing
pending before it, or a size threshold reached. -/
def flushesOnPush (ops : ColumnOps κ) (a : BatchAccumulator ρ κ μ)
    (batch : ColumnBatch ρ κ μ) : Bool :=
  if batch.numRows = 0 then
    decide (batch.messages ≠ []) && decide (a.currentRowCount = 0)
  else (a.enqueue ops batch).shouldFlushBySize

def push (ops : ColumnOps κ) (a : BatchAccumulator ρ κ μ)
    (batch : ColumnBatch ρ κ μ) :
    BatchAccumulator ρ κ μ × Option (List (ColumnBatch ρ κ μ)) :=
  if a.flushesOnPush ops batch then (a.enqueue ops batch).flush ops
  else (a.enqueue ops batch, none)

end BatchAccumulator

/-- Why a merge can fail. -/
inductive MergeError where
  | concatFailed
  deriving DecidableEq

variable {ρ κ μ : Type*}

/-- Merge the batches of a flush into one, keeping all messages. -/
def mergeBatches (ops : ColumnOps κ) (batches : List (ColumnBatch ρ κ μ)) :
    Except MergeError (Option (ColumnBatch ρ κ μ)) :=
  match batches with
  | [] => .ok none
  | first :: _ =>
      let messages := batches.flatMap ColumnBatch.messages
      let dataBatches := batches.filter fun batch => batch.numRows ≠ 0
      match dataBatches with
      | [] => .ok (some ⟨[], first.columns, messages⟩)
      | [single] => .ok (some { single with messages := messages })
      | _ =>
          match ops.concat (dataBatches.map ColumnBatch.columns) with
          | some columns =>
              .ok (some
                ⟨dataBatches.flatMap ColumnBatch.rows, columns, messages⟩)
          | none => .error .concatFailed

/-! ## The rebatched stream -/

/-- What drives the accumulator of a stream: the next input batch, or a tick
of the timer that finds the flush interval elapsed. -/
inductive RebatchEvent (ρ κ μ : Type*) where
  | batch (batch : ColumnBatch ρ κ μ)
  | tick

/-- A rebatched stream: its accumulator, the batches yielded, and whether a
failed merge ended it.  `flushed` records the accumulators on which `flush`
was called. -/
structure Rebatch (ρ κ μ : Type*) where
  accumulator : BatchAccumulator ρ κ μ
  output : List (ColumnBatch ρ κ μ)
  failed : Bool
  flushed : List (BatchAccumulator ρ κ μ)

namespace Rebatch

def new (batchSize maxColumnBytes : ℕ) : Rebatch ρ κ μ where
  accumulator := .new batchSize maxColumnBytes
  output := []
  failed := false
  flushed := []

/-- Yield the merged batch, or an error, which ends the stream. -/
def yieldMerged (ops : ColumnOps κ) (r : Rebatch ρ κ μ)
    (batches : List (ColumnBatch ρ κ μ)) : Rebatch ρ κ μ :=
  match mergeBatches ops batches with
  | .ok (some merged) => { r with output := r.output ++ [merged] }
  | .ok none => r
  | .error _ => { r with failed := true }

/-- Flush once and yield what was flushed. -/
def flushOnce (ops : ColumnOps κ) (r : Rebatch ρ κ μ) : Rebatch ρ κ μ :=
  let result := r.accumulator.flush ops
  let r' : Rebatch ρ κ μ :=
    { r with
      accumulator := result.1
      flushed := r.flushed ++ [r.accumulator] }
  match result.2 with
  | some batches => r'.yieldMerged ops batches
  | none => r'

/-- Flush as long as `more` asks for it. -/
def flushWhile (ops : ColumnOps κ)
    (more : BatchAccumulator ρ κ μ → Bool) :
    ℕ → Rebatch ρ κ μ → Rebatch ρ κ μ
  | 0, r => r
  | fuel + 1, r =>
      if r.failed = true ∨ more r.accumulator = false then r
      else
        match (r.accumulator.flush ops).2 with
        | some _ => flushWhile ops more fuel (r.flushOnce ops)
        | none => r.flushOnce ops

/-- More flushes than a queue can take. -/
def flushBound (queue : List (ColumnBatch ρ κ μ)) : ℕ :=
  queue.length + (queue.map ColumnBatch.numRows).sum + 1

/-- Handle one input batch.  One that carries checkpoint messages drains the
accumulator. -/
def handleBatch (ops : ColumnOps κ) (r : Rebatch ρ κ μ)
    (batch : ColumnBatch ρ κ μ) : Rebatch ρ κ μ :=
  let carriesCheckpoint := !batch.messages.isEmpty
  let queued : Rebatch ρ κ μ :=
    { r with accumulator := r.accumulator.enqueue ops batch }
  let pushed :=
    if r.accumulator.flushesOnPush ops batch then queued.flushOnce ops
    else queued
  pushed.flushWhile ops
    (fun a => (carriesCheckpoint && !a.isEmpty) || a.shouldFlushBySize)
    (flushBound pushed.accumulator.accumulatedBatches)

/-- One turn of the loop of `process_stream`. -/
def handleEvent (ops : ColumnOps κ) (r : Rebatch ρ κ μ) :
    RebatchEvent ρ κ μ → Rebatch ρ κ μ
  | .batch batch => if r.failed then r else r.handleBatch ops batch
  | .tick => if r.failed then r else r.flushOnce ops

/-- The end of the input: everything left is flushed. -/
def finish (ops : ColumnOps κ) (r : Rebatch ρ κ μ) : Rebatch ρ κ μ :=
  r.flushWhile ops (fun a => !a.isEmpty)
    (flushBound r.accumulator.accumulatedBatches)

/-- The stream after the given events, and after the end of the input if
`ended`. -/
def processStream (ops : ColumnOps κ) (batchSize maxColumnBytes : ℕ)
    (events : List (RebatchEvent ρ κ μ)) (ended : Bool) :
    Rebatch ρ κ μ :=
  let r := events.foldl (handleEvent ops) (new batchSize maxColumnBytes)
  if ended then r.finish ops else r

end Rebatch

end Streamling
