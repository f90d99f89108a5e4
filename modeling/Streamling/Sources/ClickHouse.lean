import Mathlib
import Streamling.Support.Run
import Streamling.Checkpoints.RecordBatch

/-!
# The ClickHouse source

The source scans a table in pages, half-open ranges of the first sorting key,
and keeps the start of the next range in a split shared with a second task.
That task buffers the checkpoint messages it receives and saves a copy of the
split on every finalizer.  Rows are represented by their first sorting key,
the only thing the ranges and the split speak about.

How a page is laid out into batches, and how the width of the next range is
chosen, is left to the run: any layout of any rows in the range, and any
width from one key upwards, so the results do not depend on the table or on
the sizing of ranges.
-/

namespace Streamling

namespace ClickHouse

/-! ## Sorting keys -/

/-- The scalar types a first sorting key may have. -/
inductive KeyType where
  | int8 | int16 | int32 | int64
  | uint8 | uint16 | uint32 | uint64
  deriving DecidableEq

/-- The number of values of the type. -/
def KeyType.size : KeyType → ℕ
  | .int8 | .uint8 => 2 ^ 8
  | .int16 | .uint16 => 2 ^ 16
  | .int32 | .uint32 => 2 ^ 32
  | .int64 | .uint64 => 2 ^ 64

def KeyType.isSigned : KeyType → Bool
  | .int8 | .int16 | .int32 | .int64 => true
  | .uint8 | .uint16 | .uint32 | .uint64 => false

/-- The least value of the type. -/
def KeyType.min (t : KeyType) : ℤ :=
  if t.isSigned then -((t.size : ℤ) / 2) else 0

/-- The greatest value of the type. -/
def KeyType.max (t : KeyType) : ℤ :=
  if t.isSigned then (t.size : ℤ) / 2 - 1 else t.size - 1

/-- The scalar of type `t` for an integer: a wrapping cast. -/
def i128ToScalarLike (value : ℤ) (t : KeyType) : ℤ :=
  if t.isSigned then value.bmod t.size else value % t.size

theorem i128ToScalarLike_of_mem
    {value : ℤ} {t : KeyType} (hmin : t.min ≤ value)
    (hmax : value ≤ t.max) : i128ToScalarLike value t = value := by
  cases t <;>
    simp only [KeyType.min, KeyType.max, KeyType.isSigned, KeyType.size,
      i128ToScalarLike, Int.bmod_def, if_true, Bool.false_eq_true,
      if_false, Nat.reducePow] at * <;>
    omega

/-- A cast from within or above the type's range never goes up. -/
theorem i128ToScalarLike_le
    {value : ℤ} {t : KeyType} (hmin : t.min ≤ value) :
    i128ToScalarLike value t ≤ value := by
  cases t <;>
    simp only [KeyType.min, KeyType.isSigned, KeyType.size,
      i128ToScalarLike, Int.bmod_def, if_true, Bool.false_eq_true,
      if_false, Nat.reducePow] at * <;>
    omega

/-! ## Ranges and pages -/

/-- Sizes the ranges of the scan and holds its cursor. -/
structure RangeController where
  rangeStart : ℤ
  width : ℤ
  maxKey : ℤ
  deriving DecidableEq

namespace RangeController

/-- Smallest range width: one key. -/
def MIN_WIDTH : ℤ := 1

/-- The half-open range to read next. -/
def currentRange (c : RangeController) : ℤ × ℤ :=
  (c.rangeStart, c.rangeStart + c.width)

/-- The cursor has advanced past the last key. -/
def isDone (c : RangeController) : Bool :=
  decide (c.maxKey < c.rangeStart)

/-- Choose a width, at least the minimum: what sizing, growth, overflow and
timeouts all come down to. -/
def resize (c : RangeController) (width : ℤ) : RangeController :=
  { c with width := max MIN_WIDTH width }

theorem one_le_resize_width (c : RangeController) (width : ℤ) :
    1 ≤ (c.resize width).width :=
  Int.le_max_left _ _

/-- Advance past the range just read and size the next one. -/
def onComplete (c : RangeController) (nextWidth : ℤ) : RangeController :=
  resize { c with rangeStart := c.rangeStart + c.width } nextWidth

end RangeController

/-- Split a batch into chunks of at most `maxRows` rows; `0` means no
chunking. -/
def chunkRecordBatch {Row : Type*} (batch : List Row) (maxRows : ℕ) :
    List (List Row) :=
  if maxRows = 0 ∨ batch.length ≤ maxRows then [batch]
  else
    (List.range ((batch.length + maxRows - 1) / maxRows)).map fun i =>
      (batch.drop (i * maxRows)).take maxRows

/-- The chunks emitted for a complete page: an empty one if the page has no
row, so that buffered checkpoint messages flow. -/
def pageChunks {Row : Type*} (batches : List (List Row)) (maxRows : ℕ) :
    List (List Row) :=
  if batches.flatten = [] then [[]]
  else batches.flatMap fun batch => chunkRecordBatch batch maxRows

/-- The persisted cursor: the first sorting key to resume from, if any. -/
structure SourceSplit where
  args : Option ℤ
  deriving DecidableEq

def SourceSplit.rangeStart (split : SourceSplit) : ℤ :=
  split.args.getD 0

/-! ## The two tasks -/

/-- Where the scan task stands. -/
inductive ScanTask where
  | sizing
  | emitting (chunks : List (List ℤ))
  | sending (batch : RecordBatch ℤ) (rest : List (List ℤ))
  | finished
  deriving DecidableEq

/-- Where the checkpointing task stands: after a finalizer it clones the
split and then saves the clone. -/
inductive CheckpointTask where
  | receiving
  | cloning (epoch : CheckpointEpoch)
  | saving (epoch : CheckpointEpoch) (split : SourceSplit)
  | stopped
  deriving DecidableEq

/-- An emitted batch and the number of pages completed before its own. -/
structure Emission where
  batch : RecordBatch ℤ
  page : ℕ
  deriving DecidableEq

/-- A run of the source. -/
structure SourceRun where
  keyType : KeyType
  recordBatchSize : ℕ
  controller : RangeController
  split : SourceSplit
  checkpointBuffer : List CheckpointMessage
  scan : ScanTask
  checkpointing : CheckpointTask
  receiverDropped : Bool
  /-- The markers received so far. -/
  markers : List CheckpointEpoch
  emitted : List Emission
  completedPages : ℕ
  /-- The splits saved, with the epoch whose finalizer saved them. -/
  saved : List (CheckpointEpoch × SourceSplit)
  deriving DecidableEq

/-- What the source is started with. -/
structure SourceConfig where
  keyType : KeyType
  recordBatchSize : ℕ
  split : SourceSplit
  maxKey : ℤ
  initialWidth : ℤ
  split_mem : keyType.min ≤ split.rangeStart ∧
    split.rangeStart ≤ keyType.max
  maxKey_mem : keyType.min ≤ maxKey ∧ maxKey ≤ keyType.max

namespace SourceRun

def start (config : SourceConfig) : SourceRun where
  keyType := config.keyType
  recordBatchSize := config.recordBatchSize
  controller :=
    RangeController.resize
      { rangeStart := config.split.rangeStart
        width := RangeController.MIN_WIDTH
        maxKey := config.maxKey }
      config.initialWidth
  split := config.split
  checkpointBuffer := []
  scan := .sizing
  checkpointing := .receiving
  receiverDropped := false
  markers := []
  emitted := []
  completedPages := 0
  saved := []

/-- The batches of the stream, in order. -/
def stream (s : SourceRun) : List (RecordBatch ℤ) :=
  s.emitted.map Emission.batch

/-- The steps a run is made of. -/
inductive Action where
  | resize (width : ℤ)
  | readPage (batches : List (List ℤ))
  | attachCheckpoints
  | send
  | completePage (nextWidth : ℤ)
  | stopScan
  | dropReceiver
  | receiveMarker (epoch : CheckpointEpoch) (createdAtMs : ℕ)
  | receiveFinalizer (epoch : CheckpointEpoch)
  | cloneSplit
  | saveSplit (succeeds : Bool)
  | stopCheckpointing
  | flush

/-- Whether the query for the current range can return these rows. -/
def inRange (s : SourceRun) (batches : List (List ℤ)) : Bool :=
  batches.all fun batch => batch.all fun key =>
    decide (i128ToScalarLike s.controller.currentRange.1 s.keyType ≤ key) &&
      decide (key < i128ToScalarLike s.controller.currentRange.2 s.keyType)

/-- A page was read and fits the page limits.  Its batches are those left by
deduplication. -/
def readPage (s : SourceRun) (batches : List (List ℤ)) :
    Option SourceRun :=
  match s.scan with
  | .sizing =>
      if s.controller.isDone = false ∧ s.inRange batches = true then
        some
          { s with
            scan := .emitting (pageChunks batches s.recordBatchSize) }
      else none
  | _ => none

/-- Attach the buffered messages to the chunk about to be emitted. -/
def attachCheckpoints (s : SourceRun) : Option SourceRun :=
  match s.scan with
  | .emitting (chunk :: rest) =>
      some
        { s with
          checkpointBuffer := []
          scan := .sending ⟨chunk, s.checkpointBuffer⟩ rest }
  | _ => none

/-- Send the chunk downstream; the scan ends if the receiver is gone. -/
def send (s : SourceRun) : Option SourceRun :=
  match s.scan with
  | .sending batch rest =>
      if s.receiverDropped then some { s with scan := .finished }
      else
        some
          { s with
            scan := .emitting rest
            emitted := s.emitted ++ [⟨batch, s.completedPages⟩] }
  | _ => none

/-- All chunks of the page were sent: advance the cursor and the split. -/
def completePage (s : SourceRun) (nextWidth : ℤ) : Option SourceRun :=
  match s.scan with
  | .emitting [] =>
      let controller := s.controller.onComplete nextWidth
      some
        { s with
          controller := controller
          split :=
            ⟨some (i128ToScalarLike controller.rangeStart s.keyType)⟩
          scan := .sizing
          completedPages := s.completedPages + 1 }
  | _ => none

/-- The scan loop is left between two pages: it is done, a shutdown was
requested, or an error was sent downstream. -/
def stopScan (s : SourceRun) : Option SourceRun :=
  match s.scan with
  | .sizing => some { s with scan := .finished }
  | _ => none

/-- The checkpointing task buffers a marker.  The coordinator broadcasts the
marker of an epoch once. -/
def receiveMarker (s : SourceRun) (epoch : CheckpointEpoch)
    (createdAtMs : ℕ) : Option SourceRun :=
  match s.checkpointing with
  | .receiving =>
      if epoch ∈ s.markers then none
      else
        some
          { s with
            checkpointBuffer :=
              s.checkpointBuffer ++ [.marker epoch createdAtMs]
            markers := s.markers ++ [epoch] }
  | _ => none

/-- The checkpointing task buffers a finalizer.  It only arrives after the
batch that carries the marker was consumed downstream. -/
def receiveFinalizer (s : SourceRun) (epoch : CheckpointEpoch) :
    Option SourceRun :=
  match s.checkpointing with
  | .receiving =>
      if RecordBatch.Carried epoch s.stream then
        some
          { s with
            checkpointBuffer := s.checkpointBuffer ++ [.finalizer epoch]
            checkpointing := .cloning epoch }
      else none
  | _ => none

def cloneSplit (s : SourceRun) : Option SourceRun :=
  match s.checkpointing with
  | .cloning epoch =>
      some { s with checkpointing := .saving epoch s.split }
  | _ => none

/-- Save the clone in the state backend.  A failure is only logged. -/
def saveSplit (s : SourceRun) (succeeds : Bool) : Option SourceRun :=
  match s.checkpointing with
  | .saving epoch split =>
      some
        { s with
          checkpointing := .receiving
          saved :=
            if succeeds then s.saved ++ [(epoch, split)] else s.saved }
  | _ => none

/-- After the scan the checkpointing task is told to stop. -/
def stopCheckpointing (s : SourceRun) : Option SourceRun :=
  match s.scan, s.checkpointing with
  | .finished, .receiving => some { s with checkpointing := .stopped }
  | _, _ => none

/-- Messages buffered after the last batch leave on an empty one. -/
def flush (s : SourceRun) : Option SourceRun :=
  match s.checkpointing with
  | .stopped =>
      if s.checkpointBuffer = [] ∨ s.receiverDropped = true then
        some { s with checkpointBuffer := [] }
      else
        some
          { s with
            checkpointBuffer := []
            emitted := s.emitted ++
              [⟨⟨[], s.checkpointBuffer⟩, s.completedPages⟩] }
  | _ => none

def step (s : SourceRun) : Action → Option SourceRun
  | .resize width =>
      match s.scan with
      | .sizing => some { s with controller := s.controller.resize width }
      | _ => none
  | .readPage batches => s.readPage batches
  | .attachCheckpoints => s.attachCheckpoints
  | .send => s.send
  | .completePage nextWidth => s.completePage nextWidth
  | .stopScan => s.stopScan
  | .dropReceiver => some { s with receiverDropped := true }
  | .receiveMarker epoch createdAtMs => s.receiveMarker epoch createdAtMs
  | .receiveFinalizer epoch => s.receiveFinalizer epoch
  | .cloneSplit => s.cloneSplit
  | .saveSplit succeeds => s.saveSplit succeeds
  | .stopCheckpointing => s.stopCheckpointing
  | .flush => s.flush

/-! ## The checkpoint cut -/

/-- Restarting from the split saved for an epoch re-reads every row emitted
after the batch that carries the epoch's marker. -/
def CutHolds (s : SourceRun) : Prop :=
  ∀ entry ∈ s.saved,
    ∀ batch ∈ RecordBatch.afterMarker entry.1 s.stream,
      ∀ key ∈ batch.rows, entry.2.rangeStart ≤ key

instance (s : SourceRun) : Decidable s.CutHolds :=
  inferInstanceAs (Decidable (∀ entry ∈ s.saved, _))

end SourceRun

end ClickHouse

end Streamling
