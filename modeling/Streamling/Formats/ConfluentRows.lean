import Mathlib
import Streamling.Formats.ConfluentFrames

/-!
# One row for a frame, in order

A decoder that takes a whole frame of its schema adds the one row of it.  The
frames since the last flush are those of the finished generations and then
those of the live decoder, and the batch of a flush has the coerced rows of
all of them in order.
-/

namespace Streamling

namespace Avro

open Arrow

/-! ## Rows of batches -/

@[simp] theorem RecordBatch.length_rows (batch : RecordBatch) :
    batch.rows.length = batch.numRows := by
  simp [RecordBatch.rows]

namespace FrameDecoder

variable {σ : Type}

/-- A magic byte, an id and whatever follows. -/
def IsFrame (frame : List UInt8) : Prop :=
  5 ≤ frame.length ∧ frame.head? = some 0

/-- What arrow-avro is relied on for.  A decoder keeps the frames whose rows
it holds: taking all bytes of a further frame with one record of their schema
adds that frame.  It can also take all of a frame with no record or with
several ones, about which nothing is said here.  If it stops before, it may
have taken records that the frame has more bytes after.  A flush gives the
rows of its frames, with the fields of the writer's record resolved against
the reader, and leaves no others. -/
structure DecodesFrames (arrow : ArrowDecoder σ) where
  store : σ → ℕ → Option (List AvroField)
  reader : σ → Option ReaderJson
  frames : σ → List (List UInt8)
  /-- It takes further frames. -/
  Sound : σ → Prop
  /-- It can be flushed. -/
  Holds : σ → Prop
  /-- The bytes are a frame with one record of the schema and no more. -/
  IsRecord : List AvroField → List UInt8 → Prop
  /-- The fields of a writer's record, resolved against a reader's. -/
  rawFields : List AvroField → Option (List AvroField) → List ArrowField
  rawRow : List AvroField → Option (List AvroField) → List UInt8 → List Value
  holds : ∀ s, Sound s → Holds s
  build : ∀ st rd size s, arrow.build st rd size = .ok s →
    Sound s ∧ frames s = [] ∧ store s = st ∧ reader s = rd
  known : ∀ s frame s', IsFrame frame →
    arrow.decode s frame = (.ok frame.length, s') → Sound s →
    (store s (frameId frame)).isSome
  decode : ∀ s frame s' writer,
    arrow.decode s frame = (.ok frame.length, s') → Sound s →
    (∀ f ∈ frames s, frameId f = frameId frame) →
    store s (frameId frame) = some writer → IsRecord writer frame →
    Sound s' ∧ frames s' = frames s ++ [frame] ∧ store s' = store s ∧
      reader s' = reader s
  stops : ∀ s frame r s', IsFrame frame → arrow.decode s frame = (r, s') →
    (∀ n, r = .ok n → n ≠ frame.length) →
    Sound s → (∀ f ∈ frames s, frameId f = frameId frame) →
    Holds s' ∧ store s' = store s ∧ reader s' = reader s ∧
      ∃ records, frames s' = frames s ++ records ∧
        (records ≠ [] → ∃ writer rest, rest ≠ [] ∧
          frame = records.flatten ++ rest ∧
          store s (frameId frame) = some writer ∧
          ∀ record ∈ records, IsRecord writer record)
  flush : ∀ s b s', arrow.flush s = (.ok b, s') → Holds s →
    (b = none → frames s = []) ∧ (Sound s → frames s = [] → b = none) ∧
    ∀ batch, b = some batch →
      HaveTypes batch.fields batch.columns ∧
      batch.numRows = (frames s).length ∧
      ∀ k frame, (frames s)[k]? = some frame → ∃ writer,
        store s (frameId frame) = some writer ∧
        batch.fields = rawFields writer ((reader s).map ReaderJson.record) ∧
        batch.row k = rawRow writer ((reader s).map ReaderJson.record) frame
  drains : ∀ s r s', arrow.flush s = (r, s') → Holds s →
    Holds s' ∧ store s' = store s ∧ reader s' = reader s ∧
      frames s' <+: frames s

/-- Concatenated batches have their rows one after the other. -/
def Concatenates (concat : List ArrowField → List RecordBatch →
    Except String RecordBatch) : Prop :=
  ∀ target batches out, concat target batches = .ok out →
    out.rows = batches.flatMap RecordBatch.rows

/-- The record that a decoder resolves against. -/
def readerRecord (d : FrameDecoder σ) : Option (List AvroField) :=
  if d.resolveAgainstReader then d.readerSchemaJson.map ReaderJson.record
  else none

section Rows

variable {arrow : ArrowDecoder σ} (laws : DecodesFrames arrow)
variable (cast : DataType → Column → DataType → Except AvroError Column)
variable (toPlainString : ℤ → ℤ → String)
variable (registry : ℕ → WriterSchema)

/-- What coercion makes of a row, wherever it stands. -/
def CoercedRow (fields target : List ArrowField) (raw row : List Value) :
    Prop :=
  ∃ batch out k, batch.fields = fields ∧
    HaveTypes batch.fields batch.columns ∧
    coerceBatchToTarget cast toPlainString batch target = .ok out ∧
    batch.row k = raw ∧ out.row k = row

variable {cast toPlainString} in
theorem coercedRow_unique
    (hcast : CastLocal cast) {fields target : List ArrowField}
    {raw row row' : List Value}
    (h : CoercedRow cast toPlainString fields target raw row)
    (h' : CoercedRow cast toPlainString fields target raw row') :
    row = row' := by
  obtain ⟨batch, out, k, rfl, htypes, hout, rfl, rfl⟩ := h
  obtain ⟨batch', out', k', hfields, htypes', hout', hraw, rfl⟩ := h'
  exact coerceBatchToTarget_local hcast hfields.symm htypes htypes' hout hout'
    hraw.symm

/-- The bytes that arrow-avro is given for a frame. -/
def Framed (framed frame : List UInt8) : Prop :=
  ∃ writer index, (registry (frameId framed)).root.record? =
      some (writer, index) ∧
    stripBranch index framed = .ok frame ∧ frameId frame = frameId framed

/-- The row of a frame: that of its writer's record, coerced. -/
def FrameRow (reader : Option (List AvroField)) (target : List ArrowField)
    (framed : List UInt8) (row : List Value) : Prop :=
  ∃ writer index frame,
    (registry (frameId framed)).root.record? = some (writer, index) ∧
    stripBranch index framed = .ok frame ∧
    CoercedRow cast toPlainString
      (laws.rawFields (stripFields writer.fields) reader) target
      (laws.rawRow (stripFields writer.fields) reader frame) row

variable {laws cast toPlainString registry} in
/-- The frame alone decides its row. -/
theorem frameRow_unique
    (hcast : CastLocal cast) {reader : Option (List AvroField)}
    {target : List ArrowField} {framed : List UInt8} {row row' : List Value}
    (h : FrameRow laws cast toPlainString registry reader target framed row)
    (h' : FrameRow laws cast toPlainString registry reader target framed
      row') : row = row' := by
  obtain ⟨writer, index, frame, hwriter, hstrip, hrow⟩ := h
  obtain ⟨writer', index', frame', hwriter', hstrip', hrow'⟩ := h'
  rw [hwriter] at hwriter'
  obtain ⟨rfl, rfl⟩ := Prod.mk.inj (Option.some.inj hwriter')
  rw [hstrip] at hstrip'
  obtain rfl := Except.ok.inj hstrip'
  exact coercedRow_unique hcast hrow hrow'

/-- The frame has one record of its writer, and no more. -/
def OneRecord (framed : List UInt8) : Prop :=
  ∃ writer index frame,
    (registry (frameId framed)).root.record? = some (writer, index) ∧
    stripBranch index framed = .ok frame ∧
    laws.IsRecord (stripFields writer.fields) frame

/-- The frame has more bytes after `count` records of its writer. -/
def HasRest (framed : List UInt8) (count : ℕ) : Prop :=
  ∃ writer index rest, ∃ records : List (List UInt8),
    (registry (frameId framed)).root.record? = some (writer, index) ∧
    stripBranch index framed = .ok (records.flatten ++ rest) ∧ rest ≠ [] ∧
    (∀ record ∈ records, laws.IsRecord (stripFields writer.fields) record) ∧
    records.length = count

/-- The row of what arrow-avro was given. -/
def TakenRow (d : FrameDecoder σ) (target : List ArrowField)
    (frame : List UInt8) (row : List Value) : Prop :=
  ∃ fields, d.store (frameId frame) = some fields ∧
    CoercedRow cast toPlainString (laws.rawFields fields d.readerRecord)
      target (laws.rawRow fields d.readerRecord frame) row

/-- The frames in the live decoder. -/
def taken (d : FrameDecoder σ) : List (List UInt8) :=
  d.decoder.elim [] laws.frames

/-- A state that a flush gives the rows of: those of the finished
generations and of the live decoder. -/
structure Holds (d : FrameDecoder σ) (closed : List (List (List UInt8))) :
    Prop where
  registered : ∀ id fields, d.store id = some fields →
    d.targetSchema.isSome ∧ ∃ writer index,
      (registry id).root.record? = some (writer, index) ∧
      fields = stripFields writer.fields ∧ d.unionRecordIndices id = index
  empty : d.targetSchema = none → d.pending = [] ∧ closed = []
  pending : ∀ target, d.targetSchema = some target → List.Forall₂
    (fun generation batch => generation ≠ [] ∧ List.Forall₂
      (FrameRow laws cast toPlainString registry d.readerRecord target)
        generation batch.rows) closed d.pending
  live : ∀ s, d.decoder = some s → laws.Holds s ∧
    (∀ id fields, laws.store s id = some fields → d.store id = some fields) ∧
    (laws.reader s).map ReaderJson.record = d.readerRecord

/-- A state after events that succeeded: the frames of the finished
generations and of the current one. -/
structure Tracks (d : FrameDecoder σ) (closed : List (List (List UInt8)))
    (current : List (List UInt8)) : Prop where
  holds : Holds laws cast toPlainString registry d closed
  framed : List.Forall₂ (Framed registry) current (taken laws d)
  sound : ∀ s, d.decoder = some s → laws.Sound s
  active : ∀ framed ∈ current, d.activeWriterId = some (frameId framed)
  target : d.targetSchema = none → current = []

end Rows

end FrameDecoder

end Avro

end Streamling
