import Mathlib
import Streamling.Formats.CoerceRows
import Streamling.Support.BigEndian

/-!
# Confluent frames

A frame is a zero byte, the id of the writer schema and the body.  Frames of
one writer go to one decoder of arrow-avro; another id ends its generation,
whose coerced batch waits until the flush.  Under a union root the branch is
read and cut off first.

arrow-avro is a parameter: a decoder is built from the registered schemas,
takes the bytes of a frame and gives its batch.  Operations give the state
they leave also when they fail.
-/

namespace Streamling

namespace Avro

open Arrow

/-! ## Frames -/

inductive FrameError where
  | notConfluent (length : ℕ) (first : Option UInt8)
  | tooShort (length : ℕ)
  | missingMagic (byte : UInt8)
  | truncatedLong
  | longOverflow
  | notTheRecordBranch (branch record : ℤ)
  | noSchema
  | notConsumed (consumed length id : ℕ)
  | columnLengths (tags rows : ℕ)
  | avro (error : AvroError)
  | library (text : String)

/-- The id in the bytes after the first. -/
def frameId (framed : List UInt8) : ℕ :=
  BigEndian.ofBytes ((framed.drop 1).take 4)

def zigzag (value : UInt64) : ℤ :=
  if value.toNat % 2 = 0 then value.toNat / 2 else -(value.toNat / 2) - 1

/-- The loop of `read_avro_long`, with the bytes consumed so far. -/
def readAvroLongFrom (value : UInt64) (shift consumed : ℕ) :
    List UInt8 → Except FrameError (ℤ × ℕ)
  | [] => .error .truncatedLong
  | b :: rest =>
      let value := value ||| ((b &&& 0x7F).toUInt64 <<< UInt64.ofNat shift)
      if b &&& 0x80 = 0 then .ok (zigzag value, consumed + 1)
      else if 63 < shift + 7 then .error .longOverflow
      else readAvroLongFrom value (shift + 7) (consumed + 1) rest

def readAvroLong (buf : List UInt8) : Except FrameError (ℤ × ℕ) :=
  readAvroLongFrom 0 0 0 buf

/-- The frame without the branch of a union root. -/
def stripBranch (index : Option ℤ) (framed : List UInt8) :
    Except FrameError (List UInt8) :=
  match index with
  | none => .ok framed
  | some record => do
      let body := framed.drop 5
      let (branch, consumed) ← readAvroLong body
      if branch ≠ record then throw (.notTheRecordBranch branch record)
      return framed.take 5 ++ body.drop consumed

/-- The values of the rows of a batch. -/
def RecordBatch.rows (batch : RecordBatch) : List (List Value) :=
  (List.range batch.numRows).map batch.row

/-! ## Schemas -/

/-- A schema of the registry, with the full name of its record. -/
structure WriterSchema where
  root : AvroRoot
  fullName : Option String

/-- The record that arrow-avro resolves against, with its aliases. -/
structure ReaderJson where
  record : List AvroField
  fullName : Option String
  aliases : List String

/-- What is used of arrow-avro. -/
structure ArrowDecoder (σ : Type) where
  build : (ℕ → Option (List AvroField)) → Option ReaderJson → Option ℕ →
    Except String σ
  decode : σ → List UInt8 → Except String ℕ × σ
  flush : σ → Except String (Option RecordBatch) × σ

structure FrameDecoder (σ : Type) where
  store : ℕ → Option (List AvroField)
  readerSchemaJson : Option ReaderJson
  targetSchema : Option (List ArrowField)
  unionRecordIndices : ℕ → Option ℤ
  activeWriterId : Option ℕ
  pending : List RecordBatch
  decoder : Option σ
  writerAliases : List String
  resolveAgainstReader : Bool
  batchSize : Option ℕ

namespace FrameDecoder

variable {σ : Type}

def new : FrameDecoder σ where
  store := fun _ => none
  readerSchemaJson := none
  targetSchema := none
  unionRecordIndices := fun _ => none
  activeWriterId := none
  pending := []
  decoder := none
  writerAliases := []
  resolveAgainstReader := true
  batchSize := none

def withSchemaResolution (enabled : Bool) (d : FrameDecoder σ) :
    FrameDecoder σ :=
  { d with resolveAgainstReader := enabled, decoder := none }

def withBatchSize (size : ℕ) (d : FrameDecoder σ) : FrameDecoder σ :=
  { d with batchSize := some size, decoder := none }

/-- The fields of the record of a root, as Arrow fields. -/
def targetOf (root : AvroRoot) : Except AvroError (List ArrowField) :=
  match root.record? with
  | none => .error .noRecordBranch
  | some (schema, _) => convertAvroSchemaToArrow schema.fields

def withReaderSchema (reader : WriterSchema) (aliases : List String)
    (d : FrameDecoder σ) : Except AvroError (FrameDecoder σ) := do
  let (record, _) ← prepareArrowAvroSchema reader.root
  let target ← targetOf reader.root
  return { d with
    readerSchemaJson := some ⟨record, reader.fullName, aliases⟩
    targetSchema := some target
    decoder := none }

/-- The aliases with the name of a writer's record, if that is another than
the reader's. -/
def aliasesWith (reader : Option ReaderJson) (writer : WriterSchema)
    (aliases : List String) : List String :=
  match reader.bind ReaderJson.fullName, writer.fullName with
  | some readerName, some writerName =>
      if writerName ≠ readerName ∧ writerName ∉ aliases then
        aliases.orderedInsert (· ≤ ·) writerName
      else aliases
  | _, _ => aliases

def registerWriterSchema (id : ℕ) (writer : WriterSchema)
    (d : FrameDecoder σ) : Except AvroError (FrameDecoder σ) := do
  let (record, index) ← prepareArrowAvroSchema writer.root
  let target ←
    match d.targetSchema with
    | some target => pure target
    | none => targetOf writer.root
  return { d with
    targetSchema := some target
    writerAliases := aliasesWith d.readerSchemaJson writer d.writerAliases
    unionRecordIndices := Function.update d.unionRecordIndices id index
    store := Function.update d.store id (some record) }

def hasWriterSchema (id : ℕ) (d : FrameDecoder σ) : Bool :=
  (d.store id).isSome

/-- The reader schema with the names of other writers among its aliases. -/
def readerJsonWithAliases (d : FrameDecoder σ) : Option ReaderJson :=
  d.readerSchemaJson.map fun base =>
    { base with
      aliases := base.aliases ++
        d.writerAliases.filter fun name => name ∉ base.aliases }

section Decoding

variable (arrow : ArrowDecoder σ)
variable (cast : DataType → Column → DataType → Except AvroError Column)
variable (toPlainString : ℤ → ℤ → String)
-- Arrow's `concat_batches`
variable (concat : List ArrowField → List RecordBatch →
  Except String RecordBatch)

/-- The live decoder, built if there is none. -/
def ensureDecoder (d : FrameDecoder σ) : Except FrameError σ :=
  match d.decoder with
  | some s => .ok s
  | none =>
      (arrow.build d.store
        (if d.resolveAgainstReader then d.readerJsonWithAliases else none)
        d.batchSize).mapError .library

/-- The coerced batch of the live decoder, if it holds rows. -/
def flushInner (d : FrameDecoder σ) :
    Except FrameError (Option RecordBatch) × FrameDecoder σ :=
  match d.decoder with
  | none => (.ok none, d)
  | some s =>
      match d.targetSchema with
      | none => (.error .noSchema, d)
      | some target =>
          let flushed := arrow.flush s
          let after := { d with decoder := some flushed.2 }
          match flushed.1 with
          | .error text => (.error (.library text), after)
          | .ok none => (.ok none, after)
          | .ok (some batch) =>
              match coerceBatchToTarget cast toPlainString batch target with
              | .error e => (.error (.avro e), after)
              | .ok coerced => (.ok (some coerced), after)

/-- End the generation of another writer. -/
def switchWriter (d : FrameDecoder σ) (id : ℕ) :
    Except FrameError Unit × FrameDecoder σ :=
  if d.activeWriterId.all (· = id) then
    (.ok (), { d with activeWriterId := some id })
  else
    match flushInner arrow cast toPlainString d with
    | (.error e, after) => (.error e, after)
    | (.ok flushed, after) =>
        (.ok (), { after with
          pending := after.pending ++ flushed.toList
          decoder := none
          activeWriterId := some id })

/-- Hand a frame to arrow-avro, which has to take all of it. -/
def feed (d : FrameDecoder σ) (s : σ) (id : ℕ) (frame : List UInt8) :
    Except FrameError ℕ × FrameDecoder σ :=
  let decoded := arrow.decode s frame
  let after := { d with decoder := some decoded.2 }
  match decoded.1 with
  | .error text => (.error (.library text), after)
  | .ok consumed =>
      if consumed ≠ frame.length then
        (.error (.notConsumed consumed frame.length id), after)
      else (.ok consumed, after)

/-- Decode one frame. -/
def decode (d : FrameDecoder σ) (framed : List UInt8) :
    Except FrameError ℕ × FrameDecoder σ :=
  if framed.length < 5 then (.error (.tooShort framed.length), d)
  else if framed.head? ≠ some 0 then
    (.error (.missingMagic (framed.headD 0)), d)
  else
    let id := frameId framed
    match switchWriter arrow cast toPlainString d id with
    | (.error e, after) => (.error e, after)
    | (.ok (), after) =>
        match stripBranch (after.unionRecordIndices id) framed with
        | .error e => (.error e, after)
        | .ok frame =>
            match ensureDecoder arrow after with
            | .error e => (.error e, after)
            | .ok s => feed arrow after s id frame

/-- The state without rows. -/
def reset (d : FrameDecoder σ) : FrameDecoder σ :=
  { d with decoder := none, activeWriterId := none, pending := [] }

/-- All rows as one batch, if there are any. -/
def flush (d : FrameDecoder σ) :
    Except FrameError (Option RecordBatch) × FrameDecoder σ :=
  match d.targetSchema with
  | none => (.error .noSchema, d)
  | some target =>
      match flushInner arrow cast toPlainString d with
      | (.error e, after) => (.error e, after)
      | (.ok flushed, after) =>
          match after.pending ++ flushed.toList with
          | [] => (.ok none, after.reset)
          | [batch] => (.ok (some batch), after.reset)
          | batches =>
              (((concat target batches).mapError .library).map some,
                after.reset)

/-! ## Runs -/

/-- What happens to a decoder; a schema id names one schema of the
registry. -/
inductive Event where
  | register (id : ℕ)
  | decode (framed : List UInt8)
  | flush
  deriving DecidableEq

/-- The state after a call that succeeds. -/
def finished {α : Type} (result : Except FrameError α × FrameDecoder σ) :
    Except FrameError (FrameDecoder σ) :=
  match result with
  | (.error e, _) => .error e
  | (.ok _, after) => .ok after

/-- One event, if it succeeds. -/
def step (registry : ℕ → WriterSchema) (d : FrameDecoder σ) :
    Event → Except FrameError (FrameDecoder σ)
  | .register id =>
      (d.registerWriterSchema id (registry id)).mapError .avro
  | .decode framed => finished (decode arrow cast toPlainString d framed)
  | .flush => finished (flush arrow cast toPlainString concat d)

def run (registry : ℕ → WriterSchema) (d : FrameDecoder σ) :
    List Event → Except FrameError (FrameDecoder σ)
  | [] => .ok d
  | event :: events => do
      let d ← step arrow cast toPlainString concat registry d event
      run registry d events

/-! ## The Kafka source -/

/-- Decode the frame of a message, whose schema is registered first if it is
new. -/
def decodeAndBuffer (registry : ℕ → WriterSchema) (d : FrameDecoder σ)
    (framed : List UInt8) : Except FrameError (FrameDecoder σ) := do
  if framed.length < 5 ∨ framed.head? ≠ some 0 then
    throw (.notConfluent framed.length framed.head?)
  let id := frameId framed
  let d ←
    if d.hasWriterSchema id then pure d
    else (d.registerWriterSchema id (registry id)).mapError .avro
  finished (decode arrow cast toPlainString d framed)

/-- Messages with the operation and metadata of each, which are pushed before
the frame is decoded. -/
def poll {τ : Type} (registry : ℕ → WriterSchema) (d : FrameDecoder σ)
    (tags : List τ) : List (τ × List UInt8) →
    Except FrameError (List τ × FrameDecoder σ)
  | [] => .ok (tags, d)
  | (tag, framed) :: messages => do
      let d ← decodeAndBuffer arrow cast toPlainString registry d framed
      poll registry d (tags ++ [tag]) messages

/-- The batch of an interval: a row and the columns beside it. -/
def interval {τ : Type} (registry : ℕ → WriterSchema) (d : FrameDecoder σ)
    (messages : List (τ × List UInt8)) :
    Except FrameError (List (τ × List Value) × FrameDecoder σ) := do
  let (tags, d) ← poll arrow cast toPlainString registry d [] messages
  match flush arrow cast toPlainString concat d with
  | (.error e, _) => throw e
  | (.ok out, after) =>
      let rows := out.toList.flatMap RecordBatch.rows
      if tags.length ≠ rows.length then
        throw (.columnLengths tags.length rows.length)
      return (tags.zip rows, after)

end Decoding

/-- The registrations of a run alone. -/
def registerAll (registry : ℕ → WriterSchema) (d : FrameDecoder σ) :
    List Event → Except FrameError (FrameDecoder σ)
  | [] => .ok d
  | .register id :: events => do
      let d ← (d.registerWriterSchema id (registry id)).mapError .avro
      registerAll registry d events
  | .decode _ :: events => registerAll registry d events
  | .flush :: events => registerAll registry d events

/-- The frames decoded since the last flush. -/
def unflushed : List (List UInt8) → List Event → List (List UInt8)
  | frames, [] => frames
  | frames, .register _ :: events => unflushed frames events
  | frames, .decode framed :: events => unflushed (frames ++ [framed]) events
  | _, .flush :: events => unflushed [] events

end FrameDecoder

end Avro

end Streamling
