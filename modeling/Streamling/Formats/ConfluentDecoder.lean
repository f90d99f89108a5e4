import Streamling.Formats.ArrowAvro

/-!
# The Confluent Avro decoder

Messages name the schema they were written with.  A decoder of arrow-avro
holds the messages of one writer schema, so a change of the writer ends a
generation: its batch is coerced and kept, and flushing gives the batches of
all generations in order.
-/

namespace Streamling

namespace Avro

open Arrow

/-- What is used of arrow-avro: decoding a further message of a writer schema,
with a reader schema to resolve against or without, and turning the messages
into a batch.  A message is represented by the values it encodes. -/
structure ArrowAvro where
  decode : List AvroField → Option (List AvroField) →
    List (List AvroValue) → List AvroValue → Except AvroError Unit
  flush : List AvroField → Option (List AvroField) →
    List (List AvroValue) → Except AvroError RecordBatch

/-- A message with its schema id and, under a union root, the branch. -/
structure Frame where
  writerId : ℕ
  branch : Option ℤ
  values : List AvroValue

/-- The live decoder, bound to one writer schema. -/
structure Generation where
  writer : List AvroField
  reader : Option (List AvroField)
  rows : List (List AvroValue)

structure ConfluentAvroDecoder where
  store : ℕ → Option (List AvroField)
  readerSchema : Option (List AvroField)
  targetSchema : Option (List ArrowField)
  unionRecordIndices : ℕ → Option ℤ
  activeWriterId : Option ℕ
  pending : List RecordBatch
  decoder : Option Generation
  resolveAgainstReader : Bool
  batchSize : Option ℕ

namespace ConfluentAvroDecoder

def new : ConfluentAvroDecoder where
  store := fun _ => none
  readerSchema := none
  targetSchema := none
  unionRecordIndices := fun _ => none
  activeWriterId := none
  pending := []
  decoder := none
  resolveAgainstReader := true
  batchSize := none

def withSchemaResolution (enabled : Bool) (d : ConfluentAvroDecoder) :
    ConfluentAvroDecoder :=
  { d with resolveAgainstReader := enabled, decoder := none }

def withBatchSize (size : ℕ) (d : ConfluentAvroDecoder) :
    ConfluentAvroDecoder :=
  { d with batchSize := some size, decoder := none }

/-- The target of a schema: the fields of its record. -/
def targetOf (root : AvroRoot) : Except AvroError (List ArrowField) :=
  match root.record? with
  | none => .error .noRecordBranch
  | some (schema, _) => convertAvroSchemaToArrow schema.fields

def withReaderSchema (reader : AvroRoot) (d : ConfluentAvroDecoder) :
    Except AvroError ConfluentAvroDecoder := do
  let (record, _) ← prepareArrowAvroSchema reader
  let target ← targetOf reader
  return { d with
    readerSchema := some record
    targetSchema := some target
    decoder := none }

def registerWriterSchema (id : ℕ) (writer : AvroRoot)
    (d : ConfluentAvroDecoder) : Except AvroError ConfluentAvroDecoder := do
  let (record, index) ← prepareArrowAvroSchema writer
  let target ←
    match d.targetSchema with
    | some target => pure target
    | none => targetOf writer
  return { d with
    targetSchema := some target
    unionRecordIndices := Function.update d.unionRecordIndices id index
    store := Function.update d.store id (some record) }

/-- The reader schema that arrow-avro is given. -/
def resolution (d : ConfluentAvroDecoder) : Option (List AvroField) :=
  if d.resolveAgainstReader then d.readerSchema else none

def ensureDecoder (d : ConfluentAvroDecoder) (id : ℕ) :
    Except AvroError Generation :=
  match d.decoder with
  | some generation => .ok generation
  | none =>
      match d.store id with
      | none => .error (.unknownWriter id)
      | some writer => .ok ⟨writer, d.resolution, []⟩

section Decoding

variable (avro : ArrowAvro)
variable (cast : DataType → Column → DataType → Except AvroError Column)
variable (toPlainString : ℤ → ℤ → String)

/-- The coerced batch of the live decoder, if it holds messages. -/
def flushInner (d : ConfluentAvroDecoder) :
    Except AvroError (Option RecordBatch) :=
  match d.decoder with
  | none => .ok none
  | some generation =>
      match d.targetSchema with
      | none => .error .noSchema
      | some target =>
          if generation.rows.isEmpty then .ok none
          else do
            let batch ←
              avro.flush generation.writer generation.reader generation.rows
            let coerced ← coerceBatchToTarget cast toPlainString batch target
            return some coerced

/-- End the generation of another writer. -/
def switchWriter (d : ConfluentAvroDecoder) (id : ℕ) :
    Except AvroError ConfluentAvroDecoder :=
  match d.activeWriterId with
  | none => .ok { d with activeWriterId := some id }
  | some active =>
      if active = id then .ok d
      else do
        let flushed ← flushInner avro cast toPlainString d
        return { d with
          pending := d.pending ++ flushed.toList
          decoder := none
          activeWriterId := some id }

/-- Under a union root the message has to be of the record branch. -/
def checkBranch (d : ConfluentAvroDecoder) (frame : Frame) :
    Except AvroError Unit :=
  match d.unionRecordIndices frame.writerId, frame.branch with
  | none, _ => .ok ()
  | some _, none => .error .missingBranch
  | some record, some branch =>
      if branch = record then .ok ()
      else .error (.notTheRecordBranch branch record)

/-- arrow-avro's default for `with_batch_size` -/
def defaultBatchSize : ℕ := 1024

/-- Decode one message.  A full decoder consumes nothing. -/
def decode (d : ConfluentAvroDecoder) (frame : Frame) :
    Except AvroError ConfluentAvroDecoder := do
  let d ← switchWriter avro cast toPlainString d frame.writerId
  checkBranch d frame
  let generation ← ensureDecoder d frame.writerId
  if d.batchSize.getD defaultBatchSize ≤ generation.rows.length then
    throw (.notConsumed frame.writerId true)
  avro.decode generation.writer generation.reader generation.rows frame.values
  return { d with
    decoder := some
      { generation with rows := generation.rows ++ [frame.values] } }

/-- The batches of all generations, which are concatenated, if there are
any. -/
def flush (d : ConfluentAvroDecoder) :
    Except AvroError (ConfluentAvroDecoder × List RecordBatch) :=
  match d.targetSchema with
  | none => .error .noSchema
  | some _ => do
      let flushed ← flushInner avro cast toPlainString d
      let emptied :=
        { d with decoder := none, activeWriterId := none, pending := [] }
      return (emptied, d.pending ++ flushed.toList)

/-! ## Runs -/

/-- What happens to a decoder. -/
inductive Event where
  | register (id : ℕ)
  | decode (frame : Frame)
  | flush

/-- One event; a schema id names one schema of the registry. -/
def step (registry : ℕ → AvroRoot) (d : ConfluentAvroDecoder) :
    Event → Except AvroError ConfluentAvroDecoder
  | .register id => d.registerWriterSchema id (registry id)
  | .decode frame => decode avro cast toPlainString d frame
  | .flush => (flush avro cast toPlainString d).map Prod.fst

def run (registry : ℕ → AvroRoot) (d : ConfluentAvroDecoder) :
    List Event → Except AvroError ConfluentAvroDecoder
  | [] => .ok d
  | event :: events => do
      let d ← step avro cast toPlainString registry d event
      run registry d events

end Decoding

/-- The messages decoded since the last flush. -/
def buffered : List Frame → List Event → List Frame
  | frames, [] => frames
  | frames, .register _ :: events => buffered frames events
  | frames, .decode frame :: events => buffered (frames ++ [frame]) events
  | _, .flush :: events => buffered [] events

end ConfluentAvroDecoder

end Avro

end Streamling
