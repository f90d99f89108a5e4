import Streamling.Formats.AvroSchema
import Streamling.Support.TwosComplement

/-!
# Coercing decoded Avro batches

arrow-avro decodes a batch with its own types; every column is coerced to the
field that the pipeline expects.  Stripped decimals arrive as bytes and are
read as numbers here, decimals of a fixed width arrive as decimals, and what
remains is left to the cast of Arrow.
-/

namespace Streamling

namespace Avro

open Arrow

/-! ## Columns -/

/-- A value of a leaf column. -/
inductive Cell where
  | bytes (value : List UInt8)
  | integer (value : ℤ)
  | text (value : String)
  | other (code : ℕ)
  deriving DecidableEq

abbrev Column := Arrow.Column Cell

/-- The bytes of a value in a binary column. -/
def Cell.toBytes : Cell → List UInt8
  | .bytes value => value
  | _ => []

/-- The unscaled integer of a value in a decimal column. -/
def Cell.toInteger : Cell → ℤ
  | .integer value => value
  | _ => 0

structure RecordBatch where
  fields : List ArrowField
  columns : List Column
  numRows : ℕ

mutual

/-- A column of nulls. -/
def nullColumn (rows : ℕ) : DataType → Column
  | .leaf _ => .leaf (List.replicate rows none)
  | .list (.mk _ _ _ type) =>
      .list (List.replicate (rows + 1) 0) (List.replicate rows false)
        (nullColumn 0 type)
  | .largeList (.mk _ _ _ type) =>
      .list (List.replicate (rows + 1) 0) (List.replicate rows false)
        (nullColumn 0 type)
  | .fixedSizeList (.mk _ _ _ type) size =>
      .fixedSizeList (List.replicate rows false)
        (nullColumn (size * rows) type)
  | .map (.mk _ _ _ type) _ =>
      .list (List.replicate (rows + 1) 0) (List.replicate rows false)
        (nullColumn 0 type)
  | .struct fields =>
      .struct (List.replicate rows false) (nullColumns rows fields)

def nullColumns (rows : ℕ) : List ArrowField → List Column
  | [] => []
  | .mk _ _ _ type :: fields => nullColumn rows type :: nullColumns rows fields

end

def listTryNew (child : ArrowField) (offsets : List ℕ) (validity : List Bool)
    (values : Column) : Except AvroError Column :=
  if ListValid child offsets validity values then
    .ok (.list offsets validity values)
  else .error (.invalidArray child.name)

def structTryNew (fields : List ArrowField) (columns : List Column)
    (validity : List Bool) : Except AvroError Column :=
  match (columns.zip fields).find? fun child => ¬ChildValid validity child with
  | none => .ok (.struct validity columns)
  | some child => .error (.invalidArray child.2.name)

/-- The columns have one length, and only nullable ones have nulls. -/
def recordBatchTryNew (fields : List ArrowField) (columns : List Column)
    (rows : ℕ) : Except AvroError RecordBatch :=
  match (columns.zip fields).find? fun child =>
      ¬ChildValid (List.replicate rows true) child with
  | none => .ok ⟨fields, columns, rows⟩
  | some child => .error (.invalidArray child.2.name)

/-! ## Bytes of decimals -/

/-- The bytes above the low `width` only repeat the sign. -/
def checkFitsWidth (bytes : List UInt8) (width : ℕ) (target : String) :
    Except AvroError Unit :=
  if bytes.length ≤ width then .ok ()
  else
    let negative := BigEndian.signBit bytes
    let high := bytes.take (bytes.length - width)
    let low := bytes.drop (bytes.length - width)
    let signCarried := !low.isEmpty && BigEndian.signBit low == negative
    if high.all (· == BigEndian.fillByte negative) && signCarried then .ok ()
    else .error (.doesNotFit target (width * 8) bytes.length)

/-- Sign-extend bytes to a width, or cut the repeated sign. -/
def beBytesToWidth (width : ℕ) (target : String) (bytes : List UInt8) :
    Except AvroError ℤ := do
  checkFitsWidth bytes width target
  let n := min bytes.length width
  let fill := BigEndian.fillByte (BigEndian.signBit bytes)
  return BigEndian.ofSignedBytes
    (List.replicate (width - n) fill ++ bytes.drop (bytes.length - n))

def beBytesToI128 : List UInt8 → Except AvroError ℤ :=
  beBytesToWidth 16 "Decimal128"

def beBytesToI256 : List UInt8 → Except AvroError ℤ :=
  beBytesToWidth 32 "Decimal256"

/-! ## Leaves -/

section Coercion

-- Arrow's `cast` and `BigDecimal::to_plain_string`
variable (cast : DataType → Column → DataType → Except AvroError Column)
variable (toPlainString : ℤ → ℤ → String)

def asBinaryIter (type : DataType) (src : Column) :
    Except AvroError (List (Option (List UInt8))) :=
  match type, src with
  | .leaf .binary, .leaf cells
  | .leaf .largeBinary, .leaf cells
  | .leaf (.fixedSizeBinary _), .leaf cells =>
      .ok (cells.map (Option.map Cell.toBytes))
  | _, _ => .error (.expectedBinary type)

/-- Convert the values of a column to integers; nulls stay. -/
def integerCells {α : Type} (convert : α → Except AvroError ℤ) :
    List (Option α) → Except AvroError (List (Option Cell))
  | [] => .ok []
  | none :: rows => do
      let rest ← integerCells convert rows
      return none :: rest
  | some a :: rows => do
      let value ← convert a
      let rest ← integerCells convert rows
      return some (.integer value) :: rest

/-- Drop trailing characters. -/
def trimEndMatches (c : Char) (s : String) : String :=
  String.ofList (s.toList.reverse.dropWhile (· == c)).reverse

def formatDecimalBytesWithScale (bytes : List UInt8) (scale : ℤ) : String :=
  let s := toPlainString (BigEndian.ofSignedBytes bytes) scale
  if 0 < scale ∧ s.toList.contains '.' then
    trimEndMatches '.' (trimEndMatches '0' s)
  else s

def binaryToDecimalString (type : DataType) (src : Column)
    (target : ArrowField) : Except AvroError Column :=
  match (target.metadata.rest.lookup avroDecimalScaleMeta).bind
      String.toInt? with
  | none => .error (.missingScale target.name)
  | some scale => do
      let rows ← asBinaryIter type src
      return .leaf (rows.map (Option.map fun bytes =>
        .text (formatDecimalBytesWithScale toPlainString bytes scale)))

def binaryToDecimalArb (type : DataType) (src : Column)
    (target : ArrowField) : Except AvroError Column :=
  match target.decimalArb with
  | none => .error (.missingDecimalArb target.name)
  | some field => do
      let rows ← asBinaryIter type src
      return .leaf (rows.map (Option.map fun bytes =>
        let value := DecimalArbValue.fromBigintAndScale
          (BigEndian.ofSignedBytes bytes) field.scale
        .bytes (value.toCanonicalBytesAtScale field.scale)))

/-- Bytes and 256-bit decimals become 128-bit integers, the latter by their
low 128 bits; 128-bit decimals get the type of the target. -/
def binaryOrPassthroughDecimal128 (type : DataType) (src : Column)
    (p : ℕ) (s : ℤ) : Except AvroError Column :=
  match type, src with
  | .leaf .binary, .leaf _
  | .leaf .largeBinary, .leaf _
  | .leaf (.fixedSizeBinary _), .leaf _ => do
      let rows ← asBinaryIter type src
      let cells ← integerCells beBytesToI128 rows
      return .leaf cells
  | .leaf (.decimal128 _ _), .leaf cells => .ok (.leaf cells)
  | .leaf (.decimal256 _ _), .leaf cells => do
      let cells ← integerCells
        (fun cell : Cell => beBytesToI128
          ((BigEndian.toSignedBytes 32 cell.toInteger).drop 16)) cells
      return .leaf cells
  | _, _ => cast type src (.leaf (.decimal128 p s))

def binaryOrPassthroughDecimal256 (type : DataType) (src : Column)
    (p : ℕ) (s : ℤ) : Except AvroError Column :=
  match type, src with
  | .leaf .binary, .leaf _
  | .leaf .largeBinary, .leaf _
  | .leaf (.fixedSizeBinary _), .leaf _ => do
      let rows ← asBinaryIter type src
      let cells ← integerCells beBytesToI256 rows
      return .leaf cells
  | .leaf (.decimal256 _ _), .leaf cells => .ok (.leaf cells)
  | _, _ => cast type src (.leaf (.decimal256 p s))

def passOrCast (type : DataType) (src : Column) (target : DataType) :
    Except AvroError Column :=
  if type = target then .ok src else cast type src target

/-- Whether the field carries the scale of a decimal that became text. -/
def hasDecimalScale (field : ArrowField) : Bool :=
  (field.metadata.rest.lookup avroDecimalScaleMeta).isSome

def coerceLeaf (type : DataType) (src : Column) (target : ArrowField)
    (leaf : LeafType) : Except AvroError Column :=
  match leaf with
  | .decimal128 p s => binaryOrPassthroughDecimal128 cast type src p s
  | .decimal256 p s => binaryOrPassthroughDecimal256 cast type src p s
  | .largeBinary =>
      if target.isDecimalArbField then binaryToDecimalArb type src target
      else passOrCast cast type src (.leaf leaf)
  | .utf8 | .largeUtf8 =>
      if hasDecimalScale target then
        binaryToDecimalString toPlainString type src target
      else passOrCast cast type src (.leaf leaf)
  | _ => passOrCast cast type src (.leaf leaf)

/-! ## Nested columns -/

/-- `i32::MAX` -/
def maxOffset : ℕ := 2147483647

/-- The element type and the parts of a list array. -/
def listParts (type : DataType) (src : Column) :
    Except AvroError (DataType × List ℕ × List Bool × Column) :=
  match type, src with
  | .list child, .list offsets validity values =>
      .ok (child.dataType, offsets, validity, values)
  | .largeList child, .list offsets validity values =>
      match offsets.find? (maxOffset < ·) with
      | some offset => .error (.offsetTooLarge offset)
      | none => .ok (child.dataType, offsets, validity, values)
  | _, _ => .error (.expectedList type)

mutual

/-- Coerce a column to the type of a field. -/
def coerceArray (type : DataType) (src : Column) :
    ArrowField → Except AvroError Column
  | .mk name nullable metadata (.leaf leaf) =>
      coerceLeaf cast toPlainString type src
        (.mk name nullable metadata (.leaf leaf)) leaf
  | .mk _ _ _ (.list child) => do
      let (element, offsets, validity, values) ← listParts type src
      let coerced ← coerceArray element values child
      listTryNew child offsets validity coerced
  | .mk _ _ _ (.struct fields) =>
      match type, src with
      | .struct sources, .struct validity columns => do
          let children ←
            coerceFields sources columns validity.length fields
          structTryNew fields children validity
      | _, _ => .error (.expectedStruct type)
  | .mk _ _ _ (.largeList child) =>
      passOrCast cast type src (.largeList child)
  | .mk _ _ _ (.fixedSizeList child size) =>
      passOrCast cast type src (.fixedSizeList child size)
  | .mk _ _ _ (.map entries sorted) =>
      passOrCast cast type src (.map entries sorted)

/-- Coerce the columns of a struct or a batch, found by name; a nullable field
that is absent is filled with nulls. -/
def coerceFields (sources : List ArrowField) (columns : List Column)
    (rows : ℕ) : List ArrowField → Except AvroError (List Column)
  | [] => .ok []
  | target :: targets =>
      match findField target.name sources with
      | some (i, source) =>
          match columns[i]? with
          | some column => do
              let coerced ← coerceArray source.dataType column target
              let rest ← coerceFields sources columns rows targets
              return coerced :: rest
          | none => .error (.missingField target.name)
      | none =>
          if target.nullable then do
            let rest ← coerceFields sources columns rows targets
            return nullColumn rows target.dataType :: rest
          else .error (.missingField target.name)

end

/-- Coerce a decoded batch to the target schema. -/
def coerceBatchToTarget (batch : RecordBatch) (target : List ArrowField) :
    Except AvroError RecordBatch := do
  let columns ←
    coerceFields cast toPlainString batch.fields batch.columns batch.numRows
      target
  recordBatchTryNew target columns batch.numRows

end Coercion

/-- A coerced batch has the target's fields and as many rows as before. -/
theorem coerceBatchToTarget_eq_ok
    {cast : DataType → Column → DataType → Except AvroError Column}
    {toPlainString : ℤ → ℤ → String}
    {target : List ArrowField} {batch out : RecordBatch}
    (h : coerceBatchToTarget cast toPlainString batch target = .ok out) :
    ∃ columns, coerceFields cast toPlainString batch.fields batch.columns
        batch.numRows target = .ok columns ∧
      out = ⟨target, columns, batch.numRows⟩ := by
  unfold coerceBatchToTarget at h
  rcases hcolumns : coerceFields cast toPlainString batch.fields
    batch.columns batch.numRows target with e | columns
  · simp [hcolumns, bind, Except.bind] at h
  · simp only [hcolumns, bind, Except.bind] at h
    refine ⟨columns, rfl, ?_⟩
    unfold recordBatchTryNew at h
    split at h
    · exact (Except.ok.inj h).symm
    · simp at h

end Avro

end Streamling
