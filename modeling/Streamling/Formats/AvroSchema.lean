import Streamling.Types.Arrow

/-!
# Avro schemas and their Arrow fields

Avro schemas with decimals at any depth of records, arrays, maps and nullable
unions.  Decimals that arrow-avro does not decode are stripped to their bytes
before it sees the schema, and the Arrow fields that batches are coerced to
are derived from the schema as it was.
-/

namespace Streamling

namespace Avro

open Arrow

/-! ## Schemas -/

/-- The types that are neither bytes nor decimals. -/
inductive AvroPrimitive where
  | null
  | boolean
  | int
  | long
  | float
  | double
  | string
  | enum
  | bigDecimal
  | uuid
  | date
  | timeMillis
  | timeMicros
  | timestampMillis
  | timestampMicros
  | timestampNanos
  | localTimestampMillis
  | localTimestampMicros
  | localTimestampNanos
  | duration
  deriving DecidableEq

/-- What a decimal is written as. -/
inductive DecimalInner where
  | bytes
  | fixed (size : ℕ)
  deriving DecidableEq

mutual

/-- A schema.  `nullable` is the union of null and one other schema, in either
order. -/
inductive AvroSchema where
  | primitive (type : AvroPrimitive)
  | bytes
  | fixed (size : ℕ)
  | decimal (precision scale : ℕ) (inner : DecimalInner)
  | array (items : AvroSchema)
  | map (values : AvroSchema)
  | nullable (inner : AvroSchema)
  | record (fields : List AvroField)

inductive AvroField where
  | mk (name : String) (schema : AvroSchema)

end

namespace AvroField

def name : AvroField → String
  | .mk name _ => name

def schema : AvroField → AvroSchema
  | .mk _ schema => schema

end AvroField

mutual

/-- The field names of every record are distinct. -/
def AvroSchema.DistinctNames : AvroSchema → Prop
  | .array items => items.DistinctNames
  | .map values => values.DistinctNames
  | .nullable inner => inner.DistinctNames
  | .record fields =>
      (fields.map AvroField.name).Nodup ∧ AllDistinctNames fields
  | .primitive _ | .bytes | .fixed _ | .decimal _ _ _ => True

def AllDistinctNames : List AvroField → Prop
  | [] => True
  | .mk _ schema :: fields => schema.DistinctNames ∧ AllDistinctNames fields

end

/-- A record, as Avro accepts it. -/
structure RecordSchema where
  fields : List AvroField
  distinct : (AvroSchema.record fields).DistinctNames

/-- The root of a schema: a record, or a union with a record among its
variants. -/
inductive AvroRoot where
  | record (schema : RecordSchema)
  | union (variants : List (Option RecordSchema))

/-- A value as it is written: decimals are bytes in two's complement, and a
nullable value is null or the value itself. -/
inductive AvroValue where
  | null
  | primitive (code : ℕ)
  | bytes (value : List UInt8)
  | array (items : List AvroValue)
  | map (entries : List (String × AvroValue))
  | record (values : List AvroValue)

/-! ## Errors -/

/-- The errors of the decoder, with what their texts mention.  The first one
is a panic in the source. -/
inductive AvroError where
  | schemaPrecision (precision : ℕ)
  | noRecordBranch
  | unknownWriter (id : ℕ)
  | noSchema
  | notTheRecordBranch (branch record : ℤ)
  | missingBranch
  | notConsumed (id : ℕ) (full : Bool)
  | missingField (name : String)
  | expectedBinary (type : DataType)
  | expectedList (type : DataType)
  | expectedStruct (type : DataType)
  | missingDecimalArb (name : String)
  | missingScale (name : String)
  | doesNotFit (target : String) (bits length : ℕ)
  | offsetTooLarge (offset : ℕ)
  | invalidArray (name : String)
  | library (text : String)

/-! ## Stripping -/

def DecimalInner.schema : DecimalInner → AvroSchema
  | .bytes => .bytes
  | .fixed size => .fixed size

mutual

/-- Turn every decimal with more than 76 digits into its bytes. -/
def stripHighPrecisionDecimals : AvroSchema → AvroSchema
  | .decimal precision scale inner =>
      if 76 < precision then inner.schema
      else .decimal precision scale inner
  | .array items => .array (stripHighPrecisionDecimals items)
  | .map values => .map (stripHighPrecisionDecimals values)
  | .nullable inner => .nullable (stripHighPrecisionDecimals inner)
  | .record fields => .record (stripFields fields)
  | .primitive type => .primitive type
  | .bytes => .bytes
  | .fixed size => .fixed size

def stripFields : List AvroField → List AvroField
  | [] => []
  | .mk name schema :: fields =>
      .mk name (stripHighPrecisionDecimals schema) :: stripFields fields

end

/-- The record of the root, with its index if the root is a union. -/
def AvroRoot.record? : AvroRoot → Option (RecordSchema × Option ℤ)
  | .record schema => some (schema, none)
  | .union variants =>
      match variants.findIdx? Option.isSome with
      | none => none
      | some index =>
          variants[index]?.join.map fun schema => (schema, some index)

def prepareArrowAvroSchema (root : AvroRoot) :
    Except AvroError (List AvroField × Option ℤ) :=
  match root.record? with
  | none => .error .noRecordBranch
  | some (schema, index) => .ok (stripFields schema.fields, index)

/-! ## Arrow fields -/

/-- The decimal of a schema, seen through nullable unions. -/
def findDecimalSchema : AvroSchema → Option (ℕ × ℕ)
  | .decimal precision scale _ => some (precision, scale)
  | .nullable inner => findDecimalSchema inner
  | _ => none

def AvroPrimitive.leafType : AvroPrimitive → LeafType
  | .null => .other "Null"
  | .boolean => .other "Boolean"
  | .int => .other "Int32"
  | .long => .other "Int64"
  | .float => .other "Float32"
  | .double => .other "Float64"
  | .string | .enum => .utf8
  | .bigDecimal => .largeBinary
  | .uuid => .fixedSizeBinary 16
  | .date => .other "Date32"
  | .timeMillis => .other "Time32(Millisecond)"
  | .timeMicros => .other "Time64(Microsecond)"
  | .timestampMillis | .localTimestampMillis =>
      .other "Timestamp(Millisecond)"
  | .timestampMicros | .localTimestampMicros =>
      .other "Timestamp(Microsecond)"
  | .timestampNanos | .localTimestampNanos => .other "Timestamp(Nanosecond)"
  | .duration => .other "Duration(Millisecond)"

/-- `as u8` -/
def asU8 (n : ℕ) : ℕ :=
  n % 256

/-- `as i8` -/
def asI8 (n : ℕ) : ℤ :=
  (n : ℤ).bmod 256

/-- `as u32` -/
def asU32 (n : ℕ) : ℕ :=
  n % 4294967296

/-- A `decimal_arb` field, if the precision and scale allow one. -/
def decimalArbField (name : String) (precision scale : ℕ) (nullable : Bool)
    (hint : Option NativeIntKind) : Option ArrowField :=
  if h : validatePrecisionScale precision scale = .ok () then
    some (.mk name nullable
      ⟨.decimalArb ⟨precision, scale, h⟩, hint, []⟩ (.leaf .largeBinary))
  else none

/-- Decimals are routed by their precision; the type is kept for one that
`decimal_arb` does not support. -/
def routeDecimal (name : String) (nullable : Bool) (fieldType : DataType) :
    Option (ℕ × ℕ) → ArrowField
  | none => .mk name nullable .empty fieldType
  | some (precision, scale) =>
      if 76 < precision then
        (decimalArbField name (asU32 precision) (asU32 scale) nullable
          none).getD (.mk name nullable .empty fieldType)
      else if 38 < precision then
        .mk name nullable .empty
          (.leaf (.decimal256 (asU8 precision) (asI8 scale)))
      else .mk name nullable .empty fieldType

mutual

/-- The Arrow field of a schema.  A map becomes a dictionary with text keys;
its value type is read by nothing here. -/
def schemaToField (name : String) (nullable : Bool) : AvroSchema → ArrowField
  | .primitive type => .mk name nullable .empty (.leaf type.leafType)
  | .bytes => .mk name nullable .empty (.leaf .binary)
  | .fixed size => .mk name nullable .empty (.leaf (.fixedSizeBinary size))
  | .decimal precision scale _ =>
      routeDecimal name nullable
        (.leaf (.decimal128 (asU8 precision) (asI8 scale)))
        (some (precision, scale))
  | .array items =>
      .mk name nullable .empty (.list (schemaToField "element" false items))
  | .map _ => .mk name nullable .empty (.leaf (.other "Dictionary(Utf8)"))
  | .nullable inner =>
      routeDecimal name true (schemaToField name true inner).dataType
        (findDecimalSchema inner)
  | .record fields =>
      .mk name nullable .empty (.struct (recordToFields fields))

def recordToFields : List AvroField → List ArrowField
  | [] => []
  | .mk name schema :: fields =>
      schemaToField name false schema :: recordToFields fields

end

def avroDecimalScaleMeta : String :=
  "avro.decimal.scale"

/-- Text for a decimal that no numeric type of Arrow represents, with its
scale. -/
def utf8AvroDecimalField (name : String) (scale : ℕ) (nullable : Bool) :
    ArrowField :=
  .mk name nullable ⟨.none, none, [(avroDecimalScaleMeta, toString scale)]⟩
    (.leaf .utf8)

/-- The field of a top-level decimal. -/
def topLevelDecimalField (name : String) (precision scale : ℕ)
    (nullable : Bool) : ArrowField :=
  if 76 < precision then
    if scale = 0 then
      (decimalArbField name (asU32 precision) 0 nullable (some .u256)).getD
        (.mk name nullable .empty (.leaf .utf8))
    else
      (decimalArbField name (asU32 precision) (asU32 scale) nullable
        none).getD (utf8AvroDecimalField name scale nullable)
  else if 38 < precision then
    .mk name nullable .empty
      (.leaf (.decimal256 (asU8 precision) (asI8 scale)))
  else
    .mk name nullable .empty
      (.leaf (.decimal128 (asU8 precision) (asI8 scale)))

def maxSchemaPrecision : ℕ := 100

/-- Limit a top-level decimal that is not nullable. -/
def postProcessForReading : AvroSchema → Except AvroError AvroSchema
  | .decimal precision scale inner =>
      if maxSchemaPrecision < precision then
        .error (.schemaPrecision precision)
      else .ok (.decimal precision (min scale maxSchemaPrecision) inner)
  | schema => .ok schema

def AvroSchema.isNullable : AvroSchema → Bool
  | .nullable _ => true
  | _ => false

def topLevelField (name : String) (schema : AvroSchema) : ArrowField :=
  let field := schemaToField name schema.isNullable schema
  match findDecimalSchema schema with
  | none => field
  | some (precision, scale) =>
      topLevelDecimalField name precision scale field.nullable

/-- The fields that batches of a schema are coerced to. -/
def convertAvroSchemaToArrow :
    List AvroField → Except AvroError (List ArrowField)
  | [] => .ok []
  | .mk name schema :: fields => do
      let schema ← postProcessForReading schema
      let rest ← convertAvroSchemaToArrow fields
      return topLevelField name schema :: rest

end Avro

end Streamling
