import Streamling.Types.Arrow

/-!
# The schema check of the hybrid source and the ClickHouse normalizer

The check compares the type of a bounded column with the unbounded field; the
normalizer rebuilds a column that was read from ClickHouse so that it has the
encodings of the unbounded field, which is its target.  Both are recursions
over the two type trees.  The batch is built anew if one of its columns is.
-/

namespace Streamling

namespace HybridSchema

open Arrow

/-! ## The check -/

/-- The encodings in which ClickHouse delivers a `decimal_arb` column. -/
def clickhouseReadsAsDecimalArb (boundedType : DataType)
    (unboundedField : ArrowField) : Bool :=
  if unboundedField.isDecimalArbField then
    match boundedType with
    | .leaf (.fixedSizeBinary 32) =>
        unboundedField.nativeIntKindFromField.isSome
    | .leaf (.decimal128 _ _) | .leaf (.decimal256 _ _) => true
    | .leaf .utf8 | .leaf .largeUtf8 => true
    | _ => false
  else false

mutual

def isCompatibleDataType (bounded : DataType) : DataType → Bool
  | .leaf u => decide (bounded = .leaf u)
  | .list u =>
      decide (bounded = .list u) ||
        match bounded with
        | .list b => isCompatibleField b u
        | _ => false
  | .largeList u =>
      decide (bounded = .largeList u) ||
        match bounded with
        | .largeList b => isCompatibleField b u
        | _ => false
  | .fixedSizeList u size =>
      decide (bounded = .fixedSizeList u size) ||
        match bounded with
        | .fixedSizeList b boundedSize =>
            decide (boundedSize = size) && isCompatibleField b u
        | _ => false
  | .map u sorted => decide (bounded = .map u sorted)
  | .struct us =>
      decide (bounded = .struct us) ||
        match bounded with
        | .struct bs =>
            decide (bs.length = us.length) && allCompatible bs us
        | _ => false

def isCompatibleField (bounded : ArrowField) : ArrowField → Bool
  | .mk name nullable metadata dataType =>
      (!bounded.nullable || nullable) &&
        (isCompatibleDataType bounded.dataType dataType ||
          clickhouseReadsAsDecimalArb bounded.dataType
            (.mk name nullable metadata dataType))

/-- Every unbounded field of a struct finds a bounded one by its name. -/
def allCompatible (bounded : List ArrowField) : List ArrowField → Bool
  | [] => true
  | u :: us =>
      (match findField u.name bounded with
        | some (_, b) => isCompatibleField b u
        | none => false) &&
        allCompatible bounded us

end

/-- The check of a column, which does not look at its own nullability. -/
def isCompatibleColumn (bounded unbounded : ArrowField) : Bool :=
  isCompatibleDataType bounded.dataType unbounded.dataType ||
    clickhouseReadsAsDecimalArb bounded.dataType unbounded

/-- The column that the check passes over. -/
def COLUMN_NAME_OP : String := "_gs_op"

/-- The errors of the check, with the column they name. -/
inductive SchemaError where
  | typeMismatch (column : String)
  | notFound (column : String)
  deriving DecidableEq

/-- Every unbounded field finds a bounded one that backs it. -/
def validateFields (bounded : List ArrowField) :
    List ArrowField → Except SchemaError Unit
  | [] => .ok ()
  | u :: us =>
      match bounded.find? fun b => b.name = u.name with
      | some b =>
          if isCompatibleColumn b u then validateFields bounded us
          else .error (.typeMismatch u.name)
      | none => .error (.notFound u.name)

/-- The check of the schema that all bounded sources have. -/
def validateSchemas (bounded unbounded : List ArrowField) :
    Except SchemaError Unit :=
  validateFields (bounded.filter fun f => f.name ≠ COLUMN_NAME_OP)
    (unbounded.filter fun f => f.name ≠ COLUMN_NAME_OP)

/-! ## Columns -/

/-- A value of a leaf column. -/
inductive Cell where
  | bytes (value : List UInt8)
  | word (value : Word256)
  | integer (value : ℤ)
  | text (value : String)
  | other (code : ℕ)
  deriving DecidableEq

/-- The columns that ClickHouse delivers. -/
abbrev Column := Arrow.Column Cell

/-- The errors of the conversion, with what their texts mention. -/
inductive ConvertError where
  | native (error : NativeIntError)
  | decimal (error : DecimalArbError)
  | unparsable (column text : String)
  | doesNotFit (column text : String) (precision scale : ℕ)
      (error : DecimalArbError)
  | unexpectedArray (column : String)
  | missingStructField (field column : String)
  | invalidLengths
  | nullsInNonNullable (field : String)

def listTryNew (child : ArrowField) (offsets : List ℕ) (validity : List Bool)
    (values : Column) : Except ConvertError Column :=
  if ListValid child offsets validity values then
    .ok (.list offsets validity values)
  else if child.nullable then .error .invalidLengths
  else .error (.nullsInNonNullable child.name)

def structTryNew (children : List (Column × ArrowField))
    (validity : List Bool) : Except ConvertError Column :=
  match children.find? fun child => ¬ChildValid validity child with
  | none => .ok (.struct validity (children.map Prod.fst))
  | some child => .error (.nullsInNonNullable child.2.name)

/-! ## The normalizer -/

section Normalizer

-- `BigDecimal::from_str`
variable (parse : String → Option BigDecimal)

/-- Read the cells of an array of the expected type. -/
def downcast {α : Type} (get : Cell → Option α) (column : String)
    (cells : List (Option Cell)) :
    Except ConvertError (List (Option α)) :=
  cells.mapM fun cell =>
    match cell with
    | none => .ok none
    | some c =>
        match get c with
        | some a => .ok (some a)
        | none => .error (.unexpectedArray column)

def Cell.word? : Cell → Option Word256
  | .word value => some value
  | _ => none

def Cell.integer? : Cell → Option ℤ
  | .integer value => some value
  | _ => none

def Cell.text? : Cell → Option String
  | .text value => some value
  | _ => none

/-- A `Decimal128` or `Decimal256` value at its scale, validated and
encoded. -/
def decimalCell (field : DecimalArbField) (sourceScale : ℤ) (digits : ℤ) :
    Except ConvertError (List UInt8) :=
  (NativeInt.appendValue field
    (.fromBigintAndScale digits sourceScale)).mapError .decimal

/-- Decimal text, parsed, validated and encoded. -/
def textCell (field : DecimalArbField) (text : String) :
    Except ConvertError (List UInt8) :=
  match parse text with
  | none => .error (.unparsable field.name text)
  | some value =>
      (NativeInt.appendValue field (.fromBigdecimal value)).mapError
        (.doesNotFit field.name text field.precision field.scale)

/-- Convert the values of a column; nulls stay. -/
def convertCells {α : Type} (convert : α → Except ConvertError (List UInt8))
    (cells : List (Option α)) :
    Except ConvertError (List (Option Cell)) :=
  cells.mapM fun cell =>
    match cell with
    | none => .ok none
    | some a => (convert a).map fun bytes => some (.bytes bytes)

def clickhouseNativeToDecimalArb (cells : List (Option Cell))
    (field : DecimalArbField) : Except ConvertError (List (Option Cell)) := do
  let words ← downcast Cell.word? field.name cells
  let bytes ←
    (NativeInt.clickhouseNativeToDecimalArb words field).mapError .native
  return bytes.map (Option.map .bytes)

def clickhouseDecimalToDecimalArb (cells : List (Option Cell))
    (sourceScale : ℤ) (field : DecimalArbField) :
    Except ConvertError (List (Option Cell)) := do
  let integers ← downcast Cell.integer? field.name cells
  convertCells (decimalCell field sourceScale) integers

def clickhouseStringToDecimalArb (cells : List (Option Cell))
    (field : DecimalArbField) : Except ConvertError (List (Option Cell)) := do
  let texts ← downcast Cell.text? field.name cells
  convertCells (textCell parse field) texts

/-- Flip every value between little-endian and big-endian. -/
def reverseFixedSizeBinary32 (cells : List (Option Cell))
    (target : ArrowField) : Except ConvertError (List (Option Cell)) := do
  let words ← downcast Cell.word? target.name cells
  return words.map (Option.map fun word => .word (NativeInt.reversed word))

/-- The conversion of a `decimal_arb` leaf, if its column has one of the
ClickHouse encodings. -/
def decimalArbLeaf (cells : List (Option Cell)) (type : LeafType)
    (field : DecimalArbField) :
    Option (Except ConvertError (List (Option Cell))) :=
  match type with
  | .fixedSizeBinary 32 =>
      if field.nativeIntKind.isSome then
        some (clickhouseNativeToDecimalArb cells field)
      else none
  | .decimal128 _ scale | .decimal256 _ scale =>
      some (clickhouseDecimalToDecimalArb cells scale field)
  | .utf8 | .largeUtf8 => some (clickhouseStringToDecimalArb parse cells field)
  | _ => none

/-- The leaves: a `decimal_arb` target, or a retired wide integer whose source
is not one. -/
def leafToTarget (column : Column) (source target : ArrowField) :
    Except ConvertError (Option (Column × ArrowField)) :=
  match source.dataType, column with
  | .leaf type, .leaf cells =>
      match target.decimalArb with
      | some field =>
          match decimalArbLeaf parse cells type field with
          | some converted =>
              converted.map fun cells => some (.leaf cells, target)
          | none => .ok none
      | none =>
          if type = .fixedSizeBinary 32 ∧ target.legacyWideIntKind.isSome ∧
              source.legacyWideIntKind.isNone then
            (reverseFixedSizeBinary32 cells target).map fun cells =>
              some (.leaf cells, target)
          else .ok none
  | _, _ => .ok none

mutual

/-- Rebuild a column for its target, `none` if nothing needs converting or
reordering. -/
def clickhouseColumnToTarget (column : Column) (source : ArrowField) :
    ArrowField → Except ConvertError (Option (Column × ArrowField))
  | .mk name nullable metadata (.leaf type) =>
      leafToTarget parse column source
        (.mk name nullable metadata (.leaf type))
  | .mk name nullable metadata (.list t) =>
      match source.dataType, column with
      | .list s, .list offsets validity values => do
          match ← clickhouseColumnToTarget values s t with
          | none => return none
          | some (values, child) =>
              let rebuilt ← listTryNew child offsets validity values
              return some (rebuilt, .mk name nullable metadata (.list child))
      | _, _ => .ok none
  | .mk name nullable metadata (.largeList t) =>
      match source.dataType, column with
      | .largeList s, .list offsets validity values => do
          match ← clickhouseColumnToTarget values s t with
          | none => return none
          | some (values, child) =>
              let rebuilt ← listTryNew child offsets validity values
              return some
                (rebuilt, .mk name nullable metadata (.largeList child))
      | _, _ => .ok none
  | .mk name nullable metadata (.struct ts) =>
      match source.dataType, column with
      | .struct ss, .struct validity columns => do
          let (changed, children) ← structFields name columns ss 0 ts
          if changed then
            let rebuilt ← structTryNew children validity
            return some (rebuilt,
              .mk name nullable metadata (.struct (children.map Prod.snd)))
          else return none
      | _, _ => .ok none
  | .mk _ _ _ (.fixedSizeList _ _) => .ok none
  | .mk _ _ _ (.map _ _) => .ok none

/-- The fields of a struct in the order of the target, and whether one of them
was converted or moved. -/
def structFields (column : String) (columns : List Column)
    (source : List ArrowField) :
    ℕ → List ArrowField →
      Except ConvertError (Bool × List (Column × ArrowField))
  | _, [] => .ok (false, [])
  | i, t :: ts =>
      match findField t.name source with
      | none => .error (.missingStructField t.name column)
      | some (j, s) =>
          match columns[j]? with
          | none => .error (.unexpectedArray s.name)
          | some col => do
              let converted ← clickhouseColumnToTarget col s t
              let (changed, children) ←
                structFields column columns source (i + 1) ts
              match converted with
              | some child => return (true, child :: children)
              | none =>
                  return (decide (i ≠ j) || changed, (col, s) :: children)

end

/-- The last target field of a name. -/
def targetByName (targets : List ArrowField) (name : String) :
    Option ArrowField :=
  targets.reverse.find? fun target => target.name = name

/-- A column without a target is left alone. -/
def convertColumn (targets : List ArrowField) (c : Column × ArrowField) :
    Except ConvertError (Option (Column × ArrowField)) :=
  match targetByName targets c.2.name with
  | some target => clickhouseColumnToTarget parse c.1 c.2 target
  | none => .ok none

/-- The columns of a batch with the rebuilt ones in place, and whether there
is one. -/
def normalizeColumns (targets : List ArrowField) :
    List (Column × ArrowField) →
      Except ConvertError (Bool × List (Column × ArrowField))
  | [] => .ok (false, [])
  | c :: batch => do
      let converted ← convertColumn parse targets c
      let (changed, columns) ← normalizeColumns targets batch
      match converted with
      | some child => return (true, child :: columns)
      | none => return (changed, c :: columns)

/-- `RecordBatch::try_new`: only nullable columns have nulls, and all columns
have as many rows as the first. -/
def recordBatchTryNew (columns : List (Column × ArrowField)) :
    Except ConvertError (List (Column × ArrowField)) :=
  match columns.find? fun c => !c.2.nullable && c.1.validity.contains false with
  | some c => .error (.nullsInNonNullable c.2.name)
  | none =>
      let rows := columns.head?.map fun c => c.1.validity.length
      if columns.all fun c => some c.1.validity.length = rows then .ok columns
      else .error .invalidLengths

/-- The batch with the encodings of the target schema. -/
def normalizeBatchFromClickhouse (batch : List (Column × ArrowField))
    (targets : List ArrowField) :
    Except ConvertError (List (Column × ArrowField)) := do
  let (changed, columns) ← normalizeColumns parse targets batch
  if changed then recordBatchTryNew columns else return batch

end Normalizer

end HybridSchema

end Streamling
