import Streamling.Formats.ConfluentDecoder

/-!
# The numbers of decoded decimals

What arrow-avro is taken to do with a value, and what the output should hold:
at every decimal leaf the writer's number, read at the scale that the output
field declares and within its precision.  Both are stated for one row of a
column; the elements of a list are the rows of its values from an offset on.
-/

namespace Streamling

namespace Avro

open Arrow

/-! ## What arrow-avro delivers -/

/-- The bytes of a value arrive as they are, and as the integer they denote
where a decimal is expected. -/
def DecodedBytes (v : AvroValue) (type : DataType) (column : Column)
    (i : ℕ) : Prop :=
  match v, type with
  | .bytes value, .leaf .binary
  | .bytes value, .leaf .largeBinary
  | .bytes value, .leaf (.fixedSizeBinary _) =>
      ∃ cells, column = .leaf cells ∧ cells[i]? = some (some (.bytes value))
  | .bytes value, .leaf (.decimal128 _ _)
  | .bytes value, .leaf (.decimal256 _ _) =>
      ∃ cells, column = .leaf cells ∧
        cells[i]? =
          some (some (.integer (BigEndian.ofSignedBytes value)))
  | _, _ => True

/-- A decimal arrives as its bytes or with its number. -/
def DecodedDecimal (scale : ℕ) (v : AvroValue) (type : DataType)
    (column : Column) (i : ℕ) : Prop :=
  match v, type with
  | .bytes value, .leaf .binary
  | .bytes value, .leaf .largeBinary
  | .bytes value, .leaf (.fixedSizeBinary _) =>
      ∃ cells, column = .leaf cells ∧ cells[i]? = some (some (.bytes value))
  | .bytes value, .leaf (.decimal128 _ s)
  | .bytes value, .leaf (.decimal256 _ s) =>
      ∃ cells n, column = .leaf cells ∧ cells[i]? = some (some (.integer n)) ∧
        BigDecimal.value ⟨n, s⟩ =
          BigDecimal.value ⟨BigEndian.ofSignedBytes value, scale⟩
  | _, _ => True

/-- A null arrives as a null. -/
def DecodedNull (type : DataType) (column : Column) (i : ℕ) : Prop :=
  match type with
  | .leaf _ => ∃ cells, column = .leaf cells ∧ cells[i]? = some none
  | _ => column.validity[i]? = some false

/-- The element type of a list. -/
def listElement? : DataType → Option DataType
  | .list child | .largeList child => some child.dataType
  | _ => none

section Reading

-- the writer's name for a field of the record at a path
variable (origin : List String → String → String)

mutual

/-- The row of the column holds the value, written with the schema. -/
def Decoded (path : List String) (v : AvroValue) (type : DataType)
    (column : Column) (i : ℕ) : AvroSchema → Prop
  | .primitive _ => True
  | .map _ => True
  | .bytes => DecodedBytes v type column i
  | .fixed _ => DecodedBytes v type column i
  | .decimal _ scale _ => DecodedDecimal scale v type column i
  | .nullable inner =>
      match v with
      | .null => DecodedNull type column i
      | v => Decoded path v type column i inner
  | .array items =>
      match v, listElement? type, column with
      | .array vs, some element, .list offsets _ values =>
          ∃ start, offsets[i]? = some start ∧
            offsets[i + 1]? = some (start + vs.length) ∧
            ∀ (k : ℕ) x, vs[k]? = some x →
              Decoded path x element values (start + k) items
      | _, _, _ => True
  | .record fields =>
      match v, type, column with
      | .record vs, .struct sources, .struct _ columns =>
          DecodedAll path vs sources columns i fields
      | _, _, _ => True

/-- The columns of a record hold its values, by the writer's names. -/
def DecodedAll (path : List String) (vs : List AvroValue)
    (sources : List ArrowField) (columns : List Column) (i : ℕ) :
    List AvroField → Prop
  | [] => True
  | .mk name schema :: fields =>
      match vs with
      | [] => True
      | v :: vs =>
          (∀ (k : ℕ) source column, sources[k]? = some source →
            columns[k]? = some column → origin path source.name = name →
            Decoded (source.name :: path) v source.dataType column i
              schema) ∧
            DecodedAll path vs sources columns i fields

end

end Reading

mutual

/-- The Arrow type in which arrow-avro delivers a schema. -/
def HasArrowType (type : DataType) : AvroSchema → Prop
  | .primitive _ => True
  | .bytes => type = .leaf .binary
  | .fixed size => type = .leaf (.fixedSizeBinary size)
  | .decimal precision scale _ =>
      if precision ≤ 38 then type = .leaf (.decimal128 precision scale)
      else if precision ≤ 76 then type = .leaf (.decimal256 precision scale)
      else True
  | .array items =>
      ∃ child : ArrowField, (type = .list child ∨ type = .largeList child) ∧
        HasArrowType child.dataType items
  | .map _ => ∃ entries sorted, type = .map entries sorted
  | .nullable inner => HasArrowType type inner
  | .record fields =>
      ∃ sources, type = .struct sources ∧ HasArrowTypes sources fields

def HasArrowTypes (sources : List ArrowField) : List AvroField → Prop
  | [] => sources = []
  | .mk name schema :: fields =>
      ∃ source rest, sources = source :: rest ∧ source.name = name ∧
        HasArrowType source.dataType schema ∧ HasArrowTypes rest fields

end

/-- arrow-avro decodes what it supports correctly.  A batch has the types of
the schema it is decoded against, the reader's if there is one, and its rows
hold the values of the messages; with a reader the fields are found by its
names. -/
structure ArrowAvro.Correct (avro : ArrowAvro)
    (origin : List String → String → String) : Prop where
  types : ∀ writer reader rows batch,
    avro.flush writer reader rows = .ok batch →
    HasArrowTypes batch.fields (reader.getD writer)
  values : ∀ writer reader rows batch,
    avro.flush writer reader rows = .ok batch →
    ∀ (r : ℕ) row, rows[r]? = some row →
      DecodedAll
        (match reader with
          | none => fun _ name => name
          | some _ => origin)
        [] row batch.fields batch.columns r writer

/-- What is used of Arrow's cast: a 128-bit decimal keeps its number at the
scale of a 256-bit one that can hold it, nulls stay, and a map is not cast to
a dictionary with text keys. -/
structure CastCorrect
    (cast : DataType → Column → DataType → Except AvroError Column) :
    Prop where
  decimal : ∀ p s p' s' cells out,
    cast (.leaf (.decimal128 p s)) (.leaf cells) (.leaf (.decimal256 p' s')) =
      .ok out →
    ∃ converted, out = .leaf converted ∧
      ∀ i : ℕ, (cells[i]? = some none → converted[i]? = some none) ∧
        ∀ n m : ℤ, cells[i]? = some (some (.integer n)) →
          BigDecimal.value ⟨m, s'⟩ = BigDecimal.value ⟨n, s⟩ →
          |m| < 10 ^ p' → converted[i]? = some (some (.integer m))
  dictionary : ∀ entries sorted column out,
    cast (.map entries sorted) column (.leaf (.other "Dictionary(Utf8)")) ≠
      .ok out

/-! ## What the output should hold -/

/-- The precision and scale of a decimal field. -/
def decimalType (t : ArrowField) : Option (ℕ × ℤ) :=
  match t.dataType with
  | .leaf (.decimal128 p s) | .leaf (.decimal256 p s) => some (p, s)
  | _ => t.decimalArb.map fun field => (field.precision, field.scale)

/-- The unscaled integer of a decimal cell. -/
def Cell.unscaled : Cell → Option ℤ
  | .integer n => some n
  | .bytes value => (DecimalArbValue.decodeDigits value).toOption
  | _ => none

/-- The row of a decimal column holds the number within its precision. -/
def KeptNumber (number : BigDecimal) (t : ArrowField) (out : Column)
    (i : ℕ) : Prop :=
  match decimalType t with
  | none => True
  | some (p, s) =>
      ∃ cells cell m, out = .leaf cells ∧ cells[i]? = some (some cell) ∧
        cell.unscaled = some m ∧
        BigDecimal.value ⟨m, s⟩ = number.value ∧ |m| < 10 ^ p

/-- A decimal that is null stays null. -/
def KeptNull (inner : AvroSchema) (t : ArrowField) (out : Column) (i : ℕ) :
    Prop :=
  match findDecimalSchema inner, decimalType t with
  | some _, some _ => ∃ cells, out = .leaf cells ∧ cells[i]? = some none
  | _, _ => True

section Kept

variable (origin : List String → String → String)

mutual

/-- Every decimal leaf of the row keeps the number of the value, written with
the schema.  Decimals in a map are not readable in a dictionary. -/
def Kept (path : List String) (v : AvroValue) (t : ArrowField)
    (out : Column) (i : ℕ) : AvroSchema → Prop
  | .primitive _ => True
  | .bytes => True
  | .fixed _ => True
  | .map _ => t.dataType ≠ .leaf (.other "Dictionary(Utf8)")
  | .decimal _ scale _ =>
      match v with
      | .bytes value =>
          KeptNumber ⟨BigEndian.ofSignedBytes value, scale⟩ t out i
      | _ => True
  | .nullable inner =>
      match v with
      | .null => KeptNull inner t out i
      | v => Kept path v t out i inner
  | .array items =>
      match v, t.dataType with
      | .array vs, .list child =>
          ∃ offsets validity values, out = .list offsets validity values ∧
            ∃ start, offsets[i]? = some start ∧
              ∀ (k : ℕ) x, vs[k]? = some x →
                Kept path x child values (start + k) items
      | _, _ => True
  | .record fields =>
      match v, t.dataType with
      | .record vs, .struct ts =>
          ∃ validity outs, out = .struct validity outs ∧
            KeptAll path vs ts outs i fields
      | _, _ => True

def KeptAll (path : List String) (vs : List AvroValue)
    (ts : List ArrowField) (outs : List Column) (i : ℕ) :
    List AvroField → Prop
  | [] => True
  | .mk name schema :: fields =>
      match vs with
      | [] => True
      | v :: vs =>
          (∀ (k : ℕ) t out, ts[k]? = some t → outs[k]? = some out →
            origin path t.name = name →
            Kept (t.name :: path) v t out i schema) ∧
            KeptAll path vs ts outs i fields

end

end Kept

/-! ## When it does -/

/-- A schema without the unions around it. -/
def AvroSchema.peel : AvroSchema → AvroSchema
  | .nullable inner => inner.peel
  | .primitive type => .primitive type
  | .bytes => .bytes
  | .fixed size => .fixed size
  | .decimal precision scale inner => .decimal precision scale inner
  | .array items => .array items
  | .map values => .map values
  | .record fields => .record fields

/-- A 128-bit decimal is cast to a 256-bit one. -/
def Rescales (seen : AvroSchema) (t : ArrowField) : Prop :=
  match seen.peel, t.dataType with
  | .decimal precision _ _, .leaf (.decimal256 _ _) => precision ≤ 38
  | _, _ => False

/-- A 256-bit decimal is cut to its low 128 bits. -/
def Narrows (seen : AvroSchema) (t : ArrowField) : Prop :=
  match seen.peel, t.dataType with
  | .decimal precision _ _, .leaf (.decimal128 _ _) =>
      38 < precision ∧ precision ≤ 76
  | _, _ => False

/-- The scale of the integer that arrow-avro delivers for a decimal of the
writer: its own where the bytes are delivered or the writer's decimal was
stripped, and that of the schema decoded against otherwise. -/
def deliveredScale (precision scale : ℕ) (seen : AvroSchema) : ℤ :=
  match seen.peel with
  | .decimal _ s _ => if 76 < precision then scale else s
  | _ => scale

/-- The number is one of the output field's numbers, and the integer is read
at the scale it was delivered at unless it is cast or zero. -/
def ReadAsDelivered (precision scale : ℕ) (u : ℤ) (seen : AvroSchema)
    (t : ArrowField) : Prop :=
  match decimalType t with
  | none => True
  | some (p, s) =>
      (∃ m : ℤ, BigDecimal.value ⟨m, s⟩ = BigDecimal.value ⟨u, scale⟩ ∧
        |m| < 10 ^ p ∧
        (Narrows seen t → -(2 ^ 127) ≤ m ∧ m < 2 ^ 127)) ∧
        (Rescales seen t ∨ u = 0 ∨ deliveredScale precision scale seen = s)

def findAvroField (name : String) (fields : List AvroField) :
    Option AvroField :=
  fields.find? fun field => field.name = name

section Condition

variable (origin : List String → String → String)

mutual

/-- The condition at every decimal leaf of a value, written with the schema,
decoded against the schema `seen` and coerced to the field. -/
def ReadAsWritten (path : List String) (v : AvroValue) (seen : AvroSchema)
    (t : ArrowField) : AvroSchema → Prop
  | .primitive _ => True
  | .bytes => True
  | .fixed _ => True
  | .map _ => True
  | .decimal precision scale _ =>
      match v with
      | .bytes value =>
          ReadAsDelivered precision scale (BigEndian.ofSignedBytes value) seen
            t
      | _ => True
  | .nullable inner =>
      match v with
      | .null => True
      | v => ReadAsWritten path v seen t inner
  | .array items =>
      match v, t.dataType, seen.peel with
      | .array vs, .list child, .array seenItems =>
          ∀ (k : ℕ) x, vs[k]? = some x →
            ReadAsWritten path x seenItems child items
      | _, _, _ => True
  | .record fields =>
      match v, t.dataType, seen.peel with
      | .record vs, .struct ts, .record seenFields =>
          ReadAllAsWritten path vs seenFields ts fields
      | _, _, _ => True

def ReadAllAsWritten (path : List String) (vs : List AvroValue)
    (seen : List AvroField) (ts : List ArrowField) : List AvroField → Prop
  | [] => True
  | .mk name schema :: fields =>
      match vs with
      | [] => True
      | v :: vs =>
          (∀ t ∈ ts, origin path t.name = name →
            ∀ seenField ∈ findAvroField t.name seen,
              ReadAsWritten (t.name :: path) v seenField.schema t schema) ∧
            ReadAllAsWritten path vs seen ts fields

end

end Condition

end Avro

end Streamling
