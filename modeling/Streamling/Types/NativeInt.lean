import Streamling.Support.ByteWords
import Streamling.Types.DecimalArb

/-!
# 256-bit integers of ClickHouse

A `decimal_arb` column whose field carries the `native_int_kind` hint is
stored as a ClickHouse `UInt256` or `Int256` column: 32 bytes a value, the
least significant one first, two's complement for the signed type.  The sink
converts canonical bytes to these words and the source converts them back;
both work on the bytes alone.
-/

namespace Streamling

inductive NativeIntKind where
  | u256
  | i256
  deriving DecidableEq, Repr

/-- The Arrow field of a `decimal_arb` column, with its hint. -/
structure DecimalArbField where
  name : String
  precision : ℕ
  scale : ℕ
  valid : validatePrecisionScale precision scale = .ok ()
  nativeIntKind : Option NativeIntKind

/-- The errors of the two conversions, with what their texts mention. -/
inductive NativeIntError where
  | missingKindToWrite (column : String)
  | missingKindToRead (column : String)
  | emptyBytes (column : String) (row : ℕ)
  | magnitudeTooLong (column : String) (row length : ℕ)
      (kind : NativeIntKind)
  | negativeUnsigned (column : String) (row : ℕ)
  | belowSignedRange (column : String) (row : ℕ)
  | aboveSignedRange (column : String) (row : ℕ)
  | invalidSignByte (column : String) (row : ℕ) (byte : UInt8)
  | invalidField (error : DecimalArbError)
  | invalidValue (column : String) (row : ℕ) (error : DecimalArbError)
  deriving DecidableEq, Repr

/-- A word of 32 bytes. -/
abbrev Word256 := { bytes : List UInt8 // bytes.length = 32 }

namespace NativeInt

/-! ## Writing -/

/-- Pad a magnitude of at most 32 bytes with zeros on the left. -/
def padded (magnitude : List UInt8) (h : magnitude.length ≤ 32) : Word256 :=
  ⟨List.replicate (32 - magnitude.length) 0 ++ magnitude, by
    rw [List.length_append, List.length_replicate]
    omega⟩

def negated (word : Word256) : Word256 :=
  ⟨BigEndian.negate word.1, (BigEndian.length_negate _).trans word.2⟩

def reversed (word : Word256) : Word256 :=
  ⟨word.1.reverse, (List.length_reverse ..).trans word.2⟩

/-- The little-endian word of one canonical value. -/
def canonicalToClickhouseLe (canonical : List UInt8) (kind : NativeIntKind)
    (column : String) (row : ℕ) : Except NativeIntError Word256 :=
  match canonical with
  | [] => .error (.emptyBytes column row)
  | signByte :: magnitude =>
      if hlength : magnitude.length ≤ 32 then
        let word := padded magnitude hlength
        if signByte = 0xFF then
          match kind with
          | .u256 => .error (.negativeUnsigned column row)
          | .i256 =>
              let word := negated word
              -- without its sign bit the word would be read as positive
              if BigEndian.signBit word.1 = false then
                .error (.belowSignedRange column row)
              else .ok (reversed word)
        else if signByte ≠ 0x00 then
          .error (.invalidSignByte column row signByte)
        else if kind = .i256 ∧ BigEndian.signBit word.1 = true then
          .error (.aboveSignedRange column row)
        else .ok (reversed word)
      else
        .error (.magnitudeTooLong column row magnitude.length kind)

/-- Convert a column row by row, with the index of each row; the first error
stops the conversion and nulls stay nulls. -/
def convertRows {α β : Type*}
    (convert : ℕ → α → Except NativeIntError β) :
    ℕ → List (Option α) → Except NativeIntError (List (Option β))
  | _, [] => .ok []
  | row, none :: rows => do
      let rest ← convertRows convert (row + 1) rows
      return none :: rest
  | row, some cell :: rows => do
      let converted ← convert row cell
      let rest ← convertRows convert (row + 1) rows
      return some converted :: rest

def decimalArbToClickhouseNative (column : List (Option (List UInt8)))
    (field : DecimalArbField) :
    Except NativeIntError (List (Option Word256)) :=
  match field.nativeIntKind with
  | none => .error (.missingKindToWrite field.name)
  | some kind =>
      convertRows
        (fun row canonical =>
          canonicalToClickhouseLe canonical kind field.name row)
        0 column

/-! ## Reading -/

/-- The canonical bytes of a big-endian word. -/
def clickhouseBeToCanonical (word : Word256) (kind : NativeIntKind) :
    List UInt8 :=
  let negative := decide (kind = .i256) && BigEndian.signBit word.1
  let magnitude := if negative then (negated word).1 else word.1
  let stripped := magnitude.dropWhile (· == 0)
  let signByte : UInt8 :=
    if negative && !stripped.isEmpty then 0xFF else 0x00
  signByte :: stripped

/-- Validate a value against the declared precision and scale and encode
it. -/
def appendValue (field : DecimalArbField) (value : DecimalArbValue) :
    Except DecimalArbError (List UInt8) := do
  value.checkFits field.precision field.scale field.name
  return value.toCanonicalBytesAtScale field.scale

/-- The canonical bytes of one little-endian word, checked against the
field. -/
def readCell (field : DecimalArbField) (kind : NativeIntKind) (row : ℕ)
    (word : Word256) : Except NativeIntError (List UInt8) :=
  let canonical := clickhouseBeToCanonical (reversed word) kind
  Except.mapError (.invalidValue field.name row) do
    let value ←
      DecimalArbValue.fromCanonicalBytesAtScale canonical field.scale
    appendValue field value

def clickhouseNativeToDecimalArb (column : List (Option Word256))
    (field : DecimalArbField) :
    Except NativeIntError (List (Option (List UInt8))) :=
  match field.nativeIntKind with
  | none => .error (.missingKindToRead field.name)
  | some kind => do
      (validatePrecisionScale field.precision field.scale).mapError
        .invalidField
      convertRows (readCell field kind) 0 column

end NativeInt

end Streamling
