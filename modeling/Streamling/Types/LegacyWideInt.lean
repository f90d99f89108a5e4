import Mathlib
import Streamling.Types.ArrowConversion
import Streamling.Types.DecimalArbArray
import Streamling.Support.SignedWords

/-!
# The retired 256-bit integer types

Plugins still produce `streamling.u256` and `streamling.i256`: 32 big-endian
bytes, two's complement for the signed type.  Below every list, struct and map
such a leaf is upgraded to a decimal without a fraction, with its kind as the
hint, and a decimal is downgraded to the kind that a target field names.
-/

namespace BigDecimal

/-- The same number at another scale, cut off at a coarser one. -/
def withScale (d : BigDecimal) (scale : ℤ) : BigDecimal :=
  if d.scale ≤ scale then
    ⟨d.digits * 10 ^ (scale - d.scale).toNat, scale⟩
  else ⟨d.digits.tdiv (10 ^ (d.scale - scale).toNat), scale⟩

end BigDecimal

namespace Streamling

namespace ArrowTree

open DecimalArbValue

def isLegacyWideInt : WideType → Bool
  | .legacyWideInt _ => true
  | .decimalArb _ _ => false

def fieldContainsLegacyWideInt (field : ArrowField) : Bool :=
  field.contains isLegacyWideInt

def typeContainsLegacyWideInt (type : DataType) : Bool :=
  type.contains isLegacyWideInt

/-! ## Leaves -/

def legacyWideIntPrecision : ℕ := 78

def legacyWideIntParams : Arrow.DecimalArbParams :=
  ⟨legacyWideIntPrecision, 0, rfl⟩

/-- What the producer attached besides extension types and the hint. -/
def unrelatedMetadata (metadata : FieldMetadata) : FieldMetadata :=
  metadata.filter fun entry =>
    !entry.1.startsWith "ARROW:extension:" &&
      entry.1 != "streamling.native_int_kind"

/-- The decimal field that a legacy field becomes, hinted with its kind. -/
def legacyWideIntAsDecimalArbField (name : String) (nullable : Bool)
    (metadata : FieldMetadata) (kind : NativeIntKind) : ArrowField :=
  .wide name nullable (unrelatedMetadata metadata)
    (.decimalArb legacyWideIntParams (some kind))

/-- The integer of a big-endian word. -/
def wideInt (kind : NativeIntKind) (be : List UInt8) : ℤ :=
  match kind with
  | .u256 => BigEndian.ofBytes be
  | .i256 => BigEndian.ofSignedBytes be

def wideIntCell (kind : NativeIntKind) :
    Option Cell → Except TreeError (Option DecimalArbValue)
  | none => .ok none
  | some (.bytes be) => .ok (some (fromBigintAndScale (wideInt kind be) 0))
  | some _ => .error (.expected "FixedSizeBinary(32)" "")

def legacyWideIntToDecimalArb (name : String) (kind : NativeIntKind) :
    Column → Except TreeError Column
  | .leaf (.fixedSizeBinary _) cells => do
      let raw ← buildRows .leaf name legacyWideIntPrecision 0
        (wideIntCell kind) cells
      return .leaf .largeBinary (raw.inner.map (Option.map Cell.bytes))
  | _ => .error (.expected "FixedSizeBinary(32)" name)

/-- The big-endian word of an integer, if it has one. -/
def wideIntBytes (kind : NativeIntKind) (int : ℤ) : Option (List UInt8) :=
  match kind with
  | .u256 =>
      let (sign, magnitude) := bigIntToBytesBe int
      if sign = .minus ∨ 32 < magnitude.length then none
      else some (List.replicate (32 - magnitude.length) 0 ++ magnitude)
  | .i256 =>
      let signed := BigEndian.shortestSigned int
      if 32 < signed.length then none
      else
        some (List.replicate (32 - signed.length)
          (BigEndian.fillByte (int < 0)) ++ signed)

/-- The word of a stored decimal. -/
def legacyCell (name : String) (scale : ℕ) (kind : NativeIntKind) (row : ℕ) :
    Option Cell → Except TreeError (Option Cell)
  | none => .ok none
  | some (.bytes bytes) => do
      let value ← (fromCanonicalBytesAtScale bytes scale).mapError .leaf
      if value.fractionalDigitCount ≠ 0 then
        throw (.value "has a fractional part" name row)
      match wideIntBytes kind (value.bd.withScale 0).digits with
      | some be => return some (.bytes be)
      | none => throw (.value "is out of range" name row)
  | some _ => .error (.expected "LargeBinary" name)

def legacyCells (name : String) (scale : ℕ) (kind : NativeIntKind) :
    ℕ → List (Option Cell) → Except TreeError (List (Option Cell))
  | _, [] => .ok []
  | row, cell :: cells => do
      let word ← legacyCell name scale kind row cell
      let words ← legacyCells name scale kind (row + 1) cells
      return word :: words

/-- The scale that a field declares, or zero. -/
def declaredScale : ArrowField → ℕ
  | .wide _ _ _ (.decimalArb params _) => params.scale
  | .wide _ _ _ (.legacyWideInt _) | .plain _ _ _ _ => 0

def decimalArbToLegacyWideInt (field : ArrowField) (kind : NativeIntKind) :
    Column → Except TreeError Column
  | .leaf .largeBinary cells => do
      let words ← legacyCells field.name (declaredScale field) kind 0 cells
      return .leaf (.fixedSizeBinary 32) words
  | _ => .error (.expected "LargeBinary" field.name)

/-! ## Upgrading -/

mutual

/-- The field once every legacy leaf below it is upgraded; none if there is
no such leaf. -/
def upgradeLegacyWideIntField :
    ArrowField → Except TreeError (Option ArrowField)
  | .wide name nullable metadata (.legacyWideInt kind) =>
      .ok (some (legacyWideIntAsDecimalArbField name nullable metadata kind))
  | .wide _ _ _ (.decimalArb _ _) => .ok none
  | .plain name nullable metadata type =>
      if typeContainsLegacyWideInt type then do
        let type ← upgradeType name type
        return some (.plain name nullable metadata type)
      else .ok none

def upgradeType (name : String) : DataType → Except TreeError DataType
  | .struct fields => do
      let fields ← upgradeFields fields
      return .struct fields
  | .list layout child =>
      if layout.plain then do
        let upgraded ← upgradeLegacyWideIntField child
        return .list layout (upgraded.getD child)
      else .error (.refused "decimal_arb upgrade" name)
  | .map entries fields sorted => do
      let fields ← upgradeFields fields
      return .map entries fields sorted
  | .leaf _ | .dictionary _ _ | .runEndEncoded _ _ | .union _ _ =>
      .error (.refused "decimal_arb upgrade" name)

def upgradeFields : List ArrowField → Except TreeError (List ArrowField)
  | [] => .ok []
  | field :: fields => do
      let upgraded ← upgradeLegacyWideIntField field
      let fields ← upgradeFields fields
      return upgraded.getD field :: fields

end

mutual

/-- Every legacy leaf of an array as a decimal, with the field it then has;
none if there is no such leaf. -/
def upgradeLegacyWideInts :
    ArrowField → Column → Except TreeError (Option (ArrowField × Column))
  | .wide name nullable metadata (.legacyWideInt kind), a => do
      let a ← legacyWideIntToDecimalArb name kind a
      return some (legacyWideIntAsDecimalArbField name nullable metadata kind,
        a)
  | .wide _ _ _ (.decimalArb _ _), _ => .ok none
  | .plain name nullable metadata type, a =>
      if typeContainsLegacyWideInt type then do
        let (type, a) ← upgradeContainer name type a
        return some (.plain name nullable metadata type, a)
      else .ok none

def upgradeContainer (name : String) :
    DataType → Column → Except TreeError (DataType × Column)
  | .struct fields, a => do
      let (fields, a) ← rebuildStruct name (upgradeChildren fields) a
      return (.struct fields, a)
  | .list layout child, a =>
      if layout.plain then do
        let (child, a) ← rebuildList name layout (fun values => do
          let upgraded ← upgradeLegacyWideInts child values
          return upgraded.getD (child, values)) a
        return (.list layout child, a)
      else .error (.refused "decimal_arb upgrade" name)
  | .map entries fields sorted, a => do
      let (fields, a) ← rebuildMap name entries sorted
        (upgradeChildren fields) a
      return (.map entries fields sorted, a)
  | .leaf _, _ | .dictionary _ _, _ | .runEndEncoded _ _, _ | .union _ _, _ =>
      .error (.refused "decimal_arb upgrade" name)

def upgradeChildren : List ArrowField → List Column →
    Except TreeError (List ArrowField × List Column)
  | field :: fields, column :: columns => do
      let upgraded ← upgradeLegacyWideInts field column
      let (fields, rest) ← upgradeChildren fields columns
      let first := upgraded.getD (field, column)
      return (first.1 :: fields, first.2 :: rest)
  | _, _ => .ok ([], [])

end

/-! ## Downgrading -/

/-- The children of a struct, which has as many columns as the target. -/
def matchingChildren (name : String) (fields : List ArrowField)
    (convert : List Column → Except TreeError (List Column))
    (columns : List Column) :
    Except TreeError (List ArrowField × List Column) := do
  if columns.length ≠ fields.length then
    throw (.expected "StructArray with matching children" name)
  let columns ← convert columns
  return (fields, columns)

mutual

/-- An array of the upgraded shape as the target has it; none if the target
has no legacy leaf. -/
def downgradeLegacyWideInts :
    ArrowField → Column → Except TreeError (Option Column)
  | .wide name nullable metadata (.legacyWideInt kind), a => do
      let a ← decimalArbToLegacyWideInt
        (legacyWideIntAsDecimalArbField name nullable metadata kind) kind a
      return some a
  | .wide _ _ _ (.decimalArb _ _), _ => .ok none
  | .plain name _ _ type, a =>
      if typeContainsLegacyWideInt type then do
        let a ← downgradeContainer name type a
        return some a
      else .ok none

def downgradeContainer (name : String) :
    DataType → Column → Except TreeError Column
  | .struct fields, a => do
      let (_, a) ← rebuildStruct name
        (matchingChildren name fields (downgradeColumns fields)) a
      return a
  | .list layout child, a =>
      if layout.plain then do
        let (_, a) ← rebuildList name layout (fun values => do
          let downgraded ← downgradeLegacyWideInts child values
          return (child, downgraded.getD values)) a
        return a
      else .error (.refused "legacy re-encoding" name)
  | .map entries fields sorted, a => do
      let (_, a) ← rebuildMap name entries sorted
        (matchingChildren entries.name fields (downgradeColumns fields)) a
      return a
  | .leaf _, _ | .dictionary _ _, _ | .runEndEncoded _ _, _ | .union _ _, _ =>
      .error (.refused "legacy re-encoding" name)

def downgradeColumns : List ArrowField → List Column →
    Except TreeError (List Column)
  | field :: fields, column :: columns => do
      let downgraded ← downgradeLegacyWideInts field column
      let rest ← downgradeColumns fields columns
      return downgraded.getD column :: rest
  | _, _ => .ok []

end

end ArrowTree

end Streamling
