import Mathlib
import Streamling.Types.ArrowTree
import Streamling.Types.DecimalArbArray

/-!
# Decimals as text in nested columns

A `decimal_arb` value is bytes underneath, so a format that carries it as text
converts every leaf: to the canonical text of the decimal on the way out, and
back to canonical bytes at the precision and scale of the field on the way in.
Both directions walk the type tree.

The printer and the parser of decimals and the cast of Arrow are parameters.
-/

namespace Streamling

namespace ArrowTree

open DecimalArbValue

def isDecimalArb : WideType → Bool
  | .decimalArb _ _ => true
  | .legacyWideInt _ => false

def fieldContainsDecimalArb (field : ArrowField) : Bool :=
  field.contains isDecimalArb

def typeContainsDecimalArb (type : DataType) : Bool :=
  type.contains isDecimalArb

/-- The layout without a view or an encoding. -/
def plainLayout : DataType → Option DataType
  | .list .listView child => some (.list .list child)
  | .list .largeListView child => some (.list .largeList child)
  | .dictionary _ values => some ((plainLayout values).getD values)
  | .runEndEncoded _ (.plain _ _ _ values) =>
      some ((plainLayout values).getD values)
  | .runEndEncoded _ (.wide _ _ _ type) => some (.leaf type.storage)
  | .leaf _ | .list .list _ | .list .largeList _ | .list (.fixedSizeList _) _
  | .map _ _ _ | .struct _ | .union _ _ => none

section

variable (plainString : BigDecimal → String)
  (parse : String → Option BigDecimal)
  (cast : Column → DataType → Option Column)

/-! ## Leaves -/

def toCanonicalString (value : DecimalArbValue) : String :=
  plainString value.bd

/-- The canonical text of a stored value. -/
def leafText (scale : ℕ) : Option Cell → Except TreeError (Option Cell)
  | none => .ok none
  | some (.bytes bytes) => do
      let value ← (fromCanonicalBytesAtScale bytes scale).mapError .leaf
      return some (.text (toCanonicalString plainString value))
  | some _ => .error (.expected "LargeBinaryArray" "")

def decimalArbToStrings (name : String) (params : Arrow.DecimalArbParams) :
    Column → Except TreeError (List (Option Cell))
  | .leaf .largeBinary cells => cells.mapM (leafText plainString params.scale)
  | _ => .error (.expected "LargeBinaryArray" name)

/-- The cast of Arrow, which may not support a type. -/
def castTo (a : Column) (type : DataType) : Except TreeError Column :=
  match cast a type with
  | some out => .ok out
  | none => .error (.arrow "cast")

/-- The field of a leaf as text. -/
def textField (name : String) (nullable : Bool) : ArrowField :=
  .plain name nullable [] (.leaf .utf8)

/-- The value of a text. -/
def parsedCell : Option Cell → Except TreeError (Option DecimalArbValue)
  | none => .ok none
  | some (.text text) =>
      match parse text with
      | none => .error (.notADecimal text)
      | some bd => .ok (some (fromBigdecimal bd))
  | some _ => .error (.expected "StringArray" "")

def decimalArbFromStrings (name : String) (params : Arrow.DecimalArbParams) :
    Column → Except TreeError Column
  | .leaf .utf8 cells => do
      let raw ← buildRows .leaf name params.precision params.scale
        (parsedCell parse) cells
      return .leaf .largeBinary (raw.inner.map (Option.map Cell.bytes))
  | _ => .error (.expected "StringArray" name)

/-! ## To text -/

mutual

/-- Every leaf as text, with the field it then has. -/
def decimalArbLeavesToText :
    ArrowField → Column → Except TreeError (ArrowField × Column)
  | .wide name nullable _ (.decimalArb params _), a => do
      let strings ← decimalArbToStrings plainString name params a
      return (textField name nullable, .leaf .utf8 strings)
  | .wide name nullable metadata (.legacyWideInt kind), a =>
      .ok (.wide name nullable metadata (.legacyWideInt kind), a)
  | .plain name nullable metadata type, a =>
      if typeContainsDecimalArb type then
        match plainLayout type with
        | some plain => do
            let plainArray ← castTo cast a plain
            if typeContainsDecimalArb plain then
              containerToText name nullable metadata type plainArray
            else .ok (.plain name nullable metadata plain, plainArray)
        | none => containerToText name nullable metadata type a
      else .ok (.plain name nullable metadata type, a)

/-- A container without its view or encoding. -/
def containerToText (name : String) (nullable : Bool)
    (metadata : FieldMetadata) :
    DataType → Column → Except TreeError (ArrowField × Column)
  | .struct fields, a => do
      let (fields, out) ← rebuildStruct name (childrenToText fields) a
      return (.plain name nullable metadata (.struct fields), out)
  | .list .list child, a | .list .listView child, a => do
      let (child, out) ← rebuildList name .list
        (decimalArbLeavesToText child) a
      return (.plain name nullable metadata (.list .list child), out)
  | .list .largeList child, a | .list .largeListView child, a => do
      let (child, out) ← rebuildList name .largeList
        (decimalArbLeavesToText child) a
      return (.plain name nullable metadata (.list .largeList child), out)
  | .list (.fixedSizeList size) child, a => do
      let (child, out) ← rebuildList name (.fixedSizeList size)
        (decimalArbLeavesToText child) a
      return (.plain name nullable metadata
        (.list (.fixedSizeList size) child), out)
  | .map entries fields sorted, a => do
      let (fields, out) ← rebuildMap name entries sorted
        (childrenToText fields) a
      return (.plain name nullable metadata (.map entries fields sorted), out)
  | .dictionary _ values, a =>
      containerToText name nullable metadata values a
  | .runEndEncoded _ (.plain _ _ _ values), a =>
      containerToText name nullable metadata values a
  | .leaf _, _ | .runEndEncoded _ (.wide _ _ _ _), _ | .union _ _, _ =>
      .error (.refused "serialised as text" name)

def childrenToText : List ArrowField → List Column →
    Except TreeError (List ArrowField × List Column)
  | field :: fields, column :: columns => do
      let (field, column) ← decimalArbLeavesToText field column
      let (fields, columns) ← childrenToText fields columns
      return (field :: fields, column :: columns)
  | _, _ => .ok ([], [])

end

end

/-! ## The field of the text -/

mutual

def decimalArbLeavesAsTextField : ArrowField → ArrowField
  | .wide name nullable metadata type =>
      if isDecimalArb type then textField name nullable
      else .wide name nullable metadata type
  | .plain name nullable metadata type =>
      if typeContainsDecimalArb type then
        .plain name nullable metadata (typeAsText type)
      else .plain name nullable metadata type

/-- The type of a container; those that are not walked keep theirs. -/
def typeAsText : DataType → DataType
  | .struct fields => .struct (fieldsAsText fields)
  | .list layout child => .list layout (decimalArbLeavesAsTextField child)
  | .map entries fields sorted => .map entries (fieldsAsText fields) sorted
  | .leaf type => .leaf type
  | .dictionary key values => .dictionary key values
  | .runEndEncoded runEnds values => .runEndEncoded runEnds values
  | .union fields dense => .union fields dense

def fieldsAsText : List ArrowField → List ArrowField
  | [] => []
  | field :: fields =>
      decimalArbLeavesAsTextField field :: fieldsAsText fields

end

/-! ## From text -/

section

variable (parse : String → Option BigDecimal)

mutual

/-- Every leaf of the target, restored from its text. -/
def decimalArbLeavesFromText : ArrowField → Column → Except TreeError Column
  | .wide name _ _ (.decimalArb params _), a =>
      decimalArbFromStrings parse name params a
  | .wide _ _ _ (.legacyWideInt _), a => .ok a
  | .plain name _ _ type, a =>
      if typeContainsDecimalArb type then containerFromText name type a
      else .ok a

def containerFromText (name : String) :
    DataType → Column → Except TreeError Column
  | .struct fields, a => do
      let (_, out) ← rebuildStruct name (fun columns => do
        let columns ← childrenFromText fields columns
        return (fields, columns)) a
      return out
  | .list layout child, a =>
      if layout.plain then do
        let (_, out) ← rebuildList name layout (fun values => do
          let values ← decimalArbLeavesFromText child values
          return (child, values)) a
        return out
      else .error (.refused "restored from text" name)
  | .map entries fields sorted, a => do
      let (_, out) ← rebuildMap name entries sorted (fun columns => do
        let columns ← childrenFromText fields columns
        return (fields, columns)) a
      return out
  | .leaf _, _ | .dictionary _ _, _ | .runEndEncoded _ _, _
  | .union _ _, _ => .error (.refused "restored from text" name)

def childrenFromText : List ArrowField → List Column →
    Except TreeError (List Column)
  | field :: fields, column :: columns => do
      let column ← decimalArbLeavesFromText field column
      let columns ← childrenFromText fields columns
      return column :: columns
  | _, _ => .ok []

end

end

end ArrowTree

end Streamling
