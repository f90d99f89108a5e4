import Mathlib
import Streamling.Support.ExceptLists
import Streamling.Types.ArrowCells

/-!
# Taking rows by index

Arrow's `take` is tried first.  Where the offsets of its result overflow, the
array is rebuilt with large offsets, and the arrays below it are taken in the
same way.  Either way the result has the rows that were asked for; what is
rebuilt has wider types, and its children have no metadata any more.
-/

namespace Streamling

namespace ArrowTree

open Arrow (LeafType)
open ArrowCells (Shape Spans spanCell spanLength takeCells)

/-! ## The rows of an array -/

abbrev RowCell : Type := ArrowCells.ArrowCell Cell

def isMissing : RowCell → Bool
  | .null => true
  | _ => false

/-- A null struct with nothing below it is no more than a null. -/
def structCell (valid : Bool) (fields : List RowCell) : RowCell :=
  if valid = false ∧ fields.all isMissing = true then .null
  else .struct valid fields

/-- Where the values of row `i` start and stop. -/
def ListLayout.rowSpan (layout : ListLayout) (offsets : List ℕ) (i : ℕ) :
    ℕ × ℕ :=
  match layout with
  | fixedSizeList size => (i * size, i * size + size)
  | _ => (offsets[i]?.getD 0, offsets[i + 1]?.getD 0)

def ListLayout.spans (layout : ListLayout) (offsets : List ℕ)
    (validity : List Bool) : Spans :=
  validity.zipIdx.map fun row =>
    if row.1 then some (layout.rowSpan offsets row.2) else none

def structRows (validity : List Bool) (columns : List (List RowCell)) :
    List RowCell :=
  validity.zipIdx.map fun row =>
    structCell row.1 (columns.map fun cells => cells[row.2]?.getD .null)

mutual

/-- The cells of the rows.  A row of an opaque array is a value of its own. -/
def Column.rowCells : Column → List RowCell
  | .leaf _ cells => cells.map fun cell => cell.elim .null .leaf
  | .list layout _ offsets validity values =>
      (layout.spans offsets validity).map (spanCell values.rowCells)
  | .map _ _ _ offsets validity values =>
      (ListLayout.list.spans offsets validity).map
        (spanCell values.rowCells)
  | .struct _ validity columns => structRows validity (allRowCells columns)
  | .encoded _ index validity =>
      List.zipWith (fun code valid =>
        if valid then .leaf (.other code) else .null) index validity

def allRowCells : List Column → List (List RowCell)
  | [] => []
  | column :: columns => column.rowCells :: allRowCells columns

end

mutual

/-- How lists and structs are nested; what is not expanded is a leaf. -/
def DataType.shape : DataType → Shape
  | .list .listView _ | .list .largeListView _ => .leaf
  | .list _ child => .list child.shape
  | .struct fields => .struct (fieldShapes fields)
  | _ => .leaf

def ArrowField.shape : ArrowField → Shape
  | .plain _ _ _ dataType => dataType.shape
  | .wide _ _ _ _ => .leaf

def fieldShapes : List ArrowField → List Shape
  | [] => []
  | field :: fields => field.shape :: fieldShapes fields

end

mutual

/-- The offsets do not go back, and the codes of an opaque array are those of
its rows. -/
def Column.Ordered : Column → Prop
  | .leaf _ _ => True
  | .list _ _ offsets _ values | .map _ _ _ offsets _ values =>
      offsets.Pairwise (· ≤ ·) ∧ values.Ordered
  | .struct _ _ columns => AllOrdered columns
  | .encoded _ index validity => index.length = validity.length

def AllOrdered : List Column → Prop
  | [] => True
  | column :: columns => column.Ordered ∧ AllOrdered columns

end

structure Column.Sound (column : Column) : Prop where
  valid : column.Valid
  ordered : column.Ordered

/-! ## Arrays of nulls -/

mutual

/-- `new_null_array`. -/
def newNullArray : DataType → ℕ → Column
  | .leaf type, n => .leaf type (List.replicate n none)
  | .list layout child, n =>
      match layout with
      | .fixedSizeList size =>
          .list (.fixedSizeList size) child [] (List.replicate n false)
            (nullValues child (n * size))
      | .list =>
          .list .list child (List.replicate (n + 1) 0)
            (List.replicate n false) (nullValues child 0)
      | .largeList =>
          .list .largeList child (List.replicate (n + 1) 0)
            (List.replicate n false) (nullValues child 0)
      | layout =>
          .encoded (.list layout child) (List.replicate n 0)
            (List.replicate n false)
  | .map entries fields sorted, n =>
      .map entries fields sorted (List.replicate (n + 1) 0)
        (List.replicate n false) (.struct fields [] (nullColumns fields 0))
  | .struct fields, n =>
      .struct fields (List.replicate n false) (nullColumns fields n)
  | type, n =>
      .encoded type (List.replicate n 0) (List.replicate n false)

def nullValues : ArrowField → ℕ → Column
  | .plain _ _ _ dataType, n => newNullArray dataType n
  | .wide _ _ _ type, n => .leaf type.storage (List.replicate n none)

def nullColumns : List ArrowField → ℕ → List Column
  | [], _ => []
  | field :: fields, n => nullValues field n :: nullColumns fields n

end

/-! ## Taking rows -/

/-- What Arrow's `take` ends with. -/
inductive TakeOutcome where
  | success (column : Column)
  | offsetOverflow
  | arrowError (text : String)
  | panicked
  | killed

inductive TakeError where
  | native (text : String)
  | cannotRebuild (type : DataType)
  | constructor (error : TreeError)

/-- The result of `take`, or the fallback if its offsets overflowed. -/
def TakeOutcome.orRebuild (outcome : TakeOutcome)
    (rebuild : Unit → Except TakeError Column) : Except TakeError Column :=
  match outcome with
  | success column => .ok column
  | arrowError text => .error (.native text)
  | offsetOverflow | panicked | killed => rebuild ()

/-- The type with large offsets. -/
def largeLeaf : LeafType → Option LeafType
  | .utf8 | .largeUtf8 => some .largeUtf8
  | .binary | .largeBinary => some .largeBinary
  | _ => none

def takenSpans (spans : Spans) (indices : List (Option ℕ)) : Spans :=
  indices.map fun index => (index.bind (spans[·]?)).join

def nestedIndices (spans : Spans) : List (Option ℕ) :=
  spans.flatMap fun span =>
    span.elim [] fun offsets =>
      (List.range' offsets.1 (offsets.2 - offsets.1)).map some

def newOffsets (currentOffset : ℕ) : Spans → List ℕ
  | [] => [currentOffset]
  | span :: spans =>
      currentOffset :: newOffsets (currentOffset + spanLength span) spans

/-- A child field around taken values. -/
def ArrowField.retyped (field : ArrowField) (dataType : DataType) :
    ArrowField :=
  .plain field.name field.nullable [] dataType

def rebuildLargeListArray (field : ArrowField) (spans : Spans)
    (takenValues : Column) : Except TakeError Column :=
  (listNew .largeList (field.retyped takenValues.dataType)
    (newOffsets 0 spans) (spans.map Option.isSome) takenValues).mapError
    .constructor

/-- Without any index there is nothing to take. -/
def orNoValues (field : ArrowField) (nestedIndices : List (Option ℕ))
    (taken : Except TakeError Column) : Except TakeError Column :=
  if nestedIndices.isEmpty then .ok (newNullArray field.dataType 0)
  else taken

def takenValidity (validity : List Bool) (indices : List (Option ℕ)) :
    List Bool :=
  indices.map fun index => (index.bind (validity[·]?)).getD false

/-- Without any field `StructArray::new` cannot tell the length. -/
def rebuildStructArray (fields : List ArrowField) (validity : List Bool)
    (takenFields : List Column) : Except TakeError Column :=
  if takenFields.isEmpty then .error (.constructor (.panicked "StructArray"))
  else
    (structNew
      (List.zipWith (fun field (taken : Column) =>
        field.retyped taken.dataType) fields takenFields)
      validity takenFields).mapError .constructor

section Take

variable (take : Column → List (Option ℕ) → TakeOutcome)

mutual

def manualSafeTake : Column → List (Option ℕ) → Except TakeError Column
  | .leaf type cells, indices =>
      match largeLeaf type with
      | some large =>
          .ok (.leaf large
            (indices.map fun index => (index.bind (cells[·]?)).join))
      | none => .error (.cannotRebuild (.leaf type))
  | .list layout child offsets validity values, indices =>
      if layout = .list ∨ layout = .largeList then do
        let spans := takenSpans (layout.spans offsets validity) indices
        let nested := nestedIndices spans
        let takenValues ← orNoValues child nested
          ((take values nested).orRebuild fun _ =>
            manualSafeTake values nested)
        rebuildLargeListArray child spans takenValues
      else .error (.cannotRebuild (.list layout child))
  | .struct fields validity columns, indices => do
      let takenFields ← manualTakeAll columns indices
      rebuildStructArray fields (takenValidity validity indices)
        takenFields
  | .map entries fields sorted _ _ _, _ =>
      .error (.cannotRebuild (.map entries fields sorted))
  | .encoded type _ _, _ => .error (.cannotRebuild type)

/-- The columns of a struct, each taken by itself. -/
def manualTakeAll :
    List Column → List (Option ℕ) → Except TakeError (List Column)
  | [], _ => .ok []
  | column :: columns, indices => do
      let taken ← (take column indices).orRebuild fun _ =>
        manualSafeTake column indices
      let rest ← manualTakeAll columns indices
      return taken :: rest

end

def safeTake (arr : Column) (indices : List (Option ℕ)) :
    Except TakeError Column :=
  (take arr indices).orRebuild fun _ => manualSafeTake take arr indices

end Take

end ArrowTree

end Streamling
