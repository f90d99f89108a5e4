import Mathlib
import Streamling.Support.ColumnRows
import Streamling.Types.ArrowCells

/-!
# Unnesting lists and structs

The columns of a batch are expanded one depth at a time.  At each depth the
lists to be expanded are read side by side: a row gives as many rows as its
longest list has items, the shorter lists are padded with nulls, and every
other column is repeated or, where nothing reads it any more, blanked.

Arrays are known by their cells, and by the kernels of Arrow that the
operator calls on them.  The batch that comes out has the labels of the plan's
schema, but for the columns of flattened structs, which keep their own.
-/

namespace Streamling

namespace Unnest

open ArrowCells

inductive UnnestError where
  | library (text : String)
  | totalTooLarge (total : ℕ)
  | sliceTooLarge (length : ℕ)
  | paddingTooLarge (padding : ℕ)
  | negativePadding (valueLength targetLength : ℕ)
  | invalidDatatype
  | notAStruct (idx : ℕ)
  | noSuchColumn (idx : ℕ)
  | noTempArray
  | noLists
  | noSuchField (idx : ℕ)
  | noColumns
  | columnCount (fields columns : ℕ)
  | columnLength
  | nonNullable
  | notBoolean
  deriving DecidableEq, Repr

/-! ## Kernels -/

/-- The kernels of Arrow on arrays `κ`. -/
structure Kernels (κ α : Type) where
  cells : κ → List (ArrowCell α)
  /-- The values and the offsets of an array of lists. -/
  lists : κ → Option (κ × Spans)
  /-- The columns of an array of structs, with their labels. -/
  structs : κ → Option (List (FieldLabel × κ))
  shape : κ → Shape
  length : κ → Except UnnestError (List (Option ℕ))
  safeTake : κ → List (Option ℕ) → Except UnnestError κ
  newNullArray : κ → ℕ → κ

/-- What the kernels do to cells; rows are taken by their numbers. -/
structure Kernels.Lawful {κ α : Type} (kernels : Kernels κ α) : Prop where
  lists_cells : ∀ {array values spans},
    kernels.lists array = some (values, spans) →
      kernels.cells array = spans.map (spanCell (kernels.cells values))
  lists_bounds : ∀ {array values spans},
    kernels.lists array = some (values, spans) →
      ∀ start stop, some (start, stop) ∈ spans →
        start ≤ stop ∧ stop ≤ (kernels.cells values).length
  length_lists : ∀ {array values spans},
    kernels.lists array = some (values, spans) →
      kernels.length array =
        .ok (spans.map (Option.map fun offsets => offsets.2 - offsets.1))
  safeTake_cells : ∀ {array indices taken},
    InRange (kernels.cells array).length indices →
    kernels.safeTake array indices = .ok taken →
      kernels.cells taken = takeCells (kernels.cells array) indices
  newNullArray_cells : ∀ array n,
    kernels.cells (kernels.newNullArray array n) =
      List.replicate n .null
  structs_cells : ∀ {array columns},
    kernels.structs array = some columns →
      ∀ i label column, columns[i]? = some (label, column) →
        kernels.cells column = (kernels.cells array).map (ArrowCell.field i)
  lists_shape : ∀ {array item},
    kernels.shape array = .list item →
      ∃ values spans, kernels.lists array = some (values, spans) ∧
        kernels.shape values = item
  structs_shape : ∀ {array columns},
    kernels.structs array = some columns →
      kernels.shape array =
        .struct (columns.map fun entry => kernels.shape entry.2)
  safeTake_shape : ∀ {array indices taken},
    InRange (kernels.cells array).length indices →
    kernels.safeTake array indices = .ok taken →
      kernels.shape taken = kernels.shape array
  newNullArray_shape : ∀ array n,
    kernels.shape (kernels.newNullArray array n) = kernels.shape array

/-! ## Batches -/

/-- A batch of columns of one length. -/
structure Batch {κ α : Type} (kernels : Kernels κ α) where
  fields : List FieldLabel
  columns : List κ
  numRows : ℕ
  labelled : fields.length = columns.length
  sized : ∀ column ∈ columns, (kernels.cells column).length = numRows

namespace Batch

variable {κ α : Type} {kernels : Kernels κ α}

def cellAt (kernels : Kernels κ α) (i : ℕ) (column : κ) : ArrowCell α :=
  (kernels.cells column)[i]?.getD .null

def rows (batch : Batch kernels) : List (List (ArrowCell α)) :=
  (List.range batch.numRows).map fun i =>
    batch.columns.map (cellAt kernels i)

def shapes (batch : Batch kernels) : List Shape :=
  batch.columns.map kernels.shape

/-- No column without nulls has one. -/
def NullsAllowed (kernels : Kernels κ α)
    (fields : List FieldLabel) (columns : List κ) : Prop :=
  ∀ entry ∈ fields.zip columns,
    entry.1.nullable = true ∨
      ∀ cell ∈ kernels.cells entry.2, cell.isNull = false

instance (fields : List FieldLabel) (columns : List κ) :
    Decidable (NullsAllowed kernels fields columns) :=
  inferInstanceAs (Decidable (∀ _ ∈ _, _))

/-- `RecordBatch::try_new_with_options` with a row count. -/
def tryNewWithRowCount (kernels : Kernels κ α)
    (fields : List FieldLabel) (columns : List κ) (rowCount : ℕ) :
    Except UnnestError (Batch kernels) :=
  if labelled : fields.length = columns.length then
    if sized : ∀ column ∈ columns,
        (kernels.cells column).length = rowCount then
      if NullsAllowed kernels fields columns then
        .ok ⟨fields, columns, rowCount, labelled, sized⟩
      else .error .nonNullable
    else .error .columnLength
  else .error (.columnCount fields.length columns.length)

/-- `RecordBatch::try_new`; the first column has the row count. -/
def tryNew (kernels : Kernels κ α)
    (fields : List FieldLabel) (columns : List κ) :
    Except UnnestError (Batch kernels) :=
  match columns with
  | [] => .error .noColumns
  | first :: rest =>
      tryNewWithRowCount kernels fields (first :: rest)
        (kernels.cells first).length

end Batch

/-! ## The operator -/

structure ListUnnest where
  indexInInputSchema : ℕ
  depth : ℕ
  deriving DecidableEq, Repr

def u32Max : ℕ := 4294967295

section Model

variable {κ α : Type} (kernels : Kernels κ α) (preserveNulls : Bool)

def nullLength : ℕ := if preserveNulls then 1 else 0

/-- The length of the longest list of each row. -/
def findLongestLength (listArrays : List κ) :
    Except UnnestError (List ℕ) := do
  let listLengths ← listArrays.mapM fun array =>
    (kernels.length array).map
      (·.map (·.getD (nullLength preserveNulls)))
  match listLengths with
  | [] => .error .noLists
  | first :: rest =>
      .ok (rest.foldl
        (List.zipWith fun longest current =>
          if longest < current then current else longest)
        first)

/-- The indices of one row: its list, and nulls up to the target length. -/
def rowIndices (span : Option (ℕ × ℕ)) (targetLength : ℕ) :
    Except UnnestError (List (Option ℕ)) :=
  if u32Max < spanLength span then .error (.sliceTooLarge (spanLength span))
  else if targetLength < spanLength span then
    .error (.negativePadding (spanLength span) targetLength)
  else if u32Max < targetLength - spanLength span then
    .error (.paddingTooLarge (targetLength - spanLength span))
  else
    .ok ((span.elim [] fun offsets =>
        (List.range' offsets.1 (offsets.2 - offsets.1)).map some) ++
      List.replicate (targetLength - spanLength span) none)

def takeIndices : Spans → List ℕ → Except UnnestError (List (Option ℕ))
  | span :: spans, targetLength :: lengths => do
      let indices ← rowIndices span targetLength
      let rest ← takeIndices spans lengths
      .ok (indices ++ rest)
  | _, _ => .ok []

def unnestListArray (lengths : List ℕ) (listArray : κ) :
    Except UnnestError κ :=
  match kernels.lists listArray with
  | none => .error .invalidDatatype
  | some (values, spans) => do
      let indices ← takeIndices spans lengths
      kernels.safeTake values indices

/-- Each row number as often as the row is repeated. -/
def createTakeIndices (lengths : List ℕ) : List (Option ℕ) :=
  lengths.zipIdx.flatMap fun entry =>
    List.replicate entry.1 (some entry.2)

/-- The arrays that are being expanded, by what they are expanded for. -/
abbrev TempArrays (κ : Type) : Type := ListUnnest → Option κ

/-- The array that `unnesting` expands at a level. -/
def levelSource
    (batch : List κ) (temps : TempArrays κ) (level : ℕ)
    (unnesting : ListUnnest) : Except UnnestError κ :=
  if level = unnesting.depth then
    match batch[unnesting.indexInInputSchema]? with
    | some array => .ok array
    | none => .error (.noSuchColumn unnesting.indexInInputSchema)
  else
    match temps unnesting with
    | some array => .ok array
    | none => .error .noTempArray

/-- Whether a column is read at a later level or not expanded at all. -/
def repeatMask (unnests : List ListUnnest) (level i : ℕ) : Bool :=
  unnests.any (fun unnesting =>
    unnesting.indexInInputSchema = i ∧ unnesting.depth < level) ||
    !unnests.any fun unnesting => unnesting.indexInInputSchema = i

def repeatArrsFromIndices
    (batch : List κ) (indices : List (Option ℕ)) (mask : ℕ → Bool) :
    Except UnnestError (List κ) :=
  batch.zipIdx.mapM fun entry =>
    if mask entry.2 then kernels.safeTake entry.1 indices
    else .ok (kernels.newNullArray entry.1 indices.length)

def activeAt (unnests : List ListUnnest) (level : ℕ) : List ListUnnest :=
  unnests.filter fun unnesting => level ≤ unnesting.depth

def insertAll (temps : TempArrays κ) (arrays : List (ListUnnest × κ)) :
    TempArrays κ :=
  arrays.foldl (fun temps entry =>
    Function.update temps entry.1 (some entry.2)) temps

/-- One level of all the lists.  Nothing is returned if no row is left. -/
def listUnnestAtLevel
    (unnests : List ListUnnest) (batch : List κ) (temps : TempArrays κ)
    (level : ℕ) :
    Except UnnestError (Option (List κ × TempArrays κ)) := do
  let active := activeAt unnests level
  let arrays ← active.mapM (levelSource batch temps level)
  let lengths ← findLongestLength kernels preserveNulls arrays
  if u32Max < lengths.sum then .error (.totalTooLarge lengths.sum)
  else if lengths.sum = 0 then .ok none
  else do
    let unnested ← arrays.mapM (unnestListArray kernels lengths)
    let ret ← repeatArrsFromIndices kernels batch
      (createTakeIndices lengths) (repeatMask unnests level)
    .ok (some (ret, insertAll temps (active.zip unnested)))

/-- The levels from `level` down to one. -/
def unnestLevels (unnests : List ListUnnest) :
    ℕ → List κ → TempArrays κ →
      Except UnnestError (Option (List κ × TempArrays κ))
  | 0, batch, temps => .ok (some (batch, temps))
  | level + 1, batch, temps => do
      match ← listUnnestAtLevel kernels preserveNulls unnests batch temps
          (level + 1) with
      | none => .ok none
      | some (ret, temps) => unnestLevels unnests level ret temps

def maxRecursion (unnests : List ListUnnest) : ℕ :=
  unnests.foldl (fun highest unnesting => max highest unnesting.depth) 0

/-- The expansions of one column, in the order of the expressions. -/
def unnestsOf (unnests : List ListUnnest) (i : ℕ) : List ListUnnest :=
  unnests.dedup.filter fun unnesting => unnesting.indexInInputSchema = i

/-- Each column or its expansions. -/
def collectColumns
    (unnests : List ListUnnest) (batch : List κ) (temps : TempArrays κ) :
    List κ :=
  batch.zipIdx.flatMap fun entry =>
    match (unnestsOf unnests entry.2).filterMap temps with
    | [] => [entry.1]
    | expanded => expanded

/-- A column with its label, or the columns of the struct to be flattened.
The label is looked up under the number that the column has before any
struct is flattened. -/
def structPart
    (schema : List FieldLabel) (structColumns : Finset ℕ) (idx : ℕ)
    (array : κ) : Except UnnestError (List (FieldLabel × κ)) :=
  if idx ∈ structColumns then
    match kernels.structs array with
    | some columns => .ok columns
    | none => .error (.notAStruct idx)
  else
    match schema[idx]? with
    | some label => .ok [(label, array)]
    | none => .error (.noSuchField idx)

def flattenStructCols
    (schema : List FieldLabel) (structColumns : Finset ℕ)
    (columns : List κ) : Except UnnestError (Batch kernels) := do
  let parts ← columns.zipIdx.mapM fun entry =>
    structPart kernels schema structColumns entry.2 entry.1
  Batch.tryNew kernels (parts.flatten.map Prod.fst)
    (parts.flatten.map Prod.snd)

/-- The output batch, if it has any row. -/
def buildBatch
    (schema : List FieldLabel) (unnests : List ListUnnest)
    (structColumns : Finset ℕ) (batch : Batch kernels) :
    Except UnnestError (Option (Batch kernels)) :=
  if unnests.isEmpty then
    (flattenStructCols kernels schema structColumns batch.columns).map some
  else do
    -- without any level there is nothing to collect
    let input := if maxRecursion unnests = 0 then [] else batch.columns
    match ← unnestLevels kernels preserveNulls unnests
        (maxRecursion unnests) input (fun _ => none) with
    | none => .ok none
    | some (ret, temps) =>
        (flattenStructCols kernels schema structColumns
          (collectColumns unnests ret temps)).map some

end Model

end Unnest

end Streamling
