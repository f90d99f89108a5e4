import Mathlib
import Streamling.Support.Buckets
import Streamling.Types.Arrow

/-!
# Deduplication by primary key

A batch is deduplicated by its primary key in one of two ways: the last row of
each key is kept, or the row with the greatest version, where a key whose
winning row is a tombstone is dropped.  Rows are bucketed by the hash of their
key, and within a bucket keys are compared by value.  The survivors are taken
in the order of the batch.

The cells are values of any type, with nulls.  The hasher and the order in
which the bucket map is iterated are arbitrary.
-/

namespace Streamling

namespace Dedup

open Arrow (ArrowField findField)

variable {α σ : Type}

/-! ## Batches of rows -/

/-- What a column admits: a null only if the field is nullable. -/
def Fits (field : ArrowField) (cell : Option α) : Prop :=
  cell = none → field.nullable = true

instance (field : ArrowField) (cell : Option α) :
    Decidable (Fits field cell) :=
  match cell with
  | none => decidable_of_iff (field.nullable = true) (by simp [Fits])
  | some _ => isTrue (by simp [Fits])

/-- A record batch, row by row: every row has a cell for each field. -/
@[ext] structure RowBatch (α : Type) where
  fields : List ArrowField
  metadata : List (String × String)
  rows : List (List (Option α))
  wellFormed : ∀ row ∈ rows, List.Forall₂ Fits fields row

inductive DedupError where
  | primaryKeyColumnNotFound (name : String)
  | versionColumnNotFound (name : String)
  | tombstoneColumnType (name : String) (type : Arrow.DataType)
  | primaryKeyComparator
  | versionComparator
  | concatenation
  | emptyBatchList
  deriving DecidableEq

namespace RowBatch

def numRows (batch : RowBatch α) : ℕ := batch.rows.length

/-- The cells of a row in the given columns. -/
def cellsAt (columns : List ℕ) (row : List (Option α)) : List (Option α) :=
  columns.map fun i => (row[i]?).join

/-- The cells of the row at a position. -/
def cells (batch : RowBatch α) (columns : List ℕ) (row : ℕ) :
    List (Option α) :=
  cellsAt columns (batch.rows.getD row [])

/-- The rows at the given positions. -/
def take (batch : RowBatch α) (indices : List ℕ) : RowBatch α where
  fields := batch.fields
  metadata := batch.metadata
  rows := indices.filterMap fun i => batch.rows[i]?
  wellFormed := by
    intro row hrow
    obtain ⟨i, -, hi⟩ := List.mem_filterMap.mp hrow
    exact batch.wellFormed row (List.mem_of_getElem? hi)

end RowBatch

/-- The rows of all batches under the schema of the first.  The columns must
have its types, and its non-nullable columns no null. -/
def concatBatches (schema : RowBatch α) (batches : List (RowBatch α)) :
    Except DedupError (RowBatch α) :=
  if batches.all fun batch =>
      batch.fields.map ArrowField.dataType =
        schema.fields.map ArrowField.dataType then
    if h : ∀ row ∈ batches.flatMap RowBatch.rows,
        List.Forall₂ Fits schema.fields row then
      .ok ⟨schema.fields, schema.metadata, batches.flatMap RowBatch.rows, h⟩
    else .error .concatenation
  else .error .concatenation

/-! ## Hashes and comparators -/

/-- The hasher and the bucket map of the standard library, and the comparators
of the Arrow kernels: a comparator of two columns of one type decides the order
of their values. -/
structure Kernels (α σ : Type) where
  start : σ
  writeU8 : UInt8 → σ → σ
  writeValue : Arrow.DataType → α → σ → σ
  finish : σ → UInt64
  /-- A text as a value of a text column. -/
  text : String → α
  comparable : Arrow.DataType → Bool
  /-- The order in which the entries of a bucket map are visited. -/
  visit : {ε : Type} → List (UInt64 × List ε) → List (UInt64 × List ε)
  visit_perm : ∀ {ε : Type} (buckets : List (UInt64 × List ε)),
    (visit buckets).Perm buckets

/-- The types of the given columns. -/
def columnTypes (batch : RowBatch α) (columns : List ℕ) :
    List Arrow.DataType :=
  columns.filterMap fun i => (batch.fields[i]?).map ArrowField.dataType

variable (kernels : Kernels α σ)

def hashArrayValue (hasher : σ) (type : Arrow.DataType) :
    Option α → σ
  | none => kernels.writeU8 0 hasher
  | some value => kernels.writeValue type value (kernels.writeU8 1 hasher)

/-- The hash of the cells of a primary key. -/
def hashKey (types : List Arrow.DataType) (key : List (Option α)) :
    UInt64 :=
  kernels.finish <| (types.zip key).foldl
    (fun hasher (type, cell) => hashArrayValue kernels hasher type cell)
    kernels.start

/-- The position of each primary key column. -/
def primaryKeyIndices (batch : RowBatch α) (primaryKeys : List String) :
    Except DedupError (List ℕ) :=
  primaryKeys.mapM fun name =>
    match findField name batch.fields with
    | some (i, _) => .ok i
    | none => .error (.primaryKeyColumnNotFound name)

/-! ## Keep the last row of each key -/

variable [DecidableEq α]

/-- The latest row of a primary key replaces the earlier one. -/
def keepLatest (_existing _rowIndex : ℕ) : Bool := true

/-- The rows bucketed by the hash of their primary key. -/
def bucketRows (batch : RowBatch α) (indices : List ℕ) :
    List (UInt64 × List ℕ) :=
  Buckets.fill (batch.cells indices)
    (hashKey kernels (columnTypes batch indices)) keepLatest
    (List.range batch.numRows)

/-- Keep the last row of each primary key.  A primary key without columns
leaves the batch as it is. -/
def deduplicateRecordBatch (batch : RowBatch α) (primaryKeys : List String) :
    Except DedupError (RowBatch α) := do
  let indices ← primaryKeyIndices batch primaryKeys
  if indices.isEmpty then
    return batch
  if !(columnTypes batch indices).all kernels.comparable then
    throw .primaryKeyComparator
  let buckets := bucketRows kernels batch indices
  let uniqueIndices :=
    ((kernels.visit buckets).flatMap Prod.snd).mergeSort
  if uniqueIndices.length = batch.numRows then
    return batch
  return batch.take uniqueIndices

/-- Keep the last row of each primary key across batches. -/
def deduplicateRecordBatches (batches : List (RowBatch α))
    (primaryKeys : List String) : Except DedupError (RowBatch α) :=
  match batches with
  | [] => .error .emptyBatchList
  | [batch] => deduplicateRecordBatch kernels batch primaryKeys
  | first :: _ =>
      if primaryKeys.isEmpty then concatBatches first batches
      else do
        let concatenated ← concatBatches first batches
        deduplicateRecordBatch kernels concatenated primaryKeys

/-! ## Keep the row of the greatest version -/

structure TombstoneRule where
  column : String
  value : String

/-- The column and the value that make a row a tombstone.  A rule whose column
is missing makes none. -/
def tombstoneColumn (batch : RowBatch α) (tombstone : Option TombstoneRule) :
    Except DedupError (Option (ℕ × String)) :=
  match tombstone with
  | none => .ok none
  | some rule =>
      match findField rule.column batch.fields with
      | none => .ok none
      | some (i, field) =>
          match field.dataType with
          | .leaf .utf8 | .leaf .largeUtf8 => .ok (some (i, rule.value))
          | other => .error (.tombstoneColumnType rule.column other)

/-- Does a row hold the tombstone's value? -/
def isTombstone (tombstone : Option (ℕ × String))
    (row : List (Option α)) : Bool :=
  tombstone.any fun (i, value) => (row[i]?).join = some (kernels.text value)

/-- The version of a row, where a null is below every value. -/
def versionOf (column : ℕ) (row : List (Option α)) : WithBot α :=
  (row[column]?).join

end Dedup

namespace Dedup

open Arrow (ArrowField findField)

variable {α σ : Type} [LinearOrder α] (kernels : Kernels α σ)

/-- Should a new row replace the winner of its key?  The higher version wins;
on a tie a tombstone is not replaced by a live row. -/
def shouldReplace (version : ℕ → WithBot α) (existing new : ℕ × Bool) :
    Bool :=
  if version existing.1 < version new.1 then true
  else if version new.1 < version existing.1 then false
  else !existing.2 || new.2

/-- The winning row of each primary key, and whether it is a tombstone,
bucketed by the hash of the key. -/
def bucketVersions (batch : RowBatch α) (indices : List ℕ)
    (versionColumn : ℕ) (tombstone : Option (ℕ × String)) :
    List (UInt64 × List (ℕ × Bool)) :=
  Buckets.fill (fun entry => batch.cells indices entry.1)
    (hashKey kernels (columnTypes batch indices))
    (shouldReplace fun row =>
      versionOf versionColumn (batch.rows.getD row []))
    ((List.range batch.numRows).map fun row =>
      (row, isTombstone kernels tombstone (batch.rows.getD row [])))

/-- Keep, of each primary key, the row of the greatest version, and drop the
keys whose winning row is a tombstone. -/
def deduplicateRecordBatchByVersion (batch : RowBatch α)
    (primaryKeys : List String) (versionColumn : String)
    (tombstone : Option TombstoneRule) : Except DedupError (RowBatch α) := do
  let pkIndices ← primaryKeyIndices batch primaryKeys
  if pkIndices.isEmpty then
    return batch
  let (versionIdx, versionField) ←
    match findField versionColumn batch.fields with
    | some found => .ok found
    | none => .error (.versionColumnNotFound versionColumn)
  if !(columnTypes batch pkIndices).all kernels.comparable then
    throw .primaryKeyComparator
  if !kernels.comparable versionField.dataType then
    throw .versionComparator
  let tombstoneCmp ← tombstoneColumn batch tombstone
  let buckets := bucketVersions kernels batch pkIndices versionIdx tombstoneCmp
  let survivors := ((kernels.visit buckets).flatMap Prod.snd).filter
    fun (_, isTomb) => !isTomb
  return batch.take (survivors.map Prod.fst).mergeSort

/-- Keep the row of the greatest version of each primary key across batches. -/
def deduplicateRecordBatchesByVersion (batches : List (RowBatch α))
    (primaryKeys : List String) (versionColumn : String)
    (tombstone : Option TombstoneRule) : Except DedupError (RowBatch α) :=
  match batches with
  | [] => .error .emptyBatchList
  | [batch] =>
      deduplicateRecordBatchByVersion kernels batch primaryKeys versionColumn
        tombstone
  | first :: _ => do
      let concatenated ← concatBatches first batches
      deduplicateRecordBatchByVersion kernels concatenated primaryKeys
        versionColumn tombstone

end Dedup

end Streamling
