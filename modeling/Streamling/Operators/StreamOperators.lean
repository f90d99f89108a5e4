import Mathlib
import Streamling.Checkpoints.Message
import Streamling.Operators.UnnestBatch
import Streamling.Support.StreamStages

/-!
# Filters, projections and unnests on a stream

The operators between a source and a sink read one batch after the other.  A
filter and a projection put out a batch for each, with the checkpoint messages
of its metadata; an unnest skips batches without rows, unless they carry
messages.  The expressions that are evaluated are known by their values.
-/

namespace Streamling

namespace StreamOperators

open ArrowCells Unnest

/-! ## Batches on a stream -/

/-- The plan of an unnest; of the types of its schema, an array each. -/
structure UnnestPlan (κ : Type) where
  preserveNulls : Bool
  schema : List FieldLabel
  schemaColumns : List κ
  unnests : List ListUnnest
  structColumns : Finset ℕ

section Model

variable {κ α : Type}

/-- The kernels of Arrow that filters call. -/
structure BatchKernels (κ α : Type) extends Kernels κ α where
  /-- The values of a boolean array. -/
  booleans : κ → Option (List (Option Bool))
  filter : κ → List Bool → Except UnnestError κ

variable (kernels : BatchKernels κ α)

abbrev ArrowBatch : Type := Batch kernels.toKernels

/-- A batch with the checkpoint messages of its schema metadata. -/
structure StreamBatch where
  batch : ArrowBatch kernels
  messages : List CheckpointMessage

/-- An expression, evaluated to an array of the batch's length. -/
abbrev PhysicalExpr : Type := ArrowBatch kernels → Except UnnestError κ

/-- The fields of the columns that are there, by the original schema. -/
def buildSchemaFromColumns (originalSchema : List FieldLabel)
    (columns : List κ) : List FieldLabel :=
  (originalSchema.zip columns).map Prod.fst

def filterRecordBatch (batch : ArrowBatch kernels)
    (filterArray : List (Option Bool)) :
    Except UnnestError (ArrowBatch kernels) := do
  -- a null of the predicate keeps no row
  let mask := filterArray.map (·.getD false)
  let filtered ← batch.columns.mapM fun column =>
    kernels.filter column mask
  Batch.tryNewWithRowCount kernels.toKernels batch.fields filtered
    (mask.count true)

def column (batch : ArrowBatch kernels) (i : ℕ) : Except UnnestError κ :=
  match batch.columns[i]? with
  | some column => .ok column
  | none => .error (.noSuchColumn i)

def filterAndProject (predicate : PhysicalExpr kernels)
    (projection : Option (List ℕ)) (outputSchema : List FieldLabel)
    (batch : ArrowBatch kernels) :
    Except UnnestError (ArrowBatch kernels) := do
  let array ← predicate batch
  match kernels.booleans array, projection with
  | some filterArray, none => do
      let filtered ← filterRecordBatch kernels batch filterArray
      Batch.tryNew kernels.toKernels
        (buildSchemaFromColumns outputSchema filtered.columns)
        filtered.columns
  | some filterArray, some projection => do
      let projectedColumns ← projection.mapM (column kernels batch)
      let projectedBatch ← Batch.tryNew kernels.toKernels
        (buildSchemaFromColumns outputSchema projectedColumns)
        projectedColumns
      filterRecordBatch kernels projectedBatch filterArray
  | none, _ => .error .notBoolean

def batchProject (exprs : List (PhysicalExpr kernels))
    (schema : List FieldLabel) (batch : ArrowBatch kernels) :
    Except UnnestError (ArrowBatch kernels) := do
  let arrays ← exprs.mapM fun expr => expr batch
  let fields := buildSchemaFromColumns schema arrays
  if arrays.isEmpty then
    Batch.tryNewWithRowCount kernels.toKernels fields arrays batch.numRows
  else Batch.tryNew kernels.toKernels fields arrays

/-! ## Operators -/

inductive StreamOperator where
  | filter (predicate : PhysicalExpr kernels)
      (projection : Option (List ℕ)) (schema : List FieldLabel)
  | projection (exprs : List (PhysicalExpr kernels))
      (schema : List FieldLabel)
  | unnest (plan : UnnestPlan κ)

/-- The last batch that an unnest has put together. -/
abbrev ResolvedBatch : Type := Option (ArrowBatch kernels)

/-- A batch without rows that carries messages. -/
def createEmptyCheckpointBatch (plan : UnnestPlan κ)
    (resolved : ResolvedBatch kernels) (messages : List CheckpointMessage) :
    Except UnnestError (StreamBatch kernels) := do
  let fields := (resolved.map Batch.fields).getD plan.schema
  let types := (resolved.map Batch.columns).getD plan.schemaColumns
  let batch ← Batch.tryNew kernels.toKernels fields
    (types.map (kernels.newNullArray · 0))
  return ⟨batch, messages⟩

/-- One batch of an unnest's input. -/
def unnestStep (plan : UnnestPlan κ) (resolved : ResolvedBatch kernels)
    (input : StreamBatch kernels) :
    Except UnnestError
      (Option (StreamBatch kernels) × ResolvedBatch kernels) := do
  match ← buildBatch kernels.toKernels plan.preserveNulls plan.schema
      plan.unnests plan.structColumns input.batch with
  | some batch =>
      if batch.numRows = 0 ∧ input.messages = [] then
        .ok (none, some batch)
      else .ok (some ⟨batch, input.messages⟩, some batch)
  | none =>
      if input.messages = [] then .ok (none, resolved)
      else do
        let empty ← createEmptyCheckpointBatch kernels plan resolved
          input.messages
        .ok (some empty, resolved)

def StreamOperator.step (operator : StreamOperator kernels)
    (resolved : ResolvedBatch kernels) (input : StreamBatch kernels) :
    Except UnnestError
      (Option (StreamBatch kernels) × ResolvedBatch kernels) :=
  match operator with
  | .filter predicate indices schema => do
      let batch ← filterAndProject kernels predicate indices schema
        input.batch
      .ok (some ⟨batch, input.messages⟩, resolved)
  | .projection exprs schema => do
      let batch ← batchProject kernels exprs schema input.batch
      .ok (some ⟨batch, input.messages⟩, resolved)
  | .unnest plan => unnestStep kernels plan resolved input

/-- The operator at the start of a stream. -/
def StreamOperator.stage (operator : StreamOperator kernels) :
    StreamStages.Stage (ResolvedBatch kernels) (StreamBatch kernels)
      UnnestError where
  init := none
  step := operator.step kernels

end Model

end StreamOperators

end Streamling
