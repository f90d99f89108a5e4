import Mathlib
import Streamling.Support.KeyedBatches

/-!
# The Postgres sink

The sink writes batches of rows that carry an operation.  Each batch is first
deduplicated by primary key, the latest row of a key surviving; then the
inserts and updates among the rows are written by one `INSERT … ON CONFLICT`
statement and the deletes by one `DELETE`.  A table is a map from the primary
key to a row.

What Postgres does with a value is left to a comparison, which has no result
when a side is `NULL`.
-/

namespace Streamling

namespace Postgres

/-! ## Operations -/

inductive RowKind where
  | insert
  | update
  | delete
  deriving DecidableEq, Repr

def RowKind.fromStr (s : String) : Option RowKind :=
  match s.toLower with
  | "i" => some .insert
  | "u" => some .update
  | "d" => some .delete
  | _ => none

/-- The operation of a row; a missing or unknown one is an insert. -/
def RowKind.ofColumn (op : Option String) : RowKind :=
  match op with
  | some s => (RowKind.fromStr s).getD .insert
  | none => .insert

/-! ## The conflict clause -/

/-- The white space that `trim` removes. -/
def isWhitespace (c : Char) : Bool :=
  let n := c.toNat
  (9 ≤ n && n ≤ 13) || n == 0x20 || n == 0x85 || n == 0xA0 || n == 0x1680 ||
    (0x2000 ≤ n && n ≤ 0x200A) || n == 0x2028 || n == 0x2029 ||
    n == 0x202F || n == 0x205F || n == 0x3000

def trim (s : String) : String :=
  String.ofList
    ((s.toList.dropWhile isWhitespace).reverse.dropWhile
      isWhitespace).reverse

inductive ComparisonOp where
  | equal
  | greater
  | greaterOrEqual
  | less
  | lessOrEqual
  | notEqual
  deriving DecidableEq, Repr

/-- The operators allowed in `update_where`. -/
def ComparisonOp.parse (op : String) : Option ComparisonOp :=
  match trim op with
  | "=" => some .equal
  | ">" => some .greater
  | ">=" => some .greaterOrEqual
  | "<" => some .less
  | "<=" => some .lessOrEqual
  | "!=" | "<>" => some .notEqual
  | _ => none

/-- Whether a comparison is true; with `NULL` on a side it is not. -/
def ComparisonOp.holds (op : ComparisonOp) (result : Option Ordering) :
    Bool :=
  match result with
  | none => false
  | some ordering =>
      match op with
      | .equal => ordering == .eq
      | .greater => ordering == .gt
      | .greaterOrEqual => ordering != .lt
      | .less => ordering == .lt
      | .lessOrEqual => ordering != .gt
      | .notEqual => ordering != .eq

/-- A sink on a table with these columns.  The key columns are columns of the
table, and so are those of `updateWhere`; both are checked before a row is
written. -/
structure SinkConfig (V : Type*) where
  columnNames : List String
  primaryKeyColumns : List String
  key_ne : primaryKeyColumns ≠ []
  key_mem : ∀ column ∈ primaryKeyColumns, column ∈ columnNames
  onConflict : String
  updateWhere : Option (List (String × String))
  compare : V → V → Option Ordering

namespace SinkConfig

variable {V : Type*} (config : SinkConfig V)

/-- A row of the table. -/
abbrev Row : Type _ := { column // column ∈ config.columnNames } → V

/-- The values of the primary key. -/
abbrev Key : Type _ := { column // column ∈ config.primaryKeyColumns } → V

/-- A table, as a map from the primary key. -/
abbrev Table : Type _ := config.Key → Option config.Row

def keyOf (row : config.Row) : config.Key :=
  fun column => row ⟨column.1, config.key_mem column.1 column.2⟩

/-- Columns to update: all except the primary key. -/
def updateColumns : List String :=
  config.columnNames.filter fun column =>
    !config.primaryKeyColumns.contains column

/-- The conditions of the `WHERE` clause; invalid operators are skipped. -/
def updateWhereConditions : List (String × ComparisonOp) :=
  (config.updateWhere.getD []).filterMap fun entry =>
    (ComparisonOp.parse entry.2).map fun op => (entry.1, op)

/-- Whether the `WHERE` clause lets the excluded row replace the existing
one. -/
def updateWhereHolds (excluded existing : config.Row) : Bool :=
  config.updateWhereConditions.all fun condition =>
    if h : condition.1 ∈ config.columnNames then
      condition.2.holds
        (config.compare (excluded ⟨condition.1, h⟩)
          (existing ⟨condition.1, h⟩))
    else false

/-- A conflict is resolved by `DO NOTHING`: as configured, or because there
is no column to update. -/
def doNothing : Bool :=
  config.onConflict == "nothing" || config.updateColumns.isEmpty

/-- The row left by an insert that conflicts with an existing row. -/
def onConflictRow (existing excluded : config.Row) : config.Row :=
  if config.doNothing then existing
  else if config.updateWhereHolds excluded existing then
    fun column =>
      if column.1 ∈ config.updateColumns then excluded column
      else existing column
  else existing

/-- What inserting a row does to the row of its key. -/
def upsertRow (row : config.Row) (existing : Option config.Row) :
    Option config.Row :=
  match existing with
  | none => some row
  | some existing => some (config.onConflictRow existing row)

/-! ## Statements -/

variable [DecidableEq V]

/-- `INSERT … ON CONFLICT`, for rows in order. -/
def executeInsert (table : config.Table) (rows : List config.Row) :
    config.Table :=
  rows.foldl
    (fun table row =>
      Function.update table (config.keyOf row)
        (config.upsertRow row (table (config.keyOf row))))
    table

/-- `DELETE … WHERE key IN`. -/
def executeDelete (table : config.Table) (rows : List config.Row) :
    config.Table :=
  fun key => if key ∈ rows.map config.keyOf then none else table key

/-! ## Batches -/

/-- A row with its operation. -/
structure Event where
  op : Option String
  row : config.Row

variable {config}

def Event.kind (e : config.Event) : RowKind :=
  RowKind.ofColumn e.op

def Event.key (e : config.Event) : config.Key :=
  config.keyOf e.row

variable (config)

/-- Write one batch: inserts and updates first, then deletes. -/
def processBatch (table : config.Table) (batch : List config.Event) :
    config.Table :=
  let inserts := batch.filter fun e => e.kind != .delete
  let deletes := batch.filter fun e => e.kind == .delete
  let table :=
    if inserts.isEmpty then table
    else config.executeInsert table (inserts.map Event.row)
  if deletes.isEmpty then table
  else config.executeDelete table (deletes.map Event.row)

end SinkConfig

/-! ## Deduplication -/

section Dedup

variable {κ : Type*} [DecidableEq κ]

/-- Put a row into the buckets: it replaces the row of its hash and key, if
there is one. -/
def addToBucket (hash : κ → ℕ) (keyAt : ℕ → κ) : List ℕ → ℕ → List ℕ
  | [], row => [row]
  | existing :: bucket, row =>
      if hash (keyAt existing) = hash (keyAt row) ∧
          keyAt existing = keyAt row then
        row :: bucket
      else existing :: addToBucket hash keyAt bucket row

/-- The indices of the surviving rows, in order. -/
def uniqueIndices (hash : κ → ℕ) (keys : List κ) (fallback : κ) : List ℕ :=
  let keyAt := fun row => keys.getD row fallback
  ((List.range keys.length).foldl (addToBucket hash keyAt) []).mergeSort

/-- Keep the latest row of each key, in the order of the rows. -/
def deduplicateRecordBatch {ε : Type*} (hash : κ → ℕ) (key : ε → κ)
    (batch : List ε) : List ε :=
  match batch with
  | [] => []
  | first :: rest =>
      let batch := first :: rest
      let unique := uniqueIndices hash (batch.map key) (key first)
      if unique.length = batch.length then batch
      else unique.filterMap fun row => batch[row]?

end Dedup

/-- The sink with deduplication: each batch of the stream is deduplicated and
written. -/
def SinkConfig.writeAll {V : Type*} [DecidableEq V] (config : SinkConfig V)
    (hash : config.Key → ℕ) (table : config.Table)
    (batches : List (List config.Event)) : config.Table :=
  batches.foldl
    (fun table batch =>
      config.processBatch table
        (deduplicateRecordBatch hash SinkConfig.Event.key batch))
    table

end Postgres

end Streamling
