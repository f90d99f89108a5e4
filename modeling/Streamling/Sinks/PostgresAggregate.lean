import Mathlib
import Streamling.Support.Run

/-!
# The Postgres aggregation sink across restarts

Rows are inserted into a landing table whose key is the primary key together
with the operation, each tagged with the epoch of the last marker the sink has
seen.  A statement trigger adds the rows that were really inserted, and not
those that met an existing row, to the totals of the target table.  When a
checkpoint is finalized, the landing rows tagged with an earlier epoch are
removed.

A run of the process starts at the durable position, with the epochs starting
again, and may crash between any two steps.  The landing and target tables
outlive it.
-/

namespace Streamling

namespace PostgresAggregate

/-! ## Rows and aggregates -/

/-- The columns of a source row that the sink reads. -/
structure SourceRow (Key Group Column : Type) where
  primaryKey : Key
  op : String
  group : Group
  amount : Column → Option ℤ

/-- The key of the landing table. -/
def SourceRow.landingKey {Key Group Column : Type}
    (row : SourceRow Key Group Column) : Key × String :=
  (row.primaryKey, row.op)

/-- The aggregates that deltas are added up for. -/
inductive AggregateFn (Column : Type) where
  | count
  | sum (column : Column)
  deriving DecidableEq

/-- What a row adds to an aggregate, `NULL` where its column is. -/
def AggregateFn.rowValue {Key Group Column : Type} :
    AggregateFn Column → SourceRow Key Group Column → Option ℤ
  | .count, row =>
      some (if row.op = "d" then -1 else if row.op = "u" then 0 else 1)
  | .sum column, row =>
      (row.amount column).map fun v => if row.op = "d" then -v else v

/-- `SUM` of SQL: it passes over `NULL` and is `NULL` if nothing is left. -/
def sqlSum (values : List (Option ℤ)) : Option ℤ :=
  if values.reduceOption = [] then none else some values.reduceOption.sum

/-- The aggregates and, if there is no `group_by`, the sentinel key of the
one group. -/
structure AggregateConfig (Group Column : Type) where
  sentinel : Option Group
  aggregates : List (AggregateFn Column)
  aggregates_ne : aggregates ≠ []

/-- The target table: the aggregate columns of each group. -/
abbrev Target (Group : Type) : Type := Group → Option (List ℤ)

section Trigger

variable {Key Group Column : Type} [DecidableEq Group]
variable (config : AggregateConfig Group Column)

def AggregateConfig.groupOf (row : SourceRow Key Group Column) : Group :=
  config.sentinel.getD row.group

/-- The rows of a group. -/
def AggregateConfig.rowsOf (group : Group)
    (rows : List (SourceRow Key Group Column)) :
    List (SourceRow Key Group Column) :=
  rows.filter fun row => config.groupOf row = group

/-- The groups the trigger selects.  Without `GROUP BY` there is one row, also
for no rows at all. -/
def AggregateConfig.groups (newTable : List (SourceRow Key Group Column)) :
    List Group :=
  match config.sentinel with
  | some group => [group]
  | none => (newTable.map config.groupOf).dedup

/-- The selected aggregate columns of a group.  None of them may be `NULL`. -/
def AggregateConfig.delta (newTable : List (SourceRow Key Group Column))
    (group : Group) : Option (List ℤ) :=
  config.aggregates.mapM fun aggregate =>
    sqlSum ((config.rowsOf group newTable).map aggregate.rowValue)

/-- Insert the delta of one group or add it to the existing row. -/
def AggregateConfig.addDelta
    (newTable : List (SourceRow Key Group Column))
    (target : Target Group) (group : Group) : Option (Target Group) := do
  let delta ← config.delta newTable group
  let row :=
    match target group with
    | none => delta
    | some totals => List.zipWith (· + ·) totals delta
  return Function.update target group (some row)

/-- The trigger function, for the rows of its transition table.  If it fails,
the statement fails. -/
def AggregateConfig.trigger (target : Target Group)
    (newTable : List (SourceRow Key Group Column)) :
    Option (Target Group) :=
  (config.groups newTable).foldlM (config.addDelta newTable) target

end Trigger

/-! ## The database -/

section Database

variable (Key Group Column : Type)

/-- A row of the landing table. -/
structure LandingRow where
  row : SourceRow Key Group Column
  epoch : ℕ

/-- The tables, and the rows the trigger has been given so far. -/
structure Database where
  landing : Key × String → Option (LandingRow Key Group Column)
  target : Target Group
  inserted : List (SourceRow Key Group Column)

end Database

namespace Database

variable {Key Group Column : Type} [DecidableEq Key] [DecidableEq Group]

def empty : Database Key Group Column where
  landing := fun _ => none
  target := fun _ => none
  inserted := []

/-- `INSERT … ON CONFLICT DO UPDATE` into the landing table, with its
trigger.  The statement fails if the trigger does. -/
def insertRows (config : AggregateConfig Group Column) (epoch : ℕ)
    (rows : List (SourceRow Key Group Column))
    (db : Database Key Group Column) :
    Option (Database Key Group Column) := do
  let newTable := rows.filter fun row => (db.landing row.landingKey).isNone
  let target ← config.trigger db.target newTable
  let landing : Key × String → Option (LandingRow Key Group Column) :=
    rows.foldl
      (fun landing row =>
        Function.update landing row.landingKey (some ⟨row, epoch⟩))
      db.landing
  return ⟨landing, target, db.inserted ++ newTable⟩

/-- Remove the landing rows tagged with at most this epoch. -/
def truncateFinalizedCheckpointData (finalizedEpoch : ℕ)
    (db : Database Key Group Column) : Database Key Group Column :=
  { db with
    landing := fun key =>
      (db.landing key).filter fun row => finalizedEpoch < row.epoch }

end Database

/-! ## The process -/

/-- A checkpoint message in the metadata of a batch.  A marker comes with the
position its checkpoint saves. -/
inductive Message where
  | marker (epoch cut : ℕ)
  | finalizer (epoch : ℕ)
  deriving DecidableEq

def Message.asMarker : Message → Option (ℕ × ℕ)
  | .marker epoch cut => some (epoch, cut)
  | .finalizer _ => none

/-- A run of the process: the number of rows given to the sink, the epoch of
the sink, the messages of the last batch that are still to be handled, the
markers received, and the epochs acknowledged and finalized. -/
structure Process where
  position : ℕ
  epoch : ℕ
  unhandled : List Message
  markers : List (ℕ × ℕ)
  acked : List ℕ
  finalized : List ℕ
  deriving DecidableEq

/-- A fresh run, from the durable position. -/
def Process.startAt (position : ℕ) : Process where
  position := position
  epoch := 0
  unhandled := []
  markers := []
  acked := []
  finalized := []

/-- Messages the checkpoint protocol can put on a batch: epochs go up from
one, the position of a checkpoint is within the batch of its marker and no
earlier than that of an earlier one, and finalizers are of finalized
epochs. -/
def Process.Allows (p : Process) (rows : ℕ) (messages : List Message) :
    Prop :=
  (p.markers ++ messages.filterMap Message.asMarker).Pairwise
      (fun earlier later => earlier.1 < later.1 ∧ earlier.2 ≤ later.2) ∧
    (∀ marker ∈ messages.filterMap Message.asMarker,
      1 ≤ marker.1 ∧ p.position ≤ marker.2 ∧
        marker.2 ≤ p.position + rows) ∧
    ∀ message ∈ messages,
      match message with
      | .marker _ _ => True
      | .finalizer epoch => epoch ∈ p.finalized

instance (p : Process) (rows : ℕ) (messages : List Message) :
    Decidable (p.Allows rows messages) :=
  have : ∀ message : Message, Decidable
      (match message with
        | .marker _ _ => True
        | .finalizer epoch => epoch ∈ p.finalized) := fun message =>
    match message with
    | .marker _ _ => isTrue trivial
    | .finalizer epoch =>
        inferInstanceAs (Decidable (epoch ∈ p.finalized))
  inferInstanceAs (Decidable (_ ∧ _ ∧ _))

/-- The sink, its database and the durable position. -/
structure Sink (Key Group Column : Type) where
  db : Database Key Group Column
  durable : ℕ
  process : Process

/-- The steps.  Handling a finalizer may fail to truncate, which is only
logged. -/
inductive Action where
  | batch (rows : ℕ) (messages : List Message)
  | handle (succeeds : Bool)
  | finalize (epoch : ℕ)
  | crash

namespace Sink

variable {Key Group Column : Type}

def start : Sink Key Group Column where
  db := Database.empty
  durable := 0
  process := Process.startAt 0

section

variable [DecidableEq Key] [DecidableEq Group]
variable (config : AggregateConfig Group Column)
variable (events : List (SourceRow Key Group Column))

/-- Process a batch of the next rows: its markers set the epoch, then the
rows are written with it. -/
def processBatch (s : Sink Key Group Column) (rows : ℕ)
    (messages : List Message) : Option (Sink Key Group Column) :=
  let p := s.process
  let markers := messages.filterMap Message.asMarker
  if p.unhandled = [] ∧ p.position + rows ≤ events.length ∧
      p.Allows rows messages then do
    let epoch := (markers.getLast?.map Prod.fst).getD p.epoch
    let db ←
      if rows = 0 then some s.db
      else
        s.db.insertRows config epoch ((events.drop p.position).take rows)
    let process :=
      { p with
        position := p.position + rows
        epoch := epoch
        unhandled := messages
        markers := p.markers ++ markers }
    return { s with db := db, process := process }
  else none

/-- Handle the next message: acknowledge a marker, truncate for a
finalizer. -/
def handleMessage (s : Sink Key Group Column) (succeeds : Bool) :
    Option (Sink Key Group Column) :=
  match s.process.unhandled with
  | [] => none
  | .marker epoch _ :: rest =>
      some
        { s with
          process :=
            { s.process with
              unhandled := rest
              acked := s.process.acked ++ [epoch] } }
  | .finalizer epoch :: rest =>
      some
        { s with
          db :=
            if 0 < epoch ∧ succeeds then
              s.db.truncateFinalizedCheckpointData (epoch - 1)
            else s.db
          process := { s.process with unhandled := rest } }

/-- The coordinator finalizes an acknowledged epoch, later than those it has
finalized: its position becomes durable. -/
def finalize (s : Sink Key Group Column) (epoch : ℕ) :
    Option (Sink Key Group Column) :=
  if epoch ∈ s.process.acked ∧ ∀ other ∈ s.process.finalized, other < epoch
  then
    match s.process.markers.find? fun marker => marker.1 = epoch with
    | none => none
    | some marker =>
        some
          { s with
            durable := marker.2
            process :=
              { s.process with
                finalized := s.process.finalized ++ [epoch] } }
  else none

def step (s : Sink Key Group Column) :
    Action → Option (Sink Key Group Column)
  | .batch rows messages => s.processBatch config events rows messages
  | .handle succeeds => s.handleMessage succeeds
  | .finalize epoch => s.finalize epoch
  | .crash => some { s with process := Process.startAt s.durable }

end

end Sink

end PostgresAggregate

end Streamling
