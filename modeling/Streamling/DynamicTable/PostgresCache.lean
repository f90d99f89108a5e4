import Streamling.DynamicTable.KeySet

/-!
# The cached Postgres backend of a dynamic table

Any number of tasks call `append` and `contains` on one backend, while other
processes append to the same table.  Each query, each section under the read
lock and each access to the debounce clock is one step.  The write lock is
held from the second comparison of the watermarks over the whole load, so the
load is a sequence of steps with the lock taken.

A load reads the watermark and the keys from one snapshot, page by page.  The
table is append-only, its writers are serialized, and a commit is later than
all earlier ones.
-/

namespace Streamling

namespace DynamicTable

/-! ## The table and the cache -/

/-- A committed row. -/
structure Row where
  key : String
  time : ℕ
  deriving DecidableEq

/-- `SELECT MAX(time)`. -/
def latestUpdate (table : List Row) : Option ℕ :=
  (table.map Row.time).max?

/-- The keys a load selects. -/
def keysSince (table : List Row) (updatedSince : Option ℕ) : List String :=
  match updatedSince with
  | none => table.map Row.key
  | some time => (table.filter fun row => time < row.time).map Row.key

/-- The keys that an insert really adds. -/
def newKeys (table : List Row) (values : List String) : List String :=
  values.dedup.filter fun value => value ∉ table.map Row.key

/-- Times of a commit: later than every committed row. -/
def Later (table : List Row) (times : List ℕ) : Prop :=
  ∀ time ∈ times, ∀ row ∈ table, row.time < time

instance (table : List Row) (times : List ℕ) : Decidable (Later table times) :=
  inferInstanceAs (Decidable (∀ time ∈ times, ∀ row ∈ table, row.time < time))

structure PostgresDynamicTableCache where
  updatedAt : Option ℕ
  values : ArrowKeySet
  deriving DecidableEq

/-- Extend the cache by a load.  The watermark moves only if all keys were
entered. -/
def PostgresDynamicTableCache.append (cache : PostgresDynamicTableCache)
    (updatedAt : Option ℕ) (keys : List String) :
    PostgresDynamicTableCache × Bool :=
  let extended := cache.values.extendFrom keys
  if extended.2 then (⟨updatedAt, extended.1⟩, true)
  else (⟨cache.updatedAt, extended.1⟩, false)

structure BackendConfig where
  maxBatchSize : ℕ
  cacheRefreshDebounceMs : ℕ
  deriving DecidableEq

def CACHE_LOAD_PAGE_SIZE : ℕ := 1000

/-! ## Tasks -/

/-- Where a `contains` call stands.  `observed` is the watermark of its
freshness check. -/
inductive ContainsPhase where
  | begun
  | checked (populated : Bool)
  | claiming (populated : Bool) (nowMs last : ℕ)
  | storing (nowMs : ℕ)
  | probing
  | compared (observed : Option ℕ)
  | waiting (observed : Option ℕ)
  | loading (observed updatedSince : Option ℕ)
  | fetching (observed updatedSince updatedAt : Option ℕ)
      (keys rest : List String)
  | loaded (observed updatedSince updatedAt : Option ℕ) (keys : List String)
  | refreshed (observed : Option (Option ℕ))
  | answered (observed : Option (Option ℕ)) (result : List (Option Bool))
  | failed
  deriving DecidableEq

/-- Where an `append` call stands: its batches, each with whether its commit
was reported. -/
inductive AppendPhase where
  | committing (batches : List (List String × Bool))
  | committed
  | returned
  | failed
  deriving DecidableEq

/-- A record of the calls that are over: the keys of the appends that returned
success, and the watermarks that the answered `contains` calls observed. -/
structure Past where
  returned : List String
  observed : List ℕ
  deriving DecidableEq

/-- A task.  A `contains` call remembers which calls were over when it
began. -/
inductive Task where
  | contains (needles : List (Option String)) (before : Past)
      (phase : ContainsPhase)
  | append (values : List String) (phase : AppendPhase)
  deriving DecidableEq

/-- What the tasks share: the table, the cache with the holder of its write
lock, and the debounce clock.  No step depends on `past`. -/
structure Shared where
  table : List Row
  cache : Option PostgresDynamicTableCache
  writer : Option ℕ
  lastFreshnessCheckMs : ℕ
  past : Past
  deriving DecidableEq

structure Backend where
  shared : Shared
  tasks : ℕ → Option Task

def Backend.start (table : List Row) : Backend where
  shared :=
    { table := table
      cache := none
      writer := none
      lastFreshnessCheckMs := 0
      past := ⟨[], []⟩ }
  tasks := fun _ => none

section Steps

variable (config : BackendConfig)

/-- Consecutive pieces of a size, the last one with what is left. -/
def chunks (size : ℕ) (values : List String) : List (List String) :=
  (List.range ((values.length + size - 1) / size)).map fun i =>
    (values.drop (i * size)).take size

/-- The batches of an append.  Splitting into batches of size zero panics. -/
def appendBatches (values : List String) : Option (List (List String)) :=
  if values.length ≤ config.maxBatchSize then some [values]
  else if config.maxBatchSize = 0 then none
  else some (chunks config.maxBatchSize values)

/-- Whether the cache has the watermark. -/
def Shared.isFresh (s : Shared) (observed : Option ℕ) : Bool :=
  match s.cache with
  | none => false
  | some cache => cache.updatedAt = observed

/-- Record that an append returned. -/
def Shared.return (s : Shared) (values : List String) : Shared :=
  { s with past.returned := s.past.returned ++ values }

/-- Record that a `contains` call answered. -/
def Shared.answer (s : Shared) (observed : Option (Option ℕ)) : Shared :=
  { s with past.observed := s.past.observed ++ observed.join.toList }

/-- The end of a load: its keys enter the cache and the lock is released. -/
def Shared.publish (s : Shared) (updatedAt : Option ℕ)
    (keys : List String) : Shared × Bool :=
  match s.cache with
  | some cache =>
      let appended := cache.append updatedAt keys
      ({ s with cache := some appended.1, writer := none }, appended.2)
  | none =>
      let built := ArrowKeySet.fromKeys keys
      if built.2 then
        ({ s with cache := some ⟨updatedAt, built.1⟩, writer := none }, true)
      else ({ s with writer := none }, false)

/-- The next step of a `contains` call.  `succeeds` is the outcome of a query,
which is tried again if it fails, and `nowMs` the reading of the clock. -/
def containsStep (s : Shared) (id : ℕ) (needles : List (Option String))
    (succeeds : Bool) (nowMs : ℕ) :
    ContainsPhase → Option (Shared × ContainsPhase)
  | .begun =>
      if needles.all Option.isNone then
        some (s, .answered none (needles.map fun _ => none))
      else if s.writer = none then some (s, .checked s.cache.isSome)
      else none
  | .checked populated =>
      if config.cacheRefreshDebounceMs = 0 then some (s, .probing)
      else some (s, .claiming populated nowMs s.lastFreshnessCheckMs)
  | .claiming populated nowMs last =>
      if populated ∧ nowMs - last < config.cacheRefreshDebounceMs then
        some (s, .refreshed none)
      else if populated then
        if s.lastFreshnessCheckMs = last then
          some ({ s with lastFreshnessCheckMs := nowMs }, .storing nowMs)
        else some (s, .refreshed none)
      else some (s, .storing nowMs)
  | .storing nowMs =>
      some ({ s with lastFreshnessCheckMs := nowMs }, .probing)
  | .probing =>
      if succeeds then some (s, .compared (latestUpdate s.table))
      else some (s, .probing)
  | .compared observed =>
      if s.writer = none then
        if s.isFresh observed then some (s, .refreshed (some observed))
        else some (s, .waiting observed)
      else none
  | .waiting observed =>
      if s.writer = none then
        if s.isFresh observed then some (s, .refreshed (some observed))
        else
          some ({ s with writer := some id },
            .loading observed (s.cache.bind fun cache => cache.updatedAt))
      else none
  | .loading observed updatedSince =>
      if succeeds then
        some (s, .fetching observed updatedSince (latestUpdate s.table) []
          (keysSince s.table updatedSince))
      else some (s, .loading observed updatedSince)
  | .fetching observed updatedSince updatedAt keys rest =>
      if succeeds then
        if rest = [] then
          some (s, .loaded observed updatedSince updatedAt keys)
        else
          some (s, .fetching observed updatedSince updatedAt
            (keys ++ rest.take CACHE_LOAD_PAGE_SIZE)
            (rest.drop CACHE_LOAD_PAGE_SIZE))
      else some (s, .loading observed updatedSince)
  | .loaded observed _ updatedAt keys =>
      let published := s.publish updatedAt keys
      if published.2 then some (published.1, .refreshed (some observed))
      else some (published.1, .failed)
  | .refreshed observed =>
      if s.writer = none then
        match s.cache with
        | none => some (s, .failed)
        | some cache =>
            some (s.answer observed,
              .answered observed (cache.values.containsArray needles))
      else none
  | .answered _ _ => none
  | .failed => none

/-- The next step of an `append` call that is not a commit: when all batches
are committed, the keys are mirrored into the cache. -/
def appendStep (s : Shared) (values : List String) :
    AppendPhase → Option (Shared × AppendPhase)
  | .committing batches =>
      if batches.all Prod.snd then some (s, .committed) else none
  | .committed =>
      if s.writer = none then
        match s.cache with
        | none => some (s.return values, .returned)
        | some cache =>
            let extended := cache.values.extendFrom values
            let s :=
              { s with cache := some { cache with values := extended.1 } }
            if extended.2 then some (s.return values, .returned)
            else some (s, .failed)
      else none
  | .returned => none
  | .failed => none

/-- The commit of one batch of an append.  It may take place without being
reported, and the batch is then inserted again. -/
def commitBatch (s : Shared) (batch : ℕ) (times : List ℕ) (reported : Bool) :
    AppendPhase → Option (Shared × AppendPhase)
  | .committing batches =>
      match batches[batch]? with
      | some (values, false) =>
          let added := newKeys s.table values
          if times.length = added.length ∧ Later s.table times then
            some
              ({ s with table := s.table ++ List.zipWith Row.mk added times },
                .committing (batches.set batch (values, reported)))
          else none
      | _ => none
  | _ => none

/-- What can happen: a call begins, a task takes its next step, a batch
commits, a call fails or is dropped, another process commits rows. -/
inductive Action where
  | contains (id : ℕ) (needles : List (Option String))
  | append (id : ℕ) (values : List (Option String))
  | proceed (id : ℕ) (succeeds : Bool) (nowMs : ℕ)
  | commit (id batch : ℕ) (times : List ℕ) (reported : Bool)
  | fail (id : ℕ)
  | external (rows : List Row)

/-- Release the write lock if the task holds it. -/
def Shared.release (s : Shared) (id : ℕ) : Shared :=
  if s.writer = some id then { s with writer := none } else s

/-- The step of one task. -/
def taskStep (s : Shared) (id : ℕ) (task : Task) :
    Action → Option (Shared × Task)
  | .proceed _ succeeds nowMs =>
      match task with
      | .contains needles before phase =>
          (containsStep config s id needles succeeds nowMs phase).map
            fun (s, phase) => (s, .contains needles before phase)
      | .append values phase =>
          (appendStep s values phase).map
            fun (s, phase) => (s, .append values phase)
  | .commit _ batch times reported =>
      match task with
      | .contains _ _ _ => none
      | .append values phase =>
          (commitBatch s batch times reported phase).map
            fun (s, phase) => (s, .append values phase)
  | .fail _ =>
      match task with
      | .contains _ _ (.answered _ _) => none
      | .append _ .returned => none
      | .contains needles before _ =>
          some (s.release id, .contains needles before .failed)
      | .append values _ => some (s.release id, .append values .failed)
  | _ => none

/-- The task of a new call. -/
def newTask (s : Shared) : Action → Option Task
  | .contains _ needles => some (.contains needles s.past .begun)
  | .append _ values =>
      let values := values.reduceOption
      if values = [] then some (.append [] .returned)
      else
        match appendBatches config values with
        | none => some (.append values .failed)
        | some batches =>
            some (.append values
              (.committing (batches.map fun batch => (batch, false))))
  | _ => none

def Action.id : Action → Option ℕ
  | .contains id _ => some id
  | .append id _ => some id
  | .proceed id _ _ => some id
  | .commit id _ _ _ => some id
  | .fail id => some id
  | .external _ => none

/-- Run the action, on behalf of its task if it has one. -/
def Backend.step (b : Backend) (action : Action) : Option Backend :=
  match action with
  | .external rows =>
      if Later b.shared.table (rows.map Row.time) then
        some { b with
          shared := { b.shared with table := b.shared.table ++ rows } }
      else none
  | action => do
      let id ← action.id
      match b.tasks id with
      | none =>
          let task ← newTask config b.shared action
          return { b with tasks := Function.update b.tasks id (some task) }
      | some task =>
          let (shared, task) ← taskStep config b.shared id task action
          return ⟨shared, Function.update b.tasks id (some task)⟩

end Steps

end DynamicTable

end Streamling
