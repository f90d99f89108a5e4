import Streamling.Sources.ClickHouse

/-!
# The scan loop of the ClickHouse source

The scan reads a table that does not change in half-open ranges of its first
sorting key, from key zero (there is neither a `start_at` nor a saved cursor)
until the cursor passes the greatest key.  Before a range is read, count
probes shrink it to about one page; a range that overflows the page limits or
times out is shrunk and read again, and only a completed page moves the
cursor.

Widths computed with floating-point products are left to the run: each step
that sizes a range takes the computed width as a candidate, which the
controller clamps.  So are the outcomes of the queries, up to what ClickHouse
promises: a page holds rows its query selects, as many as the limit allows.
-/

namespace Streamling

namespace ClickHouse

/-- The types accepted for the first sorting key. -/
def KeyType.isWideInteger : KeyType → Bool
  | .int32 | .int64 | .uint32 | .uint64 => true
  | .int8 | .int16 | .uint8 | .uint16 => false

/-! ## The page query -/

inductive Comparison where
  | less | equal | atLeast
  deriving DecidableEq

/-- A comparison of a column with a value, as it stands in the query. -/
structure Condition where
  column : String
  comparison : Comparison
  value : ℤ
  deriving DecidableEq

def Condition.holds (columns : String → ℤ) (c : Condition) : Bool :=
  match c.comparison with
  | .less => decide (columns c.column < c.value)
  | .equal => decide (columns c.column = c.value)
  | .atLeast => decide (c.value ≤ columns c.column)

/-- The unwound comparison of the sorting keys with a keyset: one of the
conjunctions holds. -/
def buildKeysetConditions (sortingKeys : List String) (keyset : List ℤ) :
    List (List Condition) :=
  let pairs := sortingKeys.zip keyset
  (List.range pairs.length).map fun i =>
    (pairs.take i).map (fun pair => ⟨pair.1, .equal, pair.2⟩) ++
      ((pairs.drop i).take 1).map fun pair => ⟨pair.1, .atLeast, pair.2⟩

/-- The pagination state of the query builder. -/
structure QueryBuilder where
  sortingKeys : List String
  currentKeyset : Option (List ℤ)
  sortKeyRangeUpperBound : Option ℤ

/-- What pagination adds to the `WHERE` clause: an upper bound, and a
disjunction left out when it is empty. -/
structure PageBounds where
  upperBound : Option Condition
  keyset : List (List Condition)

def QueryBuilder.rebuildQuery (b : QueryBuilder) : PageBounds where
  upperBound := do
    let value ← b.sortKeyRangeUpperBound
    let column ← b.sortingKeys.head?
    return ⟨column, .less, value⟩
  keyset :=
    match b.currentKeyset with
    | some keyset => buildKeysetConditions b.sortingKeys keyset
    | none => []

/-- Whether a row with these columns is within the bounds. -/
def PageBounds.hold (bounds : PageBounds) (columns : String → ℤ) : Bool :=
  bounds.upperBound.all (Condition.holds columns) &&
    (bounds.keyset.isEmpty ||
      bounds.keyset.any fun conditions =>
        conditions.all (Condition.holds columns))

/-! ## The controller with its limits -/

/-- The range controller and the greatest width it may choose. -/
structure ScanController extends RangeController where
  maxWidth : ℤ
  deriving DecidableEq

namespace ScanController

def atMinWidth (c : ScanController) : Bool :=
  decide (c.width ≤ RangeController.MIN_WIDTH)

/-- Clamp a computed width. -/
def clampWidth (c : ScanController) (candidate : ℤ) : ScanController :=
  { c with width := max RangeController.MIN_WIDTH (min candidate c.maxWidth) }

/-- Halve the width: a row overflow without a count. -/
def halve (c : ScanController) : ScanController :=
  c.clampWidth (c.width / 2)

def onTimeout (c : ScanController) : ScanController :=
  c.halve

def shrinkToFitCount (c : ScanController) (pageSize count : ℕ)
    (candidate : ℤ) : ScanController :=
  if count ≤ pageSize then c else c.clampWidth candidate

/-- Shrink after an overflow.  Without a count, an overflow by rows alone
halves the width; else the width is computed from the densities. -/
def onOverflowProbed (c : ScanController) (maxPageBytes : ℕ)
    (count : Option ℕ) (observedBytes : ℕ) (candidate : ℤ) :
    ScanController :=
  match count.filter (0 < ·) with
  | none =>
      if maxPageBytes < observedBytes then c.clampWidth candidate
      else c.halve
  | some _ => c.clampWidth candidate

/-- Advance past the range just read and size the next one. -/
def onComplete (c : ScanController) (candidate : ℤ) : ScanController :=
  clampWidth { c with rangeStart := c.rangeStart + c.width } candidate

end ScanController

/-! ## The table and the configuration -/

/-- A table and the configuration of a source over it.  The rows of a page
pass through `dedup` when a version column was inferred; it may fail. -/
structure ScanConfig (Row : Type*) where
  keyType : KeyType
  wide : keyType.isWideInteger = true
  firstSortingKey : String
  otherSortingKeys : List String
  column : Row → String → ℤ
  rows : List Row
  key_mem : ∀ row ∈ rows, keyType.min ≤ column row firstSortingKey ∧
    column row firstSortingKey ≤ keyType.max
  whereClause : Option (Row → Bool)
  pageSize : ℕ
  one_le_pageSize : 1 ≤ pageSize
  pageSize_lt : pageSize < 2 ^ 64
  sortKeyRange : Option ℤ
  recordBatchSize : ℕ
  dedup : Option (List Row → Option (List Row))

namespace ScanConfig

variable {Row : Type*}

def DEFAULT_SORT_KEY_RANGE : ℤ := 1000000

def MIN_SORT_KEY_RANGE : ℤ := 100

/-- Half of the greatest 32-bit offset. -/
def MAX_PAGE_BYTES : ℕ := (2 ^ 31 - 1) / 2

/-- The first sorting key of a row. -/
def key (config : ScanConfig Row) (row : Row) : ℤ :=
  config.column row config.firstSortingKey

/-- The rows of the table that match the filter. -/
def matchingRows (config : ScanConfig Row) : List Row :=
  match config.whereClause with
  | some filter => config.rows.filter filter
  | none => config.rows

/-- `SELECT max(key)`, with zero for an empty table. -/
def maxKey (config : ScanConfig Row) : ℤ :=
  (config.rows.map config.key).max?.getD 0

/-- The configured width of the first range, at least the minimum. -/
def sortKeyRangeWidth (config : ScanConfig Row) : Option ℤ :=
  config.sortKeyRange.map fun width => max width MIN_SORT_KEY_RANGE

/-- Where the scan starts: no cursor has been saved. -/
def scanStart : ℤ :=
  SourceSplit.rangeStart ⟨none⟩

def maxWidth (config : ScanConfig Row) : ℤ :=
  max (config.maxKey - scanStart)
    (config.sortKeyRangeWidth.getD DEFAULT_SORT_KEY_RANGE)

def probeSpan (config : ScanConfig Row) : ℤ :=
  min (max (config.maxKey - scanStart + 1) 1) DEFAULT_SORT_KEY_RANGE

/-- The matching rows whose key is in a range. -/
def rowsWithin (config : ScanConfig Row) (lo hi : ℤ) : List Row :=
  config.matchingRows.filter fun row =>
    decide (lo ≤ config.key row) && decide (config.key row < hi)

/-- The number of matching rows in a range, whose bounds are not cast. -/
def fetchCount (config : ScanConfig Row) (lo hi : ℤ) : ℕ :=
  (config.rowsWithin lo hi).length

/-- The width of the first range. -/
def initialRangeWidth (config : ScanConfig Row) (probedCount : Option ℕ)
    (candidate : ℤ) : ℤ :=
  match config.sortKeyRangeWidth with
  | some width => width
  | none =>
      match probedCount with
      | none => MIN_SORT_KEY_RANGE
      | some 0 => config.probeSpan
      | some (_ + 1) => candidate

/-- The bounds sent for a range, cast back to the type of the key. -/
def pageBounds (config : ScanConfig Row) (lo hi : ℤ) : PageBounds :=
  QueryBuilder.rebuildQuery
    { sortingKeys := config.firstSortingKey :: config.otherSortingKeys
      currentKeyset := some [i128ToScalarLike lo config.keyType]
      sortKeyRangeUpperBound := some (i128ToScalarLike hi config.keyType) }

/-- The limit of the page query, a 64-bit sum. -/
def pageLimit (config : ScanConfig Row) : ℕ :=
  (config.pageSize + 1) % 2 ^ 64

/-- The rows the page query for a range selects, before its limit. -/
def selectedRows (config : ScanConfig Row) (lo hi : ℤ) : List Row :=
  config.matchingRows.filter fun row =>
    (config.pageBounds lo hi).hold (config.column row)

/-- The page query for a range can return these rows: rows it selects, in any
order, and as many as the limit allows. -/
def Returns (config : ScanConfig Row) (lo hi : ℤ) (page : List Row) :
    Prop :=
  page.Subperm (config.selectedRows lo hi) ∧
    page.length = min config.pageLimit (config.selectedRows lo hi).length

instance [DecidableEq Row] (config : ScanConfig Row) (lo hi : ℤ)
    (page : List Row) : Decidable (config.Returns lo hi page) :=
  inferInstanceAs (Decidable (_ ∧ _))

/-- What is left of the rows of a page when they are emitted. -/
def survivors (config : ScanConfig Row) (page : List Row) :
    Option (List Row) :=
  match page with
  | [] => some []
  | row :: rest =>
      match config.dedup with
      | none => some (row :: rest)
      | some dedup => dedup (row :: rest)

/-- The batches to emit for a page; deduplication makes them one. -/
def emitBatches (config : ScanConfig Row) (batches : List (List Row)) :
    Option (List (List Row)) :=
  match config.dedup with
  | none => some batches
  | some _ => (config.survivors batches.flatten).map fun rows => [rows]

end ScanConfig

/-! ## The scan -/

/-- Where the scan stands.  While a page is emitted: its rows and the chunks
sent and still to be sent. -/
inductive ScanPhase (Row : Type*) where
  | setup
  | loopTop
  | probing
  | querying
  | overflowed (bytes : ℕ)
  | emitting (rows : List Row) (sent unsent : List (List Row))
  | ended (errorSent : Bool)
  deriving DecidableEq

/-- A completed page: the rows read and the chunks emitted for them. -/
structure Page (Row : Type*) where
  rows : List Row
  chunks : List (List Row)
  deriving DecidableEq

structure Scan (Row : Type*) where
  controller : ScanController
  phase : ScanPhase Row
  /-- The ranges a page query was sent for. -/
  queries : List (ℤ × ℤ)
  completed : List (Page Row)
  emitted : List (List Row)
  deriving DecidableEq

/-- How a page query ends: with a timeout, another failure, a response that
breaks off with an error, or rows and their size in bytes. -/
inductive QueryOutcome (Row : Type*) where
  | timedOut
  | failed
  | broken
  | page (batches : List (List Row)) (bytes : ℕ)

inductive ScanAction (Row : Type*) where
  | setup (probeFails : Bool) (candidate : ℤ)
  | enterPage (shutdown : Bool)
  | countProbe (fails : Bool) (candidate : ℤ)
  | query (outcome : QueryOutcome Row)
  | overflowProbe (fails : Bool) (candidate : ℤ)
  | send (receiverDropped : Bool)
  | complete (candidate : ℤ)

namespace Scan

variable {Row : Type*}

def start (config : ScanConfig Row) : Scan Row where
  controller :=
    { rangeStart := ScanConfig.scanStart
      width := RangeController.MIN_WIDTH
      maxKey := config.maxKey
      maxWidth := config.maxWidth }
  phase := .setup
  queries := []
  completed := []
  emitted := []

/-- Size the first range, with a count probe unless the width is
configured. -/
def setup (config : ScanConfig Row) (s : Scan Row) (probeFails : Bool)
    (candidate : ℤ) : Scan Row :=
  let lo := s.controller.rangeStart
  let probedCount :=
    if probeFails then none
    else some (config.fetchCount lo (lo + config.probeSpan))
  { s with
    controller :=
      s.controller.clampWidth
        (config.initialRangeWidth probedCount candidate)
    phase := .loopTop }

/-- The loop condition, and then a look at the shutdown signal. -/
def enterPage (s : Scan Row) (shutdown : Bool) : Scan Row :=
  if s.controller.isDone then { s with phase := .ended false }
  else if shutdown then { s with phase := .ended false }
  else { s with phase := .probing }

/-- One round of count-first sizing. -/
def countProbe (config : ScanConfig Row) (s : Scan Row) (fails : Bool)
    (candidate : ℤ) : Scan Row :=
  let range := s.controller.currentRange
  let count := config.fetchCount range.1 range.2
  if s.controller.atMinWidth ∨ fails ∨ count ≤ config.pageSize then
    { s with phase := .querying }
  else
    { s with
      controller :=
        s.controller.shrinkToFitCount config.pageSize count candidate }

/-- A page was read: it overflows, fails to be deduplicated, or is emitted. -/
def readPage [DecidableEq Row] (config : ScanConfig Row) (s : Scan Row)
    (batches : List (List Row)) (bytes : ℕ) : Option (Scan Row) :=
  let range := s.controller.currentRange
  if config.Returns range.1 range.2 batches.flatten then
    if config.pageSize < batches.flatten.length ∨
        ScanConfig.MAX_PAGE_BYTES < bytes then
      if s.controller.atMinWidth then some { s with phase := .ended true }
      else some { s with phase := .overflowed bytes }
    else
      match config.emitBatches batches with
      | none => some { s with phase := .ended true }
      | some emitted =>
          some
            { s with
              phase := .emitting batches.flatten []
                (pageChunks emitted config.recordBatchSize) }
  else none

/-- Send the query for the current range.  A timeout halves the range. -/
def query [DecidableEq Row] (config : ScanConfig Row) (s : Scan Row)
    (outcome : QueryOutcome Row) : Option (Scan Row) :=
  let s := { s with queries := s.queries ++ [s.controller.currentRange] }
  match outcome with
  | .timedOut =>
      some
        { s with controller := s.controller.onTimeout, phase := .loopTop }
  | .failed => some { s with phase := .loopTop }
  | .broken => some { s with phase := .ended true }
  | .page batches bytes => s.readPage config batches bytes

/-- Shrink an overflowed range; it is read again. -/
def overflowProbe (config : ScanConfig Row) (s : Scan Row) (bytes : ℕ)
    (fails : Bool) (candidate : ℤ) : Scan Row :=
  let range := s.controller.currentRange
  let count :=
    if fails then none else some (config.fetchCount range.1 range.2)
  { s with
    controller :=
      s.controller.onOverflowProbed ScanConfig.MAX_PAGE_BYTES count bytes
        candidate
    phase := .loopTop }

def step [DecidableEq Row] (config : ScanConfig Row) (s : Scan Row) :
    ScanAction Row → Option (Scan Row)
  | .setup probeFails candidate =>
      match s.phase with
      | .setup => some (s.setup config probeFails candidate)
      | _ => none
  | .enterPage shutdown =>
      match s.phase with
      | .loopTop => some (s.enterPage shutdown)
      | _ => none
  | .countProbe fails candidate =>
      match s.phase with
      | .probing => some (s.countProbe config fails candidate)
      | _ => none
  | .query outcome =>
      match s.phase with
      | .querying => s.query config outcome
      | _ => none
  | .overflowProbe fails candidate =>
      match s.phase with
      | .overflowed bytes =>
          some (s.overflowProbe config bytes fails candidate)
      | _ => none
  | .send receiverDropped =>
      match s.phase with
      | .emitting rows sent (chunk :: unsent) =>
          if receiverDropped then some { s with phase := .ended false }
          else
            some
              { s with
                phase := .emitting rows (sent ++ [chunk]) unsent
                emitted := s.emitted ++ [chunk] }
      | _ => none
  | .complete candidate =>
      match s.phase with
      | .emitting rows sent [] =>
          some
            { s with
              controller := s.controller.onComplete candidate
              completed := s.completed ++ [⟨rows, sent⟩]
              phase := .loopTop }
      | _ => none

/-! ## Coverage -/

/-- The bounds sent for a range select exactly the keys of the range. -/
def SelectsRange (config : ScanConfig Row) (range : ℤ × ℤ) : Prop :=
  ∀ columns : String → ℤ,
    config.keyType.min ≤ columns config.firstSortingKey →
    columns config.firstSortingKey ≤ config.keyType.max →
    ((config.pageBounds range.1 range.2).hold columns = true ↔
      range.1 ≤ columns config.firstSortingKey ∧
        columns config.firstSortingKey < range.2)

/-- The scan has covered the table: every query selected exactly the keys of
its range, all that was emitted belongs to completed pages, the chunks of a
page are what is left of its rows, and every matching row is in exactly one
completed page. -/
structure Covers (config : ScanConfig Row) (s : Scan Row) : Prop where
  selects : ∀ range ∈ s.queries, SelectsRange config range
  emitted : s.emitted = s.completed.flatMap Page.chunks
  chunks : ∀ page ∈ s.completed,
    config.survivors page.rows = some page.chunks.flatten
  rows : (s.completed.flatMap Page.rows).Perm config.matchingRows

end Scan

end ClickHouse

end Streamling
