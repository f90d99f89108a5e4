import Mathlib
import Streamling.Support.Run
import Streamling.Support.Tiling
import Streamling.Sources.ClickHouseScan

/-!
# How the range controller sizes its ranges

The widths that the scan leaves open as candidates are computed here from the
rows, bytes, times and counts the controller is told of.  The products of the
source are read as exact rationals, and its casts to integers truncate toward
zero.

The second half drives the controller over a table given by the rows and
bytes of each key: count-first sizing, the page query, and the response to a
page that overflows or times out.  Count probes are exact here.
-/

namespace Streamling

namespace ClickHouse

/-- The cast of a product to an integer: truncation toward zero. -/
def truncate (q : ℚ) : ℤ :=
  if 0 ≤ q then ⌊q⌋ else ⌈q⌉

/-- The range controller with the limits its sizing rules read.  Times are in
nanoseconds. -/
structure SizedController extends ScanController where
  pageSize : ℕ
  maxPageBytes : ℕ
  softTimeBudget : ℕ
  deriving DecidableEq

namespace SizedController

/-- Fraction of `maxPageBytes` that byte sizing targets. -/
def BYTE_TARGET_RATIO : ℚ := 9 / 10

/-- Fraction of `pageSize` that a probed resize targets. -/
def rowTargetRatio : ℚ := 9 / 10

def new (pageSize maxPageBytes : ℕ) (rangeStart maxKey initialWidth
    maxWidth : ℤ) (softTimeBudget : ℕ) : SizedController where
  toScanController :=
    ScanController.clampWidth
      { rangeStart := rangeStart
        width := initialWidth
        maxKey := maxKey
        maxWidth := maxWidth } initialWidth
  pageSize := pageSize
  maxPageBytes := maxPageBytes
  softTimeBudget := softTimeBudget

/-- Set the width to a candidate, clamped. -/
def setWidth (c : SizedController) (candidate : ℤ) : SizedController :=
  { c with toScanController := c.toScanController.clampWidth candidate }

/-- The width of the range after a completed one: grow toward `pageSize` rows,
at most by the ceiling, and no further than the time and the bytes of the
completed page allow. -/
def grownWidth (growCeiling : ℚ) (c : SizedController)
    (rows elapsed bytes : ℕ) : ℚ :=
  let rowMult : ℚ := min (c.pageSize / (max rows 1 : ℕ)) growCeiling
  let candidate : ℚ := c.width * rowMult
  let candidate :=
    if elapsed = 0 then candidate
    else min candidate (c.width * (c.softTimeBudget / elapsed))
  if 0 < bytes ∧ 0 < c.width then
    let bytesPerWidth : ℚ := bytes / c.width
    min candidate (c.maxPageBytes * BYTE_TARGET_RATIO / bytesPerWidth)
  else candidate

/-- A page was fully consumed: advance past its range and size the next. -/
def onComplete (growCeiling : ℚ) (c : SizedController)
    (rows elapsed bytes : ℕ) : SizedController :=
  { c with
    toScanController := c.toScanController.onComplete
      (truncate (c.grownWidth growCeiling rows elapsed bytes)) }

/-- A page overflowed the row tripwire. -/
def onOverflow (c : SizedController) (probedCount : Option ℕ) :
    SizedController :=
  match probedCount.filter (0 < ·) with
  | some count => c.setWidth (truncate (c.width * (c.pageSize / count)))
  | none => c.setWidth (c.width / 2)

/-- A page overflowed the byte guard. -/
def onByteOverflow (c : SizedController) (observedBytes : ℕ) :
    SizedController :=
  let target : ℚ := c.maxPageBytes * BYTE_TARGET_RATIO
  if 0 < observedBytes then
    c.setWidth (truncate (c.width * (target / observedBytes)))
  else c.setWidth (c.width / 2)

/-- The width at which the next range holds about `rowTargetRatio` of a
page, from the exact count of the range. -/
def rowSafe (c : SizedController) (count : ℕ) : ℚ :=
  c.width * (rowTargetRatio * c.pageSize / count)

/-- The same for the bytes of a page, from the bytes of the rows read and the
exact count of the range. -/
def byteSafe (c : SizedController) (count observedBytes : ℕ) : ℚ :=
  let sampledRows : ℚ := min (count : ℚ) (c.pageSize + 1)
  let bytesPerRow : ℚ :=
    if 0 < observedBytes then observedBytes / sampledRows else 0
  if 0 < bytesPerRow ∧ 0 < c.width then
    let bytesPerWidth : ℚ := count / c.width * bytesPerRow
    BYTE_TARGET_RATIO * c.maxPageBytes / bytesPerWidth
  else c.rowSafe count

/-- A page overflowed, and the caller probed the count of its range. -/
def onOverflowProbed (c : SizedController) (count : Option ℕ)
    (observedBytes : ℕ) : SizedController :=
  match count.filter (0 < ·) with
  | none =>
      if c.maxPageBytes < observedBytes then c.onByteOverflow observedBytes
      else c.onOverflow none
  | some count =>
      c.setWidth
        (truncate (min (c.rowSafe count) (c.byteSafe count observedBytes)))

/-- Count-first sizing, before a range is read.  The flag says whether the
range fits as it is. -/
def shrinkToFitCount (c : SizedController) (count : ℕ) :
    Bool × SizedController :=
  if count ≤ c.pageSize then (true, c)
  else (false, c.setWidth (truncate (c.rowSafe count)))

def onTimeout (c : SizedController) : SizedController :=
  c.onOverflow none

end SizedController

/-! ## Calls of the controller -/

/-- A call that changes the controller. -/
inductive RangeCall where
  | onComplete (rows elapsed bytes : ℕ)
  | onOverflowProbed (count : Option ℕ) (observedBytes : ℕ)
  | shrinkToFitCount (count : ℕ)
  | onTimeout

/-- A controller and the ranges completed so far. -/
structure Paging where
  controller : SizedController
  completed : List (ℤ × ℤ)

namespace Paging

def start (controller : SizedController) : Paging where
  controller := controller
  completed := []

/-- Perform a call; `onComplete` completes the current range. -/
def perform (growCeiling : ℚ) (p : Paging) : RangeCall → Paging
  | .onComplete rows elapsed bytes =>
      { controller := p.controller.onComplete growCeiling rows elapsed bytes
        completed := p.completed ++ [p.controller.currentRange] }
  | .onOverflowProbed count observedBytes =>
      { p with
        controller := p.controller.onOverflowProbed count observedBytes }
  | .shrinkToFitCount count =>
      { p with controller := (p.controller.shrinkToFitCount count).2 }
  | .onTimeout => { p with controller := p.controller.onTimeout }

end Paging

/-! ## The loop that drives it -/

/-- The rows and bytes of a table at each key. -/
structure KeyTable where
  rows : ℤ → ℕ
  bytes : ℤ → ℕ

namespace KeyTable

/-- What a table holds in the half-open range of keys. -/
def total (amount : ℤ → ℕ) (lo hi : ℤ) : ℕ :=
  ((List.range (hi - lo).toNat).map fun (offset : ℕ) =>
    amount (lo + offset)).sum

def fetchCount (table : KeyTable) (range : ℤ × ℤ) : ℕ :=
  total table.rows range.1 range.2

def rangeBytes (table : KeyTable) (range : ℤ × ℤ) : ℕ :=
  total table.bytes range.1 range.2

/-- A page query with this limit can return rows of this size: all the bytes
of the range, unless the limit cuts it off. -/
def ReadsBytes (table : KeyTable) (range : ℤ × ℤ) (limit bytes : ℕ) : Prop :=
  bytes ≤ table.rangeBytes range ∧
    (table.fetchCount range ≤ limit → bytes = table.rangeBytes range)

instance (table : KeyTable) (range : ℤ × ℤ) (limit bytes : ℕ) :
    Decidable (table.ReadsBytes range limit bytes) :=
  inferInstanceAs (Decidable (_ ∧ _))

end KeyTable

inductive DrivePhase where
  | loopTop
  | probing
  | reading
  | overflowed (bytes : ℕ)
  | ended
  deriving DecidableEq

/-- The loop over the pages: the controller's calls and where it stands. -/
structure Drive where
  paging : Paging
  phase : DrivePhase

/-- The steps of the loop.  A query returns a page, times out, or fails and
is retried. -/
inductive DriveAction where
  | enterPage
  | countProbe
  | readPage (bytes elapsed : ℕ)
  | timedOut
  | failed
  | overflowProbe
  deriving DecidableEq

namespace Drive

def start (controller : SizedController) : Drive where
  paging := Paging.start controller
  phase := .loopTop

def controller (d : Drive) : SizedController :=
  d.paging.controller

/-- The limit of the page query, one more than a page as a 64-bit sum. -/
def pageLimit (d : Drive) : ℕ :=
  (d.controller.pageSize + 1) % 2 ^ 64

section

variable (growCeiling : ℚ) (table : KeyTable)

/-- One round of count-first sizing. -/
def countProbe (d : Drive) : Drive :=
  let count := table.fetchCount d.controller.currentRange
  if d.controller.atMinWidth then { d with phase := .reading }
  else if d.controller.pageSize < count then
    { d with
      paging := d.paging.perform growCeiling (.shrinkToFitCount count) }
  else { d with phase := .reading }

/-- A page was read: it overflows or completes its range. -/
def readPage (d : Drive) (bytes elapsed : ℕ) : Drive :=
  let rows := min (table.fetchCount d.controller.currentRange) d.pageLimit
  if d.controller.pageSize < rows ∨ d.controller.maxPageBytes < bytes then
    if d.controller.atMinWidth then { d with phase := .ended }
    else { d with phase := .overflowed bytes }
  else
    { paging :=
        d.paging.perform growCeiling (.onComplete rows elapsed bytes)
      phase := .loopTop }

/-- Probe the count of the range that overflowed and shrink it. -/
def overflowProbe (d : Drive) (bytes : ℕ) : Drive where
  paging := d.paging.perform growCeiling
    (.onOverflowProbed (some (table.fetchCount d.controller.currentRange))
      bytes)
  phase := .loopTop

def step (d : Drive) : DriveAction → Option Drive
  | .enterPage =>
      match d.phase with
      | .loopTop =>
          if d.controller.isDone then some { d with phase := .ended }
          else some { d with phase := .probing }
      | _ => none
  | .countProbe =>
      match d.phase with
      | .probing => some (d.countProbe growCeiling table)
      | _ => none
  | .readPage bytes elapsed =>
      match d.phase with
      | .reading =>
          if table.ReadsBytes d.controller.currentRange d.pageLimit bytes
          then some (d.readPage growCeiling table bytes elapsed)
          else none
      | _ => none
  | .timedOut =>
      match d.phase with
      | .reading =>
          some
            { paging := d.paging.perform growCeiling .onTimeout
              phase := .loopTop }
      | _ => none
  | .failed =>
      match d.phase with
      | .reading => some { d with phase := .loopTop }
      | _ => none
  | .overflowProbe =>
      match d.phase with
      | .overflowed bytes => some (d.overflowProbe growCeiling table bytes)
      | _ => none

end

end Drive

end ClickHouse

end Streamling
