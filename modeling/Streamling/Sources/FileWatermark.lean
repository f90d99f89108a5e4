import Mathlib
import Streamling.Support.Run
import Streamling.Support.OrderedMap

/-!
# The watermark of the continuous file source

The continuous file source lists a path again and again and reads the files
it has not seen.  Its progress is a watermark over the files committed in the
order of their modification times and paths.  Partitions finish files out of
that order: a discovered file is outstanding until every file before it has
committed, and the files committed past one that has not are carried along
with the persisted watermark.

The boundary paths come out of a hash set, so their order is not modelled;
only membership in them matters.
-/

namespace Streamling

namespace FileSource

/-! ## File keys -/

/-- A file as progress records it, ordered by modification time and then by
path. -/
structure FileKey where
  lastModifiedMs : ℤ
  path : String

namespace FileKey

/-- The pair the keys are compared by. -/
def toPair (key : FileKey) : ℤ ×ₗ String :=
  toLex (key.lastModifiedMs, key.path)

theorem toPair_injective : Function.Injective toPair := by
  intro a b h
  have hpair : (a.lastModifiedMs, a.path) = (b.lastModifiedMs, b.path) :=
    toLex.injective h
  cases a
  cases b
  simpa using hpair

instance : LinearOrder FileKey := LinearOrder.lift' toPair toPair_injective

theorem lastModifiedMs_le_of_lt {a b : FileKey} (h : a < b) :
    a.lastModifiedMs ≤ b.lastModifiedMs := by
  have hlt : toPair a < toPair b := h
  rcases Prod.Lex.toLex_lt_toLex.mp hlt with hms | ⟨hms, -⟩
  · exact le_of_lt hms
  · exact le_of_eq hms

end FileKey

/-! ## The watermark -/

/-- The persisted position: the greatest modification time ingested, the
paths ingested at that time, and the files committed ahead of one still being
read. -/
structure FileWatermark where
  lastModifiedMs : ℤ
  boundaryPaths : List String
  committedAhead : List FileKey
  deriving DecidableEq

namespace FileWatermark

/-- The watermark accounts for a file: it is older, or was ingested at the
same time. -/
def covers (w : FileWatermark) (key : FileKey) : Bool :=
  decide (key.lastModifiedMs < w.lastModifiedMs) ||
    decide (key.lastModifiedMs = w.lastModifiedMs) &&
      w.boundaryPaths.contains key.path

/-- The least 64-bit time: nothing was ingested yet. -/
def initial : FileWatermark :=
  ⟨-2 ^ 63, [], []⟩

end FileWatermark

def advanceWatermark (w : FileWatermark) (maxSeen : ℤ)
    (newBoundary : List String) : FileWatermark :=
  if maxSeen = w.lastModifiedMs then
    { w with boundaryPaths := w.boundaryPaths ∪ newBoundary }
  else
    { w with lastModifiedMs := maxSeen, boundaryPaths := newBoundary }

/-! ## Progress -/

/-- The watermark of a run, the discovered files it does not cover yet with
whether they have committed, and whether the run has listed the path. -/
structure WatermarkProgress where
  committed : FileWatermark
  outstanding : OrderedMap FileKey Bool
  listed : Bool

namespace WatermarkProgress

def new (persisted : FileWatermark) : WatermarkProgress where
  committed := { persisted with committedAhead := [] }
  outstanding :=
    persisted.committedAhead.foldl (fun m file => m.insert file true) ∅
  listed := false

/-- Record a listing; the files not discovered before, in read order, are
those to read. -/
def discover (p : WatermarkProgress) (files : List FileKey) :
    WatermarkProgress × List FileKey :=
  let discovered :=
    (files.filter fun key =>
      !p.committed.covers key && (p.outstanding.find? key).isNone).insertionSort
        (· ≤ ·)
  ({ p with
      listed := true
      outstanding :=
        discovered.foldl (fun m key => m.insert key false) p.outstanding },
    discovered)

/-- Mark a file as committed, unless it is no longer outstanding. -/
def markCommitted (outstanding : OrderedMap FileKey Bool) (file : FileKey) :
    OrderedMap FileKey Bool :=
  if (outstanding.find? file).isSome then outstanding.insert file true
  else outstanding

/-- Fold a file into the watermark. -/
def fold (w : FileWatermark) (entry : FileKey × Bool) : FileWatermark :=
  advanceWatermark w entry.1.lastModifiedMs [entry.1.path]

/-- Fold the committed files at the front into the watermark. -/
def foldCommitted (p : WatermarkProgress) : WatermarkProgress :=
  { p with
    committed :=
      (p.outstanding.entries.takeWhile fun entry => entry.2).foldl fold
        p.committed
    outstanding := p.outstanding.dropWhile fun _ committed => committed }

/-- The value to persist. -/
def toWatermark (p : WatermarkProgress) : FileWatermark :=
  { p.committed with
    committedAhead :=
      (p.outstanding.entries.filter fun entry => entry.2).map Prod.fst }

/-- Commit files.  Nothing is folded before the first listing: a file the
last run left in flight is not outstanding until then. -/
def commit (p : WatermarkProgress) (files : List FileKey) :
    WatermarkProgress × FileWatermark :=
  let marked :=
    { p with outstanding := files.foldl markCommitted p.outstanding }
  let folded := if marked.listed then marked.foldCommitted else marked
  (folded, folded.toWatermark)

end WatermarkProgress

/-! ## Runs -/

/-- A sequence of runs, each started from the persisted watermark. -/
structure WatermarkRuns where
  progress : WatermarkProgress
  persisted : FileWatermark
  /-- The watermarks returned in the current run. -/
  returned : List FileWatermark
  /-- The files discovered and the files committed in the current run. -/
  discovered : List FileKey
  committed : List FileKey
  /-- The files committed before a watermark that was persisted. -/
  durable : List FileKey

namespace WatermarkRuns

def start : WatermarkRuns where
  progress := WatermarkProgress.new FileWatermark.initial
  persisted := FileWatermark.initial
  returned := []
  discovered := []
  committed := []
  durable := []

inductive Action where
  | discover (files : List FileKey)
  | commit (files : List FileKey)
  | persist
  | restart

def step (s : WatermarkRuns) : Action → Option WatermarkRuns
  | .discover files =>
      some
        { s with
          progress := (s.progress.discover files).1
          discovered := s.discovered ++ (s.progress.discover files).2 }
  | .commit files =>
      if ∀ file ∈ files, file ∈ s.discovered then
        some
          { s with
            progress := (s.progress.commit files).1
            returned := s.returned ++ [(s.progress.commit files).2]
            committed := s.committed ++ files }
      else none
  | .persist =>
      match s.returned.getLast? with
      | some w =>
          some
            { s with persisted := w, durable := s.durable ++ s.committed }
      | none => none
  | .restart =>
      some
        { s with
          progress := WatermarkProgress.new s.persisted
          returned := []
          discovered := []
          committed := [] }

end WatermarkRuns

end FileSource

end Streamling
