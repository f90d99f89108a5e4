import Mathlib
import Streamling.Support.Run
import Streamling.Support.OrderedMap
import Streamling.Checkpoints.Message
import Streamling.Sources.FileWatermark

/-!
# The progress tracker of the file source

The partitions of a scan share one tracker.  It keeps, for each partition,
the files emitted but not persisted yet, and the number of files emitted when
the partition drained an epoch's marker.  Persisting an epoch commits the
files before its marker to the progress, puts the result in the state
backend, and then drains them; a lock is held from the commit to the end of
the put, while the partitions go on emitting.

The tracker is parameterized by the type of files and by the progress they
are committed to.  Besides the state of the source, a run records what every
partition did and which persists were attempted, in terms that do not depend
on the tracker's own bookkeeping.
-/

namespace Streamling

namespace FileSource

/-- A read mode's progress: committing files gives the value to persist. -/
structure Progress (File σ ν : Type*) where
  commit : σ → List File → σ × ν

/-- The progress of continuous discovery. -/
def watermarkProgress : Progress FileKey WatermarkProgress FileWatermark where
  commit := WatermarkProgress.commit

/-- What happens to the progress: a commit of files, or an access by the
read mode, which may change it in any way. -/
inductive ProgressOp (File σ : Type*) where
  | commit (files : List File)
  | access (f : σ → σ)

/-- The files an operation folds into the progress. -/
def ProgressOp.files {File σ : Type*} : ProgressOp File σ → List File
  | .commit files => files
  | .access _ => []

/-- The progress after a sequence of operations and the value the last
commit returned. -/
def Progress.replay {File σ ν : Type*} (progress : Progress File σ ν)
    (initial : σ) (history : List (ProgressOp File σ)) : σ × Option ν :=
  history.foldl
    (fun acc op =>
      match op with
      | .commit files =>
          let result := progress.commit acc.1 files
          (result.1, some result.2)
      | .access f => (f acc.1, acc.2))
    (initial, none)

/-- The state behind the tracker's mutex. -/
structure TrackerState (n : ℕ) (File σ : Type*) where
  progress : σ
  persistedEpoch : Option CheckpointEpoch
  pending : Fin n → List File
  persisted : Fin n → ℕ
  ended : Fin n → Bool
  snapshots : OrderedMap CheckpointEpoch (Fin n → Option ℕ)

namespace TrackerState

variable {n : ℕ} {File σ : Type*}

def new (n : ℕ) (File : Type*) (progress : σ) : TrackerState n File σ where
  progress := progress
  persistedEpoch := none
  pending := fun _ => []
  persisted := fun _ => 0
  ended := fun _ => false
  snapshots := ∅

/-- The total recorded for a partition under an epoch. -/
def recorded (s : TrackerState n File σ) (epoch : CheckpointEpoch)
    (partition : Fin n) : Option ℕ :=
  (s.snapshots.find? epoch).bind fun counts => counts partition

/-- How many of a partition's pending files precede the epoch's marker. -/
def pendingBefore (s : TrackerState n File σ) (epoch : CheckpointEpoch)
    (partition : Fin n) : ℕ :=
  match s.recorded epoch partition with
  | some emitted => emitted - s.persisted partition
  | none =>
      if s.ended partition then (s.pending partition).length else 0

def advance (s : TrackerState n File σ) (partition : Fin n) (file : File) :
    TrackerState n File σ :=
  { s with
    pending :=
      Function.update s.pending partition (s.pending partition ++ [file]) }

def snapshot (s : TrackerState n File σ) (partition : Fin n)
    (epoch : CheckpointEpoch) : TrackerState n File σ :=
  let emitted := s.persisted partition + (s.pending partition).length
  let counts := (s.snapshots.find? epoch).getD fun _ => none
  { s with
    snapshots :=
      s.snapshots.insert epoch
        (Function.update counts partition (some emitted)) }

/-- Mark the stream of a partition as ended.  The flag says whether it was
the last one still reading. -/
def finish (s : TrackerState n File σ) (partition : Fin n) :
    TrackerState n File σ × Bool :=
  let ended := Function.update s.ended partition true
  ({ s with ended := ended }, decide (∀ p, ended p = true))

def withProgress (s : TrackerState n File σ) (access : σ → σ) :
    TrackerState n File σ :=
  { s with progress := access s.progress }

/-- An epoch at or below the last one persisted is a no-op. -/
def alreadyPersisted (s : TrackerState n File σ)
    (epoch : CheckpointEpoch) : Bool :=
  s.persistedEpoch.any fun last => decide (epoch ≤ last)

/-- The files to commit: the counted slice of each partition's pending ones.
A slice out of bounds panics. -/
def slices (s : TrackerState n File σ) (counted : Fin n → ℕ) :
    Option (List File) :=
  if ∀ partition, counted partition ≤ (s.pending partition).length then
    some ((List.finRange n).flatMap fun partition =>
      (s.pending partition).take (counted partition))
  else none

/-- Drain what was persisted.  A drain out of bounds panics. -/
def drain (s : TrackerState n File σ) (epoch : CheckpointEpoch)
    (counted : Fin n → ℕ) : Option (TrackerState n File σ) :=
  if ∀ partition, counted partition ≤ (s.pending partition).length then
    some
      { s with
        pending := fun partition =>
          (s.pending partition).drop (counted partition)
        persisted := fun partition =>
          s.persisted partition + counted partition
        snapshots := s.snapshots.retain fun recorded _ =>
          decide (epoch < recorded)
        persistedEpoch := some epoch }
  else none

end TrackerState

/-! ## Runs -/

/-- A persist whose files are committed and whose put is under way. -/
structure Persisting (n : ℕ) (ν : Type*) where
  epoch : CheckpointEpoch
  counted : Fin n → ℕ
  value : ν

/-- A persist that was attempted, and how many files of each partition were
to be committed: those before its snapshot of the epoch, or all it had
advanced if it had ended without one. -/
structure Attempt (n : ℕ) where
  epoch : CheckpointEpoch
  claimed : Fin n → ℕ

structure TrackerRun (n : ℕ) (File σ ν : Type*) where
  state : TrackerState n File σ
  persisting : Option (Persisting n ν)
  panicked : Bool
  backend : Option ν
  /-- Everything each partition advanced. -/
  advanced : Fin n → List File
  /-- How many files a partition had advanced when it took the snapshot of
  an epoch, and the last epoch it took one of. -/
  taken : Fin n → CheckpointEpoch → Option ℕ
  lastTaken : Fin n → Option CheckpointEpoch
  attempts : List (Attempt n)
  /-- Everything that happened to the progress. -/
  history : List (ProgressOp File σ)
  /-- The attempts whose put succeeded. -/
  succeeded : List (Attempt n)

namespace TrackerRun

variable {n : ℕ} {File σ ν : Type*}

def start (n : ℕ) (File : Type*) (ν : Type*) (initial : σ) :
    TrackerRun n File σ ν where
  state := TrackerState.new n File initial
  persisting := none
  panicked := false
  backend := none
  advanced := fun _ => []
  taken := fun _ _ => none
  lastTaken := fun _ => none
  attempts := []
  history := []
  succeeded := []

inductive Action (n : ℕ) (File σ : Type*) where
  | advance (partition : Fin n) (file : File)
  | snapshot (partition : Fin n) (epoch : CheckpointEpoch)
  | finish (partition : Fin n)
  | withProgress (access : σ → σ)
  | persist (epoch : CheckpointEpoch)
  | putSucceeds
  | putFails

/-- What a persist of the epoch should commit of a partition now. -/
def claimed (s : TrackerRun n File σ ν) (epoch : CheckpointEpoch)
    (partition : Fin n) : ℕ :=
  match s.taken partition epoch with
  | some total => total
  | none =>
      if s.state.ended partition then (s.advanced partition).length else 0

/-- A persist that has the lock: a no-op, or a commit followed by a put. -/
def persist (progress : Progress File σ ν) (s : TrackerRun n File σ ν)
    (epoch : CheckpointEpoch) : TrackerRun n File σ ν :=
  if s.state.alreadyPersisted epoch then s
  else
    let counted := s.state.pendingBefore epoch
    match s.state.slices counted with
    | none => { s with panicked := true }
    | some files =>
        let result := progress.commit s.state.progress files
        { s with
          state := { s.state with progress := result.1 }
          persisting := some ⟨epoch, counted, result.2⟩
          attempts := s.attempts ++ [⟨epoch, s.claimed epoch⟩]
          history := s.history ++ [.commit files] }

/-- The put succeeded: the backend holds the value. -/
def putSucceeds (s : TrackerRun n File σ ν) (p : Persisting n ν) :
    TrackerRun n File σ ν :=
  match s.state.drain p.epoch p.counted with
  | none => { s with panicked := true, persisting := none }
  | some state =>
      { s with
        state := state
        persisting := none
        backend := some p.value
        succeeded := s.succeeded ++ s.attempts.getLast?.toList }

/-- Snapshots are taken at most once per partition and in increasing order;
a persist waits for the one under way. -/
def step (progress : Progress File σ ν) (s : TrackerRun n File σ ν) :
    Action n File σ → Option (TrackerRun n File σ ν)
  | .advance partition file =>
      some
        { s with
          state := s.state.advance partition file
          advanced :=
            Function.update s.advanced partition
              (s.advanced partition ++ [file]) }
  | .snapshot partition epoch =>
      if ∀ last ∈ s.lastTaken partition, last < epoch then
        some
          { s with
            state := s.state.snapshot partition epoch
            taken :=
              Function.update s.taken partition
                (Function.update (s.taken partition) epoch
                  (some (s.advanced partition).length))
            lastTaken :=
              Function.update s.lastTaken partition (some epoch) }
      else none
  | .finish partition =>
      some { s with state := (s.state.finish partition).1 }
  | .withProgress access =>
      some
        { s with
          state := s.state.withProgress access
          history := s.history ++ [.access access] }
  | .persist epoch =>
      match s.persisting with
      | none => some (s.persist progress epoch)
      | some _ => none
  | .putSucceeds =>
      match s.persisting with
      | some p => some (s.putSucceeds p)
      | none => none
  | .putFails =>
      match s.persisting with
      | some _ => some { s with persisting := none }
      | none => none

/-- The files folded into the progress over the run. -/
def folded (s : TrackerRun n File σ ν) : List File :=
  s.history.flatMap ProgressOp.files

/-- The files before the marks of the attempts. -/
def FilesOf (s : TrackerRun n File σ ν) (attempts : List (Attempt n))
    (file : File) : Prop :=
  ∃ attempt ∈ attempts, ∃ partition,
    file ∈ (s.advanced partition).take (attempt.claimed partition)

instance decidableFilesOf [DecidableEq File] (s : TrackerRun n File σ ν)
    (attempts : List (Attempt n)) (file : File) :
    Decidable (s.FilesOf attempts file) :=
  inferInstanceAs (Decidable (∃ attempt ∈ attempts, ∃ partition,
    file ∈ (s.advanced partition).take (attempt.claimed partition)))

end TrackerRun

end FileSource

end Streamling
