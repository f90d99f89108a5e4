import Streamling.Sources.ClickHouse

/-!
# The checkpoint cut of the ClickHouse source

On a finalizer the source saves its current split.  The split moves on with
every completed page, while the marker was stamped on an earlier batch: a row
emitted after that batch lies below the saved split as soon as its page is
complete, although no sink needs to have written it when it acknowledged the
epoch.  The cut is right in the runs in which no such page was completed
before the split is cloned.
-/

namespace Streamling

namespace ClickHouse

namespace SourceRun

/-- The emissions after the batch that carries the marker of `epoch`. -/
def emittedAfter (epoch : CheckpointEpoch) (emitted : List Emission) :
    List Emission :=
  (emitted.dropWhile fun em => !em.batch.carries epoch).tail

theorem map_emittedAfter (epoch : CheckpointEpoch)
    (emitted : List Emission) :
    (emittedAfter epoch emitted).map Emission.batch =
      RecordBatch.afterMarker epoch (emitted.map Emission.batch) := by
  simp only [emittedAfter, RecordBatch.afterMarker, List.dropWhile_map,
    List.map_tail]
  rfl

theorem mem_of_mem_emittedAfter
    {epoch : CheckpointEpoch} {emitted : List Emission} {em : Emission}
    (h : em ∈ emittedAfter epoch emitted) : em ∈ emitted :=
  (List.dropWhile_suffix _).subset (List.mem_of_mem_tail h)

/-- When the split is cloned for an epoch, no page with a row emitted after
the batch carrying the epoch's marker has been completed. -/
def NoLaterPageCompleted (s : SourceRun) : Action → Prop
  | .cloneSplit =>
      match s.checkpointing with
      | .cloning epoch =>
          ∀ em ∈ emittedAfter epoch s.emitted,
            em.batch.rows ≠ [] → s.completedPages ≤ em.page
      | _ => True
  | _ => True

instance (s : SourceRun) (a : Action) :
    Decidable (s.NoLaterPageCompleted a) := by
  unfold NoLaterPageCompleted
  split
  · split <;> infer_instance
  · infer_instance

/-! ## The invariant -/

/-- The split covers the rows emitted after the marker of `epoch`, and lies
at or below the cursor, so it will cover later ones. -/
structure Covers (stream : List (RecordBatch ℤ)) (cursor : ℤ)
    (epoch : CheckpointEpoch) (split : SourceSplit) : Prop where
  carried : RecordBatch.Carried epoch stream
  below_cursor : split.rangeStart ≤ cursor
  below_later : ∀ batch ∈ RecordBatch.afterMarker epoch stream,
    ∀ key ∈ batch.rows, split.rangeStart ≤ key

/-- The chunks of the current page that are not emitted yet. -/
def unsent (s : SourceRun) : List (List ℤ) :=
  match s.scan with
  | .emitting chunks => chunks
  | .sending batch rest => batch.rows :: rest
  | _ => []

structure Inv (s : SourceRun) : Prop where
  cursor_min : s.keyType.min ≤ s.controller.rangeStart
  maxKey_max : s.controller.maxKey ≤ s.keyType.max
  width_pos : 1 ≤ s.controller.width
  split_le : s.split.rangeStart ≤ s.controller.rangeStart
  unsent_ge : ∀ chunk ∈ s.unsent, ∀ key ∈ chunk,
    s.controller.rangeStart ≤ key
  page_le : ∀ em ∈ s.emitted, em.page ≤ s.completedPages
  current_ge : ∀ em ∈ s.emitted, s.completedPages ≤ em.page →
    ∀ key ∈ em.batch.rows, s.controller.rangeStart ≤ key
  cloning : ∀ epoch, s.checkpointing = .cloning epoch →
    RecordBatch.Carried epoch s.stream
  saving : ∀ epoch split, s.checkpointing = .saving epoch split →
    Covers s.stream s.controller.rangeStart epoch split
  saved : ∀ entry ∈ s.saved,
    Covers s.stream s.controller.rangeStart entry.1 entry.2

theorem inv_start (config : SourceConfig) : Inv (start config) where
  cursor_min := config.split_mem.1
  maxKey_max := config.maxKey_mem.2
  width_pos := RangeController.one_le_resize_width _ _
  split_le := Int.le_refl _
  unsent_ge := by simp [start, unsent]
  page_le := by simp [start]
  current_ge := by simp [start]
  cloning := by simp [start]
  saving := by simp [start]
  saved := by simp [start]

theorem Inv.cutHolds {s : SourceRun} (h : s.Inv) : s.CutHolds :=
  fun entry hentry => (h.saved entry hentry).below_later

/-! ## Chunks -/

theorem mem_of_mem_chunkRecordBatch
    {batch chunk : List ℤ} {maxRows : ℕ} {key : ℤ}
    (hchunk : chunk ∈ chunkRecordBatch batch maxRows)
    (hkey : key ∈ chunk) : key ∈ batch := by
  simp only [chunkRecordBatch] at hchunk
  split at hchunk
  · obtain rfl := List.mem_singleton.mp hchunk
    exact hkey
  · obtain ⟨i, -, rfl⟩ := List.mem_map.mp hchunk
    exact List.mem_of_mem_drop (List.mem_of_mem_take hkey)

theorem mem_of_mem_pageChunks
    {batches : List (List ℤ)} {chunk : List ℤ} {maxRows : ℕ} {key : ℤ}
    (hchunk : chunk ∈ pageChunks batches maxRows) (hkey : key ∈ chunk) :
    ∃ batch ∈ batches, key ∈ batch := by
  simp only [pageChunks] at hchunk
  split at hchunk
  · obtain rfl := List.mem_singleton.mp hchunk
    simp at hkey
  · obtain ⟨batch, hbatch, hmem⟩ := List.mem_flatMap.mp hchunk
    exact ⟨batch, hbatch, mem_of_mem_chunkRecordBatch hmem hkey⟩

/-! ## Splits stay right -/

section Covers

variable {stream : List (RecordBatch ℤ)} {cursor cursor' : ℤ}
  {epoch : CheckpointEpoch} {split : SourceSplit}

theorem Covers.advance (h : Covers stream cursor epoch split)
    (hcursor : cursor ≤ cursor') : Covers stream cursor' epoch split where
  carried := h.carried
  below_cursor := Int.le_trans h.below_cursor hcursor
  below_later := h.below_later

/-- Emitting rows at or above the cursor keeps a split right. -/
theorem Covers.emit (h : Covers stream cursor epoch split)
    {batch : RecordBatch ℤ} (hrows : ∀ key ∈ batch.rows, cursor ≤ key) :
    Covers (stream ++ [batch]) cursor epoch split where
  carried := h.carried.append _
  below_cursor := h.below_cursor
  below_later := by
    rw [RecordBatch.afterMarker_append h.carried]
    intro b hb key hkey
    rcases List.mem_append.mp hb with hb | hb
    · exact h.below_later b hb key hkey
    · obtain rfl := List.mem_singleton.mp hb
      exact Int.le_trans h.below_cursor (hrows key hkey)

end Covers

/-! ## Steps -/

section Steps

variable {s s' : SourceRun}

/-- A page that may be read holds only keys from the cursor on: the cursor is
a value of the key type, so the query's lower bound is the cursor itself. -/
theorem Inv.key_ge_of_inRange (hs : s.Inv)
    (hdone : s.controller.isDone = false) {batches : List (List ℤ)}
    (hrange : s.inRange batches = true) {batch : List ℤ} {key : ℤ}
    (hbatch : batch ∈ batches) (hkey : key ∈ batch) :
    s.controller.rangeStart ≤ key := by
  have hle : s.controller.rangeStart ≤ s.controller.maxKey := by
    simpa [RangeController.isDone] using hdone
  have hcast := i128ToScalarLike_of_mem hs.cursor_min
    (Int.le_trans hle hs.maxKey_max)
  simp only [inRange, List.all_eq_true, Bool.and_eq_true,
    decide_eq_true_eq] at hrange
  have := (hrange batch hbatch key hkey).1
  rwa [RangeController.currentRange, hcast] at this

theorem Inv.readPage (hs : s.Inv) {batches : List (List ℤ)}
    (h : s.readPage batches = some s') : s'.Inv := by
  simp only [SourceRun.readPage] at h
  split at h
  · split at h
    next hguard =>
      obtain rfl := Option.some.inj h
      refine { hs with unsent_ge := ?_ }
      intro chunk hchunk key hkey
      obtain ⟨batch, hbatch, hmem⟩ := mem_of_mem_pageChunks hchunk hkey
      exact hs.key_ge_of_inRange hguard.1 hguard.2 hbatch hmem
    · simp at h
  · simp at h

theorem Inv.attachCheckpoints (hs : s.Inv)
    (h : s.attachCheckpoints = some s') : s'.Inv := by
  simp only [SourceRun.attachCheckpoints] at h
  split at h
  next chunk rest hscan =>
    obtain rfl := Option.some.inj h
    refine { hs with unsent_ge := ?_ }
    have := hs.unsent_ge
    simpa [unsent, hscan] using this
  · simp at h

/-- Appending an emission of the current page with rows at or above the
cursor. -/
theorem Inv.emit (hs : s.Inv) (batch : RecordBatch ℤ)
    (hrows : ∀ key ∈ batch.rows, s.controller.rangeStart ≤ key) :
    Inv { s with emitted := s.emitted ++ [⟨batch, s.completedPages⟩] } := by
  have hstream : ({ s with
      emitted := s.emitted ++ [⟨batch, s.completedPages⟩] } :
        SourceRun).stream = s.stream ++ [batch] := by
    simp [stream]
  refine
    { hs with
      page_le := ?_
      current_ge := ?_
      cloning := ?_
      saving := ?_
      saved := ?_ }
  · intro em hem
    rcases List.mem_append.mp hem with hem | hem
    · exact hs.page_le em hem
    · obtain rfl := List.mem_singleton.mp hem
      exact Nat.le_refl _
  · intro em hem hpage key hkey
    rcases List.mem_append.mp hem with hem | hem
    · exact hs.current_ge em hem hpage key hkey
    · obtain rfl := List.mem_singleton.mp hem
      exact hrows key hkey
  · intro epoch hcloning
    rw [hstream]
    exact (hs.cloning epoch hcloning).append _
  · intro epoch split hsaving
    rw [hstream]
    exact (hs.saving epoch split hsaving).emit hrows
  · intro entry hentry
    rw [hstream]
    exact (hs.saved entry hentry).emit hrows

theorem Inv.send (hs : s.Inv) (h : s.send = some s') : s'.Inv := by
  simp only [SourceRun.send] at h
  split at h
  next batch rest hscan =>
    have hunsent := hs.unsent_ge
    simp only [unsent, hscan, List.mem_cons, forall_eq_or_imp] at hunsent
    split at h
    · obtain rfl := Option.some.inj h
      exact { hs with unsent_ge := by simp [unsent] }
    · obtain rfl := Option.some.inj h
      exact { hs.emit batch hunsent.1 with unsent_ge := hunsent.2 }
  · simp at h

/-- Completing a page moves the cursor up; no emission belongs to the new
current page yet. -/
theorem Inv.completePage (hs : s.Inv) {nextWidth : ℤ}
    (h : s.completePage nextWidth = some s') : s'.Inv := by
  simp only [SourceRun.completePage] at h
  split at h
  · obtain rfl := Option.some.inj h
    have hup : s.controller.rangeStart ≤
        (s.controller.onComplete nextWidth).rangeStart := by
      have := hs.width_pos
      simp only [RangeController.onComplete, RangeController.resize]
      omega
    have hmin := Int.le_trans hs.cursor_min hup
    exact
      { cursor_min := hmin
        maxKey_max := hs.maxKey_max
        width_pos := RangeController.one_le_resize_width _ _
        split_le := i128ToScalarLike_le hmin
        unsent_ge := by simp [unsent]
        page_le := fun em hem => Nat.le_succ_of_le (hs.page_le em hem)
        current_ge := fun em hem hpage =>
          absurd (hs.page_le em hem) (Nat.not_le.mpr hpage)
        cloning := hs.cloning
        saving := fun epoch split hsaving =>
          (hs.saving epoch split hsaving).advance hup
        saved := fun entry hentry =>
          (hs.saved entry hentry).advance hup }
  · simp at h

theorem Inv.receiveFinalizer (hs : s.Inv) {epoch : CheckpointEpoch}
    (h : s.receiveFinalizer epoch = some s') : s'.Inv := by
  simp only [SourceRun.receiveFinalizer] at h
  split at h
  · split at h
    next hcarried =>
      obtain rfl := Option.some.inj h
      refine { hs with cloning := ?_, saving := by simp }
      intro e he
      simp only [CheckpointTask.cloning.injEq] at he
      exact he ▸ hcarried
    · simp at h
  · simp at h

/-- The clone is right if no page with a later row is complete: all later
rows then belong to the current page, which starts at the cursor. -/
theorem Inv.cloneSplit (hs : s.Inv)
    (hcond : s.NoLaterPageCompleted .cloneSplit)
    (h : s.cloneSplit = some s') : s'.Inv := by
  simp only [SourceRun.cloneSplit] at h
  split at h
  next epoch hcloning =>
    obtain rfl := Option.some.inj h
    simp only [NoLaterPageCompleted, hcloning] at hcond
    refine { hs with cloning := by simp, saving := ?_ }
    intro e split he
    simp only [CheckpointTask.saving.injEq] at he
    obtain ⟨rfl, rfl⟩ := he
    refine ⟨hs.cloning epoch hcloning, hs.split_le, ?_⟩
    intro batch hbatch key hkey
    rw [stream, ← map_emittedAfter] at hbatch
    obtain ⟨em, hem, rfl⟩ := List.mem_map.mp hbatch
    have hpage := hcond em hem (List.ne_nil_of_mem hkey)
    exact Int.le_trans hs.split_le
      (hs.current_ge em (mem_of_mem_emittedAfter hem) hpage key hkey)
  · simp at h

theorem Inv.saveSplit (hs : s.Inv) {succeeds : Bool}
    (h : s.saveSplit succeeds = some s') : s'.Inv := by
  simp only [SourceRun.saveSplit] at h
  split at h
  next epoch split hsaving =>
    obtain rfl := Option.some.inj h
    refine { hs with cloning := by simp, saving := by simp, saved := ?_ }
    intro entry hentry
    split at hentry
    · rcases List.mem_append.mp hentry with hentry | hentry
      · exact hs.saved entry hentry
      · obtain rfl := List.mem_singleton.mp hentry
        exact hs.saving epoch split hsaving
    · exact hs.saved entry hentry
  · simp at h

theorem Inv.flush (hs : s.Inv) (h : s.flush = some s') : s'.Inv := by
  simp only [SourceRun.flush] at h
  split at h
  · split at h
    · obtain rfl := Option.some.inj h
      exact { hs with }
    · obtain rfl := Option.some.inj h
      exact { hs.emit ⟨[], s.checkpointBuffer⟩ (by simp) with }
  · simp at h

theorem Inv.step (hs : s.Inv) {a : Action}
    (hcond : s.NoLaterPageCompleted a) (h : s.step a = some s') :
    s'.Inv := by
  cases a with
  | resize width =>
      simp only [SourceRun.step] at h
      split at h
      · obtain rfl := Option.some.inj h
        exact { hs with width_pos := RangeController.one_le_resize_width _ _ }
      · simp at h
  | readPage batches => exact hs.readPage h
  | attachCheckpoints => exact hs.attachCheckpoints h
  | send => exact hs.send h
  | completePage nextWidth => exact hs.completePage h
  | stopScan =>
      simp only [SourceRun.step, stopScan] at h
      split at h
      · obtain rfl := Option.some.inj h
        exact { hs with unsent_ge := by simp [unsent] }
      · simp at h
  | dropReceiver =>
      obtain rfl := Option.some.inj h
      exact { hs with }
  | receiveMarker epoch createdAtMs =>
      simp only [SourceRun.step, receiveMarker] at h
      split at h
      · split at h
        · simp at h
        · obtain rfl := Option.some.inj h
          exact { hs with }
      · simp at h
  | receiveFinalizer epoch => exact hs.receiveFinalizer h
  | cloneSplit => exact hs.cloneSplit hcond h
  | saveSplit succeeds => exact hs.saveSplit h
  | stopCheckpointing =>
      simp only [SourceRun.step, stopCheckpointing] at h
      split at h
      · obtain rfl := Option.some.inj h
        exact { hs with cloning := by simp, saving := by simp }
      · simp at h
  | flush => exact hs.flush h

end Steps

end SourceRun

open SourceRun

/-- In every run that clones the split for an epoch only while no page with a
row emitted after the batch carrying the epoch's marker is complete, every
saved split re-reads all rows emitted after that batch. -/
theorem clickhouse_cut_of_no_later_page
    {config : SourceConfig} {actions : List Action} {s : SourceRun}
    (hcond : Transition.AllSteps step NoLaterPageCompleted
      (start config) actions)
    (h : Transition.run step (start config) actions = some s) :
    s.CutHolds :=
  (Transition.run_invariant_of_allSteps
    (fun _ _ _ hs hP hstep => Inv.step hs hP hstep)
    (inv_start config) hcond h).cutHolds

/-- A table of two keys read from its beginning, one key per page. -/
def twoPages : SourceConfig where
  keyType := .int64
  recordBatchSize := 10
  split := ⟨none⟩
  maxKey := 1
  initialWidth := 1
  split_mem := by decide
  maxKey_mem := by decide

theorem clickhouse_cut_of_no_later_page_two_pages :
    ∃ s, Transition.run step (start twoPages)
        [.receiveMarker 1 0, .readPage [[0]], .attachCheckpoints, .send,
          .completePage 1, .readPage [[1]], .attachCheckpoints, .send,
          .receiveFinalizer 1, .cloneSplit, .saveSplit true,
          .completePage 1] = some s ∧
      s.saved = [(1, ⟨some 1⟩)] ∧ s.CutHolds := by
  obtain ⟨s, hs, htest⟩ := Transition.exists_run_of_map
    (show (Transition.run step (start twoPages)
        [.receiveMarker 1 0, .readPage [[0]], .attachCheckpoints, .send,
          .completePage 1, .readPage [[1]], .attachCheckpoints, .send,
          .receiveFinalizer 1, .cloneSplit, .saveSplit true,
          .completePage 1]).map
      (fun s => decide (s.saved = [(1, ⟨some 1⟩)])) = some true by decide)
  exact ⟨s, hs, by simpa using htest,
    clickhouse_cut_of_no_later_page (by decide) hs⟩

/-- The second page is complete before the finalizer of the epoch whose
marker rode the first page: the saved split lies above the row emitted in
between. -/
theorem clickhouse_cut_misses_completed_page :
    ∃ s, Transition.run step (start twoPages)
        [.receiveMarker 1 0, .readPage [[0]], .attachCheckpoints, .send,
          .completePage 1, .readPage [[1]], .attachCheckpoints, .send,
          .completePage 1, .receiveFinalizer 1, .cloneSplit,
          .saveSplit true] = some s ∧
      ¬ s.CutHolds := by
  obtain ⟨s, hs, htest⟩ := Transition.exists_run_of_map
    (show (Transition.run step (start twoPages)
        [.receiveMarker 1 0, .readPage [[0]], .attachCheckpoints, .send,
          .completePage 1, .readPage [[1]], .attachCheckpoints, .send,
          .completePage 1, .receiveFinalizer 1, .cloneSplit,
          .saveSplit true]).map
      (fun s => decide (¬ s.CutHolds)) = some true by decide)
  exact ⟨s, hs, by simpa using htest⟩

end ClickHouse

end Streamling
