import Streamling.Sources.ClickHouseScan

/-!
# What the scan of the ClickHouse source covers

The ranges the controller hands out tile the keys from zero to the greatest
one.  A page read for a range holds the rows of the range only as long as the
upper bound fits the type of the key: a bound beyond it wraps around, the
query selects nothing, and the empty page counts as complete.  Keys below
zero lie before the first range.  A scan covers its table exactly when its
matching keys are not negative and none of its steps meets one of these
cases.
-/

namespace Streamling

namespace ClickHouse

/-! ## Chunks -/

theorem flatten_chunkRecordBatch
    {Row : Type*} (batch : List Row) (maxRows : ℕ) :
    (chunkRecordBatch batch maxRows).flatten = batch := by
  by_cases hone : maxRows = 0 ∨ batch.length ≤ maxRows
  · simp [chunkRecordBatch, hone]
  · rw [chunkRecordBatch, if_neg hone]
    exact flatten_chunks (by omega) batch

theorem flatten_pageChunks
    {Row : Type*} (batches : List (List Row)) (maxRows : ℕ) :
    (pageChunks batches maxRows).flatten = batches.flatten := by
  by_cases hempty : batches.flatten = []
  · simp [pageChunks, hempty]
  · rw [pageChunks, if_neg hempty]
    clear hempty
    induction batches with
    | nil => rfl
    | cons batch batches ih =>
        simp only [List.flatMap_cons, List.flatten_append,
          flatten_chunkRecordBatch, List.flatten_cons, ih]

/-! ## Bounds of the page query -/

theorem i128ToScalarLike_le_max (value : ℤ) (t : KeyType) :
    i128ToScalarLike value t ≤ t.max := by
  cases t <;>
    simp only [KeyType.max, KeyType.isSigned, KeyType.size,
      i128ToScalarLike, Int.bmod_def, if_true, Bool.false_eq_true,
      if_false, Nat.reducePow] at * <;>
    omega

theorem KeyType.min_le_zero (t : KeyType) : t.min ≤ 0 := by
  cases t <;> decide

theorem KeyType.zero_le_max (t : KeyType) : 0 ≤ t.max := by
  cases t <;> decide

namespace ScanConfig

variable {Row : Type*} (config : ScanConfig Row)

theorem pageBounds_hold (lo hi : ℤ) (columns : String → ℤ) :
    (config.pageBounds lo hi).hold columns = true ↔
      i128ToScalarLike lo config.keyType ≤ columns config.firstSortingKey ∧
        columns config.firstSortingKey <
          i128ToScalarLike hi config.keyType := by
  simp [pageBounds, QueryBuilder.rebuildQuery, PageBounds.hold,
    buildKeysetConditions, Condition.holds, and_comm]

theorem mem_of_mem_matchingRows {row : Row}
    (h : row ∈ config.matchingRows) : row ∈ config.rows := by
  unfold matchingRows at h
  split at h
  · exact List.mem_of_mem_filter h
  · exact h

theorem key_le_maxKey {row : Row} (h : row ∈ config.rows) :
    config.key row ≤ config.maxKey := by
  have hmem := List.mem_map_of_mem (f := config.key) h
  obtain ⟨m, hm⟩ : ∃ m, (config.rows.map config.key).max? = some m :=
    Option.isSome_iff_exists.mp
      (List.isSome_max?_of_mem hmem)
  have hle : config.key row ≤ m := (List.max?_eq_some_iff.mp hm).2 _ hmem
  simpa [maxKey, hm] using hle

theorem maxKey_le_max : config.maxKey ≤ config.keyType.max := by
  unfold maxKey
  cases hm : (config.rows.map config.key).max? with
  | none => exact config.keyType.zero_le_max
  | some m =>
      obtain ⟨row, hrow, rfl⟩ :=
        List.mem_map.mp (List.max?_eq_some_iff.mp hm).1
      exact (config.key_mem row hrow).2

theorem mem_rowsWithin {lo hi : ℤ} {row : Row} :
    row ∈ config.rowsWithin lo hi ↔
      row ∈ config.matchingRows ∧
        lo ≤ config.key row ∧ config.key row < hi := by
  simp [rowsWithin]

/-- The bounds of a range select its keys exactly if the upper one fits the
type of the key. -/
theorem selectsRange_iff
    {lo hi : ℤ} (hlo : 0 ≤ lo) (hmax : lo ≤ config.keyType.max)
    (hlt : lo < hi) :
    Scan.SelectsRange config (lo, hi) ↔ hi ≤ config.keyType.max := by
  have hmin : config.keyType.min ≤ lo :=
    Int.le_trans config.keyType.min_le_zero hlo
  constructor
  · intro hsel
    by_contra hwrap
    have hrange := hsel (fun _ => config.keyType.max) (by omega) (by omega)
    have hbound := i128ToScalarLike_le_max hi config.keyType
    have hheld := (config.pageBounds_hold lo hi _).mp
      (hrange.mpr ⟨hmax, by omega⟩)
    exact absurd hheld.2 (by simpa using hbound)
  · intro hfits columns _ _
    rw [config.pageBounds_hold, i128ToScalarLike_of_mem hmin hmax,
      i128ToScalarLike_of_mem (by omega) hfits]

theorem mem_range_of_mem_selectedRows
    {lo hi : ℤ} (hlo : 0 ≤ lo) (hmax : lo ≤ config.keyType.max)
    (hlt : lo < hi) {row : Row} (h : row ∈ config.selectedRows lo hi) :
    row ∈ config.rowsWithin lo hi := by
  have hmin : config.keyType.min ≤ lo :=
    Int.le_trans config.keyType.min_le_zero hlo
  obtain ⟨hrow, hheld⟩ := List.mem_filter.mp h
  rw [config.pageBounds_hold, i128ToScalarLike_of_mem hmin hmax] at hheld
  have hcast := i128ToScalarLike_le (Int.le_trans hmin hlt.le)
  exact config.mem_rowsWithin.mpr
    ⟨hrow, hheld.1, lt_of_lt_of_le hheld.2 hcast⟩

theorem selectedRows_eq_of_selectsRange
    {lo hi : ℤ} (h : Scan.SelectsRange config (lo, hi)) :
    config.selectedRows lo hi = config.rowsWithin lo hi := by
  apply List.filter_congr
  intro row hrow
  have hkey := config.key_mem row (config.mem_of_mem_matchingRows hrow)
  have hiff := h (config.column row) hkey.1 hkey.2
  rw [Bool.eq_iff_iff, hiff]
  simp only [Bool.and_eq_true, decide_eq_true_eq]
  exact Iff.rfl

/-- A page that did not overflow holds all rows its query selects, unless the
limit of the query is zero and there are any. -/
theorem perm_selectedRows_iff
    {lo hi : ℤ} {page : List Row} (h : config.Returns lo hi page)
    (hsize : page.length ≤ config.pageSize) :
    page.Perm (config.selectedRows lo hi) ↔
      (config.pageLimit = 0 → config.selectedRows lo hi = []) := by
  obtain ⟨hsub, hlength⟩ := h
  have hlt := config.pageSize_lt
  constructor
  · intro hperm hzero
    have hnil : page = [] := by
      rw [hzero, Nat.zero_min] at hlength
      exact List.length_eq_zero_iff.mp hlength
    rw [hnil] at hperm
    exact hperm.nil_eq.symm
  · intro hzero
    apply hsub.perm_of_length_le
    by_cases hlimit : config.pageLimit = 0
    · simp [hzero hlimit]
    · have heq : config.pageLimit = config.pageSize + 1 := by
        unfold pageLimit at hlimit ⊢
        omega
      omega

/-- Rows below a bound within the range are those of the smaller range. -/
theorem filter_rowsWithin_lt
    {lo mid hi : ℤ} (h : mid ≤ hi) :
    (config.rowsWithin lo hi).filter
        (fun row => decide (config.key row < mid)) =
      config.rowsWithin lo mid := by
  unfold rowsWithin
  rw [List.filter_filter]
  apply List.filter_congr
  intro row _
  rw [Bool.eq_iff_iff]
  simp only [Bool.and_eq_true, decide_eq_true_eq]
  omega

/-- Two adjacent ranges hold the rows of the range they make up. -/
theorem rowsWithin_append_perm
    {lo mid hi : ℤ} (hlo : lo ≤ mid) (hhi : mid ≤ hi) :
    (config.rowsWithin lo mid ++ config.rowsWithin mid hi).Perm
      (config.rowsWithin lo hi) := by
  have hsplit := List.filter_append_perm
    (fun row => decide (config.key row < mid)) (config.rowsWithin lo hi)
  rw [config.filter_rowsWithin_lt hhi] at hsplit
  have hrest :
      (config.rowsWithin lo hi).filter
          (fun row => !decide (config.key row < mid)) =
        config.rowsWithin mid hi := by
    unfold rowsWithin
    rw [List.filter_filter]
    apply List.filter_congr
    intro row _
    rw [Bool.eq_iff_iff]
    simp only [Bool.and_eq_true, Bool.not_eq_true', decide_eq_true_eq,
      decide_eq_false_iff_not]
    omega
  rwa [hrest] at hsplit

theorem rowsWithin_eq_matchingRows
    {lo hi : ℤ}
    (h : ∀ row ∈ config.matchingRows,
      lo ≤ config.key row ∧ config.key row < hi) :
    config.rowsWithin lo hi = config.matchingRows := by
  apply List.filter_eq_self.mpr
  intro row hrow
  simpa using h row hrow

theorem survivors_of_emitBatches
    {batches emitted : List (List Row)}
    (h : config.emitBatches batches = some emitted) :
    config.survivors batches.flatten = some emitted.flatten := by
  unfold emitBatches at h
  split at h
  · rename_i hnone
    obtain rfl := Option.some_inj.mp h
    unfold survivors
    split
    · rename_i hempty
      rw [hempty]
    · rename_i hcons
      rw [hcons]
      simp [hnone]
  · obtain ⟨rows, hrows, rfl⟩ := Option.map_eq_some_iff.mp h
    simpa using hrows

end ScanConfig

namespace Scan

variable {Row : Type*} (config : ScanConfig Row)

/-! ## Safe steps -/

/-- No matching row is at or above a key. -/
def NoneAbove (key : ℤ) : Prop :=
  ∀ row ∈ config.matchingRows, config.key row < key

/-- A step after which the scan can still cover the table.  The upper bound
of a query fits the type of the key; a page is not read with the limit zero
that the greatest page size wraps to, unless its range is empty; the scan is
stopped early, by a shutdown or because the receiver was dropped, only when
nothing is left to read. -/
def Safe (s : Scan Row) (a : ScanAction Row) : Prop :=
  match s.phase, a with
  | .loopTop, .enterPage shutdown =>
      s.controller.isDone = false → shutdown = true →
        NoneAbove config s.controller.rangeStart
  | .querying, .query _ =>
      s.controller.currentRange.2 ≤ config.keyType.max
  | .emitting .., .send receiverDropped =>
      receiverDropped = true → NoneAbove config s.controller.rangeStart
  | .emitting .., .complete _ =>
      config.pageLimit = 0 →
        config.rowsWithin s.controller.currentRange.1
          s.controller.currentRange.2 = []
  | _, _ => True

instance (key : ℤ) : Decidable (NoneAbove config key) :=
  inferInstanceAs (Decidable (∀ row ∈ config.matchingRows, _))

instance (s : Scan Row) (a : ScanAction Row) :
    Decidable (Safe config s a) := by
  unfold Safe
  split <;> infer_instance

/-! ## The invariant of the loop -/

/-- The page being emitted: its rows were returned for the current range
within the page limits, and its chunks are what is left of them. -/
structure PageInv (s : Scan Row) (rows : List Row)
    (sent unsent : List (List Row)) : Prop where
  queried : s.controller.currentRange ∈ s.queries
  returned : config.Returns s.controller.currentRange.1
    s.controller.currentRange.2 rows
  fits : rows.length ≤ config.pageSize
  chunks : config.survivors rows = some (sent ++ unsent).flatten
  of_empty : rows = [] → sent ++ unsent = [[]]

/-- The chunks emitted for the page that is not complete yet. -/
def inFlight (s : Scan Row) : List (List Row) :=
  match s.phase with
  | .emitting _ sent _ => sent
  | _ => []

def hasEnded (s : Scan Row) : Bool :=
  match s.phase with
  | .ended _ => true
  | _ => false

/-- The loop body is being executed. -/
def inBody (s : Scan Row) : Bool :=
  match s.phase with
  | .probing | .querying | .overflowed _ | .emitting .. => true
  | .setup | .loopTop | .ended _ => false

structure Inv (s : Scan Row) : Prop where
  cursor_nonneg : 0 ≤ s.controller.rangeStart
  width_pos : 1 ≤ s.controller.width
  maxKey_eq : s.controller.maxKey = config.maxKey
  not_done : s.inBody = true → s.controller.isDone = false
  completed_mem : ∀ page ∈ s.completed, ∀ row ∈ page.rows,
    0 ≤ config.key row ∧ config.key row < s.controller.rangeStart
  completed_chunks : ∀ page ∈ s.completed,
    config.survivors page.rows = some page.chunks.flatten
  emitted_eq : s.hasEnded = false →
    s.emitted = s.completed.flatMap Page.chunks ++ s.inFlight
  page : ∀ rows sent unsent, s.phase = .emitting rows sent unsent →
    PageInv config s rows sent unsent

/-- The completed pages hold the rows below the cursor, the queries were
exact, and a scan that stopped has nothing left. -/
structure Good (s : Scan Row) : Prop where
  selects : ∀ range ∈ s.queries, SelectsRange config range
  rows : (s.completed.flatMap Page.rows).Perm
    (config.rowsWithin 0 s.controller.rangeStart)
  ended : s.phase = .ended false →
    (s.controller.isDone = true ∨
      NoneAbove config s.controller.rangeStart) ∧
      s.emitted = s.completed.flatMap Page.chunks

theorem inv_start : Inv config (start config) where
  cursor_nonneg := Int.le_refl 0
  width_pos := Int.le_refl 1
  maxKey_eq := rfl
  not_done := by simp [start, inBody]
  completed_mem := by simp [start]
  completed_chunks := by simp [start]
  emitted_eq := by simp [start, inFlight]
  page := by simp [start]

theorem good_start : Good config (start config) where
  selects := by simp [start]
  rows := by
    have hnone : config.rowsWithin 0 ScanConfig.scanStart = [] := by
      apply List.filter_eq_nil_iff.mpr
      intro row _
      simp only [Bool.and_eq_true, decide_eq_true_eq, not_and]
      exact not_lt.mpr
    simp [start, hnone]
  ended := by simp [start]

/-! ## What a step does -/

variable {config}

/-- A controller that only changed its width. -/
structure Resized (c c' : ScanController) : Prop where
  rangeStart_eq : c'.rangeStart = c.rangeStart
  maxKey_eq : c'.maxKey = c.maxKey
  width_pos : 1 ≤ c.width → 1 ≤ c'.width

theorem Resized.refl (c : ScanController) : Resized c c :=
  ⟨rfl, rfl, id⟩

theorem resized_clampWidth (c : ScanController) (candidate : ℤ) :
    Resized c (c.clampWidth candidate) :=
  ⟨rfl, rfl, fun _ => le_max_left _ _⟩

theorem resized_shrinkToFitCount (c : ScanController)
    (pageSize count : ℕ) (candidate : ℤ) :
    Resized c (c.shrinkToFitCount pageSize count candidate) := by
  unfold ScanController.shrinkToFitCount
  split
  · exact Resized.refl c
  · exact resized_clampWidth c candidate

theorem resized_onOverflowProbed (c : ScanController) (maxPageBytes : ℕ)
    (count : Option ℕ) (observedBytes : ℕ) (candidate : ℤ) :
    Resized c
      (c.onOverflowProbed maxPageBytes count observedBytes candidate) := by
  unfold ScanController.onOverflowProbed
  split
  · split
    · exact resized_clampWidth c candidate
    · exact resized_clampWidth c _
  · exact resized_clampWidth c candidate

variable (config) in
/-- What a step can do: move between pages, end there, send a query, or
emit and complete a page. -/
inductive Stepped (s : Scan Row) : ScanAction Row → Scan Row → Prop where
  | moved {a : ScanAction Row} {c : ScanController} {phase : ScanPhase Row}
      (hsafe : Safe config s a)
      (hfrom : s.hasEnded = false ∧ s.inFlight = [])
      (hsized : Resized s.controller c)
      (hto : phase = .loopTop ∨
        (phase = .probing ∨ phase = .querying) ∧
          s.controller.isDone = false) :
      Stepped s a { s with controller := c, phase := phase }
  | stopped {shutdown : Bool}
      (hfrom : s.phase = .loopTop)
      (hwhy : s.controller.isDone = true ∨ shutdown = true) :
      Stepped s (.enterPage shutdown) { s with phase := .ended false }
  | queried {outcome : QueryOutcome Row} {c : ScanController}
      {phase : ScanPhase Row}
      (hfrom : s.phase = .querying)
      (hsized : Resized s.controller c)
      (hto : phase = .loopTop ∨ phase = .ended true ∨
        ∃ bytes, phase = .overflowed bytes) :
      Stepped s (.query outcome)
        { s with
          controller := c
          queries := s.queries ++ [s.controller.currentRange]
          phase := phase }
  | readPage {outcome : QueryOutcome Row} {rows : List Row}
      {chunks : List (List Row)}
      (hfrom : s.phase = .querying)
      (hpage : PageInv config
        { s with queries := s.queries ++ [s.controller.currentRange] }
        rows [] chunks) :
      Stepped s (.query outcome)
        { s with
          queries := s.queries ++ [s.controller.currentRange]
          phase := .emitting rows [] chunks }
  | sent {rows chunk : List Row} {sent unsent : List (List Row)}
      (hfrom : s.phase = .emitting rows sent (chunk :: unsent)) :
      Stepped s (.send false)
        { s with
          phase := .emitting rows (sent ++ [chunk]) unsent
          emitted := s.emitted ++ [chunk] }
  | dropped {rows chunk : List Row} {sent unsent : List (List Row)}
      (hfrom : s.phase = .emitting rows sent (chunk :: unsent)) :
      Stepped s (.send true) { s with phase := .ended false }
  | completed {candidate : ℤ} {rows : List Row} {sent : List (List Row)}
      (hfrom : s.phase = .emitting rows sent []) :
      Stepped s (.complete candidate)
        { s with
          controller := s.controller.onComplete candidate
          completed := s.completed ++ [⟨rows, sent⟩]
          phase := .loopTop }

theorem pageInv_of_emitBatches
    {s : Scan Row} {batches emitted : List (List Row)}
    (hqueried : s.controller.currentRange ∈ s.queries)
    (hreturns : config.Returns s.controller.currentRange.1
      s.controller.currentRange.2 batches.flatten)
    (hfits : batches.flatten.length ≤ config.pageSize)
    (hemit : config.emitBatches batches = some emitted) :
    PageInv config s batches.flatten []
      (pageChunks emitted config.recordBatchSize) where
  queried := hqueried
  returned := hreturns
  fits := hfits
  chunks := by
    rw [config.survivors_of_emitBatches hemit, List.nil_append,
      flatten_pageChunks]
  of_empty := by
    intro hempty
    have hsurvivors := config.survivors_of_emitBatches hemit
    rw [hempty] at hsurvivors
    have hnil : emitted.flatten = [] :=
      (Option.some_inj.mp hsurvivors).symm
    simp [pageChunks, hnil]

theorem stepped_query [DecidableEq Row]
    {s s' : Scan Row} {outcome : QueryOutcome Row}
    (hfrom : s.phase = .querying)
    (h : s.query config outcome = some s') :
    Stepped config s (.query outcome) s' := by
  have hkeep := Resized.refl s.controller
  cases outcome with
  | timedOut =>
      obtain rfl := Option.some_inj.mp h
      exact .queried hfrom (resized_clampWidth _ _) (Or.inl rfl)
  | failed =>
      obtain rfl := Option.some_inj.mp h
      exact .queried hfrom hkeep (Or.inl rfl)
  | broken =>
      obtain rfl := Option.some_inj.mp h
      exact .queried hfrom hkeep (Or.inr (Or.inl rfl))
  | page batches bytes =>
      simp only [query, readPage] at h
      split at h
      · rename_i hreturns
        split at h
        · split at h
          · obtain rfl := Option.some_inj.mp h
            exact .queried hfrom hkeep (Or.inr (Or.inl rfl))
          · obtain rfl := Option.some_inj.mp h
            exact .queried hfrom hkeep (Or.inr (Or.inr ⟨bytes, rfl⟩))
        · rename_i hfits
          split at h
          · obtain rfl := Option.some_inj.mp h
            exact .queried hfrom hkeep (Or.inr (Or.inl rfl))
          · rename_i emitted hemit
            obtain rfl := Option.some_inj.mp h
            apply Stepped.readPage hfrom
            exact pageInv_of_emitBatches
              (List.mem_append_right _ (List.mem_singleton_self _)) hreturns
              (by omega) hemit
      · cases h

theorem stepped [DecidableEq Row]
    {s s' : Scan Row} {a : ScanAction Row} (hinv : Inv config s)
    (h : step config s a = some s') : Stepped config s a s' := by
  cases a with
  | setup probeFails candidate =>
      simp only [step] at h
      split at h
      · rename_i hphase
        obtain rfl := Option.some_inj.mp h
        exact .moved (by simp [Safe, hphase])
          (by simp [hasEnded, inFlight, hphase])
          (resized_clampWidth _ _) (Or.inl rfl)
      · cases h
  | enterPage shutdown =>
      simp only [step] at h
      split at h
      · rename_i hphase
        obtain rfl := Option.some_inj.mp h
        unfold enterPage
        split
        · rename_i hdone
          exact .stopped hphase (Or.inl hdone)
        · split
          · rename_i hshut
            exact .stopped hphase (Or.inr hshut)
          · rename_i hdone hshut
            exact .moved (by simp [Safe, hphase, hshut])
              (by simp [hasEnded, inFlight, hphase])
              (Resized.refl _) (Or.inr ⟨Or.inl rfl, by simpa using hdone⟩)
      · cases h
  | countProbe fails candidate =>
      simp only [step] at h
      split at h
      · rename_i hphase
        obtain rfl := Option.some_inj.mp h
        have hsafe : Safe config s (.countProbe fails candidate) := by
          simp [Safe, hphase]
        have hfrom : s.hasEnded = false ∧ s.inFlight = [] := by
          simp [hasEnded, inFlight, hphase]
        have hdone : s.controller.isDone = false :=
          hinv.not_done (by simp [inBody, hphase])
        simp only [countProbe]
        split
        · exact .moved hsafe hfrom (Resized.refl _)
            (Or.inr ⟨Or.inr rfl, hdone⟩)
        · have hmoved := Stepped.moved hsafe hfrom
            (resized_shrinkToFitCount s.controller config.pageSize
              (config.fetchCount s.controller.currentRange.1
                s.controller.currentRange.2) candidate)
            (Or.inr ⟨Or.inl rfl, hdone⟩)
          rwa [← hphase] at hmoved
      · cases h
  | query outcome =>
      simp only [step] at h
      split at h
      · rename_i hphase
        exact stepped_query hphase h
      · cases h
  | overflowProbe fails candidate =>
      simp only [step] at h
      split at h
      · rename_i bytes hphase
        obtain rfl := Option.some_inj.mp h
        exact .moved (by simp [Safe, hphase])
          (by simp [hasEnded, inFlight, hphase])
          (resized_onOverflowProbed _ _ _ _ _) (Or.inl rfl)
      · cases h
  | send receiverDropped =>
      simp only [step] at h
      split at h
      · rename_i rows sent chunk unsent hphase
        cases receiverDropped with
        | true =>
            obtain rfl := Option.some_inj.mp h
            exact .dropped hphase
        | false =>
            obtain rfl := Option.some_inj.mp h
            exact .sent hphase
      · cases h
  | complete candidate =>
      simp only [step] at h
      split at h
      · rename_i rows sent hphase
        obtain rfl := Option.some_inj.mp h
        exact .completed hphase
      · cases h

/-! ## The invariant is kept -/

theorem Inv.cursor_le_max
    {s : Scan Row} (h : Inv config s)
    (hdone : s.controller.isDone = false) :
    s.controller.rangeStart ≤ config.keyType.max := by
  have hle : s.controller.rangeStart ≤ s.controller.maxKey := by
    simpa [RangeController.isDone] using hdone
  rw [h.maxKey_eq] at hle
  exact Int.le_trans hle config.maxKey_le_max

theorem Inv.cursor_lt
    {s : Scan Row} (h : Inv config s) :
    s.controller.currentRange.1 < s.controller.currentRange.2 := by
  have hpos := h.width_pos
  simp only [RangeController.currentRange]
  omega

/-- The rows of a page being emitted lie in its range. -/
theorem Inv.mem_rowsWithin
    {s : Scan Row} (h : Inv config s) {rows : List Row}
    {sent unsent : List (List Row)}
    (hphase : s.phase = .emitting rows sent unsent) {row : Row}
    (hrow : row ∈ rows) :
    row ∈ config.rowsWithin s.controller.currentRange.1
      s.controller.currentRange.2 := by
  have hdone : s.controller.isDone = false :=
    h.not_done (by simp [inBody, hphase])
  have hpage := h.page rows sent unsent hphase
  exact config.mem_range_of_mem_selectedRows h.cursor_nonneg
    (h.cursor_le_max hdone) h.cursor_lt (hpage.returned.1.subset hrow)

theorem inv_step
    {s s' : Scan Row} {a : ScanAction Row} (h : Inv config s)
    (hstep : Stepped config s a s') : Inv config s' := by
  cases hstep with
  | moved hsafe hfrom hsized hto =>
      have hemitted := h.emitted_eq hfrom.1
      rw [hfrom.2] at hemitted
      refine { h with
        cursor_nonneg := ?_, width_pos := hsized.width_pos h.width_pos,
        maxKey_eq := ?_, not_done := ?_, completed_mem := ?_,
        emitted_eq := ?_, page := ?_ }
      · exact le_of_le_of_eq h.cursor_nonneg hsized.rangeStart_eq.symm
      · exact hsized.maxKey_eq.trans h.maxKey_eq
      · intro hbody
        rcases hto with rfl | ⟨-, hdone⟩
        · cases hbody
        · simpa [RangeController.isDone, hsized.rangeStart_eq,
            hsized.maxKey_eq] using hdone
      · simpa only [hsized.rangeStart_eq] using h.completed_mem
      · intro _
        rcases hto with rfl | ⟨rfl | rfl, -⟩ <;> exact hemitted
      · intro rows sent unsent heq
        rcases hto with rfl | ⟨rfl | rfl, -⟩ <;> cases heq
  | stopped hfrom hwhy =>
      refine { h with not_done := ?_, emitted_eq := ?_, page := ?_ }
      · intro hbody
        cases hbody
      · intro hended
        cases hended
      · intro rows sent unsent heq
        cases heq
  | queried hfrom hsized hto =>
      have hemitted := h.emitted_eq (by simp [hasEnded, hfrom])
      have hdone : s.controller.isDone = false :=
        h.not_done (by simp [inBody, hfrom])
      simp only [inFlight, hfrom] at hemitted
      refine { h with
        cursor_nonneg := ?_, width_pos := hsized.width_pos h.width_pos,
        maxKey_eq := ?_, not_done := ?_, completed_mem := ?_,
        emitted_eq := ?_, page := ?_ }
      · exact le_of_le_of_eq h.cursor_nonneg hsized.rangeStart_eq.symm
      · exact hsized.maxKey_eq.trans h.maxKey_eq
      · intro _
        simpa [RangeController.isDone, hsized.rangeStart_eq,
          hsized.maxKey_eq] using hdone
      · simpa only [hsized.rangeStart_eq] using h.completed_mem
      · intro hended
        rcases hto with rfl | rfl | ⟨bytes, rfl⟩
        · exact hemitted
        · cases hended
        · exact hemitted
      · intro rows sent unsent heq
        rcases hto with rfl | rfl | ⟨bytes, rfl⟩ <;> cases heq
  | @readPage outcome pageRows chunks hfrom hpage =>
      have hemitted := h.emitted_eq (by simp [hasEnded, hfrom])
      have hdone : s.controller.isDone = false :=
        h.not_done (by simp [inBody, hfrom])
      simp only [inFlight, hfrom] at hemitted
      refine { h with not_done := ?_, emitted_eq := ?_, page := ?_ }
      · exact fun _ => hdone
      · exact fun _ => hemitted
      · intro rows sent unsent heq
        cases heq
        exact { hpage with }
  | @sent pageRows chunk sent unsent hfrom =>
      have hemitted := h.emitted_eq (by simp [hasEnded, hfrom])
      have hdone : s.controller.isDone = false :=
        h.not_done (by simp [inBody, hfrom])
      have hpage := h.page _ _ _ hfrom
      simp only [inFlight, hfrom] at hemitted
      refine { h with not_done := ?_, emitted_eq := ?_, page := ?_ }
      · exact fun _ => hdone
      · intro _
        simp [inFlight, hemitted]
      · intro rows sent' unsent' heq
        cases heq
        exact
          { hpage with
            chunks := by simpa using hpage.chunks
            of_empty := by simpa using hpage.of_empty }
  | dropped hfrom =>
      refine { h with not_done := ?_, emitted_eq := ?_, page := ?_ }
      · intro hbody
        cases hbody
      · intro hended
        cases hended
      · intro rows sent unsent heq
        cases heq
  | @completed candidate pageRows sent hfrom =>
      have hemitted := h.emitted_eq (by simp [hasEnded, hfrom])
      have hpage := h.page _ _ _ hfrom
      have hwidth := h.width_pos
      have hcursor := h.cursor_nonneg
      simp only [inFlight, hfrom] at hemitted
      refine
        { cursor_nonneg := ?_, width_pos := le_max_left _ _,
          maxKey_eq := h.maxKey_eq, not_done := ?_, completed_mem := ?_,
          completed_chunks := ?_, emitted_eq := ?_, page := ?_ }
      · show 0 ≤ s.controller.rangeStart + s.controller.width
        omega
      · intro hbody
        cases hbody
      · intro page hmem row hrow
        show _ ∧ _ < s.controller.rangeStart + s.controller.width
        rcases List.mem_append.mp hmem with hold | hnew
        · have hbounds := h.completed_mem page hold row hrow
          omega
        · obtain rfl := List.mem_singleton.mp hnew
          have hin := config.mem_rowsWithin.mp (h.mem_rowsWithin hfrom hrow)
          simp only [RangeController.currentRange] at hin
          omega
      · intro page hmem
        rcases List.mem_append.mp hmem with hold | hnew
        · exact h.completed_chunks page hold
        · obtain rfl := List.mem_singleton.mp hnew
          simpa using hpage.chunks
      · intro _
        simp [inFlight, hemitted, List.flatMap_append]
      · intro rows sent' unsent heq
        cases heq

/-! ## Which steps keep the coverage -/

/-- While the scan goes on and no page is completed, only the queries that
were sent matter. -/
theorem good_iff_of_queries
    (s : Scan Row) {s' : Scan Row} {queries : List (ℤ × ℤ)}
    (hqueries : s'.queries = s.queries ++ queries)
    (hcompleted : s'.completed = s.completed)
    (hcursor : s'.controller.rangeStart = s.controller.rangeStart)
    (hs : s.phase ≠ .ended false) (hs' : s'.phase ≠ .ended false) :
    Good config s' ↔
      Good config s ∧ ∀ range ∈ queries, SelectsRange config range := by
  constructor
  · intro hgood
    have hselects := hgood.selects
    rw [hqueries] at hselects
    refine ⟨⟨?_, ?_, fun h => absurd h hs⟩, ?_⟩
    · intro range hrange
      exact hselects range (List.mem_append_left _ hrange)
    · rw [← hcompleted, ← hcursor]
      exact hgood.rows
    · intro range hrange
      exact hselects range (List.mem_append_right _ hrange)
  · rintro ⟨hgood, hnew⟩
    refine ⟨?_, ?_, fun h => absurd h hs'⟩
    · rw [hqueries]
      intro range hrange
      rcases List.mem_append.mp hrange with hold | hrange
      · exact hgood.selects range hold
      · exact hnew range hrange
    · rw [hcompleted, hcursor]
      exact hgood.rows

theorem good_iff_of_query
    {s s' : Scan Row} (h : Inv config s) (hfrom : s.phase = .querying)
    (hqueries : s'.queries = s.queries ++ [s.controller.currentRange])
    (hcompleted : s'.completed = s.completed)
    (hcursor : s'.controller.rangeStart = s.controller.rangeStart)
    (hs' : s'.phase ≠ .ended false) :
    Good config s' ↔
      Good config s ∧
        s.controller.currentRange.2 ≤ config.keyType.max := by
  have hdone : s.controller.isDone = false :=
    h.not_done (by simp [inBody, hfrom])
  have hrange := config.selectsRange_iff h.cursor_nonneg
    (h.cursor_le_max hdone) h.cursor_lt
  rw [good_iff_of_queries s hqueries hcompleted hcursor
    (by simp [hfrom]) hs', ← hrange]
  simp [RangeController.currentRange]

/-- A scan that stops is good if nothing is left to read. -/
theorem good_iff_of_stop
    (s : Scan Row) {s' : Scan Row} (hqueries : s'.queries = s.queries)
    (hcompleted : s'.completed = s.completed)
    (hcursor : s'.controller = s.controller)
    (hs : s.phase ≠ .ended false) (hs' : s'.phase = .ended false)
    (hemitted : s.controller.isDone = true ∨
      NoneAbove config s.controller.rangeStart →
        s'.emitted = s.completed.flatMap Page.chunks) :
    Good config s' ↔
      Good config s ∧ (s.controller.isDone = true ∨
        NoneAbove config s.controller.rangeStart) := by
  constructor
  · intro hgood
    have hwhy := (hgood.ended hs').1
    rw [hcursor] at hwhy
    refine ⟨⟨hqueries ▸ hgood.selects, ?_, fun h => absurd h hs⟩, hwhy⟩
    rw [← hcompleted, ← hcursor]
    exact hgood.rows
  · rintro ⟨hgood, hwhy⟩
    refine ⟨hqueries ▸ hgood.selects, ?_, ?_⟩
    · rw [hcompleted, hcursor]
      exact hgood.rows
    · intro _
      rw [hcursor, hcompleted]
      exact ⟨hwhy, hemitted hwhy⟩

/-- The page that is completed adds the rows of its range, if the query was
exact and its limit did not wrap to zero. -/
theorem good_iff_of_complete
    {s s' : Scan Row} {rows : List Row} {sent : List (List Row)}
    (h : Inv config s) (hfrom : s.phase = .emitting rows sent [])
    (hqueries : s'.queries = s.queries)
    (hcompleted : s'.completed = s.completed ++ [⟨rows, sent⟩])
    (hcursor : s'.controller.rangeStart = s.controller.currentRange.2)
    (hs' : s'.phase ≠ .ended false) :
    Good config s' ↔
      Good config s ∧
        (config.pageLimit = 0 →
          config.rowsWithin s.controller.currentRange.1
            s.controller.currentRange.2 = []) := by
  have hpage := h.page _ _ _ hfrom
  have hlt := h.cursor_lt
  have hrows : s'.completed.flatMap Page.rows =
      s.completed.flatMap Page.rows ++ rows := by
    simp [hcompleted, List.flatMap_append]
  have hbelow : ∀ row ∈ s.completed.flatMap Page.rows,
      config.key row < s.controller.rangeStart := by
    intro row hrow
    obtain ⟨page, hmem, hrow⟩ := List.mem_flatMap.mp hrow
    exact (h.completed_mem page hmem row hrow).2
  have hwithin : ∀ row ∈ rows,
      ¬ config.key row < s.controller.rangeStart := by
    intro row hrow
    have hin := config.mem_rowsWithin.mp (h.mem_rowsWithin hfrom hrow)
    simp only [RangeController.currentRange] at hin
    omega
  have hle : s.controller.rangeStart ≤ s.controller.currentRange.2 := hlt.le
  have htile := config.rowsWithin_append_perm h.cursor_nonneg hle
  have hread : (∀ range ∈ s.queries, SelectsRange config range) →
      (rows.Perm (config.rowsWithin s.controller.currentRange.1
          s.controller.currentRange.2) ↔
        (config.pageLimit = 0 →
          config.rowsWithin s.controller.currentRange.1
            s.controller.currentRange.2 = [])) := by
    intro hselects
    have hperm := config.perm_selectedRows_iff hpage.returned hpage.fits
    have hexact : SelectsRange config
        (s.controller.currentRange.1, s.controller.currentRange.2) :=
      hselects _ hpage.queried
    rwa [config.selectedRows_eq_of_selectsRange hexact] at hperm
  constructor
  · intro hgood
    have hselects := hqueries ▸ hgood.selects
    have hall := hgood.rows
    rw [hrows, hcursor] at hall
    -- the part of the rows below the old cursor is the old one
    have hold := hall.filter
      (fun row => decide (config.key row < s.controller.rangeStart))
    rw [List.filter_append,
      List.filter_eq_self.mpr (by simpa using hbelow),
      List.filter_eq_nil_iff.mpr (by simpa using hwithin),
      List.append_nil, config.filter_rowsWithin_lt hle] at hold
    have hnew : rows.Perm (config.rowsWithin s.controller.currentRange.1
        s.controller.currentRange.2) := by
      have hboth := hall.trans htile.symm
      exact (List.perm_append_left_iff _).mp
        ((hold.symm.append_right _).trans hboth)
    refine ⟨⟨hselects, hold, ?_⟩, (hread hselects).mp hnew⟩
    intro hended
    rw [hfrom] at hended
    cases hended
  · rintro ⟨hgood, hlimit⟩
    refine ⟨hqueries ▸ hgood.selects, ?_, fun hended => absurd hended hs'⟩
    rw [hrows, hcursor]
    exact (hgood.rows.append ((hread hgood.selects).mpr hlimit)).trans htile

theorem good_step
    {s s' : Scan Row} {a : ScanAction Row} (h : Inv config s)
    (hstep : Stepped config s a s') :
    Good config s' ↔ Good config s ∧ Safe config s a := by
  cases hstep with
  | moved hsafe hfrom hsized hto =>
      have hs : s.phase ≠ .ended false := by
        intro heq
        simp [hasEnded, heq] at hfrom
      refine Iff.trans (good_iff_of_queries s (List.append_nil _).symm rfl
        hsized.rangeStart_eq hs ?_) (by simp [hsafe])
      rcases hto with rfl | ⟨rfl | rfl, -⟩ <;> simp
  | @stopped shutdown hfrom hwhy =>
      have hemitted := h.emitted_eq (by simp [hasEnded, hfrom])
      simp only [inFlight, hfrom, List.append_nil] at hemitted
      refine Iff.trans (good_iff_of_stop s rfl rfl rfl (by simp [hfrom]) rfl
        (fun _ => hemitted)) ?_
      simp only [Safe, hfrom]
      cases hdone : s.controller.isDone with
      | true => simp
      | false =>
          have hshut : shutdown = true := by simpa [hdone] using hwhy
          simp [hshut]
  | queried hfrom hsized hto =>
      refine Iff.trans (good_iff_of_query h hfrom rfl rfl
        hsized.rangeStart_eq ?_) (by simp only [Safe, hfrom])
      rcases hto with rfl | rfl | ⟨bytes, rfl⟩ <;> simp
  | readPage hfrom hpage =>
      exact Iff.trans (good_iff_of_query h hfrom rfl rfl rfl (by simp))
        (by simp only [Safe, hfrom])
  | sent hfrom =>
      exact Iff.trans (good_iff_of_queries s (List.append_nil _).symm rfl rfl
        (by simp [hfrom]) (by simp)) (by simp [Safe, hfrom])
  | @dropped rows chunk sent unsent hfrom =>
      have hemitted := h.emitted_eq (by simp [hasEnded, hfrom])
      have hdone : s.controller.isDone = false :=
        h.not_done (by simp [inBody, hfrom])
      have hpage := h.page _ _ _ hfrom
      simp only [inFlight, hfrom] at hemitted
      refine Iff.trans (good_iff_of_stop s rfl rfl rfl (by simp [hfrom]) rfl
        ?_) ?_
      · rintro (hwhy | hnone)
        · simp [hdone] at hwhy
        · have hempty : rows = [] := by
            apply List.eq_nil_iff_forall_not_mem.mpr
            intro row hrow
            have hin :=
              config.mem_rowsWithin.mp (h.mem_rowsWithin hfrom hrow)
            have hlt := hnone row hin.1
            simp only [RangeController.currentRange] at hin
            omega
          -- an empty page has a single chunk, so none was sent before
          have hone := congrArg List.length (hpage.of_empty hempty)
          have hsent : sent = [] := by
            apply List.length_eq_zero_iff.mp
            simp only [List.length_append, List.length_cons,
              List.length_nil] at hone
            omega
          simpa [hsent] using hemitted
      · simp [Safe, hfrom, hdone]
  | completed hfrom =>
      exact Iff.trans
        (good_iff_of_complete h hfrom rfl rfl rfl (by simp))
        (by simp only [Safe, hfrom])

/-! ## Coverage -/

/-- A scan that ended without an error covers the table exactly if it is good
and no matching key is negative. -/
theorem covers_iff_good
    {s : Scan Row} (h : Inv config s) (hended : s.phase = .ended false) :
    Covers config s ↔
      (∀ row ∈ config.matchingRows, 0 ≤ config.key row) ∧
        Good config s := by
  have hbounds : ∀ row ∈ s.completed.flatMap Page.rows,
      0 ≤ config.key row ∧ config.key row < s.controller.rangeStart := by
    intro row hrow
    obtain ⟨page, hmem, hrow⟩ := List.mem_flatMap.mp hrow
    exact h.completed_mem page hmem row hrow
  constructor
  · intro hcovers
    have hmatching : ∀ row ∈ config.matchingRows,
        0 ≤ config.key row ∧
          config.key row < s.controller.rangeStart := by
      intro row hrow
      exact hbounds row (hcovers.rows.mem_iff.mpr hrow)
    refine ⟨fun row hrow => (hmatching row hrow).1, hcovers.selects, ?_, ?_⟩
    · rw [config.rowsWithin_eq_matchingRows hmatching]
      exact hcovers.rows
    · intro _
      exact ⟨Or.inr fun row hrow => (hmatching row hrow).2,
        hcovers.emitted⟩
  · rintro ⟨hnonneg, hgood⟩
    obtain ⟨hwhy, hemitted⟩ := hgood.ended hended
    have hbelow : ∀ row ∈ config.matchingRows,
        config.key row < s.controller.rangeStart := by
      intro row hrow
      rcases hwhy with hdone | hnone
      · have hlt : s.controller.maxKey < s.controller.rangeStart := by
          simpa [RangeController.isDone] using hdone
        have hle := config.key_le_maxKey (config.mem_of_mem_matchingRows hrow)
        rw [h.maxKey_eq] at hlt
        omega
      · exact hnone row hrow
    refine ⟨hgood.selects, hemitted, h.completed_chunks, ?_⟩
    have hrows := hgood.rows
    rwa [config.rowsWithin_eq_matchingRows
      (fun row hrow => ⟨hnonneg row hrow, hbelow row hrow⟩)] at hrows

/-- A run of the scan that ends without sending an error covers the table
exactly when no matching key is negative and every step is safe. -/
theorem clickHouse_scan_covers_iff [DecidableEq Row]
    (config : ScanConfig Row) (actions : List (ScanAction Row))
    (s : Scan Row)
    (hrun : Transition.run (step config) (start config) actions = some s)
    (hended : s.phase = .ended false) :
    Covers config s ↔
      (∀ row ∈ config.matchingRows, 0 ≤ config.key row) ∧
        Transition.AllSteps (step config) (Safe config) (start config)
          actions := by
  have hinv : ∀ t a t', Inv config t → step config t a = some t' →
      Inv config t' :=
    fun t a t' ht hstep => inv_step ht (stepped ht hstep)
  have hgood : ∀ t a t', Inv config t → step config t a = some t' →
      (Good config t' ↔ Good config t ∧ Safe config t a) :=
    fun t a t' ht hstep => good_step ht (stepped ht hstep)
  have hs : Inv config s :=
    Transition.run_invariant hinv (inv_start config) hrun
  rw [covers_iff_good hs hended,
    Transition.allSteps_iff_of_run hinv hgood (inv_start config)
      (good_start config) hrun]

/-- Keys 3 and 150 match, in a table read eight rows at a time. -/
def sparseTable : ScanConfig ℤ where
  keyType := .int64
  wide := rfl
  firstSortingKey := "block_number"
  otherSortingKeys := []
  column := fun row _ => row
  rows := [150, 7, 3]
  key_mem := by decide
  whereClause := some fun row => decide (row ≠ 7)
  pageSize := 8
  one_le_pageSize := by decide
  pageSize_lt := by decide
  sortKeyRange := some 100
  recordBatchSize := 1
  dedup := none

/-- The first query times out and a count probe fails on the way. -/
def sparseScan : List (ScanAction ℤ) :=
  [.setup false 0, .enterPage false, .countProbe false 0, .query .timedOut,
    .enterPage false, .countProbe true 0, .query (.page [[3]] 8),
    .send false, .complete 200, .enterPage false, .countProbe false 0,
    .query (.page [[150], []] 8), .send false, .send false, .complete 600,
    .enterPage false]

theorem clickHouse_scan_covers_sparse_table :
    ∃ s, Transition.run (step sparseTable) (start sparseTable) sparseScan =
        some s ∧
      s.phase = .ended false ∧ Covers sparseTable s := by
  obtain ⟨s, hrun, hended⟩ :
      ∃ s, Transition.run (step sparseTable) (start sparseTable)
        sparseScan = some s ∧ s.phase = .ended false :=
    Transition.exists_run_of_decide (by decide +kernel)
  refine ⟨s, hrun, hended, ?_⟩
  apply (clickHouse_scan_covers_iff sparseTable sparseScan s hrun
    hended).mpr
  exact ⟨by decide, by decide +kernel⟩

/-- One small key, and a configured width past the type of the key. -/
def wideRangeTable : ScanConfig ℤ where
  keyType := .int32
  wide := rfl
  firstSortingKey := "block_number"
  otherSortingKeys := []
  column := fun row _ => row
  rows := [5]
  key_mem := by decide
  whereClause := none
  pageSize := 1000
  one_le_pageSize := by decide
  pageSize_lt := by decide
  sortKeyRange := some 3000000000
  recordBatchSize := 1000
  dedup := none

/-- One negative key. -/
def negativeKeyTable : ScanConfig ℤ where
  keyType := .int64
  wide := rfl
  firstSortingKey := "block_number"
  otherSortingKeys := []
  column := fun row _ => row
  rows := [-1]
  key_mem := by decide
  whereClause := none
  pageSize := 1000
  one_le_pageSize := by decide
  pageSize_lt := by decide
  sortKeyRange := none
  recordBatchSize := 1000
  dedup := none

theorem not_covers_of_no_rows
    {s : Scan Row} (hnone : s.completed.flatMap Page.rows = [])
    (hsome : config.matchingRows ≠ []) : ¬ Covers config s := by
  intro hcovers
  have hrows := hcovers.rows
  rw [hnone] at hrows
  exact hsome hrows.nil_eq.symm

/-- At either end of the keys a row is skipped: the upper bound 3000000000
wraps to a negative number, so the page for the range that holds key 5 is
empty; a negative key lies before the start of the scan. -/
theorem clickHouse_scan_skips_rows :
    (∃ s, Transition.run (step wideRangeTable) (start wideRangeTable)
          [.setup false 0, .enterPage false, .countProbe false 0,
            .query (.page [] 0), .send false, .complete 0,
            .enterPage false] = some s ∧
        s.phase = .ended false ∧ ¬ Covers wideRangeTable s) ∧
      ∃ s, Transition.run (step negativeKeyTable) (start negativeKeyTable)
          [.setup false 0, .enterPage false] = some s ∧
        s.phase = .ended false ∧ ¬ Covers negativeKeyTable s := by
  constructor
  · refine Exists.imp
      (fun s (h : _ ∧ s.phase = .ended false ∧
        s.completed.flatMap Page.rows = []) =>
        ⟨h.1, h.2.1, not_covers_of_no_rows h.2.2 (by decide)⟩)
      (Transition.exists_run_of_decide (by decide +kernel))
  · refine Exists.imp
      (fun s (h : _ ∧ s.phase = .ended false ∧
        s.completed.flatMap Page.rows = []) =>
        ⟨h.1, h.2.1, not_covers_of_no_rows h.2.2 (by decide)⟩)
      (Transition.exists_run_of_decide (by decide +kernel))

end Scan

end ClickHouse

end Streamling
