import Streamling.Sources.RangeSizing

/-!
# The range controller tiles the keys and makes progress

Whatever calls the controller receives, only `onComplete` moves its cursor, by
the range it was handing out, so the completed ranges tile the keys from the
start to the cursor.  The width stays between one key and the greatest width.

Driven over a table with exact counts, each response to an overflow and each
count-first shrink takes at least one key off the width.  The steps of the
loop are therefore bounded by a potential of the state, up to a constant for
each query that times out or fails.
-/

namespace Streamling

namespace ClickHouse

/-! ## Sizing rules -/

theorem truncate_lt
    {q : ℚ} {n : ℤ} (hq : 0 ≤ q) (hlt : q < n) : truncate q < n := by
  rw [truncate, if_pos hq]
  exact Int.floor_lt.mpr hlt

namespace SizedController

variable {c : SizedController}

theorem setWidth_width (c : SizedController) (candidate : ℤ) :
    (c.setWidth candidate).width = max 1 (min candidate c.maxWidth) := rfl

theorem one_le_setWidth (c : SizedController) (candidate : ℤ) :
    1 ≤ (c.setWidth candidate).width := by
  rw [setWidth_width]
  exact le_max_left _ _

/-- A candidate below the width takes at least one key off it. -/
theorem setWidth_lt
    {candidate : ℤ} (hw : 1 < c.width) (hlt : candidate < c.width) :
    (c.setWidth candidate).width < c.width := by
  rw [setWidth_width]
  omega

theorem truncate_setWidth_lt
    {candidate : ℚ} (hw : 1 < c.width) (hnonneg : 0 ≤ candidate)
    (hlt : candidate < c.width) :
    (c.setWidth (truncate candidate)).width < c.width :=
  setWidth_lt hw (truncate_lt hnonneg hlt)

theorem halve_lt (hw : 1 < c.width) :
    (c.setWidth (c.width / 2)).width < c.width := by
  apply setWidth_lt hw
  omega

theorem rowSafe_nonneg
    (hw : 1 ≤ c.width) (count : ℕ) : 0 ≤ c.rowSafe count := by
  have hwidth : (0 : ℚ) ≤ c.width := by exact_mod_cast (by omega)
  unfold rowSafe rowTargetRatio
  positivity

/-- A range with more than a page of rows gets a smaller row-safe width. -/
theorem rowSafe_lt
    {count : ℕ} (hw : 1 ≤ c.width) (hcount : c.pageSize < count) :
    c.rowSafe count < c.width := by
  have hwidth : (0 : ℚ) < c.width := by exact_mod_cast (by omega)
  have hcast : (c.pageSize : ℚ) < count := by exact_mod_cast hcount
  have hpage : (0 : ℚ) ≤ c.pageSize := Nat.cast_nonneg _
  have hratio : rowTargetRatio * c.pageSize / count < 1 := by
    rw [div_lt_one (by linarith), rowTargetRatio]
    linarith
  calc c.rowSafe count
      = c.width * (rowTargetRatio * c.pageSize / count) := rfl
    _ < c.width * 1 := mul_lt_mul_of_pos_left hratio hwidth
    _ = c.width := mul_one _

theorem byteSafe_nonneg
    (hw : 1 ≤ c.width) (count bytes : ℕ) : 0 ≤ c.byteSafe count bytes := by
  have hwidth : (0 : ℚ) ≤ c.width := by exact_mod_cast (by omega)
  unfold byteSafe
  extract_lets sampledRows bytesPerRow
  split_ifs with hif
  · have hrow := hif.1.le
    unfold BYTE_TARGET_RATIO
    positivity
  · exact rowSafe_nonneg hw count

/-- A fully read range with too many bytes gets a smaller byte-safe width. -/
theorem byteSafe_lt
    {count bytes : ℕ} (hw : 1 ≤ c.width) (hpos : 0 < count)
    (hcount : count ≤ c.pageSize) (hbytes : c.maxPageBytes < bytes) :
    c.byteSafe count bytes < c.width := by
  have hwidth : (0 : ℚ) < c.width := by exact_mod_cast (by omega)
  have hcountPos : (0 : ℚ) < count := by exact_mod_cast hpos
  have hbytesPos : (0 : ℚ) < bytes := by exact_mod_cast (by omega)
  have hmax : (c.maxPageBytes : ℚ) < bytes := by exact_mod_cast hbytes
  have hmaxNonneg : (0 : ℚ) ≤ c.maxPageBytes := Nat.cast_nonneg _
  -- the page was not cut off, so the sample is the whole range
  have hsampled : min (count : ℚ) (c.pageSize + 1) = count := by
    apply min_eq_left
    exact_mod_cast (by omega)
  have hbytesNat : 0 < bytes := by omega
  have hdensity : (count : ℚ) / c.width * (bytes / count) =
      bytes / c.width := by
    field_simp
  have hguard : 0 < (bytes : ℚ) / count ∧ 0 < c.width :=
    ⟨div_pos hbytesPos hcountPos, by omega⟩
  unfold byteSafe
  simp only [hsampled, hbytesNat, if_true, hguard, and_self, hdensity]
  rw [div_lt_iff₀ (div_pos hbytesPos hwidth), mul_div_cancel₀ _ hwidth.ne',
    BYTE_TARGET_RATIO]
  linarith

theorem onByteOverflow_lt
    {bytes : ℕ} (hw : 1 < c.width) (hbytes : c.maxPageBytes < bytes) :
    (c.onByteOverflow bytes).width < c.width := by
  have hwidth : (0 : ℚ) < c.width := by exact_mod_cast (by omega)
  have hbytesPos : (0 : ℚ) < bytes := by exact_mod_cast (by omega)
  have hmax : (c.maxPageBytes : ℚ) < bytes := by exact_mod_cast hbytes
  have hmaxNonneg : (0 : ℚ) ≤ c.maxPageBytes := Nat.cast_nonneg _
  have hratio : c.maxPageBytes * BYTE_TARGET_RATIO / bytes < 1 := by
    rw [div_lt_one hbytesPos, BYTE_TARGET_RATIO]
    linarith
  have hratioNonneg :
      0 ≤ c.maxPageBytes * BYTE_TARGET_RATIO / bytes := by
    unfold BYTE_TARGET_RATIO
    positivity
  rw [onByteOverflow, if_pos (by omega)]
  apply truncate_setWidth_lt hw (mul_nonneg hwidth.le hratioNonneg)
  exact mul_lt_of_lt_one_right hwidth hratio

/-- A response to an overflow shrinks the range, whichever limit it broke:
the probed count, if there is one, or the bytes are over their limit. -/
theorem onOverflowProbed_lt
    {count : Option ℕ} {bytes : ℕ} (hw : 1 < c.width)
    (hover : ∀ n ∈ count, c.pageSize < n ∨ c.maxPageBytes < bytes) :
    (c.onOverflowProbed count bytes).width < c.width := by
  unfold onOverflowProbed
  split
  · split_ifs with hbytes
    · exact onByteOverflow_lt hw hbytes
    · exact halve_lt hw
  · next n hfilter =>
    obtain ⟨hmem, hpos⟩ := Option.filter_eq_some_iff.mp hfilter
    have hposNat : 0 < n := of_decide_eq_true hpos
    have hnonneg := le_min (rowSafe_nonneg hw.le n)
      (byteSafe_nonneg hw.le n bytes)
    apply truncate_setWidth_lt hw hnonneg
    rcases lt_or_ge c.pageSize n with hrows | hfits
    · exact lt_of_le_of_lt (min_le_left _ _) (rowSafe_lt hw.le hrows)
    · have hbytes : c.maxPageBytes < bytes :=
        (hover n hmem).resolve_left (by omega)
      exact lt_of_le_of_lt (min_le_right _ _)
        (byteSafe_lt hw.le hposNat hfits hbytes)

/-- So does a count-first shrink. -/
theorem shrinkToFitCount_lt
    {count : ℕ} (hw : 1 < c.width) (hcount : c.pageSize < count) :
    (c.shrinkToFitCount count).2.width < c.width := by
  rw [shrinkToFitCount, if_neg (by omega)]
  exact truncate_setWidth_lt hw (rowSafe_nonneg hw.le count)
    (rowSafe_lt hw.le hcount)

theorem onTimeout_eq (c : SizedController) :
    c.onTimeout = c.setWidth (c.width / 2) := rfl

theorem onTimeout_le (hw : 1 ≤ c.width) :
    c.onTimeout.width ≤ c.width := by
  rw [onTimeout_eq, setWidth_width]
  omega

theorem onByteOverflow_eq (c : SizedController) (bytes : ℕ) :
    ∃ candidate, c.onByteOverflow bytes = c.setWidth candidate := by
  unfold onByteOverflow
  split_ifs
  · exact ⟨_, rfl⟩
  · exact ⟨_, rfl⟩

/-- A response to an overflow changes only the width. -/
theorem onOverflowProbed_eq
    (c : SizedController) (count : Option ℕ) (bytes : ℕ) :
    ∃ candidate, c.onOverflowProbed count bytes = c.setWidth candidate := by
  unfold onOverflowProbed
  split
  · split_ifs
    · exact onByteOverflow_eq c bytes
    · exact ⟨_, rfl⟩
  · exact ⟨_, rfl⟩

theorem shrinkToFitCount_eq (c : SizedController) (count : ℕ) :
    (c.shrinkToFitCount count).2 = c ∨
      ∃ candidate,
        (c.shrinkToFitCount count).2 = c.setWidth candidate := by
  unfold shrinkToFitCount
  split_ifs
  · exact .inl rfl
  · exact .inr ⟨_, rfl⟩

theorem shrinkToFitCount_isDone (c : SizedController) (count : ℕ) :
    (c.shrinkToFitCount count).2.isDone = c.isDone := by
  rcases c.shrinkToFitCount_eq count with heq | ⟨candidate, heq⟩
  · rw [heq]
  · rw [heq]
    rfl

/-- A bound on the work left: the keys still to scan, each at the greatest
width, and the current width. -/
def budget (c : SizedController) : ℕ :=
  (c.maxKey + 1 - c.rangeStart).toNat * (4 * c.maxWidth.toNat + 4) +
    4 * c.width.toNat

theorem setWidth_budget (c : SizedController) (candidate : ℤ) :
    (c.setWidth candidate).budget + 4 * c.width.toNat =
      c.budget + 4 * (c.setWidth candidate).width.toNat := by
  have hkeys : (c.setWidth candidate).budget =
      (c.maxKey + 1 - c.rangeStart).toNat * (4 * c.maxWidth.toNat + 4) +
        4 * (c.setWidth candidate).width.toNat := rfl
  rw [hkeys, budget]
  omega

/-- Taking a key off the width pays for four steps. -/
theorem setWidth_budget_of_lt
    {candidate : ℤ} (hone : 1 ≤ c.width)
    (hlt : (c.setWidth candidate).width < c.width) :
    (c.setWidth candidate).budget + 4 ≤ c.budget := by
  have hsum := c.setWidth_budget candidate
  have hpos := c.one_le_setWidth candidate
  omega

theorem onOverflowProbed_budget
    {count : Option ℕ} {bytes : ℕ} (hone : 1 ≤ c.width)
    (hlt : (c.onOverflowProbed count bytes).width < c.width) :
    (c.onOverflowProbed count bytes).budget + 4 ≤ c.budget := by
  obtain ⟨candidate, heq⟩ := c.onOverflowProbed_eq count bytes
  rw [heq] at hlt ⊢
  exact setWidth_budget_of_lt hone hlt

theorem shrinkToFitCount_budget
    {count : ℕ} (hone : 1 ≤ c.width)
    (hlt : (c.shrinkToFitCount count).2.width < c.width) :
    (c.shrinkToFitCount count).2.budget + 4 ≤ c.budget := by
  rcases c.shrinkToFitCount_eq count with heq | ⟨candidate, heq⟩
  · rw [heq] at hlt
    exact absurd hlt (lt_irrefl _)
  · rw [heq] at hlt ⊢
    exact setWidth_budget_of_lt hone hlt

theorem onTimeout_budget (hone : 1 ≤ c.width) :
    c.onTimeout.budget ≤ c.budget := by
  have hsum := c.setWidth_budget (c.width / 2)
  have hle := onTimeout_le hone
  rw [onTimeout_eq] at hle ⊢
  omega

/-- A completed range pays for sizing and reading the next one. -/
theorem onComplete_budget
    (growCeiling : ℚ) (rows elapsed bytes : ℕ) (hone : 1 ≤ c.width)
    (hmax : 1 ≤ c.maxWidth) (hdone : c.isDone = false) :
    (c.onComplete growCeiling rows elapsed bytes).budget + 8 ≤
      c.budget := by
  have hle : c.rangeStart ≤ c.maxKey := by
    simpa [RangeController.isDone] using hdone
  obtain ⟨w, hw, heq⟩ : ∃ w : ℤ, w ≤ c.maxWidth ∧
      (c.onComplete growCeiling rows elapsed bytes).budget =
        (c.maxKey + 1 - (c.rangeStart + c.width)).toNat *
            (4 * c.maxWidth.toNat + 4) + 4 * w.toNat :=
    ⟨max 1 (min _ c.maxWidth), by omega, rfl⟩
  have hkeys : (c.maxKey + 1 - (c.rangeStart + c.width)).toNat + 1 ≤
      (c.maxKey + 1 - c.rangeStart).toNat := by
    omega
  have hmul := Nat.mul_le_mul_right (4 * c.maxWidth.toNat + 4) hkeys
  rw [Nat.add_mul, Nat.one_mul] at hmul
  rw [heq, budget]
  omega

/-- The rules above are the scan's own, with its candidates computed. -/
theorem refines_scanController
    (growCeiling : ℚ) (c : SizedController) (rows elapsed bytes n : ℕ)
    (count : Option ℕ) :
    (c.onComplete growCeiling rows elapsed bytes).toScanController =
        c.toScanController.onComplete
          (truncate (c.grownWidth growCeiling rows elapsed bytes)) ∧
      (c.shrinkToFitCount n).2.toScanController =
        c.toScanController.shrinkToFitCount c.pageSize n
          (truncate (c.rowSafe n)) ∧
      (∃ candidate,
        (c.onOverflowProbed count bytes).toScanController =
          c.toScanController.onOverflowProbed c.maxPageBytes count bytes
            candidate) ∧
      c.onTimeout.toScanController = c.toScanController.onTimeout := by
  refine ⟨rfl, ?_, ?_, rfl⟩
  · unfold shrinkToFitCount ScanController.shrinkToFitCount
    split_ifs
    · rfl
    · rfl
  · unfold onOverflowProbed ScanController.onOverflowProbed
    cases count.filter (0 < ·) with
    | none =>
        dsimp only
        split_ifs
        · obtain ⟨candidate, heq⟩ := c.onByteOverflow_eq bytes
          exact ⟨candidate, by rw [heq]; rfl⟩
        · exact ⟨0, rfl⟩
    | some count => exact ⟨_, rfl⟩

end SizedController

/-! ## Whole sequences of calls -/

/-- What every sequence of calls keeps: the completed ranges tile the keys up
to the cursor, the width is within its bounds, and the limits are those the
controller was made with. -/
structure Paging.Tiled (initial : SizedController) (p : Paging) : Prop where
  tiles : Tiling.Tiles initial.rangeStart p.completed p.controller.rangeStart
  one_le_width : 1 ≤ p.controller.width
  width_le : p.controller.width ≤ initial.maxWidth
  maxKey_eq : p.controller.maxKey = initial.maxKey
  maxWidth_eq : p.controller.maxWidth = initial.maxWidth
  pageSize_eq : p.controller.pageSize = initial.pageSize
  maxPageBytes_eq : p.controller.maxPageBytes = initial.maxPageBytes

namespace Paging

variable {growCeiling : ℚ} {initial : SizedController} {p : Paging}

theorem tiled_start
    (hone : 1 ≤ initial.width) (hle : initial.width ≤ initial.maxWidth) :
    (start initial).Tiled initial where
  tiles := rfl
  one_le_width := hone
  width_le := hle
  maxKey_eq := rfl
  maxWidth_eq := rfl
  pageSize_eq := rfl
  maxPageBytes_eq := rfl

theorem Tiled.setWidth
    (hp : p.Tiled initial) (candidate : ℤ) :
    Tiled initial
      { p with controller := p.controller.setWidth candidate } where
  tiles := hp.tiles
  one_le_width := SizedController.one_le_setWidth _ _
  width_le := by
    have hone := hp.one_le_width
    have hle := hp.width_le
    have hmax := hp.maxWidth_eq
    simp only [SizedController.setWidth_width]
    omega
  maxKey_eq := hp.maxKey_eq
  maxWidth_eq := hp.maxWidth_eq
  pageSize_eq := hp.pageSize_eq
  maxPageBytes_eq := hp.maxPageBytes_eq

/-- The one call that advances the cursor completes the range it passes. -/
theorem Tiled.onComplete
    (growCeiling : ℚ) (hp : p.Tiled initial) (rows elapsed bytes : ℕ) :
    (p.perform growCeiling (.onComplete rows elapsed bytes)).Tiled
      initial := by
  have hlt : p.controller.rangeStart <
      p.controller.rangeStart + p.controller.width := by
    have := hp.one_le_width
    omega
  have hadvanced : Tiled initial
      { controller :=
          { p.controller with
            rangeStart :=
              p.controller.rangeStart + p.controller.width }
        completed := p.completed ++ [p.controller.currentRange] } :=
    { hp with tiles := hp.tiles.snoc hlt }
  exact hadvanced.setWidth _

theorem Tiled.perform
    (growCeiling : ℚ) (hp : p.Tiled initial) (call : RangeCall) :
    (p.perform growCeiling call).Tiled initial := by
  cases call with
  | onComplete rows elapsed bytes =>
      exact hp.onComplete growCeiling rows elapsed bytes
  | onOverflowProbed count bytes =>
      obtain ⟨candidate, heq⟩ :=
        p.controller.onOverflowProbed_eq count bytes
      simp only [Paging.perform, heq]
      exact hp.setWidth candidate
  | shrinkToFitCount count =>
      rcases p.controller.shrinkToFitCount_eq count with heq | ⟨_, heq⟩
      · simp only [Paging.perform, heq]
        exact hp
      · simp only [Paging.perform, heq]
        exact hp.setWidth _
  | onTimeout => exact hp.setWidth _

theorem Tiled.performAll
    (hp : p.Tiled initial) (calls : List RangeCall) :
    (calls.foldl (Paging.perform growCeiling) p).Tiled initial := by
  induction calls generalizing p with
  | nil => exact hp
  | cons call calls ih => exact ih (hp.perform growCeiling call)

/-- The scan is done exactly when every key from the start to the greatest is
in a completed range. -/
theorem Tiled.isDone_iff (hp : p.Tiled initial) :
    p.controller.isDone = true ↔
      ∀ key, initial.rangeStart ≤ key → key ≤ initial.maxKey →
        Tiling.Covered p.completed key := by
  have hdone : p.controller.isDone = true ↔
      initial.maxKey < p.controller.rangeStart := by
    rw [RangeController.isDone, decide_eq_true_iff, hp.maxKey_eq]
  rw [hdone]
  constructor
  · intro hlt key hlo hhi
    exact hp.tiles.covered_iff.mpr ⟨hlo, by omega⟩
  · intro hall
    by_contra hnot
    have hcovered := hall initial.maxKey
      (le_trans hp.tiles.le (by omega)) le_rfl
    exact hnot (hp.tiles.covered_iff.mp hcovered).2

/-- When the scan starts at or before the greatest key, it is done exactly
when that key is in a completed range. -/
theorem Tiled.isDone_iff_maxKey
    (hp : p.Tiled initial) (hle : initial.rangeStart ≤ initial.maxKey) :
    p.controller.isDone = true ↔
      Tiling.Covered p.completed initial.maxKey := by
  rw [RangeController.isDone, decide_eq_true_iff, hp.maxKey_eq,
    hp.tiles.covered_iff]
  exact ⟨fun hlt => ⟨hle, hlt⟩, fun h => h.2⟩

end Paging

/-! ## The steps of the loop -/

/-- A query that times out or fails. -/
def DriveAction.isInterruption : DriveAction → Bool
  | .timedOut | .failed => true
  | _ => false

/-- The order of the phases within one round of the loop. -/
def DrivePhase.rank : DrivePhase → ℕ
  | .loopTop => 3
  | .probing => 2
  | .reading => 1
  | .overflowed _ | .ended => 0

/-- A query that returns a page. -/
def DriveAction.isRead : DriveAction → Bool
  | .readPage _ _ => true
  | _ => false

theorem KeyTable.total_one (amount : ℤ → ℕ) (key : ℤ) :
    KeyTable.total amount key (key + 1) = amount key := by
  simp [KeyTable.total]

namespace Drive

variable {growCeiling : ℚ} {table : KeyTable} {initial : SizedController}
variable {d d' : Drive} {action : DriveAction}

/-- The page read by the loop is over one of the limits. -/
def Overflows (table : KeyTable) (d : Drive) (bytes : ℕ) : Prop :=
  d.controller.pageSize <
      min (table.fetchCount d.controller.currentRange) d.pageLimit ∨
    d.controller.maxPageBytes < bytes

/-- What a step can do. -/
inductive Stepped (growCeiling : ℚ) (table : KeyTable) (d : Drive) :
    DriveAction → Drive → Prop
  | finishes (hphase : d.phase = .loopTop)
      (hdone : d.controller.isDone = true) :
      Stepped growCeiling table d .enterPage { d with phase := .ended }
  | enters (hphase : d.phase = .loopTop)
      (hdone : d.controller.isDone = false) :
      Stepped growCeiling table d .enterPage { d with phase := .probing }
  | fits (hphase : d.phase = .probing) :
      Stepped growCeiling table d .countProbe { d with phase := .reading }
  | shrinks (hphase : d.phase = .probing) (hwidth : 1 < d.controller.width)
      (hcount : d.controller.pageSize <
        table.fetchCount d.controller.currentRange) :
      Stepped growCeiling table d .countProbe
        { d with
          paging := d.paging.perform growCeiling
            (.shrinkToFitCount
              (table.fetchCount d.controller.currentRange)) }
  | stuck {bytes elapsed : ℕ} (hphase : d.phase = .reading)
      (hwidth : d.controller.width ≤ 1) (hover : d.Overflows table bytes)
      (hreads : table.ReadsBytes d.controller.currentRange d.pageLimit
        bytes) :
      Stepped growCeiling table d (.readPage bytes elapsed)
        { d with phase := .ended }
  | overflows {bytes elapsed : ℕ} (hphase : d.phase = .reading)
      (hwidth : 1 < d.controller.width) (hover : d.Overflows table bytes) :
      Stepped growCeiling table d (.readPage bytes elapsed)
        { d with phase := .overflowed bytes }
  | completes {rows bytes elapsed : ℕ} (hphase : d.phase = .reading) :
      Stepped growCeiling table d (.readPage bytes elapsed)
        { paging := d.paging.perform growCeiling
            (.onComplete rows elapsed bytes)
          phase := .loopTop }
  | timesOut (hphase : d.phase = .reading) :
      Stepped growCeiling table d .timedOut
        { paging := d.paging.perform growCeiling .onTimeout
          phase := .loopTop }
  | fails (hphase : d.phase = .reading) :
      Stepped growCeiling table d .failed { d with phase := .loopTop }
  | probes {bytes : ℕ} (hphase : d.phase = .overflowed bytes) :
      Stepped growCeiling table d .overflowProbe
        (d.overflowProbe growCeiling table bytes)

theorem atMinWidth_iff (d : Drive) :
    d.controller.atMinWidth = true ↔ d.controller.width ≤ 1 :=
  decide_eq_true_iff

theorem countProbe_stepped (hphase : d.phase = .probing) :
    Stepped growCeiling table d .countProbe
      (d.countProbe growCeiling table) := by
  unfold countProbe
  dsimp only
  split_ifs with hmin hcount
  · exact .fits hphase
  · rw [atMinWidth_iff, not_le] at hmin
    exact .shrinks hphase hmin hcount
  · exact .fits hphase

theorem readPage_stepped
    {bytes elapsed : ℕ} (hphase : d.phase = .reading)
    (hreads : table.ReadsBytes d.controller.currentRange d.pageLimit
      bytes) :
    Stepped growCeiling table d (.readPage bytes elapsed)
      (d.readPage growCeiling table bytes elapsed) := by
  unfold readPage
  dsimp only
  split_ifs with hover hmin
  · exact .stuck hphase ((atMinWidth_iff d).mp hmin) hover hreads
  · rw [atMinWidth_iff, not_le] at hmin
    exact .overflows hphase hmin hover
  · exact .completes hphase

theorem stepped_of_step
    (hstep : d.step growCeiling table action = some d') :
    Stepped growCeiling table d action d' := by
  unfold step at hstep
  split at hstep
  · split at hstep
    · next hphase =>
      split_ifs at hstep with hdone
      · obtain rfl := Option.some.inj hstep
        exact .finishes hphase hdone
      · obtain rfl := Option.some.inj hstep
        exact .enters hphase (by simpa using hdone)
    · simp at hstep
  · split at hstep
    · next hphase =>
      obtain rfl := Option.some.inj hstep
      exact countProbe_stepped hphase
    · simp at hstep
  · split at hstep
    · next hphase =>
      split_ifs at hstep with hreads
      obtain rfl := Option.some.inj hstep
      exact readPage_stepped hphase hreads
    · simp at hstep
  · split at hstep
    · next hphase =>
      obtain rfl := Option.some.inj hstep
      exact .timesOut hphase
    · simp at hstep
  · split at hstep
    · next hphase =>
      obtain rfl := Option.some.inj hstep
      exact .fails hphase
    · simp at hstep
  · split at hstep
    · next bytes hphase =>
      obtain rfl := Option.some.inj hstep
      exact .probes hphase
    · simp at hstep

/-! ## The invariant of the loop -/

/-- The single key of the range is over one of the limits. -/
def KeyTooLarge (table : KeyTable) (initial : SizedController) (key : ℤ) :
    Prop :=
  initial.pageSize < table.rows key ∨ initial.maxPageBytes < table.bytes key

/-- What the loop knows where it stands. -/
structure Sound (table : KeyTable) (initial : SizedController) (d : Drive) :
    Prop where
  tiled : d.paging.Tiled initial
  working : d.phase = .probing ∨ d.phase = .reading ∨
    (∃ bytes, d.phase = .overflowed bytes) → d.controller.isDone = false
  overflowed : ∀ bytes, d.phase = .overflowed bytes →
    1 < d.controller.width ∧
      (d.controller.pageSize <
          table.fetchCount d.controller.currentRange ∨
        d.controller.maxPageBytes < bytes)
  ended : d.phase = .ended → d.controller.isDone = true ∨
    d.controller.width = 1 ∧
      KeyTooLarge table initial d.controller.rangeStart

/-- A page at the smallest width is one key, and what was read of it is over
a limit only if the key is. -/
theorem keyTooLarge_of_overflows
    {bytes : ℕ} (hs : Sound table initial d)
    (hwidth : d.controller.width = 1) (hover : d.Overflows table bytes)
    (hreads : table.ReadsBytes d.controller.currentRange d.pageLimit
      bytes) :
    KeyTooLarge table initial d.controller.rangeStart := by
  have hrange : d.controller.currentRange =
      (d.controller.rangeStart, d.controller.rangeStart + 1) := by
    rw [RangeController.currentRange, hwidth]
  have hpage : d.controller.pageSize = initial.pageSize :=
    hs.tiled.pageSize_eq
  have hmax : d.controller.maxPageBytes = initial.maxPageBytes :=
    hs.tiled.maxPageBytes_eq
  unfold Overflows at hover
  unfold KeyTable.ReadsBytes at hreads
  simp only [hrange, KeyTable.fetchCount, KeyTable.rangeBytes,
    KeyTable.total_one] at hover hreads
  rcases hover with hrows | hbytes
  · left
    have := lt_of_lt_of_le hrows (min_le_left _ _)
    omega
  · right
    omega

theorem sound_step
    (hs : Sound table initial d)
    (hstep : d.step growCeiling table action = some d') :
    Sound table initial d' := by
  cases stepped_of_step hstep with
  | finishes hphase hdone =>
      exact
        { tiled := hs.tiled
          working := by simp
          overflowed := by simp
          ended := fun _ => .inl hdone }
  | enters hphase hdone =>
      exact
        { tiled := hs.tiled
          working := fun _ => hdone
          overflowed := by simp
          ended := by simp }
  | fits hphase =>
      exact
        { tiled := hs.tiled
          working := fun _ => hs.working (.inl hphase)
          overflowed := by simp
          ended := by simp }
  | shrinks hphase hwidth hcount =>
      have hdone := hs.working (.inl hphase)
      exact
        { tiled := hs.tiled.perform growCeiling (.shrinkToFitCount _)
          working := fun _ =>
            (SizedController.shrinkToFitCount_isDone _ _).trans hdone
          overflowed := by simp [hphase]
          ended := by simp [hphase] }
  | stuck hphase hwidth hover hreads =>
      have hone : d.controller.width = 1 := by
        have := hs.tiled.one_le_width
        unfold controller at *
        omega
      have hlarge := keyTooLarge_of_overflows hs hone hover hreads
      exact
        { tiled := hs.tiled
          working := by simp
          overflowed := by simp
          ended := fun _ => .inr ⟨hone, hlarge⟩ }
  | overflows hphase hwidth hover =>
      exact
        { tiled := hs.tiled
          working := fun _ => hs.working (.inr (.inl hphase))
          overflowed := by
            intro bytes heq
            obtain rfl := DrivePhase.overflowed.inj heq
            refine ⟨hwidth, ?_⟩
            exact hover.imp_left fun hrows =>
              lt_of_lt_of_le hrows (min_le_left _ _)
          ended := by simp }
  | completes hphase =>
      exact
        { tiled := hs.tiled.perform growCeiling (.onComplete _ _ _)
          working := by simp
          overflowed := by simp
          ended := by simp }
  | timesOut hphase =>
      exact
        { tiled := hs.tiled.perform growCeiling .onTimeout
          working := by simp
          overflowed := by simp
          ended := by simp }
  | fails hphase =>
      exact
        { tiled := hs.tiled
          working := by simp
          overflowed := by simp
          ended := by simp }
  | probes hphase =>
      exact
        { tiled := hs.tiled.perform growCeiling (.onOverflowProbed _ _)
          working := by simp [overflowProbe]
          overflowed := by simp [overflowProbe]
          ended := by simp [overflowProbe] }

/-! ## Progress -/

theorem start_sound
    (hone : 1 ≤ initial.width) (hle : initial.width ≤ initial.maxWidth) :
    Sound table initial (start initial) where
  tiled := Paging.tiled_start hone hle
  working := by simp [start]
  overflowed := by simp [start]
  ended := by simp [start]

theorem sound_run
    {actions : List DriveAction} (hs : Sound table initial d)
    (hrun : Transition.run (step growCeiling table) d actions = some d') :
    Sound table initial d' :=
  Transition.run_invariant (fun _ _ _ => sound_step) hs hrun

/-- The response to an overflow takes at least one key off the width. -/
theorem overflowProbe_width_lt
    (growCeiling : ℚ) {bytes : ℕ} (hs : Sound table initial d)
    (hphase : d.phase = .overflowed bytes) :
    (d.overflowProbe growCeiling table bytes).controller.width <
      d.controller.width := by
  obtain ⟨hwidth, hover⟩ := hs.overflowed bytes hphase
  apply SizedController.onOverflowProbed_lt hwidth
  intro count hcount
  obtain rfl := Option.some.inj hcount
  exact hover

/-- Every response to an overflow and every count-first shrink does. -/
theorem response_width_lt
    (hs : Sound table initial d)
    (hstep : d.step growCeiling table action = some d')
    (hresponse : action = .overflowProbe ∨
      action = .countProbe ∧ d'.phase = .probing) :
    d'.controller.width < d.controller.width := by
  cases stepped_of_step hstep with
  | shrinks hphase hwidth hcount =>
      exact SizedController.shrinkToFitCount_lt hwidth hcount
  | probes hphase => exact overflowProbe_width_lt growCeiling hs hphase
  | finishes | enters | fits | stuck | overflows | completes | timesOut
  | fails => simp at hresponse

/-- Some step is possible until the loop ends, and it need not be a query
that times out or fails. -/
theorem exists_step (hphase : d.phase ≠ .ended) :
    ∃ action d', action.isInterruption = false ∧
      d.step growCeiling table action = some d' := by
  rcases hcase : d.phase with _ | _ | _ | bytes | _
  · cases hdone : d.controller.isDone with
    | true =>
        exact ⟨.enterPage, { d with phase := .ended }, rfl,
          by simp [step, hcase, hdone]⟩
    | false =>
        exact ⟨.enterPage, { d with phase := .probing }, rfl,
          by simp [step, hcase, hdone]⟩
  · exact ⟨.countProbe, d.countProbe growCeiling table, rfl,
      by simp [step, hcase]⟩
  · have hreads : table.ReadsBytes d.controller.currentRange d.pageLimit
        (table.rangeBytes d.controller.currentRange) :=
      ⟨le_rfl, fun _ => rfl⟩
    exact ⟨.readPage (table.rangeBytes d.controller.currentRange) 0,
      d.readPage growCeiling table
        (table.rangeBytes d.controller.currentRange) 0, rfl,
      by simp only [step, hcase, if_pos hreads]⟩
  · exact ⟨.overflowProbe, d.overflowProbe growCeiling table bytes, rfl,
      by simp [step, hcase]⟩
  · exact absurd hcase hphase

/-- A bound on the steps left. -/
def potential (d : Drive) : ℕ :=
  d.controller.budget + d.phase.rank

/-- Every step lowers the potential, except that a query that times out or
fails goes back to the top of the loop. -/
theorem potential_step
    (hs : Sound table initial d)
    (hstep : d.step growCeiling table action = some d') :
    d'.potential + 1 ≤
      d.potential + 3 * (if action.isInterruption then 1 else 0) := by
  have hone : 1 ≤ d.controller.width := hs.tiled.one_le_width
  have hbound : 1 ≤ d.controller.maxWidth :=
    le_trans (le_trans hone hs.tiled.width_le) hs.tiled.maxWidth_eq.ge
  cases stepped_of_step hstep with
  | finishes hphase | enters hphase | fits hphase | stuck hphase
  | overflows hphase | fails hphase =>
      simp [potential, hphase, DrivePhase.rank, controller,
        DriveAction.isInterruption]
  | shrinks hphase hwidth hcount =>
      have hlt := SizedController.shrinkToFitCount_lt hwidth hcount
      have hpaid := SizedController.shrinkToFitCount_budget hone hlt
      change (d.controller.shrinkToFitCount _).2.budget + d.phase.rank + 1 ≤
        d.controller.budget + d.phase.rank
      omega
  | @completes rows bytes elapsed hphase =>
      have hdone := hs.working (.inr (.inl hphase))
      have hpaid := SizedController.onComplete_budget growCeiling
        rows elapsed bytes hone hbound hdone
      change (d.controller.onComplete _ _ _ _).budget + 3 + 1 ≤
        d.controller.budget + d.phase.rank
      omega
  | timesOut hphase =>
      have hpaid := SizedController.onTimeout_budget hone
      simp only [potential, hphase, DrivePhase.rank, controller,
        DriveAction.isInterruption, Paging.perform, if_true] at hpaid ⊢
      omega
  | probes hphase =>
      have hlt := overflowProbe_width_lt growCeiling hs hphase
      have hpaid := SizedController.onOverflowProbed_budget hone hlt
      exact le_trans hpaid (Nat.le_add_right _ _)

/-- A run without interruptions is no longer than the potential it starts
with; each interruption adds at most three steps. -/
theorem potential_run
    {actions : List DriveAction} (hs : Sound table initial d)
    (hrun : Transition.run (step growCeiling table) d actions = some d') :
    actions.length + d'.potential ≤
      d.potential + 3 * actions.countP DriveAction.isInterruption := by
  induction actions generalizing d with
  | nil =>
      obtain rfl : d = d' := by simpa using hrun
      simp
  | cons action actions ih =>
      obtain ⟨m, hstep, hrest⟩ := Transition.run_cons_eq_some.mp hrun
      have hfirst := potential_step hs hstep
      have htail := ih (sound_step hs hstep) hrest
      rw [List.countP_cons, List.length_cons]
      omega

/-- The pages that may still be read before one is completed. -/
def readsLeft (d : Drive) : ℕ :=
  d.controller.width.toNat + if d.phase.rank = 0 then 0 else 1

theorem readsLeft_step
    (hs : Sound table initial d)
    (hstep : d.step growCeiling table action = some d') :
    (if action.isRead then 1 else 0) + d'.readsLeft +
        d.paging.completed.length * initial.maxWidth.toNat ≤
      d.readsLeft +
        d'.paging.completed.length * initial.maxWidth.toNat := by
  have hone : 1 ≤ d.controller.width := hs.tiled.one_le_width
  cases stepped_of_step hstep with
  | finishes hphase | enters hphase | fits hphase | stuck hphase
  | overflows hphase | fails hphase =>
      simp [readsLeft, hphase, DrivePhase.rank, controller,
        DriveAction.isRead]
      try omega
  | shrinks hphase hwidth hcount =>
      have hlt := SizedController.shrinkToFitCount_lt hwidth hcount
      simp only [readsLeft, hphase, DrivePhase.rank, controller,
        DriveAction.isRead, Paging.perform] at hlt ⊢
      simp
      omega
  | @completes rows bytes elapsed hphase =>
      have hnext := (hs.tiled.onComplete growCeiling rows elapsed
        bytes).width_le
      simp only [readsLeft, hphase, DrivePhase.rank, controller,
        DriveAction.isRead, Paging.perform, List.length_append,
        List.length_singleton, Nat.add_mul, Nat.one_mul] at hone hnext ⊢
      simp
      omega
  | timesOut hphase =>
      have hle := SizedController.onTimeout_le hone
      simp only [readsLeft, hphase, DrivePhase.rank, controller,
        DriveAction.isRead, Paging.perform] at hle ⊢
      simp
      omega
  | probes hphase =>
      have hlt := overflowProbe_width_lt growCeiling hs hphase
      simp only [readsLeft, hphase, DrivePhase.rank, controller,
        DriveAction.isRead, overflowProbe, Paging.perform] at hone hlt ⊢
      simp
      omega

/-- A run reads at most as many pages as the greatest width for each page it
completes and for the one it is at. -/
theorem readsLeft_run
    {actions : List DriveAction} (hs : Sound table initial d)
    (hrun : Transition.run (step growCeiling table) d actions = some d') :
    actions.countP DriveAction.isRead + d'.readsLeft +
        d.paging.completed.length * initial.maxWidth.toNat ≤
      d.readsLeft +
        d'.paging.completed.length * initial.maxWidth.toNat := by
  induction actions generalizing d with
  | nil =>
      obtain rfl : d = d' := by simpa using hrun
      simp
  | cons action actions ih =>
      obtain ⟨m, hstep, hrest⟩ := Transition.run_cons_eq_some.mp hrun
      have hfirst := readsLeft_step hs hstep
      have htail := ih (sound_step hs hstep) hrest
      rw [List.countP_cons]
      omega

/-- So between two completed pages it reads at most as many. -/
theorem reads_le_of_no_completion
    {actions : List DriveAction} (hs : Sound table initial d)
    (hrun : Transition.run (step growCeiling table) d actions = some d')
    (hsame : d'.paging.completed = d.paging.completed) :
    actions.countP DriveAction.isRead ≤ initial.maxWidth.toNat := by
  have hbound := readsLeft_run hs hrun
  have hlast : 1 ≤ d'.controller.width :=
    (sound_run hs hrun).tiled.one_le_width
  have hfirst : d.controller.width ≤ initial.maxWidth := hs.tiled.width_le
  have hstart : d.readsLeft ≤ initial.maxWidth.toNat + 1 := by
    unfold readsLeft
    split_ifs <;> omega
  have hend : 1 ≤ d'.readsLeft := by
    unfold readsLeft
    omega
  rw [hsame] at hbound
  omega

end Drive

/-! ## The result -/

/-- Every sequence of calls leaves completed ranges that tile the keys from
the start to the cursor, with the width in its bounds, and the scan is done
exactly when they cover the greatest key.  Over every table, the loop with
exact counts shrinks the width in each response to an overflow and each
count-first shrink; it reads boundedly many pages between two completed ones
and takes boundedly many steps, but for queries that time out or fail; it can
step until it ends, and it ends past the greatest key or at a single key that
is over a limit. -/
theorem range_controller_tiles_and_progresses
    (growCeiling : ℚ) (pageSize maxPageBytes softTimeBudget : ℕ)
    (start maxKey initialWidth maxWidth : ℤ) (hmax : 1 ≤ maxWidth) :
    let initial := SizedController.new pageSize maxPageBytes start maxKey
      initialWidth maxWidth softTimeBudget
    (∀ calls : List RangeCall,
      let p := calls.foldl (Paging.perform growCeiling)
        (Paging.start initial)
      Tiling.Tiles start p.completed p.controller.rangeStart ∧
        (∀ key, Tiling.Covered p.completed key ↔
          start ≤ key ∧ key < p.controller.rangeStart) ∧
        (p.completed.Pairwise fun earlier later => earlier.2 ≤ later.1) ∧
        (1 ≤ p.controller.width ∧ p.controller.width ≤ maxWidth) ∧
        (p.controller.isDone = true ↔
          ∀ key, start ≤ key → key ≤ maxKey →
            Tiling.Covered p.completed key) ∧
        (start ≤ maxKey → (p.controller.isDone = true ↔
          Tiling.Covered p.completed maxKey))) ∧
    ∀ (table : KeyTable) (actions : List DriveAction) (d : Drive),
      Transition.run (Drive.step growCeiling table) (Drive.start initial)
        actions = some d →
      (∀ action d', d.step growCeiling table action = some d' →
        (action = .overflowProbe ∨
          action = .countProbe ∧ d'.phase = .probing) →
        d'.controller.width < d.controller.width) ∧
      (∀ later t, Transition.run (Drive.step growCeiling table) d later =
          some t →
        t.paging.completed = d.paging.completed →
        later.countP DriveAction.isRead ≤ maxWidth.toNat) ∧
      actions.length ≤ (Drive.start initial).potential +
        3 * actions.countP DriveAction.isInterruption ∧
      (d.phase ≠ .ended → ∃ action d',
        action.isInterruption = false ∧
          d.step growCeiling table action = some d') ∧
      (d.phase = .ended → d.controller.isDone = true ∨
        d.controller.width = 1 ∧
          (pageSize < table.rows d.controller.rangeStart ∨
            maxPageBytes < table.bytes d.controller.rangeStart)) := by
  intro initial
  have hone : 1 ≤ initial.width := le_max_left _ _
  have hle : initial.width ≤ initial.maxWidth :=
    max_le hmax (min_le_right _ _)
  constructor
  · intro calls p
    have hp : p.Tiled initial :=
      (Paging.tiled_start hone hle).performAll calls
    exact ⟨hp.tiles, fun key => hp.tiles.covered_iff, hp.tiles.pairwise,
      ⟨hp.one_le_width, hp.width_le⟩, hp.isDone_iff,
      hp.isDone_iff_maxKey⟩
  · intro table actions d hrun
    have hstart : Drive.Sound table initial (Drive.start initial) :=
      Drive.start_sound hone hle
    have hs := Drive.sound_run hstart hrun
    refine ⟨?_, ?_, ?_, Drive.exists_step, hs.ended⟩
    · intro action d' hstep hresponse
      exact Drive.response_width_lt hs hstep hresponse
    · intro later t hlater hsame
      exact Drive.reads_le_of_no_completion hs hlater hsame
    · exact le_trans (Nat.le_add_right _ _)
        (Drive.potential_run hstart hrun)

/-- A table of eleven keys with five rows of ten bytes each, pages of three
rows and a first range of eight keys: the scan stops at its first key. -/
theorem range_controller_stops_at_dense_key :
    let initial := SizedController.new 3 1000 0 10 8 16 30
    let table : KeyTable := ⟨fun _ => 5, fun _ => 50⟩
    ∃ d, Transition.run (Drive.step 4 table) (Drive.start initial)
          [.enterPage, .countProbe, .countProbe, .readPage 40 1] =
        some d ∧
      d.phase = .ended ∧
      (d.controller.isDone = true ∨ d.controller.width = 1 ∧
        (3 < table.rows d.controller.rangeStart ∨
          1000 < table.bytes d.controller.rangeStart)) := by
  intro initial table
  refine Exists.imp (fun d (h : _ ∧ d.phase = .ended) => ⟨h.1, h.2,
      ((range_controller_tiles_and_progresses 4 3 1000 30 0 10 8 16
        (by decide)).2 table _ d h.1).2.2.2.2 h.2⟩)
    (Transition.exists_run_of_decide (by decide +kernel))

end ClickHouse

end Streamling
