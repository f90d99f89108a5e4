import Mathlib
import Streamling.Operators.Dedup

/-!
# Keeping the last row of each key preserves upserts

Deduplication returns the rows that are the last of their primary key, in
their order, whatever the hasher and the order in which the buckets are
visited.  So the returned rows, applied as keyed upserts and deletes, leave
every table as all rows do, and deduplicating earlier and more often changes
nothing.
-/

namespace Streamling

namespace Dedup

open Arrow (ArrowField findField findField_eq_some)
open KeyedBatches (keepLast)

variable {α σ : Type}

/-! ## Key columns -/

/-- The columns of a primary key. -/
def keyColumns (batch : RowBatch α) (primaryKeys : List String) : List ℕ :=
  primaryKeys.filterMap fun name => (findField name batch.fields).map Prod.fst

/-- Every primary key column exists, and its values can be compared. -/
def Readable (kernels : Kernels α σ) (batch : RowBatch α)
    (primaryKeys : List String) : Prop :=
  ∀ name ∈ primaryKeys, ∃ i field,
    findField name batch.fields = some (i, field) ∧
      kernels.comparable field.dataType = true

section Columns

variable {kernels : Kernels α σ} {batch other : RowBatch α}
variable {primaryKeys : List String}

theorem Readable.tail {name : String}
    (h : Readable kernels batch (name :: primaryKeys)) :
    Readable kernels batch primaryKeys :=
  fun name' hname => h name' (List.mem_cons_of_mem _ hname)

theorem Readable.of_fields_eq
    (h : Readable kernels batch primaryKeys)
    (hfields : other.fields = batch.fields) :
    Readable kernels other primaryKeys := by
  unfold Readable
  rw [hfields]
  exact h

theorem keyColumns_of_fields_eq (hfields : other.fields = batch.fields) :
    keyColumns other primaryKeys = keyColumns batch primaryKeys := by
  unfold keyColumns
  rw [hfields]

theorem primaryKeyIndices_eq (h : Readable kernels batch primaryKeys) :
    primaryKeyIndices batch primaryKeys =
      .ok (keyColumns batch primaryKeys) := by
  unfold primaryKeyIndices keyColumns
  induction primaryKeys with
  | nil => rfl
  | cons name primaryKeys ih =>
      obtain ⟨i, field, hfind, -⟩ := h name List.mem_cons_self
      rw [List.mapM_cons, ih h.tail]
      simp [hfind, bind, Except.bind, pure, Except.pure]

theorem keyColumns_eq_nil_iff (h : Readable kernels batch primaryKeys) :
    keyColumns batch primaryKeys = [] ↔ primaryKeys = [] := by
  constructor
  · intro hnil
    rcases primaryKeys with _ | ⟨name, primaryKeys⟩
    · rfl
    · obtain ⟨i, field, hfind, -⟩ := h name List.mem_cons_self
      simp [keyColumns, hfind] at hnil
  · rintro rfl
    rfl

theorem comparable_keyColumns (h : Readable kernels batch primaryKeys) :
    (columnTypes batch (keyColumns batch primaryKeys)).all
      kernels.comparable = true := by
  rw [List.all_eq_true]
  intro type htype
  obtain ⟨i, hi, htype⟩ := List.mem_filterMap.mp htype
  obtain ⟨name, hname, hi⟩ := List.mem_filterMap.mp hi
  obtain ⟨j, field, hfind, hcomparable⟩ := h name hname
  rw [hfind, Option.map_some, Option.some.injEq] at hi
  subst hi
  rw [(findField_eq_some hfind).1, Option.map_some,
    Option.some.injEq] at htype
  rw [← htype]
  exact hcomparable

end Columns

/-! ## Survivors in the order of the batch -/

theorem mergeSort_eq_filter
    {indices : List ℕ} {n : ℕ} {p : ℕ → Prop} [DecidablePred p]
    (hnodup : indices.Nodup) (hmem : ∀ i, i ∈ indices ↔ i < n ∧ p i) :
    indices.mergeSort = (List.range n).filter p := by
  have hrange : ((List.range n).filter p).Pairwise (· < ·) :=
    List.pairwise_lt_range.filter _
  have hsorted : indices.mergeSort.Pairwise (· ≤ ·) :=
    List.pairwise_mergeSort' (· ≤ ·) indices
  have hperm : indices.mergeSort.Perm ((List.range n).filter p) := by
    refine (List.mergeSort_perm _ _).trans ?_
    rw [List.perm_ext_iff_of_nodup hnodup (hrange.imp Nat.ne_of_lt)]
    intro i
    simp [hmem]
  exact hperm.eq_of_pairwise' hsorted (hrange.imp Nat.le_of_lt)

/-- Visiting the buckets in another order yields the same entries. -/
theorem visit_flatMap_perm (kernels : Kernels α σ) {ε : Type}
    (buckets : List (UInt64 × List ε)) :
    ((kernels.visit buckets).flatMap Prod.snd).Perm
      (buckets.flatMap Prod.snd) :=
  (kernels.visit_perm buckets).flatMap_right _

theorem filterMap_range_getElem? {β : Type} (xs : List β) :
    (List.range xs.length).filterMap (fun i => xs[i]?) = xs := by
  induction xs with
  | nil => rfl
  | cons x xs ih =>
      rw [List.length_cons, List.range_succ_eq_map,
        List.filterMap_cons_some (List.getElem?_cons_zero ..),
        List.filterMap_map]
      exact congrArg (x :: ·) ih

/-- Taking every row is taking the batch. -/
theorem take_of_length_eq
    {batch : RowBatch α} {p : ℕ → Prop} [DecidablePred p]
    (h : ((List.range batch.numRows).filter p).length = batch.numRows) :
    batch.take ((List.range batch.numRows).filter p) = batch := by
  have hall : (List.range batch.numRows).filter p =
      List.range batch.numRows := by
    apply List.filter_sublist.eq_of_length
    rw [h, List.length_range]
  rw [hall]
  exact RowBatch.ext rfl rfl (filterMap_range_getElem? batch.rows)

/-! ## The last row of each key -/

/-- Do two rows have the same primary key?  Without key columns no two rows
do. -/
def SameKey (batch : RowBatch α) (columns : List ℕ) (i j : ℕ) : Prop :=
  columns ≠ [] ∧ batch.cells columns i = batch.cells columns j

/-- Is a row the last occurrence of its primary key? -/
def LastOfKey (batch : RowBatch α) (columns : List ℕ) (i : ℕ) : Prop :=
  ∀ j < batch.numRows, i < j → ¬SameKey batch columns i j

instance [DecidableEq α] (batch : RowBatch α) (columns : List ℕ) :
    DecidablePred (LastOfKey batch columns) := fun i =>
  inferInstanceAs (Decidable (∀ j < batch.numRows, i < j →
    ¬(columns ≠ [] ∧ batch.cells columns i = batch.cells columns j)))

section KeepLast

variable [DecidableEq α] {kernels : Kernels α σ} {batch : RowBatch α}
variable {primaryKeys : List String} {columns : List ℕ}

/-- The rows that survive, whatever the hash. -/
theorem mem_bucketRows_iff {i : ℕ} (hcolumns : columns ≠ []) :
    i ∈ (bucketRows kernels batch columns).flatMap Prod.snd ↔
      i < batch.numRows ∧ LastOfKey batch columns i := by
  have hwins : ∀ x e : ℕ, keepLatest x e = true ↔ (0 : ℕ) ≤ 0 := by
    simp [keepLatest]
  have hpos : (List.range batch.numRows).Pairwise fun x y => id x < id y :=
    List.pairwise_lt_range
  rw [bucketRows, Buckets.mem_fill_iff,
    Buckets.winner_eq_some_iff hwins hpos]
  simp only [List.mem_range, Buckets.Outranks, lt_irrefl, true_and,
    false_or, id]
  refine and_congr_right fun _ => ?_
  constructor
  · rintro hall j hj hlt ⟨-, hkey⟩
    exact absurd (hall j hj hkey.symm) (by omega)
  · intro hlast j hj hkey
    by_contra hlt
    exact hlast j hj (by omega) ⟨hcolumns, hkey.symm⟩

omit [DecidableEq α] in
theorem lastOfKey_nil (i : ℕ) : LastOfKey batch [] i :=
  fun _ _ _ hsame => hsame.1 rfl

/-- Deduplication takes the last row of each primary key. -/
theorem deduplicateRecordBatch_eq
    (h : Readable kernels batch primaryKeys) :
    deduplicateRecordBatch kernels batch primaryKeys =
      .ok (batch.take ((List.range batch.numRows).filter
        (LastOfKey batch (keyColumns batch primaryKeys)))) := by
  unfold deduplicateRecordBatch
  rw [primaryKeyIndices_eq h]
  simp only [bind, Except.bind, pure, Except.pure]
  by_cases hcolumns : keyColumns batch primaryKeys = []
  · have hall : (List.range batch.numRows).filter (LastOfKey batch []) =
        List.range batch.numRows := by
      rw [List.filter_eq_self]
      intro i _
      simpa using lastOfKey_nil i
    simp only [hcolumns, List.isEmpty_nil, if_true]
    rw [take_of_length_eq (by rw [hall, List.length_range])]
  · have hempty : (keyColumns batch primaryKeys).isEmpty = false := by
      simpa using hcolumns
    have hindices : ((kernels.visit (bucketRows kernels batch
        (keyColumns batch primaryKeys))).flatMap Prod.snd).mergeSort =
        (List.range batch.numRows).filter
          (LastOfKey batch (keyColumns batch primaryKeys)) := by
      have hperm := visit_flatMap_perm kernels
        (bucketRows kernels batch (keyColumns batch primaryKeys))
      apply mergeSort_eq_filter
      · exact hperm.nodup_iff.mpr (Buckets.nodup_fill _)
      · intro i
        rw [hperm.mem_iff, mem_bucketRows_iff hcolumns]
    simp only [hempty, comparable_keyColumns h, Bool.not_true,
      Bool.false_eq_true, if_false, hindices]
    split_ifs with hlength
    · rw [take_of_length_eq hlength]
    · rfl

/-! ### The surviving rows as a list -/

/-- Deduplicate rows: without key columns they stay as they are. -/
def lastRows (columns : List ℕ) (rows : List (List (Option α))) :
    List (List (Option α)) :=
  if columns = [] then rows else keepLast (RowBatch.cellsAt columns) rows

omit [DecidableEq α] in
theorem lastOfKey_iff_isLast {i : ℕ} (hcolumns : columns ≠ [])
    (hi : i < batch.numRows) :
    LastOfKey batch columns i ↔
      KeyedBatches.IsLast (RowBatch.cellsAt columns) batch.rows i := by
  have hcells : ∀ {j}, j < batch.numRows →
      (batch.rows[j]?).map (RowBatch.cellsAt columns) =
        some (batch.cells columns j) := by
    intro j hj
    have hj' : j < batch.rows.length := hj
    simp [RowBatch.cells, hj']
  unfold LastOfKey KeyedBatches.IsLast
  refine forall_congr' fun j => forall_congr' fun hj =>
    forall_congr' fun _ => ?_
  rw [hcells hi, hcells hj, ne_eq, Option.some.injEq, SameKey]
  constructor
  · intro h heq
    exact h ⟨hcolumns, heq.symm⟩
  · rintro h ⟨-, heq⟩
    exact h heq.symm

theorem rows_take_lastOfKey (batch : RowBatch α) (columns : List ℕ) :
    (batch.take ((List.range batch.numRows).filter
      (LastOfKey batch columns))).rows = lastRows columns batch.rows := by
  unfold lastRows
  split_ifs with hcolumns
  · subst hcolumns
    have hall : (List.range batch.numRows).filter (LastOfKey batch []) =
        List.range batch.numRows := by
      rw [List.filter_eq_self]
      intro i _
      simpa using lastOfKey_nil i
    rw [hall]
    exact filterMap_range_getElem? batch.rows
  · rw [← KeyedBatches.filterMap_isLast]
    refine congrArg (List.filterMap _) (List.filter_congr fun i hi => ?_)
    rw [decide_eq_decide]
    exact lastOfKey_iff_isLast hcolumns (List.mem_range.mp hi)

theorem deduplicateRecordBatch_rows
    {out : RowBatch α} (h : Readable kernels batch primaryKeys)
    (hout : deduplicateRecordBatch kernels batch primaryKeys = .ok out) :
    out.fields = batch.fields ∧ out.metadata = batch.metadata ∧
      out.rows = lastRows (keyColumns batch primaryKeys) batch.rows := by
  rw [deduplicateRecordBatch_eq h] at hout
  rw [← Except.ok.inj hout]
  exact ⟨rfl, rfl, rows_take_lastOfKey batch _⟩

theorem exists_deduplicateRecordBatch
    (h : Readable kernels batch primaryKeys) :
    ∃ out, deduplicateRecordBatch kernels batch primaryKeys = .ok out ∧
      out.fields = batch.fields ∧ out.metadata = batch.metadata ∧
      out.rows = lastRows (keyColumns batch primaryKeys) batch.rows :=
  ⟨_, deduplicateRecordBatch_eq h, rfl, rfl, rows_take_lastOfKey batch _⟩

theorem lastRows_lastRows_append
    (columns : List ℕ) (rows more : List (List (Option α))) :
    lastRows columns (lastRows columns rows ++ more) =
      lastRows columns (rows ++ more) := by
  unfold lastRows
  split_ifs
  · rfl
  · exact KeyedBatches.keepLast_keepLast_append rows more

theorem lastRows_lastRows
    (columns : List ℕ) (rows : List (List (Option α))) :
    lastRows columns (lastRows columns rows) = lastRows columns rows := by
  simpa using lastRows_lastRows_append columns rows []

/-! ### Concatenation -/

omit [DecidableEq α] in
theorem concatBatches_of_fields_eq
    {more : RowBatch α} (hfields : more.fields = batch.fields) :
    ∃ joined, concatBatches batch [batch, more] = .ok joined ∧
      joined.fields = batch.fields ∧ joined.metadata = batch.metadata ∧
      joined.rows = batch.rows ++ more.rows := by
  have hfits : ∀ row ∈ [batch, more].flatMap RowBatch.rows,
      List.Forall₂ Fits batch.fields row := by
    intro row hrow
    rcases List.mem_append.mp (by simpa using hrow) with hrow | hrow
    · exact batch.wellFormed row hrow
    · rw [← hfields]
      exact more.wellFormed row hrow
  refine ⟨⟨batch.fields, batch.metadata, _, hfits⟩, ?_, rfl, rfl, by simp⟩
  unfold concatBatches
  rw [if_pos (by simp [hfields]), dif_pos hfits]

theorem deduplicateRecordBatches_pair
    {more joined result : RowBatch α}
    (hjoined : concatBatches batch [batch, more] = .ok joined)
    (hresult : deduplicateRecordBatch kernels joined primaryKeys =
      .ok result) :
    deduplicateRecordBatches kernels [batch, more] primaryKeys =
      .ok result := by
  simp only [deduplicateRecordBatches, hjoined, bind, Except.bind]
  rcases primaryKeys with _ | ⟨name, primaryKeys⟩
  · exact hresult
  · exact hresult

/-! ### Tables -/

/-- Apply a row to a table as an upsert or, without an outcome, a delete. -/
def applyRow {β : Type} (columns : List ℕ)
    (outcome : List (Option α) → Option β)
    (table : List (Option α) → Option β) (row : List (Option α)) :
    List (Option α) → Option β :=
  Function.update table (RowBatch.cellsAt columns row) (outcome row)

omit [DecidableEq α] in
theorem foldl_outcome {β : Type}
    (outcome : List (Option α) → Option β) (entry : Option β)
    (rows : List (List (Option α))) :
    rows.foldl (fun _ row => outcome row) entry =
      (rows.getLast?).elim entry outcome := by
  induction rows using List.reverseRecOn with
  | nil => rfl
  | append_singleton rows row _ => simp [List.foldl_append]

/-- The last rows of the keys leave every table as all rows do. -/
theorem foldl_applyRow_lastRows {β : Type}
    (columns : List ℕ) (outcome : List (Option α) → Option β)
    (table : List (Option α) → Option β) (rows : List (List (Option α))) :
    (lastRows columns rows).foldl (applyRow columns outcome) table =
      rows.foldl (applyRow columns outcome) table := by
  unfold lastRows
  split_ifs
  · rfl
  · funext key
    have hentry : ∀ rows : List (List (Option α)),
        rows.foldl (applyRow columns outcome) table key =
          ((KeyedBatches.eventsOf (RowBatch.cellsAt columns) key
            rows).getLast?).elim (table key) outcome := by
      intro rows
      rw [← foldl_outcome]
      exact KeyedBatches.foldl_update_apply (fun row _ => outcome row) table
        key rows
    rw [hentry, hentry, KeyedBatches.eventsOf_keepLast]
    rcases (KeyedBatches.eventsOf (RowBatch.cellsAt columns) key
      rows).getLast? with _ | row
    · rfl
    · rfl

end KeepLast

/-! ## The result -/

/-- Deduplication returns the rows that are the last of their primary key, in
their order.  Applied to a table they do what all rows do; deduplicating again
changes nothing, and neither does deduplicating an earlier part first. -/
theorem deduplication_preserves_upserts [DecidableEq α]
    (kernels : Kernels α σ) (batch : RowBatch α) (primaryKeys : List String)
    (h : Readable kernels batch primaryKeys) :
    ∃ out, deduplicateRecordBatch kernels batch primaryKeys = .ok out ∧
      out = batch.take ((List.range batch.numRows).filter
        (LastOfKey batch (keyColumns batch primaryKeys))) ∧
      (∀ (outcome : List (Option α) → Option (List (Option α)))
          (table : List (Option α) → Option (List (Option α))),
        out.rows.foldl
            (applyRow (keyColumns batch primaryKeys) outcome) table =
          batch.rows.foldl
            (applyRow (keyColumns batch primaryKeys) outcome) table) ∧
      deduplicateRecordBatch kernels out primaryKeys = .ok out ∧
      ∀ more : RowBatch α, more.fields = batch.fields →
        ∃ joined shorter result,
          concatBatches batch [batch, more] = .ok joined ∧
          joined.rows = batch.rows ++ more.rows ∧
          concatBatches out [out, more] = .ok shorter ∧
          shorter.rows = out.rows ++ more.rows ∧
          deduplicateRecordBatch kernels joined primaryKeys = .ok result ∧
          deduplicateRecordBatch kernels shorter primaryKeys = .ok result ∧
          deduplicateRecordBatches kernels [batch, more] primaryKeys =
            .ok result ∧
          deduplicateRecordBatches kernels [out, more] primaryKeys =
            .ok result := by
  obtain ⟨out, hout, hfields, hmetadata, hrows⟩ :=
    exists_deduplicateRecordBatch h
  have htake : out = batch.take ((List.range batch.numRows).filter
      (LastOfKey batch (keyColumns batch primaryKeys))) := by
    rw [deduplicateRecordBatch_eq h] at hout
    exact (Except.ok.inj hout).symm
  have hcolumns : keyColumns out primaryKeys = keyColumns batch primaryKeys :=
    keyColumns_of_fields_eq hfields
  refine ⟨out, hout, htake, ?_, ?_, ?_⟩
  · intro outcome table
    rw [hrows]
    exact foldl_applyRow_lastRows _ outcome table batch.rows
  · obtain ⟨again, hagain, hfields', hmetadata', hrows'⟩ :=
      exists_deduplicateRecordBatch (h.of_fields_eq hfields)
    have heq : again = out := by
      apply RowBatch.ext hfields' hmetadata'
      rw [hrows', hcolumns, hrows, lastRows_lastRows]
    rw [hagain, heq]
  · intro more hmore
    obtain ⟨joined, hjoined, hjf, hjm, hjr⟩ :=
      concatBatches_of_fields_eq hmore
    obtain ⟨shorter, hshorter, hsf, hsm, hsr⟩ :=
      concatBatches_of_fields_eq (hmore.trans hfields.symm)
    obtain ⟨result, hresult, hrf, hrm, hrr⟩ :=
      exists_deduplicateRecordBatch (h.of_fields_eq hjf)
    obtain ⟨result', hresult', hrf', hrm', hrr'⟩ :=
      exists_deduplicateRecordBatch (h.of_fields_eq (hsf.trans hfields))
    have heq : result' = result := by
      apply RowBatch.ext
      · rw [hrf', hrf, hsf, hjf, hfields]
      · rw [hrm', hrm, hsm, hjm, hmetadata]
      · rw [hrr', hrr, hsr, hjr, hrows,
          keyColumns_of_fields_eq (hsf.trans hfields),
          keyColumns_of_fields_eq hjf, lastRows_lastRows_append]
    rw [heq] at hresult'
    refine ⟨joined, shorter, result, hjoined, hjr, hshorter, hsr, hresult,
      hresult', ?_, ?_⟩
    · exact deduplicateRecordBatches_pair hjoined hresult
    · exact deduplicateRecordBatches_pair hshorter hresult'

/-- Kernels under which all keys share a hash, and which visit the buckets
backwards. -/
def collidingKernels : Kernels String Unit where
  start := ()
  writeU8 _ _ := ()
  writeValue _ _ _ := ()
  finish _ := 0
  text value := value
  comparable _ := true
  visit buckets := buckets.reverse
  visit_perm buckets := List.reverse_perm buckets

def textField (name : String) : ArrowField :=
  .mk name true .empty (.leaf .utf8)

/-- Three versions of two keys, one of them null. -/
def crossedKeys : RowBatch String where
  fields := [textField "id", textField "op"]
  metadata := []
  rows := [[some "a", some "i"], [none, some "i"], [some "a", some "d"]]
  wellFormed := by decide

theorem deduplication_preserves_upserts_crossed :
    (Readable collidingKernels crossedKeys ["id"]) ∧
    ∃ out, deduplicateRecordBatch collidingKernels crossedKeys ["id"] =
        .ok out ∧
      out.rows = [[none, some "i"], [some "a", some "d"]] := by
  have hreadable : Readable collidingKernels crossedKeys ["id"] := by
    intro name hname
    rw [List.mem_singleton.mp hname]
    exact ⟨0, textField "id", rfl, rfl⟩
  obtain ⟨out, hout, htake, -⟩ := deduplication_preserves_upserts
    collidingKernels crossedKeys ["id"] hreadable
  refine ⟨hreadable, out, hout, ?_⟩
  rw [htake]
  decide

end Dedup

end Streamling
