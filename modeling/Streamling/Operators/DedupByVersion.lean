import Mathlib
import Streamling.Operators.DedupKeepLast

/-!
# Deduplication by version

The winner of a key is the last of its rows of the greatest version, a
tombstone before a live row.  So a key survives exactly if none of its rows of
the greatest version is a tombstone, and which keys survive, at which version,
does not depend on the order of the rows.
-/

namespace Streamling

namespace Dedup

open Arrow (ArrowField findField)

variable {α σ : Type} [LinearOrder α]

/-! ## The rank of a row -/

/-- Rows rank by version, and at one version tombstones rank higher. -/
def rankOf (version : ℕ → WithBot α) (entry : ℕ × Bool) :
    WithBot α ×ₗ Bool :=
  toLex (version entry.1, entry.2)

theorem shouldReplace_iff
    (version : ℕ → WithBot α) (existing new : ℕ × Bool) :
    shouldReplace version existing new = true ↔
      rankOf version existing ≤ rankOf version new := by
  unfold shouldReplace rankOf
  rw [Prod.Lex.toLex_le_toLex]
  split_ifs with hlt hgt
  · exact iff_of_true rfl (.inl hlt)
  · refine iff_of_false (by simp) ?_
    rintro (h | ⟨heq, -⟩)
    · exact lt_asymm hgt h
    · exact hgt.ne' heq
  · have heq : version existing.1 = version new.1 :=
      le_antisymm (not_lt.mp hgt) (not_lt.mp hlt)
    rcases existing with ⟨x, _ | _⟩ <;> rcases new with ⟨y, _ | _⟩ <;>
      simp_all

/-! ## The surviving rows -/

section Rows

variable (kernels : Kernels α σ) (batch : RowBatch α) (columns : List ℕ)
variable (versionIdx : ℕ) (tombstone : Option (ℕ × String))

/-- The version of the row at a position. -/
def versionAt (row : ℕ) : WithBot α :=
  versionOf versionIdx (batch.rows.getD row [])

def tombstoneAt (row : ℕ) : Bool :=
  isTombstone kernels tombstone (batch.rows.getD row [])

/-- Does a row have the greatest version of its key? -/
def MaxVersion (i : ℕ) : Prop :=
  ∀ j < batch.numRows, batch.cells columns j = batch.cells columns i →
    versionAt batch versionIdx j ≤ versionAt batch versionIdx i

/-- A survivor is the last of the rows of its key that have the greatest
version, and none of these is a tombstone. -/
def Survives (i : ℕ) : Prop :=
  MaxVersion batch columns versionIdx i ∧
    ∀ j < batch.numRows, batch.cells columns j = batch.cells columns i →
      versionAt batch versionIdx j = versionAt batch versionIdx i →
        j ≤ i ∧ tombstoneAt kernels batch tombstone j = false

instance : DecidablePred
    (Survives kernels batch columns versionIdx tombstone) := fun i =>
  inferInstanceAs (Decidable
    ((∀ j < batch.numRows, batch.cells columns j = batch.cells columns i →
      versionAt batch versionIdx j ≤ versionAt batch versionIdx i) ∧
    ∀ j < batch.numRows, batch.cells columns j = batch.cells columns i →
      versionAt batch versionIdx j = versionAt batch versionIdx i →
        j ≤ i ∧ tombstoneAt kernels batch tombstone j = false))

/-- The rows of the live winners. -/
def survivors (buckets : List (UInt64 × List (ℕ × Bool))) : List ℕ :=
  ((buckets.flatMap Prod.snd).filter fun (_, isTomb) => !isTomb).map Prod.fst

end Rows

section Winners

variable {kernels : Kernels α σ} {batch : RowBatch α} {columns : List ℕ}
variable {versionIdx : ℕ} {tombstone : Option (ℕ × String)}

/-- What wins a bucket is the row of the highest rank, the last of them. -/
theorem mem_bucketVersions_iff {i : ℕ} {isTomb : Bool} :
    (i, isTomb) ∈ (bucketVersions kernels batch columns versionIdx
        tombstone).flatMap Prod.snd ↔
      (i < batch.numRows ∧ isTomb = tombstoneAt kernels batch tombstone i) ∧
        ∀ j < batch.numRows, batch.cells columns j = batch.cells columns i →
          Buckets.Outranks (rankOf (versionAt batch versionIdx)) Prod.fst
            (i, isTomb) (j, tombstoneAt kernels batch tombstone j) := by
  have hpos : ((List.range batch.numRows).map fun row =>
      (row, tombstoneAt kernels batch tombstone row)).Pairwise
        fun x y => x.1 < y.1 := by
    rw [List.pairwise_map]
    exact List.pairwise_lt_range
  rw [bucketVersions, Buckets.mem_fill_iff]
  refine (Buckets.winner_eq_some_iff
    (shouldReplace_iff (versionAt batch versionIdx)) hpos).trans ?_
  simp only [List.mem_map, List.mem_range, true_and, forall_exists_index,
    and_imp, Prod.mk.injEq]
  constructor
  · rintro ⟨⟨_, hi, rfl, rfl⟩, hbest⟩
    exact ⟨⟨hi, rfl⟩, fun j hj hkey => hbest _ j hj rfl hkey⟩
  · rintro ⟨⟨hi, rfl⟩, hbest⟩
    refine ⟨⟨i, hi, rfl, rfl⟩, ?_⟩
    rintro _ j hj rfl hkey
    exact hbest j hj hkey

theorem outranks_iff {i j : ℕ} {a b : Bool} :
    Buckets.Outranks (rankOf (versionAt batch versionIdx)) Prod.fst
        (i, a) (j, b) ↔
      versionAt batch versionIdx j < versionAt batch versionIdx i ∨
        versionAt batch versionIdx j = versionAt batch versionIdx i ∧
          (b < a ∨ b = a ∧ j ≤ i) := by
  unfold Buckets.Outranks rankOf
  rw [Prod.Lex.toLex_lt_toLex, EmbeddingLike.apply_eq_iff_eq,
    Prod.mk.injEq]
  tauto

theorem mem_survivors_iff {i : ℕ} :
    i ∈ survivors (bucketVersions kernels batch columns versionIdx
        tombstone) ↔
      i < batch.numRows ∧
        Survives kernels batch columns versionIdx tombstone i := by
  have hmem : i ∈ survivors (bucketVersions kernels batch columns versionIdx
        tombstone) ↔
      (i, false) ∈ (bucketVersions kernels batch columns versionIdx
        tombstone).flatMap Prod.snd := by
    simp [survivors]
  rw [hmem, mem_bucketVersions_iff]
  constructor
  · rintro ⟨⟨hi, hlive⟩, hbest⟩
    refine ⟨hi, fun j hj hkey => ?_, fun j hj hkey hversion => ?_⟩
    · rcases outranks_iff.mp (hbest j hj hkey) with hlt | ⟨heq, -⟩
      · exact hlt.le
      · exact heq.le
    · rcases outranks_iff.mp (hbest j hj hkey) with hlt | ⟨-, htomb | htie⟩
      · exact absurd hversion hlt.ne
      · exact absurd htomb (by simp)
      · exact ⟨htie.2, htie.1⟩
  · rintro ⟨hi, hmax, htie⟩
    refine ⟨⟨hi, (htie i hi rfl rfl).2.symm⟩, fun j hj hkey => ?_⟩
    rw [outranks_iff]
    rcases lt_or_eq_of_le (hmax j hj hkey) with hlt | heq
    · exact .inl hlt
    · obtain ⟨hle, hlive⟩ := htie j hj hkey heq
      exact .inr ⟨heq, .inr ⟨hlive, hle⟩⟩

theorem nodup_survivors :
    (survivors (bucketVersions kernels batch columns versionIdx
      tombstone)).Nodup := by
  have hentry : ∀ entry ∈ (bucketVersions kernels batch columns versionIdx
      tombstone).flatMap Prod.snd,
      entry.2 = tombstoneAt kernels batch tombstone entry.1 :=
    fun entry hentry => (mem_bucketVersions_iff.mp hentry).1.2
  refine List.Nodup.map_on ?_ ((Buckets.nodup_fill _).filter _)
  intro x hx y hy heq
  have hx' := hentry x (List.mem_of_mem_filter hx)
  have hy' := hentry y (List.mem_of_mem_filter hy)
  exact Prod.ext heq (by rw [hx', hy', heq])

/-- Every named column exists and can be compared, and a tombstone column
holds text. -/
structure Versioned (kernels : Kernels α σ) (batch : RowBatch α)
    (primaryKeys : List String) (versionColumn : String)
    (rule : Option TombstoneRule) (versionIdx : ℕ)
    (tombstone : Option (ℕ × String)) : Prop where
  readable : Readable kernels batch primaryKeys
  version : ∃ field,
    findField versionColumn batch.fields = some (versionIdx, field) ∧
      kernels.comparable field.dataType = true
  tombstone_eq : tombstoneColumn batch rule = .ok tombstone

variable {primaryKeys : List String} {versionColumn : String}
variable {rule : Option TombstoneRule}

omit [LinearOrder α] in
theorem Versioned.of_fields_eq {other : RowBatch α}
    (h : Versioned kernels batch primaryKeys versionColumn rule versionIdx
      tombstone) (hfields : other.fields = batch.fields) :
    Versioned kernels other primaryKeys versionColumn rule versionIdx
      tombstone where
  readable := h.readable.of_fields_eq hfields
  version := by rw [hfields]; exact h.version
  tombstone_eq := by
    unfold tombstoneColumn
    rw [hfields]
    exact h.tombstone_eq

theorem deduplicateRecordBatchByVersion_eq
    (h : Versioned kernels batch primaryKeys versionColumn rule versionIdx
      tombstone) (hkeys : primaryKeys ≠ []) :
    deduplicateRecordBatchByVersion kernels batch primaryKeys versionColumn
        rule =
      .ok (batch.take ((List.range batch.numRows).filter
        (Survives kernels batch (keyColumns batch primaryKeys) versionIdx
          tombstone))) := by
  obtain ⟨field, hversion, hcomparable⟩ := h.version
  have hempty : (keyColumns batch primaryKeys).isEmpty = false := by
    simpa [keyColumns_eq_nil_iff h.readable] using hkeys
  unfold deduplicateRecordBatchByVersion
  simp only [primaryKeyIndices_eq h.readable, hempty, hversion, hcomparable,
    comparable_keyColumns h.readable, h.tombstone_eq, bind, Except.bind,
    pure, Except.pure, Bool.not_true, Bool.false_eq_true, if_false]
  congr 2
  have hperm := ((visit_flatMap_perm kernels (bucketVersions kernels batch
    (keyColumns batch primaryKeys) versionIdx tombstone)).filter
    fun entry => !entry.2).map Prod.fst
  apply mergeSort_eq_filter
  · exact hperm.nodup_iff.mpr nodup_survivors
  · intro i
    exact hperm.mem_iff.trans mem_survivors_iff

theorem deduplicateRecordBatchByVersion_nil :
    deduplicateRecordBatchByVersion kernels batch [] versionColumn rule =
      .ok batch := rfl

/-! ## Surviving keys and versions -/

omit [LinearOrder α] in
theorem mem_rows_iff {row : List (Option α)} :
    row ∈ batch.rows ↔ ∃ i < batch.numRows, batch.rows.getD i [] = row := by
  constructor
  · intro hrow
    obtain ⟨i, hi, rfl⟩ := List.getElem_of_mem hrow
    exact ⟨i, hi, by simp [hi]⟩
  · rintro ⟨i, hi, rfl⟩
    have hi' : i < batch.rows.length := hi
    simp [hi']

omit [LinearOrder α] in
theorem rows_take_filter (p : ℕ → Prop) [DecidablePred p] :
    (batch.take ((List.range batch.numRows).filter p)).rows =
      ((List.range batch.numRows).filter p).map
        fun i => batch.rows.getD i [] := by
  rw [← List.filterMap_eq_map]
  apply List.filterMap_congr
  intro i hi
  have hi' : i < batch.rows.length :=
    List.mem_range.mp (List.mem_of_mem_filter hi)
  simp [hi']

/-- A key is live at a version: it has a row of the version, none of a greater
one, and no tombstone of it. -/
def LiveAt (kernels : Kernels α σ) (columns : List ℕ) (versionIdx : ℕ)
    (tombstone : Option (ℕ × String)) (rows : List (List (Option α)))
    (key : List (Option α)) (version : WithBot α) : Prop :=
  (∃ row ∈ rows, RowBatch.cellsAt columns row = key ∧
      versionOf versionIdx row = version) ∧
    ∀ row ∈ rows, RowBatch.cellsAt columns row = key →
      versionOf versionIdx row ≤ version ∧
        (versionOf versionIdx row = version →
          isTombstone kernels tombstone row = false)

/-- The survivors have the keys that are live, at their versions. -/
theorem exists_survivor_iff
    {key : List (Option α)} {version : WithBot α} :
    (∃ row ∈ (batch.take ((List.range batch.numRows).filter
        (Survives kernels batch columns versionIdx tombstone))).rows,
      RowBatch.cellsAt columns row = key ∧
        versionOf versionIdx row = version) ↔
      LiveAt kernels columns versionIdx tombstone batch.rows key version := by
  rw [rows_take_filter]
  constructor
  · rintro ⟨row, hrow, rfl, rfl⟩
    obtain ⟨i, hi, rfl⟩ := List.mem_map.mp hrow
    obtain ⟨hi, hsurvives⟩ := List.mem_filter.mp hi
    obtain ⟨hmax, htie⟩ := of_decide_eq_true hsurvives
    refine ⟨⟨_, mem_rows_iff.mpr ⟨i, List.mem_range.mp hi, rfl⟩, rfl, rfl⟩,
      ?_⟩
    intro row hrow hkey
    obtain ⟨j, hj, rfl⟩ := mem_rows_iff.mp hrow
    exact ⟨hmax j hj hkey, fun heq => (htie j hj hkey heq).2⟩
  · rintro ⟨⟨row, hrow, hkey, hversion⟩, hlive⟩
    obtain ⟨i, hi, rfl⟩ := mem_rows_iff.mp hrow
    -- the last of the rows of this key and version
    let P : ℕ → Prop := fun j =>
      batch.cells columns j = key ∧ versionAt batch versionIdx j = version
    obtain ⟨last, hlast, hlatest⟩ :=
      ((Finset.range batch.numRows).filter P).exists_max_image id
        ⟨i, Finset.mem_filter.mpr ⟨Finset.mem_range.mpr hi, hkey, hversion⟩⟩
    obtain ⟨hn, hkey', hversion'⟩ := Finset.mem_filter.mp hlast
    have hn' := Finset.mem_range.mp hn
    have hrows : ∀ j < batch.numRows, batch.cells columns j = key →
        versionAt batch versionIdx j ≤ version ∧
          (versionAt batch versionIdx j = version →
            tombstoneAt kernels batch tombstone j = false) :=
      fun j hj hjkey => hlive _ (mem_rows_iff.mpr ⟨j, hj, rfl⟩) hjkey
    refine ⟨_, List.mem_map.mpr ⟨last, List.mem_filter.mpr
      ⟨List.mem_range.mpr hn', decide_eq_true ⟨?_, ?_⟩⟩, rfl⟩,
      hkey', hversion'⟩
    · intro j hj hjkey
      rw [hversion']
      exact (hrows j hj (hjkey.trans hkey')).1
    · intro j hj hjkey hjversion
      have hjkey' := hjkey.trans hkey'
      have hjversion' := hjversion.trans hversion'
      refine ⟨hlatest j ?_, (hrows j hj hjkey').2 hjversion'⟩
      exact Finset.mem_filter.mpr
        ⟨Finset.mem_range.mpr hj, hjkey', hjversion'⟩

/-- Of each key at most one row survives. -/
theorem nodup_keys_survivors :
    ((batch.take ((List.range batch.numRows).filter
      (Survives kernels batch columns versionIdx tombstone))).rows.map
        (RowBatch.cellsAt columns)).Nodup := by
  rw [rows_take_filter, List.map_map]
  refine List.Nodup.map_on ?_ (List.nodup_range.filter _)
  intro i hi j hj hkey
  obtain ⟨hi, hsi⟩ := List.mem_filter.mp hi
  obtain ⟨hj, hsj⟩ := List.mem_filter.mp hj
  obtain ⟨hmaxi, htiei⟩ := of_decide_eq_true hsi
  obtain ⟨hmaxj, htiej⟩ := of_decide_eq_true hsj
  have hi' := List.mem_range.mp hi
  have hj' := List.mem_range.mp hj
  have heq : versionAt batch versionIdx i = versionAt batch versionIdx j :=
    le_antisymm (hmaxj i hi' hkey) (hmaxi j hj' hkey.symm)
  exact le_antisymm (htiej i hi' hkey heq).1
    (htiei j hj' hkey.symm heq.symm).1

theorem LiveAt.perm {rows rows' : List (List (Option α))}
    {key : List (Option α)} {version : WithBot α}
    (hperm : rows.Perm rows') :
    LiveAt kernels columns versionIdx tombstone rows key version ↔
      LiveAt kernels columns versionIdx tombstone rows' key version := by
  unfold LiveAt
  simp only [hperm.mem_iff]

/-- A key is live at some version exactly if none of its rows of the greatest
version is a tombstone. -/
theorem exists_liveAt_iff
    {rows : List (List (Option α))} {row : List (Option α)}
    (hrow : row ∈ rows) :
    (∃ version, LiveAt kernels columns versionIdx tombstone rows
      (RowBatch.cellsAt columns row) version) ↔
      ∀ m ∈ rows,
        RowBatch.cellsAt columns m = RowBatch.cellsAt columns row →
        (∀ r ∈ rows,
          RowBatch.cellsAt columns r = RowBatch.cellsAt columns row →
          versionOf versionIdx r ≤ versionOf versionIdx m) →
        isTombstone kernels tombstone m = false := by
  constructor
  · rintro ⟨version, ⟨r, hr, hkey, rfl⟩, hlive⟩ m hm hmkey hmax
    obtain ⟨hle, htie⟩ := hlive m hm hmkey
    exact htie (le_antisymm hle (hmax r hr hkey))
  · intro hall
    let own := rows.toFinset.filter fun r =>
      RowBatch.cellsAt columns r = RowBatch.cellsAt columns row
    obtain ⟨m, hm, hmax⟩ := own.exists_max_image (versionOf versionIdx)
      ⟨row, Finset.mem_filter.mpr ⟨List.mem_toFinset.mpr hrow, rfl⟩⟩
    obtain ⟨hm, hmkey⟩ := Finset.mem_filter.mp hm
    have hmax' : ∀ r ∈ rows,
        RowBatch.cellsAt columns r = RowBatch.cellsAt columns row →
        versionOf versionIdx r ≤ versionOf versionIdx m :=
      fun r hr hkey =>
        hmax r (Finset.mem_filter.mpr ⟨List.mem_toFinset.mpr hr, hkey⟩)
    refine ⟨versionOf versionIdx m,
      ⟨m, List.mem_toFinset.mp hm, hmkey, rfl⟩, fun r hr hkey => ?_⟩
    refine ⟨hmax' r hr hkey, fun heq => ?_⟩
    apply hall r hr hkey
    intro r' hr' hkey'
    rw [heq]
    exact hmax' r' hr' hkey'

end Winners

/-! ## The result -/

/-- A key survives exactly if none of its rows of the greatest version is a
tombstone, its survivor is the last of these rows, the survivors keep their
order, and a permutation of the rows changes neither the surviving keys nor
their versions. -/
theorem dedup_by_version_is_final
    (kernels : Kernels α σ) (batch : RowBatch α) (primaryKeys : List String)
    (versionColumn : String) (rule : Option TombstoneRule) (versionIdx : ℕ)
    (tombstone : Option (ℕ × String))
    (h : Versioned kernels batch primaryKeys versionColumn rule versionIdx
      tombstone) :
    ∃ out, deduplicateRecordBatchByVersion kernels batch primaryKeys
        versionColumn rule = .ok out ∧
      (primaryKeys = [] → out = batch) ∧
      (primaryKeys ≠ [] →
        let keyOf := RowBatch.cellsAt (keyColumns batch primaryKeys)
        out = batch.take ((List.range batch.numRows).filter
            (Survives kernels batch (keyColumns batch primaryKeys) versionIdx
              tombstone)) ∧
          (out.rows.map keyOf).Nodup ∧
          (∀ row ∈ batch.rows,
            (∃ survivor ∈ out.rows, keyOf survivor = keyOf row) ↔
              ∀ m ∈ batch.rows, keyOf m = keyOf row →
                (∀ r ∈ batch.rows, keyOf r = keyOf row →
                  versionOf versionIdx r ≤ versionOf versionIdx m) →
                isTombstone kernels tombstone m = false) ∧
          ∀ other : RowBatch α, other.fields = batch.fields →
            other.rows.Perm batch.rows →
              ∃ out', deduplicateRecordBatchByVersion kernels other
                  primaryKeys versionColumn rule = .ok out' ∧
                ∀ key version,
                  (∃ row ∈ out'.rows, keyOf row = key ∧
                    versionOf versionIdx row = version) ↔
                  ∃ row ∈ out.rows, keyOf row = key ∧
                    versionOf versionIdx row = version) := by
  by_cases hkeys : primaryKeys = []
  · subst hkeys
    exact ⟨batch, deduplicateRecordBatchByVersion_nil, fun _ => rfl,
      fun hne => absurd rfl hne⟩
  refine ⟨_, deduplicateRecordBatchByVersion_eq h hkeys,
    fun hnil => absurd hnil hkeys, fun _ => ?_⟩
  refine ⟨rfl, nodup_keys_survivors, fun row hrow => ?_, ?_⟩
  · rw [← exists_liveAt_iff hrow]
    constructor
    · rintro ⟨survivor, hsurvivor, hkey⟩
      exact ⟨_, exists_survivor_iff.mp ⟨survivor, hsurvivor, hkey, rfl⟩⟩
    · rintro ⟨version, hlive⟩
      obtain ⟨survivor, hsurvivor, hkey, -⟩ := exists_survivor_iff.mpr hlive
      exact ⟨survivor, hsurvivor, hkey⟩
  · intro other hfields hperm
    have hcolumns : keyColumns other primaryKeys =
        keyColumns batch primaryKeys := keyColumns_of_fields_eq hfields
    have hother := deduplicateRecordBatchByVersion_eq
      (h.of_fields_eq hfields) hkeys
    rw [hcolumns] at hother
    refine ⟨_, hother, fun key version => ?_⟩
    rw [exists_survivor_iff, exists_survivor_iff]
    exact LiveAt.perm hperm

/-- Key `a` is deleted at its greatest version by a row that comes before an
older live row; key `b` has a row without a version. -/
def versionedRows : RowBatch String where
  fields := [textField "id", textField "v", textField "op"]
  metadata := []
  rows :=
    [[some "b", some "1", some "i"], [some "a", some "2", some "d"],
      [some "a", some "1", some "i"], [some "b", none, some "d"]]
  wellFormed := by decide

theorem dedup_by_version_is_final_deleted :
    ∃ out, deduplicateRecordBatchByVersion collidingKernels versionedRows
        ["id"] "v" (some ⟨"op", "d"⟩) = .ok out ∧
      out.rows = [[some "b", some "1", some "i"]] := by
  have hversioned : Versioned collidingKernels versionedRows ["id"] "v"
      (some ⟨"op", "d"⟩) 1 (some (2, "d")) := by
    refine ⟨fun name hname => ?_, ⟨textField "v", rfl, rfl⟩, rfl⟩
    rw [List.mem_singleton.mp hname]
    exact ⟨0, textField "id", rfl, rfl⟩
  obtain ⟨out, hout, -, hfinal⟩ := dedup_by_version_is_final collidingKernels
    versionedRows ["id"] "v" (some ⟨"op", "d"⟩) 1 (some (2, "d")) hversioned
  obtain ⟨htake, -⟩ := hfinal (by simp)
  refine ⟨out, hout, ?_⟩
  rw [htake]
  decide

end Dedup

end Streamling
