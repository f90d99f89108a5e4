import Mathlib
import Streamling.Operators.UnnestRows

/-!
# The levels of an unnesting

With some levels left, the columns and the arrays that are being expanded are
a table of rows.  One level expands each row of it by itself, and so do the
levels one after the other.
-/

namespace Streamling

namespace Unnest

open ArrowCells ExceptLists
open ColumnRows (rows rows_flatMap rows_congr)

/-! ## Blanked columns

A level of the operator keeps the columns that `repeatMask` selects and blanks
the others, which nothing reads any more.
-/

section Blanks

variable {α : Type} (preserveNulls : Bool) (unnests : List ListUnnest)

/-- What a level leaves of a row under one key. -/
def levelKey (level : ℕ) (row : Row α) : Key → List (ArrowCell α)
  | .column i =>
      List.replicate (rowLength preserveNulls unnests level row)
        (if repeatMask unnests level i then row (.column i) else .null)
  | .temp unnesting =>
      expandKey preserveNulls unnests level row (.temp unnesting)

/-- The rows that a level leaves of a row. -/
def levelRow (level : ℕ) (row : Row α) : List (Row α) :=
  rows .null (rowLength preserveNulls unnests level row)
    (levelKey preserveNulls unnests level row)

def levelRows : ℕ → Row α → List (Row α)
  | 0, row => [row]
  | level + 1, row =>
      (levelRow preserveNulls unnests (level + 1) row).flatMap
        (levelRows level)

/-- What is still read with `level` levels left: the lists of these levels,
and at the end each column without an expansion. -/
def Live (level : ℕ) : Key → Prop
  | .column i =>
      (∃ unnesting ∈ unnests, unnesting.indexInInputSchema = i ∧
        unnesting.depth ≤ level) ∨
        ∀ unnesting ∈ unnests, unnesting.indexInInputSchema ≠ i
  | .temp _ => True

/-- Two rows that differ only where nothing is read any more. -/
def Agree (level : ℕ) (row other : Row α) : Prop :=
  ∀ key, Live unnests level key → row key = other key

variable {preserveNulls unnests} {level : ℕ} {row other : Row α}

theorem length_levelKey (row : Row α) (key : Key) :
    (levelKey preserveNulls unnests level row key).length =
      rowLength preserveNulls unnests level row := by
  cases key with
  | column i => exact List.length_replicate
  | temp unnesting => exact length_expandKey row (.temp unnesting)

theorem repeatMask_iff (i : ℕ) :
    repeatMask unnests (level + 1) i = true ↔
      Live unnests level (.column i) := by
  simp [repeatMask, Live]

theorem Live.succ {key : Key} (h : Live unnests level key) :
    Live unnests (level + 1) key := by
  cases key with
  | temp unnesting => trivial
  | column i =>
      rcases h with ⟨unnesting, hmem, hindex, hdepth⟩ | hnone
      · exact .inl ⟨unnesting, hmem, hindex, Nat.le_succ_of_le hdepth⟩
      · exact .inr hnone

theorem live_sourceKey
    {unnesting : ListUnnest} (h : unnesting ∈ unnests) :
    Live unnests level (sourceKey level unnesting) := by
  unfold sourceKey
  split_ifs with hlevel
  · exact .inl ⟨unnesting, h, rfl, hlevel.ge⟩
  · trivial

theorem Agree.rowLength_eq (h : Agree unnests level row other) :
    rowLength preserveNulls unnests level row =
      rowLength preserveNulls unnests level other := by
  unfold rowLength
  congr 1
  apply List.map_congr_left
  intro unnesting hmem
  rw [h _ (live_sourceKey (List.mem_filter.mp hmem).1)]

/-- Under a key that is still read, a level leaves what the row gives. -/
theorem Agree.levelKey_eq
    (h : Agree unnests (level + 1) row other) {key : Key}
    (hlive : Live unnests level key) :
    levelKey preserveNulls unnests (level + 1) row key =
      expandKey preserveNulls unnests (level + 1) other key := by
  cases key with
  | column i =>
      rw [levelKey, expandKey, if_pos ((repeatMask_iff i).mpr hlive),
        h.rowLength_eq, h _ hlive.succ]
  | temp unnesting =>
      simp only [levelKey, expandKey, h.rowLength_eq]
      split_ifs with hactive
      · rw [h _ (live_sourceKey hactive.1)]
      · rfl

theorem Agree.levelRow
    (h : Agree unnests (level + 1) row other) :
    List.Forall₂ (Agree unnests level)
      (levelRow preserveNulls unnests (level + 1) row)
      (unnestRow preserveNulls unnests (level + 1) other) := by
  rw [Unnest.levelRow, unnestRow, h.rowLength_eq, rows, rows,
    List.forall₂_map_left_iff, List.forall₂_map_right_iff, List.forall₂_same]
  intro i _ key hlive
  simp only [h.levelKey_eq hlive]

/-- The levels leave the rows that the row gives, but for blanked columns. -/
theorem Agree.levelRows
    (h : Agree unnests level row other) :
    List.Forall₂ (Agree unnests 0)
      (levelRows preserveNulls unnests level row)
      (unnestRowLevels preserveNulls unnests level other) := by
  induction level generalizing row other with
  | zero => exact .cons h .nil
  | succ level ih => exact forall₂_flatMap h.levelRow fun _ _ => ih

theorem live_of_mem_collectKeys
    {n : ℕ} {key : Key} (h : key ∈ collectKeys unnests n) :
    Live unnests 0 key := by
  obtain ⟨i, -, hkey⟩ := List.mem_flatMap.mp h
  cases hexpansions : expansionsOf unnests i with
  | cons unnesting rest =>
      rw [hexpansions] at hkey
      obtain ⟨_, -, rfl⟩ := List.mem_map.mp hkey
      trivial
  | nil =>
      rw [hexpansions] at hkey
      obtain rfl := List.mem_singleton.mp hkey
      by_cases hnone :
          ∀ unnesting ∈ unnests, unnesting.indexInInputSchema ≠ i
      · exact .inr hnone
      · push Not at hnone
        obtain ⟨unnesting, hmem, hindex⟩ := hnone
        have hdepth := List.filter_eq_nil_iff.mp hexpansions unnesting
          (List.mem_dedup.mpr hmem)
        refine .inl ⟨unnesting, hmem, hindex, ?_⟩
        simpa [hindex] using hdepth

/-- The output reads no blanked column. -/
theorem Agree.outputRow_eq
    (h : Agree unnests 0 row other) (structColumns : Finset ℕ)
    (shapes : List Shape) :
    outputRow unnests structColumns shapes row =
      outputRow unnests structColumns shapes other := by
  apply List.flatMap_congr
  intro entry hentry
  rw [h _ (live_of_mem_collectKeys (List.fst_mem_of_mem_zipIdx hentry))]

end Blanks

/-! ## The stages of an expansion -/

section Stages

variable {κ α : Type} {kernels : Kernels κ α} {preserveNulls : Bool}
  {unnests : List ListUnnest} {shapes : List Shape}

open Batch (cellAt)

/-- The cells under each key. -/
def columnCells (kernels : Kernels κ α) (batch : List κ)
    (temps : TempArrays κ) : Key → List (ArrowCell α)
  | .column i => (batch[i]?.map kernels.cells).getD []
  | .temp unnesting => ((temps unnesting).map kernels.cells).getD []

/-- The rows of a batch while it is expanded. -/
def stageRows (kernels : Kernels κ α) (n : ℕ) (batch : List κ)
    (temps : TempArrays κ) : List (Row α) :=
  rows .null n (columnCells kernels batch temps)

/-- What holds with `level` levels left. -/
structure Stage (kernels : Kernels κ α) (unnests : List ListUnnest)
    (shapes : List Shape) (level n : ℕ) (batch : List κ)
    (temps : TempArrays κ) : Prop where
  shapes_eq : batch.map kernels.shape = shapes
  sized : ∀ column ∈ batch, (kernels.cells column).length = n
  temps_sized : ∀ unnesting array, temps unnesting = some array →
    (kernels.cells array).length = n
  temps_some : ∀ unnesting, (temps unnesting).isSome = true ↔
    unnesting ∈ unnests ∧ level < unnesting.depth
  temps_shape : ∀ unnesting array, temps unnesting = some array →
    (shapes[unnesting.indexInInputSchema]?).bind
      (Shape.peel (unnesting.depth - level)) = some (kernels.shape array)

/-- The array that is expanded at a level holds lists. -/
structure SourceAt (kernels : Kernels κ α) (shapes : List Shape)
    (level n : ℕ) (batch : List κ) (temps : TempArrays κ)
    (unnesting : ListUnnest) (array : κ) : Prop where
  isSource : IsSource kernels n array
  cells_eq : kernels.cells array =
    columnCells kernels batch temps (sourceKey (level + 1) unnesting)
  shape_eq : (shapes[unnesting.indexInInputSchema]?).bind
      (Shape.peel (unnesting.depth - (level + 1))) =
    some (kernels.shape array)

theorem Stage.source
    {level n : ℕ} {batch : List κ} {temps : TempArrays κ}
    (hstage : Stage kernels unnests shapes (level + 1) n batch temps)
    (htyped : WellTyped unnests shapes) {unnesting : ListUnnest}
    (hactive : unnesting ∈ activeAt unnests (level + 1)) {array : κ}
    (h : levelSource batch temps (level + 1) unnesting = .ok array) :
    SourceAt kernels shapes level n batch temps unnesting array := by
  obtain ⟨hmem, hdepth⟩ := mem_activeAt.mp hactive
  have hfound :
      (kernels.cells array).length = n ∧
        kernels.cells array =
          columnCells kernels batch temps
            (sourceKey (level + 1) unnesting) ∧
        (shapes[unnesting.indexInInputSchema]?).bind
            (Shape.peel (unnesting.depth - (level + 1))) =
          some (kernels.shape array) := by
    unfold levelSource at h
    by_cases hlevel : level + 1 = unnesting.depth
    · rw [if_pos hlevel] at h
      cases hcolumn : batch[unnesting.indexInInputSchema]? with
      | none =>
          rw [hcolumn] at h
          cases h
      | some column =>
          rw [hcolumn] at h
          obtain rfl := Except.ok.inj h
          refine ⟨hstage.sized column (List.mem_of_getElem? hcolumn),
            ?_, ?_⟩
          · rw [sourceKey, if_pos hlevel, columnCells, hcolumn]
            rfl
          · rw [← hstage.shapes_eq, List.getElem?_map, hcolumn,
              ← hlevel, Nat.sub_self]
            rfl
    · rw [if_neg hlevel] at h
      cases htemp : temps unnesting with
      | none =>
          rw [htemp] at h
          cases h
      | some temp =>
          rw [htemp] at h
          obtain rfl := Except.ok.inj h
          refine ⟨hstage.temps_sized unnesting temp htemp, ?_,
            hstage.temps_shape unnesting temp htemp⟩
          rw [sourceKey, if_neg hlevel, columnCells, htemp]
          rfl
  obtain ⟨hlength, hcells, hshape⟩ := hfound
  refine ⟨⟨?_, hlength⟩, hcells, hshape⟩
  have hpeel := htyped unnesting hmem (by omega)
  have hsplit : unnesting.depth =
      (unnesting.depth - (level + 1)) + (level + 1) := by omega
  cases hcolumn : shapes[unnesting.indexInInputSchema]? with
  | none =>
      rw [hcolumn] at hpeel
      cases hpeel
  | some shape =>
      rw [hcolumn] at hpeel hshape
      rw [Option.bind_some] at hpeel hshape
      rw [hsplit, Shape.peel_add, hshape, Option.bind_some] at hpeel
      cases hitem : kernels.shape array with
      | leaf =>
          rw [hitem] at hpeel
          cases hpeel
      | struct children =>
          rw [hitem] at hpeel
          cases hpeel
      | list item => exact ⟨item, rfl⟩

/-- Row `i` of a batch while it is expanded. -/
def rowAt (kernels : Kernels κ α) (batch : List κ) (temps : TempArrays κ)
    (i : ℕ) : Row α :=
  fun key => (columnCells kernels batch temps key)[i]?.getD .null

theorem stageRows_eq (n : ℕ) (batch : List κ) (temps : TempArrays κ) :
    stageRows kernels n batch temps =
      (List.range n).map (rowAt kernels batch temps) := rfl

theorem SourceAt.cellAt_eq
    {level n : ℕ} {batch : List κ} {temps : TempArrays κ}
    {unnesting : ListUnnest} {array : κ}
    (h : SourceAt kernels shapes level n batch temps unnesting array)
    (i : ℕ) :
    cellAt kernels i array =
      rowAt kernels batch temps i (sourceKey (level + 1) unnesting) := by
  rw [cellAt, rowAt, h.cells_eq]

/-- Facts of one level with rows left: the sources, and each row's length. -/
structure LevelRun (kernels : Kernels κ α) (preserveNulls : Bool)
    (unnests : List ListUnnest) (shapes : List Shape) (level n : ℕ)
    (batch : List κ) (temps : TempArrays κ) (arrays : List κ)
    (lengths : List ℕ) : Prop where
  sources : List.Forall₂ (SourceAt kernels shapes level n batch temps)
    (activeAt unnests (level + 1)) arrays
  lengths_eq : lengths = (List.range n).map fun i =>
    rowLength preserveNulls unnests (level + 1)
      (rowAt kernels batch temps i)

theorem Stage.levelRun
    (lawful : kernels.Lawful) {level n : ℕ} {batch : List κ}
    {temps : TempArrays κ} {arrays : List κ} {lengths : List ℕ}
    (hstage : Stage kernels unnests shapes (level + 1) n batch temps)
    (htyped : WellTyped unnests shapes)
    (harrays : (activeAt unnests (level + 1)).mapM
      (levelSource batch temps (level + 1)) = .ok arrays)
    (hlengths : findLongestLength kernels preserveNulls arrays =
      .ok lengths) :
    LevelRun kernels preserveNulls unnests shapes level n batch temps
      arrays lengths := by
  have hsources : List.Forall₂
      (SourceAt kernels shapes level n batch temps)
      (activeAt unnests (level + 1)) arrays :=
    forall₂_of_mem (mapM_eq_ok_iff.mp harrays)
      fun unnesting hactive array h => hstage.source htyped hactive h
  refine ⟨hsources, ?_⟩
  rw [findLongestLength_eq lawful (n := n) ?_ hlengths]
  · apply List.map_congr_left
    intro i _
    rw [rowLength]
    congr 1
    refine (map_eq_map_of_forall₂ hsources ?_).symm
    intro unnesting array hsource
    rw [hsource.cellAt_eq i]
  · intro array hmem
    obtain ⟨unnesting, -, hsource⟩ := exists_of_mem_right hsources hmem
    exact hsource.isSource

/-- The columns of a level: each cell is what its row gives. -/
theorem forall₂_repeatArrs
    (lawful : kernels.Lawful) {n : ℕ} {batch ret : List κ}
    {lengths : ℕ → ℕ} {mask : ℕ → Bool}
    (hsized : ∀ column ∈ batch, (kernels.cells column).length = n)
    (h : repeatArrsFromIndices kernels batch
      (createTakeIndices ((List.range n).map lengths)) mask = .ok ret) :
    List.Forall₂ (fun (entry : κ × ℕ) array =>
      kernels.shape array = kernels.shape entry.1 ∧
        kernels.cells array = (List.range n).flatMap fun r =>
          List.replicate (lengths r)
            (if mask entry.2 then cellAt kernels r entry.1 else .null))
      batch.zipIdx ret := by
  refine forall₂_of_mem (mapM_eq_ok_iff.mp h) ?_
  intro entry hentry array hstep
  by_cases hmask : mask entry.2 = true
  · rw [if_pos hmask] at hstep
    have hrange : InRange (kernels.cells entry.1).length
        (createTakeIndices ((List.range n).map lengths)) := by
      rw [hsized entry.1 (List.fst_mem_of_mem_zipIdx hentry)]
      exact inRange_createTakeIndices n lengths
    refine ⟨lawful.safeTake_shape hrange hstep, ?_⟩
    rw [lawful.safeTake_cells hrange hstep, takeCells_createTakeIndices]
    simp only [hmask, if_true]
  · rw [if_neg hmask] at hstep
    obtain rfl := Except.ok.inj hstep
    refine ⟨lawful.newNullArray_shape entry.1 _, ?_⟩
    rw [cells_newNullArray_range lawful]
    simp only [hmask, Bool.false_eq_true, if_false]

/-- A key is found among the arrays that are inserted, or as it was. -/
theorem insertAll_cases
    (arrays : List (ListUnnest × κ)) (temps : TempArrays κ)
    (unnesting : ListUnnest) :
    (∃ array, (unnesting, array) ∈ arrays ∧
        insertAll temps arrays unnesting = some array) ∨
      (unnesting ∉ arrays.map Prod.fst ∧
        insertAll temps arrays unnesting = temps unnesting) := by
  induction arrays generalizing temps with
  | nil => exact .inr ⟨by simp, rfl⟩
  | cons entry arrays ih =>
      rcases ih (Function.update temps entry.1 (some entry.2)) with
        ⟨array, hmem, hfound⟩ | ⟨hnot, hkept⟩
      · exact .inl ⟨array, List.mem_cons_of_mem _ hmem, hfound⟩
      · by_cases heq : unnesting = entry.1
        · refine .inl ⟨entry.2, ?_, ?_⟩
          · rw [heq]
            exact List.mem_cons_self
          · rw [insertAll, List.foldl_cons]
            refine hkept.trans ?_
            rw [heq, Function.update_self]
        · refine .inr ⟨?_, ?_⟩
          · rw [List.map_cons, List.mem_cons]
            rintro (h | h)
            · exact heq h
            · exact hnot h
          · rw [insertAll, List.foldl_cons]
            refine hkept.trans ?_
            rw [Function.update_of_ne heq]

/-- What a level can do. -/
theorem listUnnestAtLevel_cases
    {batch : List κ} {temps : TempArrays κ} {level : ℕ}
    {result : Option (List κ × TempArrays κ)}
    (h : listUnnestAtLevel kernels preserveNulls unnests batch temps level =
      .ok result) :
    ∃ arrays lengths,
      (activeAt unnests level).mapM (levelSource batch temps level) =
          .ok arrays ∧
        findLongestLength kernels preserveNulls arrays = .ok lengths ∧
        ((lengths.sum = 0 ∧ result = none) ∨
          ∃ unnested ret,
            arrays.mapM (unnestListArray kernels lengths) =
                .ok unnested ∧
              repeatArrsFromIndices kernels batch
                  (createTakeIndices lengths)
                  (repeatMask unnests level) = .ok ret ∧
              result = some (ret, insertAll temps
                ((activeAt unnests level).zip unnested))) := by
  unfold listUnnestAtLevel at h
  cases harrays : (activeAt unnests level).mapM
      (levelSource batch temps level) with
  | error e => simp [harrays, bind, Except.bind] at h
  | ok arrays =>
      cases hlengths : findLongestLength kernels preserveNulls arrays with
      | error e => simp [harrays, hlengths, bind, Except.bind] at h
      | ok lengths =>
          refine ⟨arrays, lengths, rfl, hlengths, ?_⟩
          simp only [harrays, hlengths, bind, Except.bind] at h
          by_cases hlarge : u32Max < lengths.sum
          · rw [if_pos hlarge] at h
            cases h
          rw [if_neg hlarge] at h
          by_cases hzero : lengths.sum = 0
          · rw [if_pos hzero] at h
            exact .inl ⟨hzero, (Except.ok.inj h).symm⟩
          rw [if_neg hzero] at h
          cases hunnested : arrays.mapM
              (unnestListArray kernels lengths) with
          | error e => simp [hunnested] at h
          | ok unnested =>
              cases hret : repeatArrsFromIndices kernels batch
                  (createTakeIndices lengths)
                  (repeatMask unnests level) with
              | error e => simp [hunnested, hret] at h
              | ok ret =>
                  simp only [hunnested, hret] at h
                  exact .inr ⟨unnested, ret, rfl, rfl,
                    (Except.ok.inj h).symm⟩

/-- The expansions of a level, one for each expression. -/
structure Expanded (kernels : Kernels κ α) (shapes : List Shape)
    (preserveNulls : Bool) (unnests : List ListUnnest) (level n : ℕ)
    (batch : List κ) (temps : TempArrays κ) (unnesting : ListUnnest)
    (taken : κ) : Prop where
  cells_eq : kernels.cells taken = (List.range n).flatMap fun i =>
    padded
      (rowLength preserveNulls unnests (level + 1)
        (rowAt kernels batch temps i))
      (rowAt kernels batch temps i (sourceKey (level + 1) unnesting))
  shape_eq : (shapes[unnesting.indexInInputSchema]?).bind
      (Shape.peel (unnesting.depth - level)) =
    some (kernels.shape taken)

theorem SourceAt.expanded
    (lawful : kernels.Lawful) {level n : ℕ} {batch : List κ}
    {temps : TempArrays κ} {unnesting : ListUnnest} {array taken : κ}
    (hsource : SourceAt kernels shapes level n batch temps unnesting array)
    (hactive : unnesting ∈ activeAt unnests (level + 1))
    (h : unnestListArray kernels ((List.range n).map fun i =>
      rowLength preserveNulls unnests (level + 1)
        (rowAt kernels batch temps i)) array = .ok taken) :
    Expanded kernels shapes preserveNulls unnests level n batch temps
      unnesting taken := by
  refine ⟨?_, ?_⟩
  · rw [cells_unnestListArray lawful hsource.isSource h]
    simp only [hsource.cellAt_eq]
  · obtain ⟨item, hlist⟩ := hsource.isSource.isList
    obtain ⟨values, spans, hlists, hvalues⟩ := lawful.lists_shape hlist
    have hdepth : unnesting.depth - level =
        (unnesting.depth - (level + 1)) + 1 := by
      have := (mem_activeAt.mp hactive).2
      omega
    have htaken : kernels.shape taken = item := by
      unfold unnestListArray at h
      simp only [hlists] at h
      cases hindices : takeIndices spans ((List.range n).map fun i =>
          rowLength preserveNulls unnests (level + 1)
            (rowAt kernels batch temps i)) with
      | error e =>
          rw [hindices] at h
          cases h
      | ok indices =>
          rw [hindices] at h
          rw [lawful.safeTake_shape (takeCells_takeIndices
            (lawful.lists_bounds hlists) hindices).1 h, hvalues]
    have hshape := hsource.shape_eq
    cases hcolumn : shapes[unnesting.indexInInputSchema]? with
    | none =>
        rw [hcolumn] at hshape
        cases hshape
    | some shape =>
        rw [hcolumn, Option.bind_some] at hshape
        rw [Option.bind_some, hdepth, Shape.peel_add, hshape,
          Option.bind_some, hlist, htaken]
        rfl

theorem Expanded.length_eq
    {level n : ℕ} {batch : List κ} {temps : TempArrays κ}
    {unnesting : ListUnnest} {taken : κ}
    (h : Expanded kernels shapes preserveNulls unnests level n batch temps
      unnesting taken)
    (hactive : unnesting ∈ activeAt unnests (level + 1)) :
    (kernels.cells taken).length =
      ((List.range n).map fun i =>
        rowLength preserveNulls unnests (level + 1)
          (rowAt kernels batch temps i)).sum := by
  rw [h.cells_eq, List.length_flatMap]
  congr 1
  apply List.map_congr_left
  intro i _
  exact length_padded (length_items_le_rowLength hactive _)

theorem getD_of_forall_null
    {cells : List (ArrowCell α)} (h : ∀ cell ∈ cells, cell = .null)
    (i : ℕ) :
    cells[i]?.getD .null = .null := by
  cases hi : cells[i]? with
  | none => rfl
  | some cell => exact h cell (List.mem_of_getElem? hi)

/-- The expansions after a level: those of the level and no other. -/
theorem Stage.temps_next
    {level n : ℕ} {batch : List κ} {temps : TempArrays κ}
    {unnested : List κ}
    (hstage : Stage kernels unnests shapes (level + 1) n batch temps)
    (hexpanded : List.Forall₂
      (Expanded kernels shapes preserveNulls unnests level n batch temps)
      (activeAt unnests (level + 1)) unnested)
    (unnesting : ListUnnest) :
    (unnesting ∈ activeAt unnests (level + 1) ∧
      ∃ taken, insertAll temps
          ((activeAt unnests (level + 1)).zip unnested) unnesting =
            some taken ∧
        Expanded kernels shapes preserveNulls unnests level n batch temps
          unnesting taken) ∨
      (unnesting ∉ activeAt unnests (level + 1) ∧
        insertAll temps
          ((activeAt unnests (level + 1)).zip unnested) unnesting =
            none) := by
  have hfst : ((activeAt unnests (level + 1)).zip unnested).map Prod.fst =
      activeAt unnests (level + 1) :=
    List.map_fst_zip hexpanded.length_eq.le
  rcases insertAll_cases ((activeAt unnests (level + 1)).zip unnested)
      temps unnesting with ⟨taken, hmem, hfound⟩ | ⟨hnot, hkept⟩
  · refine .inl ⟨(List.of_mem_zip hmem).1, taken, hfound, ?_⟩
    exact (List.forall₂_iff_zip.mp hexpanded).2 hmem
  · rw [hfst] at hnot
    refine .inr ⟨hnot, hkept.trans ?_⟩
    cases htemp : temps unnesting with
    | none => rfl
    | some temp =>
        have hsome := (hstage.temps_some unnesting).mp (by rw [htemp]; rfl)
        exact absurd (mem_activeAt.mpr ⟨hsome.1, hsome.2.le⟩) hnot

/-- The columns and expansions after a level: the columns repeated, and the
expansions of the level and no other. -/
structure Leveled (kernels : Kernels κ α) (shapes : List Shape)
    (preserveNulls : Bool) (unnests : List ListUnnest) (level n : ℕ)
    (batch : List κ) (temps : TempArrays κ) (ret : List κ)
    (temps' : TempArrays κ) : Prop where
  columns : List.Forall₂ (fun (entry : κ × ℕ) array =>
    kernels.shape array = kernels.shape entry.1 ∧
      kernels.cells array = (List.range n).flatMap fun r =>
        List.replicate
          (rowLength preserveNulls unnests (level + 1)
            (rowAt kernels batch temps r))
          (if repeatMask unnests (level + 1) entry.2 then
            cellAt kernels r entry.1 else .null)) batch.zipIdx ret
  temps : ∀ unnesting,
    (unnesting ∈ activeAt unnests (level + 1) ∧
      ∃ taken, temps' unnesting = some taken ∧
        Expanded kernels shapes preserveNulls unnests level n batch temps
          unnesting taken) ∨
    (unnesting ∉ activeAt unnests (level + 1) ∧ temps' unnesting = none)

section Leveled

variable {level n : ℕ} {batch ret : List κ} {temps temps' : TempArrays κ}

theorem Stage.leveled
    (lawful : kernels.Lawful)
    (hstage : Stage kernels unnests shapes (level + 1) n batch temps)
    (htyped : WellTyped unnests shapes)
    (h : listUnnestAtLevel kernels preserveNulls unnests batch temps
      (level + 1) = .ok (some (ret, temps'))) :
    Leveled kernels shapes preserveNulls unnests level n batch temps ret
      temps' := by
  obtain ⟨arrays, lengths, harrays, hlengths, ⟨-, hnone⟩ |
    ⟨unnested, columns, hunnested, hrepeat, hsome⟩⟩ :=
    listUnnestAtLevel_cases h
  · cases hnone
  obtain ⟨rfl, rfl⟩ := Prod.mk.inj (Option.some.inj hsome)
  obtain ⟨hsources, rfl⟩ :=
    hstage.levelRun lawful htyped harrays hlengths
  have hexpanded : List.Forall₂
      (Expanded kernels shapes preserveNulls unnests level n batch temps)
      (activeAt unnests (level + 1)) unnested :=
    forall₂_comp_of_mem hsources (mapM_eq_ok_iff.mp hunnested)
      fun _ hactive _ _ hsource htaken =>
        hsource.expanded lawful hactive htaken
  exact ⟨forall₂_repeatArrs lawful hstage.sized hrepeat,
    hstage.temps_next hexpanded⟩

theorem Leveled.stage
    (h : Leveled kernels shapes preserveNulls unnests level n batch temps ret
      temps')
    (hstage : Stage kernels unnests shapes (level + 1) n batch temps) :
    Stage kernels unnests shapes level
      ((List.range n).map fun i =>
        rowLength preserveNulls unnests (level + 1)
          (rowAt kernels batch temps i)).sum ret temps' := by
  constructor
  · rw [← hstage.shapes_eq, ← List.zipIdx_map_fst 0 batch, List.map_map]
    exact (map_eq_map_of_forall₂ h.columns
      fun entry array h => h.1.symm).symm
  · intro column hmem
    obtain ⟨entry, -, -, hcells⟩ := exists_of_mem_right h.columns hmem
    rw [hcells, List.length_flatMap]
    simp only [List.length_replicate]
  · intro unnesting array hsome
    rcases h.temps unnesting with ⟨hactive, taken, hfound, htaken⟩ |
      ⟨-, hnone⟩
    · obtain rfl := Option.some.inj (hfound.symm.trans hsome)
      exact htaken.length_eq hactive
    · rw [hnone] at hsome
      cases hsome
  · intro unnesting
    rcases h.temps unnesting with ⟨hactive, taken, hfound, -⟩ |
      ⟨hinactive, hnone⟩
    · rw [hfound]
      exact ⟨fun _ => mem_activeAt.mp hactive, fun _ => rfl⟩
    · rw [hnone]
      refine ⟨fun h => (Bool.false_ne_true h).elim, fun h => ?_⟩
      exact absurd (mem_activeAt.mpr h) hinactive
  · intro unnesting array hsome
    rcases h.temps unnesting with ⟨-, taken, hfound, htaken⟩ | ⟨-, hnone⟩
    · obtain rfl := Option.some.inj (hfound.symm.trans hsome)
      exact htaken.shape_eq
    · rw [hnone] at hsome
      cases hsome

/-- The cells of a column are those that the level leaves of it. -/
theorem Leveled.column_cells
    (h : Leveled kernels shapes preserveNulls unnests level n batch temps ret
      temps') (i r : ℕ) :
    (columnCells kernels ret temps' (.column i))[r]?.getD .null =
      ((List.range n).flatMap fun k =>
        levelKey preserveNulls unnests (level + 1)
          (rowAt kernels batch temps k) (.column i))[r]?.getD .null := by
  rcases getElem?_zipIdx_forall₂ h.columns i with
    ⟨hbatch, hret⟩ | ⟨column, array, hbatch, hret, -, hcells⟩
  · have hnull : ∀ k, rowAt kernels batch temps k (.column i) = .null := by
      intro k
      simp [rowAt, columnCells, hbatch]
    simp only [columnCells, hret, levelKey, hnull, ite_self]
    refine (getD_of_forall_null ?_ r).symm
    intro cell hmem
    obtain ⟨k, -, hmem⟩ := List.mem_flatMap.mp hmem
    exact (List.mem_replicate.mp hmem).2
  · have hrow : ∀ k, rowAt kernels batch temps k (.column i) =
        cellAt kernels k column := by
      intro k
      simp [rowAt, columnCells, hbatch, cellAt]
    simp only [columnCells, hret, levelKey, hrow, Option.map_some,
      Option.getD_some, hcells]

/-- So are the cells of an expansion. -/
theorem Leveled.temp_cells
    (h : Leveled kernels shapes preserveNulls unnests level n batch temps ret
      temps') (unnesting : ListUnnest) (r : ℕ) :
    (columnCells kernels ret temps' (.temp unnesting))[r]?.getD .null =
      ((List.range n).flatMap fun k =>
        levelKey preserveNulls unnests (level + 1)
          (rowAt kernels batch temps k) (.temp unnesting))[r]?.getD
            .null := by
  rcases h.temps unnesting with ⟨hactive, taken, hfound, htaken⟩ |
    ⟨hinactive, hnone⟩
  · simp only [columnCells, hfound, levelKey, expandKey,
      if_pos (mem_activeAt.mp hactive), Option.map_some,
      Option.getD_some, htaken.cells_eq]
  · simp only [columnCells, hnone, levelKey, expandKey,
      if_neg (mt mem_activeAt.mpr hinactive)]
    refine (getD_of_forall_null ?_ r).symm
    intro cell hmem
    obtain ⟨k, -, hmem⟩ := List.mem_flatMap.mp hmem
    exact (List.mem_replicate.mp hmem).2

/-- A level expands each row by itself. -/
theorem Stage.next
    (lawful : kernels.Lawful)
    (hstage : Stage kernels unnests shapes (level + 1) n batch temps)
    (htyped : WellTyped unnests shapes)
    (h : listUnnestAtLevel kernels preserveNulls unnests batch temps
      (level + 1) = .ok (some (ret, temps'))) :
    ∃ n', Stage kernels unnests shapes level n' ret temps' ∧
      stageRows kernels n' ret temps' =
        (stageRows kernels n batch temps).flatMap
          (levelRow preserveNulls unnests (level + 1)) := by
  have hleveled := hstage.leveled lawful htyped h
  refine ⟨_, hleveled.stage hstage, ?_⟩
  rw [stageRows_eq n, List.flatMap_map]
  simp only [levelRow]
  rw [← rows_flatMap (List.range n)
    (fun i => rowLength preserveNulls unnests (level + 1)
      (rowAt kernels batch temps i))
    fun key i _ => length_levelKey (rowAt kernels batch temps i) key]
  apply rows_congr
  intro key r _
  cases key with
  | column i => exact hleveled.column_cells i r
  | temp unnesting => exact hleveled.temp_cells unnesting r

end Leveled

/-- A level that leaves no row has none to leave. -/
theorem Stage.ends
    (lawful : kernels.Lawful) {level n : ℕ} {batch : List κ}
    {temps : TempArrays κ}
    (hstage : Stage kernels unnests shapes (level + 1) n batch temps)
    (htyped : WellTyped unnests shapes)
    (h : listUnnestAtLevel kernels preserveNulls unnests batch temps
      (level + 1) = .ok none) :
    (stageRows kernels n batch temps).flatMap
      (levelRow preserveNulls unnests (level + 1)) = [] := by
  obtain ⟨arrays, lengths, harrays, hlengths, ⟨hzero, -⟩ |
    ⟨unnested, columns, -, -, hsome⟩⟩ := listUnnestAtLevel_cases h
  · obtain ⟨-, rfl⟩ := hstage.levelRun lawful htyped harrays hlengths
    rw [stageRows_eq, List.flatMap_map, List.flatMap_eq_nil_iff]
    intro i hi
    have hrow := List.sum_eq_zero_iff.mp hzero _
      (List.mem_map_of_mem hi)
    rw [levelRow, hrow]
    rfl
  · cases hsome

/-- The levels, one after the other, expand each row by itself. -/
theorem Stage.run
    (lawful : kernels.Lawful) {level : ℕ}
    (htyped : WellTyped unnests shapes) :
    ∀ {n : ℕ} {batch : List κ} {temps : TempArrays κ}
      {result : Option (List κ × TempArrays κ)},
      Stage kernels unnests shapes level n batch temps →
      unnestLevels kernels preserveNulls unnests level batch temps =
        .ok result →
      (result = none →
        (stageRows kernels n batch temps).flatMap
          (levelRows preserveNulls unnests level) = []) ∧
      ∀ ret temps', result = some (ret, temps') →
        ∃ n', Stage kernels unnests shapes 0 n' ret temps' ∧
          stageRows kernels n' ret temps' =
            (stageRows kernels n batch temps).flatMap
              (levelRows preserveNulls unnests level) := by
  induction level with
  | zero =>
      intro n batch temps result hstage h
      obtain rfl := Except.ok.inj h
      refine ⟨fun hnone => (Option.some_ne_none _ hnone).elim, ?_⟩
      rintro ret temps' hsome
      obtain ⟨rfl, rfl⟩ := Prod.mk.inj (Option.some.inj hsome)
      refine ⟨n, hstage, ?_⟩
      simp only [levelRows, List.flatMap_singleton']
  | succ level ih =>
      intro n batch temps result hstage h
      have hsplit : (stageRows kernels n batch temps).flatMap
          (levelRows preserveNulls unnests (level + 1)) =
          ((stageRows kernels n batch temps).flatMap
            (levelRow preserveNulls unnests (level + 1))).flatMap
              (levelRows preserveNulls unnests level) := by
        rw [List.flatMap_assoc]
        rfl
      rw [hsplit]
      unfold unnestLevels at h
      cases hlevel : listUnnestAtLevel kernels preserveNulls unnests batch
          temps (level + 1) with
      | error e =>
          rw [hlevel] at h
          cases h
      | ok stepped =>
          rw [hlevel] at h
          cases stepped with
          | none =>
              obtain rfl := Except.ok.inj h
              rw [hstage.ends lawful htyped hlevel]
              exact ⟨fun _ => rfl, fun ret temps' hsome =>
                (Option.some_ne_none _ hsome.symm).elim⟩
          | some stepped =>
              obtain ⟨n', hnext, hrows⟩ :=
                hstage.next lawful htyped hlevel
              rw [← hrows]
              exact ih hnext h

end Stages

end Unnest

end Streamling
