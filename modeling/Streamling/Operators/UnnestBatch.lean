import Mathlib
import Streamling.Operators.UnnestLevels

/-!
# The batch of unnested rows

After the last level the columns are collected, each replaced by its
expansions, and structs are flattened.  The rows of the batch that is put
together are those that each row of the input gives by itself.
-/

namespace Streamling

namespace Unnest

open ArrowCells ExceptLists

/-! ## The output batch -/

section Output

variable {κ α : Type} {kernels : Kernels κ α} {preserveNulls : Bool}
  {unnests : List ListUnnest} {shapes : List Shape}

open Batch (cellAt)

theorem le_maxRecursion
    {unnesting : ListUnnest} (h : unnesting ∈ unnests) :
    unnesting.depth ≤ maxRecursion unnests := by
  have hfold : maxRecursion unnests =
      (unnests.map ListUnnest.depth).foldl max 0 := by
    rw [maxRecursion, List.foldl_map]
  rw [hfold]
  exact le_foldl_max (.inl (List.mem_map_of_mem h))

theorem maxRecursion_eq (unnests : List ListUnnest) :
    maxRecursion unnests = levelCount unnests := by
  rw [maxRecursion, levelCount, ← List.foldl_eq_foldr, List.foldl_map]

theorem Stage.start
    (batch : Batch kernels) :
    Stage kernels unnests batch.shapes (maxRecursion unnests)
      batch.numRows batch.columns fun _ => none := by
  refine ⟨rfl, batch.sized, ?_, ?_, ?_⟩
  · rintro unnesting array h
    cases h
  · intro unnesting
    refine ⟨fun h => (Bool.false_ne_true h).elim, fun ⟨hmem, hlt⟩ => ?_⟩
    have := le_maxRecursion hmem
    omega
  · rintro unnesting array h
    cases h

theorem stageRows_start (batch : Batch kernels) :
    stageRows kernels batch.numRows batch.columns (fun _ => none) =
      batch.rows.map Row.ofCells := by
  rw [stageRows_eq, Batch.rows, List.map_map]
  apply List.map_congr_left
  intro i _
  funext key
  cases key with
  | temp unnesting => rfl
  | column c =>
      cases hcolumn : batch.columns[c]? with
      | none => simp [rowAt, columnCells, Row.ofCells, hcolumn]
      | some column =>
          simp [rowAt, columnCells, Row.ofCells, hcolumn, cellAt]

/-- A collected array stands under its key. -/
structure Collected (kernels : Kernels κ α) (shapes : List Shape) (n : ℕ)
    (batch : List κ) (temps : TempArrays κ) (key : Key) (array : κ) :
    Prop where
  length_eq : (kernels.cells array).length = n
  cells_eq : columnCells kernels batch temps key = kernels.cells array
  shape_eq : keyShape shapes key = kernels.shape array

theorem forall₂_range_zipIdx (batch : List κ) :
    List.Forall₂ (fun i (entry : κ × ℕ) =>
        i = entry.2 ∧ batch[i]? = some entry.1)
      (List.range batch.length) batch.zipIdx := by
  rw [List.forall₂_iff_get]
  refine ⟨by simp, ?_⟩
  intro i hi hi'
  have hlt : i < batch.length := by simpa using hi
  simp [hlt]

/-- The arrays of a list of keys. -/
theorem forall₂_filterMap
    {R : ListUnnest → κ → Prop} {temps : TempArrays κ}
    {keys : List ListUnnest}
    (h : ∀ unnesting ∈ keys, 0 < unnesting.depth →
      ∃ array, temps unnesting = some array ∧ R unnesting array)
    (hnone : ∀ unnesting ∈ keys, ¬ 0 < unnesting.depth →
      temps unnesting = none) :
    List.Forall₂ R
      (keys.filter fun unnesting => 0 < unnesting.depth)
      (keys.filterMap temps) := by
  induction keys with
  | nil => exact .nil
  | cons unnesting keys ih =>
      have hrest := ih
        (fun u hu => h u (List.mem_cons_of_mem _ hu))
        (fun u hu => hnone u (List.mem_cons_of_mem _ hu))
      by_cases hdepth : 0 < unnesting.depth
      · obtain ⟨array, hsome, hR⟩ := h unnesting List.mem_cons_self hdepth
        rw [List.filter_cons_of_pos (by simpa using hdepth),
          List.filterMap_cons_some hsome]
        exact .cons hR hrest
      · rw [List.filter_cons_of_neg (by simpa using hdepth),
          List.filterMap_cons_none (hnone unnesting List.mem_cons_self
            hdepth)]
        exact hrest

theorem expansionsOf_eq (i : ℕ) :
    expansionsOf unnests i =
      (unnestsOf unnests i).filter fun unnesting => 0 < unnesting.depth := by
  simp [expansionsOf, unnestsOf, List.filter_filter, Bool.and_comm]

theorem mem_unnestsOf
    {i : ℕ} {unnesting : ListUnnest}
    (h : unnesting ∈ unnestsOf unnests i) :
    unnesting ∈ unnests ∧ unnesting.indexInInputSchema = i := by
  simpa [unnestsOf] using h

/-- The columns that are collected are those of the keys. -/
theorem Stage.collected
    {n : ℕ} {batch : List κ} {temps : TempArrays κ}
    (hstage : Stage kernels unnests shapes 0 n batch temps) :
    List.Forall₂ (Collected kernels shapes n batch temps)
      (collectKeys unnests shapes.length)
      (collectColumns unnests batch temps) := by
  have hlength : shapes.length = batch.length := by
    rw [← hstage.shapes_eq, List.length_map]
  unfold collectKeys collectColumns
  rw [hlength]
  refine forall₂_flatMap (forall₂_range_zipIdx batch) ?_
  rintro i ⟨column, j⟩ ⟨rfl, hcolumn⟩
  have hexpansions : List.Forall₂
      (fun unnesting => Collected kernels shapes n batch temps
        (.temp unnesting))
      (expansionsOf unnests i) ((unnestsOf unnests i).filterMap temps) := by
    rw [expansionsOf_eq]
    refine forall₂_filterMap ?_ ?_
    · intro unnesting hmem hdepth
      have hsome := (hstage.temps_some unnesting).mpr
        ⟨(mem_unnestsOf hmem).1, hdepth⟩
      obtain ⟨array, harray⟩ := Option.isSome_iff_exists.mp hsome
      refine ⟨array, harray, hstage.temps_sized _ _ harray, ?_, ?_⟩
      · rw [columnCells, harray]
        rfl
      · have hshape := hstage.temps_shape _ _ harray
        rw [Nat.sub_zero] at hshape
        rw [keyShape, hshape]
        rfl
    · intro unnesting _ hdepth
      rw [← Option.not_isSome_iff_eq_none]
      intro hsome
      exact hdepth ((hstage.temps_some unnesting).mp hsome).2
  have hself : Collected kernels shapes n batch temps (.column i)
      column := by
    refine ⟨hstage.sized column (List.mem_of_getElem? hcolumn), ?_, ?_⟩
    · rw [columnCells, hcolumn]
      rfl
    · rw [keyShape, ← hstage.shapes_eq, List.getElem?_map, hcolumn]
      rfl
  cases hkeys : expansionsOf unnests i with
  | nil =>
      rw [hkeys, List.forall₂_nil_left_iff] at hexpansions
      simp only [hexpansions]
      exact .cons hself .nil
  | cons unnesting rest =>
      rw [hkeys] at hexpansions
      cases harrays : (unnestsOf unnests i).filterMap temps with
      | nil =>
          rw [harrays] at hexpansions
          cases hexpansions
      | cons array arrays =>
          rw [harrays] at hexpansions
          exact List.forall₂_map_left_iff.mpr hexpansions

/-- What the constructors of a batch keep. -/
theorem Batch.of_tryNewWithRowCount
    {fields : List FieldLabel} {columns : List κ} {rowCount : ℕ}
    {batch : Batch kernels}
    (h : Batch.tryNewWithRowCount kernels fields columns rowCount =
      .ok batch) :
    batch.fields = fields ∧ batch.columns = columns ∧
      batch.numRows = rowCount := by
  unfold Batch.tryNewWithRowCount at h
  split at h
  · split at h
    · split at h
      · obtain rfl := Except.ok.inj h
        exact ⟨rfl, rfl, rfl⟩
      · cases h
    · cases h
  · cases h

theorem Batch.of_tryNew
    {fields : List FieldLabel} {columns : List κ} {batch : Batch kernels}
    (h : Batch.tryNew kernels fields columns = .ok batch) :
    batch.fields = fields ∧ batch.columns = columns ∧
      ∃ first ∈ columns, batch.numRows = (kernels.cells first).length := by
  cases columns with
  | nil => cases h
  | cons first rest =>
      obtain ⟨hfields, hcolumns, hrows⟩ := Batch.of_tryNewWithRowCount h
      exact ⟨hfields, hcolumns, first, List.mem_cons_self, hrows⟩

/-- The columns that one collected column gives. -/
theorem cells_structPart
    (lawful : kernels.Lawful) {n idx : ℕ} {batch : List κ}
    {temps : TempArrays κ} {schema : List FieldLabel}
    {structColumns : Finset ℕ} {key : Key} {array : κ}
    {part : List (FieldLabel × κ)}
    (hkey : Collected kernels shapes n batch temps key array)
    (h : structPart kernels schema structColumns idx array = .ok part) :
    (∀ entry ∈ part, (kernels.cells entry.2).length = n) ∧
      ∀ i < n, part.map (fun entry => cellAt kernels i entry.2) =
        flattenCell structColumns idx (keyShape shapes key)
          (rowAt kernels batch temps i key) := by
  unfold structPart at h
  by_cases hstruct : idx ∈ structColumns
  · rw [if_pos hstruct] at h
    cases hcolumns : kernels.structs array with
    | none =>
        rw [hcolumns] at h
        cases h
    | some columns =>
        rw [hcolumns] at h
        obtain rfl := Except.ok.inj h
        refine ⟨?_, ?_⟩
        · rintro ⟨label, column⟩ hmem
          obtain ⟨c, hc⟩ := List.getElem?_of_mem hmem
          rw [lawful.structs_cells hcolumns c label column hc,
            List.length_map]
          exact hkey.length_eq
        · intro i hi
          have hwidth : (keyShape shapes key).width = columns.length := by
            rw [hkey.shape_eq, lawful.structs_shape hcolumns]
            simp [Shape.width]
          have hin : i < (kernels.cells array).length := by
            rw [hkey.length_eq]
            exact hi
          rw [flattenCell, if_pos hstruct, hwidth]
          apply List.ext_getElem
          · simp
          · intro c hc hc'
            have hlt : c < columns.length := by simpa using hc
            have hcells := lawful.structs_cells hcolumns c
              columns[c].1 columns[c].2 (by simp [hlt])
            simp only [List.getElem_map, List.getElem_range, cellAt,
              hcells, rowAt, hkey.cells_eq]
            simp [hin]
  · rw [if_neg hstruct] at h
    cases hlabel : schema[idx]? with
    | none =>
        rw [hlabel] at h
        cases h
    | some label =>
        rw [hlabel] at h
        obtain rfl := Except.ok.inj h
        refine ⟨?_, ?_⟩
        · intro entry hmem
          rw [List.mem_singleton.mp hmem]
          exact hkey.length_eq
        · intro i _
          rw [flattenCell, if_neg hstruct, rowAt, hkey.cells_eq]
          rfl

/-- The rows of the batch that is put together at the end. -/
theorem Stage.flattened
    (lawful : kernels.Lawful) {n : ℕ} {batch : List κ}
    {temps : TempArrays κ} {schema : List FieldLabel}
    {structColumns : Finset ℕ} {out : Batch kernels}
    (hstage : Stage kernels unnests shapes 0 n batch temps)
    (h : flattenStructCols kernels schema structColumns
      (collectColumns unnests batch temps) = .ok out) :
    out.rows = (stageRows kernels n batch temps).map
      (outputRow unnests structColumns shapes) := by
  unfold flattenStructCols at h
  cases hparts : ((collectColumns unnests batch temps).zipIdx.mapM
      fun entry => structPart kernels schema structColumns entry.2
        entry.1) with
  | error e =>
      rw [hparts] at h
      cases h
  | ok parts =>
      rw [hparts] at h
      obtain ⟨-, hcolumns, first, hfirst, hnum⟩ := Batch.of_tryNew h
      have hkeys := forall₂_comp_of_mem
        (T := fun (entry : Key × ℕ) part =>
          (∀ column ∈ part, (kernels.cells column.2).length = n) ∧
            ∀ i < n, part.map (fun column =>
                cellAt kernels i column.2) =
              flattenCell structColumns entry.2 (keyShape shapes entry.1)
                (rowAt kernels batch temps i entry.1))
        (forall₂_zipIdx hstage.collected 0) (mapM_eq_ok_iff.mp hparts)
        (by
          rintro ⟨key, j⟩ - ⟨array, j'⟩ part ⟨rfl, hkey⟩ hpart
          exact cells_structPart lawful hkey hpart)
      have hrows : out.numRows = n := by
        rw [hnum]
        obtain ⟨entry, hentry, rfl⟩ := List.mem_map.mp hfirst
        obtain ⟨part, hpart, hmem⟩ := List.mem_flatten.mp hentry
        obtain ⟨key, -, hlength, -⟩ := exists_of_mem_right hkeys hpart
        exact hlength entry hmem
      rw [Batch.rows, hcolumns, hrows, stageRows_eq, List.map_map]
      apply List.map_congr_left
      intro i hi
      rw [List.map_map, Function.comp_apply, outputRow]
      refine flatten_map_of_forall₂ (forall₂_of_mem hkeys ?_)
      intro entry _ part hpart
      exact hpart.2 i (List.mem_range.mp hi)

/-- The shapes of the output columns. -/
def outputShapes (unnests : List ListUnnest) (structColumns : Finset ℕ)
    (shapes : List Shape) : List Shape :=
  (collectKeys unnests shapes.length).zipIdx.flatMap fun entry =>
    if entry.2 ∈ structColumns then (keyShape shapes entry.1).children
    else [keyShape shapes entry.1]

theorem Collected.partShapes
    (lawful : kernels.Lawful) {n idx : ℕ} {batch : List κ}
    {temps : TempArrays κ} {schema : List FieldLabel}
    {structColumns : Finset ℕ} {key : Key} {array : κ}
    {part : List (FieldLabel × κ)}
    (hkey : Collected kernels shapes n batch temps key array)
    (h : structPart kernels schema structColumns idx array = .ok part) :
    part.map (fun entry => kernels.shape entry.2) =
      if idx ∈ structColumns then (keyShape shapes key).children
      else [keyShape shapes key] := by
  unfold structPart at h
  by_cases hstruct : idx ∈ structColumns
  · rw [if_pos hstruct] at h ⊢
    cases hcolumns : kernels.structs array with
    | none =>
        rw [hcolumns] at h
        cases h
    | some columns =>
        rw [hcolumns] at h
        obtain rfl := Except.ok.inj h
        rw [hkey.shape_eq, lawful.structs_shape hcolumns, Shape.children]
  · rw [if_neg hstruct] at h ⊢
    cases hlabel : schema[idx]? with
    | none =>
        rw [hlabel] at h
        cases h
    | some label =>
        rw [hlabel] at h
        obtain rfl := Except.ok.inj h
        rw [hkey.shape_eq]
        rfl

theorem Stage.outputShapes_eq
    (lawful : kernels.Lawful) {n : ℕ} {batch : List κ}
    {temps : TempArrays κ} {schema : List FieldLabel}
    {structColumns : Finset ℕ} {out : Batch kernels}
    (hstage : Stage kernels unnests shapes 0 n batch temps)
    (h : flattenStructCols kernels schema structColumns
      (collectColumns unnests batch temps) = .ok out) :
    out.shapes = outputShapes unnests structColumns shapes := by
  unfold flattenStructCols at h
  cases hparts : ((collectColumns unnests batch temps).zipIdx.mapM
      fun entry => structPart kernels schema structColumns entry.2
        entry.1) with
  | error e =>
      rw [hparts] at h
      cases h
  | ok parts =>
      rw [hparts] at h
      obtain ⟨-, hcolumns, -⟩ := Batch.of_tryNew h
      rw [Batch.shapes, hcolumns, List.map_map]
      refine flatten_map_of_forall₂ ?_
      refine forall₂_comp_of_mem (forall₂_zipIdx hstage.collected 0)
        (mapM_eq_ok_iff.mp hparts) ?_
      rintro ⟨key, j⟩ - ⟨array, j'⟩ part ⟨rfl, hkey⟩ hpart
      exact hkey.partShapes lawful hpart

/-- The rows of what the operator returns. -/
def resultRows (result : Option (Batch kernels)) : List (List (ArrowCell α)) :=
  (result.map Batch.rows).getD []

theorem collectColumns_nil (batch : List κ) (temps : TempArrays κ) :
    collectColumns [] batch temps = batch := by
  have hfst : batch.zipIdx.flatMap (fun entry => [entry.1]) =
      batch.zipIdx.map Prod.fst := List.map_eq_flatMap.symm
  simpa [collectColumns, unnestsOf] using
    hfst.trans (List.zipIdx_map_fst 0 batch)

/-- The rows of a batch after all levels. -/
def expandedRows (preserveNulls : Bool) (unnests : List ListUnnest)
    (batch : Batch kernels) : List (Row α) :=
  (batch.rows.map Row.ofCells).flatMap
    (levelRows preserveNulls unnests (maxRecursion unnests))

/-- What the operator returns: nothing if no row is left, or the batch that is
put together from the columns of the last level. -/
inductive Built (preserveNulls : Bool) (schema : List FieldLabel)
    (unnests : List ListUnnest) (structColumns : Finset ℕ)
    (batch : Batch kernels) : Option (Batch kernels) → Prop
  | nothing (h : expandedRows preserveNulls unnests batch = []) :
      Built preserveNulls schema unnests structColumns batch none
  | batch {n : ℕ} {ret : List κ} {temps : TempArrays κ}
      {out : Batch kernels}
      (stage : Stage kernels unnests batch.shapes 0 n ret temps)
      (rows_eq : stageRows kernels n ret temps =
        expandedRows preserveNulls unnests batch)
      (flattened : flattenStructCols kernels schema structColumns
        (collectColumns unnests ret temps) = .ok out) :
      Built preserveNulls schema unnests structColumns batch (some out)

theorem built_of_ok
    (lawful : kernels.Lawful) {schema : List FieldLabel}
    {unnests : List ListUnnest} {structColumns : Finset ℕ}
    {batch : Batch kernels} (htyped : WellTyped unnests batch.shapes)
    {result : Option (Batch kernels)}
    (h : buildBatch kernels preserveNulls schema unnests structColumns
      batch = .ok result) :
    Built preserveNulls schema unnests structColumns batch result := by
  have hstart : Stage kernels unnests batch.shapes
      (maxRecursion unnests) batch.numRows batch.columns fun _ => none :=
    Stage.start batch
  unfold buildBatch at h
  cases unnests with
  | nil =>
      rw [List.isEmpty_nil, if_pos rfl] at h
      cases hout : flattenStructCols kernels schema structColumns
          batch.columns with
      | error e =>
          rw [hout] at h
          cases h
      | ok out =>
          rw [hout] at h
          obtain rfl := Except.ok.inj h
          rw [← collectColumns_nil batch.columns fun _ => none] at hout
          refine .batch hstart ?_ hout
          rw [stageRows_start]
          exact (List.flatMap_singleton' _).symm
  | cons unnesting rest =>
      rw [List.isEmpty_cons, if_neg Bool.false_ne_true] at h
      by_cases hmax : maxRecursion (unnesting :: rest) = 0
      · rw [hmax] at h
        cases h
      · simp only [if_neg hmax] at h
        cases hlevels : unnestLevels kernels preserveNulls
            (unnesting :: rest) (maxRecursion (unnesting :: rest))
            batch.columns (fun _ => none) with
        | error e =>
            rw [hlevels] at h
            cases h
        | ok levels =>
            obtain ⟨hnone, hsome⟩ := hstart.run lawful htyped hlevels
            rw [hlevels] at h
            rw [stageRows_start] at hnone hsome
            cases levels with
            | none =>
                obtain rfl := Except.ok.inj h
                exact .nothing (hnone rfl)
            | some levels =>
                obtain ⟨n, hstage, hrows⟩ := hsome levels.1 levels.2 rfl
                simp only [bind, Except.bind] at h
                cases hout : flattenStructCols kernels schema structColumns
                    (collectColumns (unnesting :: rest) levels.1
                      levels.2) with
                | error e =>
                    rw [hout] at h
                    cases h
                | ok out =>
                    rw [hout] at h
                    obtain rfl := Except.ok.inj h
                    exact .batch hstage hrows hout

/-- Whenever the operator returns, its rows are those that each row of the
input gives by itself, in the order of the input. -/
theorem buildBatch_rows
    (lawful : kernels.Lawful) (schema : List FieldLabel)
    (unnests : List ListUnnest) (structColumns : Finset ℕ)
    (batch : Batch kernels) (htyped : WellTyped unnests batch.shapes)
    {result : Option (Batch kernels)}
    (h : buildBatch kernels preserveNulls schema unnests structColumns
      batch = .ok result) :
    resultRows result = batch.rows.flatMap
      (unnestBatchRow preserveNulls unnests structColumns batch.shapes) := by
  have hgoal : batch.rows.flatMap
      (unnestBatchRow preserveNulls unnests structColumns batch.shapes) =
      (expandedRows preserveNulls unnests batch).map
        (outputRow unnests structColumns batch.shapes) := by
    rw [expandedRows, List.flatMap_map, List.map_flatMap, maxRecursion_eq]
    apply List.flatMap_congr
    intro cells _
    have hagree : Agree unnests (levelCount unnests) (Row.ofCells cells)
        (Row.ofCells cells) := fun _ _ => rfl
    exact (map_eq_map_of_forall₂ hagree.levelRows fun _ _ h =>
      h.outputRow_eq structColumns batch.shapes).symm
  rw [hgoal]
  cases built_of_ok lawful htyped h with
  | nothing hnone =>
      rw [hnone]
      rfl
  | batch hstage hrows hout =>
      rw [← hrows]
      exact hstage.flattened lawful hout

end Output

end Unnest

end Streamling
