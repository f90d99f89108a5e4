import Mathlib
import Streamling.Types.SafeTake

/-!
# Rows that are null

A row of an array is null exactly where the array says so.  The arrays of
nulls that Arrow makes are arrays of their types, whatever the type, and all
their rows are null.
-/

namespace Streamling

namespace ArrowTree

open Arrow (LeafType)
open ArrowCells (Shape Spans spanCell spanLength takeCells)

/-! ## Rows and nulls -/

theorem ArrowField.shape_eq (field : ArrowField) :
    field.shape = field.dataType.shape := by
  cases field with
  | plain name nullable metadata dataType => rfl
  | wide name nullable metadata type => rfl

@[simp] theorem isNull_structCell (valid : Bool) (fields : List RowCell) :
    (structCell valid fields).isNull = !valid := by
  unfold structCell
  split_ifs with h
  · rw [h.1]
    rfl
  · rfl

@[simp] theorem isNull_spanCell
    (values : List RowCell) (span : Option (ℕ × ℕ)) :
    (spanCell values span).isNull = span.isNone := by
  rcases span with _ | ⟨start, stop⟩
  · rfl
  · rfl

theorem ListLayout.isNone_spans
    (layout : ListLayout) (offsets : List ℕ) (validity : List Bool) :
    (layout.spans offsets validity).map Option.isNone =
      validity.map not := by
  rw [ListLayout.spans, List.map_map]
  conv_rhs => rw [← List.zipIdx_map_fst 0 validity, List.map_map]
  apply List.map_congr_left
  rintro ⟨valid, i⟩ _
  cases valid with
  | true => rfl
  | false => rfl

/-- A row is null exactly where the array says so. -/
theorem Column.isNull_rowCells
    (column : Column) (h : column.Ordered) :
    column.rowCells.map ArrowCells.ArrowCell.isNull =
      column.validity.map not := by
  cases column with
  | leaf type cells =>
      simp only [rowCells, validity, List.map_map]
      apply List.map_congr_left
      rintro (_ | cell) _
      · rfl
      · rfl
  | list layout child offsets validity values =>
      simp only [rowCells, Column.validity, List.map_map]
      rw [← layout.isNone_spans offsets validity]
      apply List.map_congr_left
      intro span _
      exact isNull_spanCell _ span
  | map entries fields sorted offsets validity values =>
      simp only [rowCells, Column.validity, List.map_map]
      rw [← ListLayout.list.isNone_spans offsets validity]
      apply List.map_congr_left
      intro span _
      exact isNull_spanCell _ span
  | struct fields validity columns =>
      simp only [rowCells, Column.validity, structRows, List.map_map]
      conv_rhs => rw [← List.zipIdx_map_fst 0 validity, List.map_map]
      apply List.map_congr_left
      rintro ⟨valid, i⟩ _
      exact isNull_structCell _ _
  | encoded type index validity =>
      simp only [Column.Ordered] at h
      simp only [rowCells, Column.validity, List.map_zipWith]
      apply List.ext_getElem
      · simp [h]
      · intro i hi hi'
        have hlt : i < validity.length := by
          simpa using hi'
        simp only [List.getElem_zipWith, List.getElem_map]
        cases validity[i] with
        | true => rfl
        | false => rfl

theorem Column.validity_eq (column : Column) (h : column.Ordered) :
    column.validity =
      column.rowCells.map fun cell => !cell.isNull := by
  have hnull := congrArg (List.map not) (column.isNull_rowCells h)
  rw [List.map_map, List.map_map] at hnull
  have hid : (not ∘ not) = id := by
    funext b
    exact Bool.not_not b
  rw [hid, List.map_id] at hnull
  exact hnull.symm

theorem Column.length_rowCells (column : Column) (h : column.Ordered) :
    column.rowCells.length = column.validity.length := by
  rw [column.validity_eq h, List.length_map]

/-! ## Arrays of nulls -/

/-- An array of `n` nulls of a type. -/
structure IsNullArray (type : DataType) (n : ℕ) (column : Column) : Prop where
  sound : column.Sound
  type_eq : column.dataType = type
  cells_eq : column.rowCells = List.replicate n .null

theorem IsNullArray.validity_eq
    {type : DataType} {n : ℕ} {column : Column}
    (h : IsNullArray type n column) :
    column.validity = List.replicate n false := by
  rw [column.validity_eq h.sound.ordered, h.cells_eq, List.map_replicate]
  rfl

/-- The columns of a struct of nulls. -/
inductive AreNullArrays (n : ℕ) :
    List ArrowField → List Column → Prop
  | nil : AreNullArrays n [] []
  | cons {field column fields columns} :
      IsNullArray field.dataType n column → AreNullArrays n fields columns →
      AreNullArrays n (field :: fields) (column :: columns)

theorem AreNullArrays.structOk
    {n : ℕ} {fields : List ArrowField} {columns : List Column}
    (h : AreNullArrays n fields columns) :
    StructOk fields (List.replicate n false) columns := by
  induction h with
  | nil => exact .nil
  | cons hnull _ ih =>
      refine .cons ⟨hnull.type_eq, ?_, ?_⟩ ih
      · rw [hnull.validity_eq]
      · right
        intro pair hpair
        exact .inr (List.eq_of_mem_replicate (List.of_mem_zip hpair).2)

theorem AreNullArrays.sound
    {n : ℕ} {fields : List ArrowField} {columns : List Column}
    (h : AreNullArrays n fields columns) :
    AllValid columns ∧ AllOrdered columns := by
  induction h with
  | nil => exact ⟨trivial, trivial⟩
  | cons hnull _ ih =>
      exact ⟨⟨hnull.sound.valid, ih.1⟩, hnull.sound.ordered, ih.2⟩

theorem AreNullArrays.cells
    {n : ℕ} {fields : List ArrowField} {columns : List Column}
    (h : AreNullArrays n fields columns) :
    ∀ cells ∈ allRowCells columns, cells = List.replicate n .null := by
  induction h with
  | nil =>
      intro cells hmem
      cases hmem
  | cons hnull _ ih =>
      intro cells hmem
      rcases List.mem_cons.mp hmem with rfl | hmem
      · exact hnull.cells_eq
      · exact ih cells hmem

theorem spans_replicate_false
    (layout : ListLayout) (offsets : List ℕ) (n : ℕ) :
    layout.spans offsets (List.replicate n false) =
      List.replicate n none := by
  apply List.ext_getElem
  · simp [ListLayout.spans]
  · intro i hi hi'
    simp [ListLayout.spans]

theorem offsetsOk_replicate (n values : ℕ) :
    OffsetsOk (List.replicate (n + 1) 0)
      (List.replicate n false).length values := by
  refine ⟨by simp, ?_⟩
  intro last hlast
  rw [List.eq_of_mem_replicate (List.mem_of_mem_getLast? hlast)]
  exact Nat.zero_le _

theorem pairwise_replicate_zero (n : ℕ) :
    (List.replicate n 0).Pairwise (· ≤ ·) :=
  List.pairwise_replicate.mpr (.inr (le_refl 0))

theorem structRows_null
    {n : ℕ} {columns : List (List RowCell)}
    (h : ∀ cells ∈ columns, cells = List.replicate n .null) :
    structRows (List.replicate n false) columns =
      List.replicate n .null := by
  apply List.ext_getElem
  · simp [structRows]
  · intro i hi hi'
    have hin : i < n := by simpa [structRows] using hi
    have hmissing : ∀ cells ∈ columns,
        isMissing (cells[i]?.getD .null) = true := by
      intro cells hmem
      rw [h cells hmem]
      simp [hin, isMissing]
    simpa [structRows, structCell] using hmissing

mutual

theorem isNullArray_newNullArray :
    (type : DataType) → (n : ℕ) →
      IsNullArray type n (newNullArray type n)
  | .leaf type, n => by
      refine ⟨⟨?_, trivial⟩, rfl, ?_⟩
      · intro cell hcell c hc
        rw [List.eq_of_mem_replicate hcell] at hc
        cases hc
      · simp [newNullArray, Column.rowCells]
  | .list layout child, n => by
      have hplain : ∀ layout : ListLayout, layout.plain = true →
          (∀ size, layout ≠ .fixedSizeList size) →
          IsNullArray (.list layout child) n
            (.list layout child (List.replicate (n + 1) 0)
              (List.replicate n false) (nullValues child 0)) := by
        intro layout hlayout hsize
        have hvalues := isNullArray_nullValues child 0
        have hvalidity := hvalues.validity_eq
        refine ⟨⟨⟨hlayout, ⟨hvalues.type_eq, ?_⟩, hvalues.sound.valid⟩,
          pairwise_replicate_zero _, hvalues.sound.ordered⟩, rfl, ?_⟩
        · rw [hvalidity]
          cases layout with
          | fixedSizeList size => exact absurd rfl (hsize size)
          | list => exact ⟨offsetsOk_replicate n _, .inr (by simp)⟩
          | largeList => exact ⟨offsetsOk_replicate n _, .inr (by simp)⟩
          | listView => cases hlayout
          | largeListView => cases hlayout
        · rw [Column.rowCells, spans_replicate_false, List.map_replicate]
          rfl
      cases layout with
      | list => exact hplain .list rfl fun _ h => by cases h
      | largeList => exact hplain .largeList rfl fun _ h => by cases h
      | fixedSizeList size =>
          have hvalues := isNullArray_nullValues child (n * size)
          have hvalidity := hvalues.validity_eq
          refine ⟨⟨⟨rfl, ⟨hvalues.type_eq, ?_, .inr ?_⟩,
            hvalues.sound.valid⟩, .nil, hvalues.sound.ordered⟩, rfl, ?_⟩
          · rw [hvalidity, List.length_replicate, List.length_replicate,
              Nat.mul_comm]
          · intro pair hpair
            right
            obtain ⟨valid, hvalid, hmem⟩ :=
              List.mem_flatMap.mp (List.of_mem_zip hpair).2
            rw [List.eq_of_mem_replicate hmem]
            exact List.eq_of_mem_replicate hvalid
          · simp only [newNullArray]
            rw [Column.rowCells, spans_replicate_false, List.map_replicate]
            rfl
      | listView =>
          refine ⟨⟨trivial, by simp [newNullArray, Column.Ordered]⟩, rfl,
            ?_⟩
          simp [newNullArray, Column.rowCells]
      | largeListView =>
          refine ⟨⟨trivial, by simp [newNullArray, Column.Ordered]⟩, rfl,
            ?_⟩
          simp [newNullArray, Column.rowCells]
  | .map entries fields sorted, n => by
      have hcolumns := areNullArrays_nullColumns fields 0
      refine ⟨⟨⟨⟨?_, rfl, by simp [Column.validity]⟩,
        hcolumns.structOk, hcolumns.sound.1⟩,
        pairwise_replicate_zero _, hcolumns.sound.2⟩, rfl, ?_⟩
      · exact offsetsOk_replicate n _
      · simp only [newNullArray]
        rw [Column.rowCells, spans_replicate_false, List.map_replicate]
        rfl
  | .struct fields, n => by
      have hcolumns := areNullArrays_nullColumns fields n
      refine ⟨⟨⟨hcolumns.structOk, hcolumns.sound.1⟩, hcolumns.sound.2⟩,
        rfl, ?_⟩
      simp only [newNullArray]
      rw [Column.rowCells]
      exact structRows_null hcolumns.cells
  | .dictionary key values, n => by
      refine ⟨⟨trivial, by simp [newNullArray, Column.Ordered]⟩, rfl, ?_⟩
      simp [newNullArray, Column.rowCells]
  | .runEndEncoded runEnds values, n => by
      refine ⟨⟨trivial, by simp [newNullArray, Column.Ordered]⟩, rfl, ?_⟩
      simp [newNullArray, Column.rowCells]
  | .union fields dense, n => by
      refine ⟨⟨trivial, by simp [newNullArray, Column.Ordered]⟩, rfl, ?_⟩
      simp [newNullArray, Column.rowCells]

theorem isNullArray_nullValues :
    (field : ArrowField) → (n : ℕ) →
      IsNullArray field.dataType n (nullValues field n)
  | .plain _ _ _ dataType, n => isNullArray_newNullArray dataType n
  | .wide _ _ _ type, n => by
      refine ⟨⟨?_, trivial⟩, rfl, ?_⟩
      · intro cell hcell c hc
        rw [List.eq_of_mem_replicate hcell] at hc
        cases hc
      · simp [nullValues, Column.rowCells]

theorem areNullArrays_nullColumns :
    (fields : List ArrowField) → (n : ℕ) →
      AreNullArrays n fields (nullColumns fields n)
  | [], _ => .nil
  | field :: fields, n =>
      .cons (isNullArray_nullValues field n)
        (areNullArrays_nullColumns fields n)

end

end ArrowTree

end Streamling
