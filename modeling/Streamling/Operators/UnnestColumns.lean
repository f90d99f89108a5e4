import Mathlib
import Streamling.Operators.UnnestLabels
import Streamling.Types.SafeTakeRows

/-!
# Unnesting Arrow arrays

The kernels that the operator calls, on the arrays of Arrow's types.  Taking
rows goes through `safeTake`, so it may rebuild an array with wider types; the
rows of the output are the same either way.
-/

namespace Streamling

namespace Unnest

open ArrowCells ArrowTree ExceptLists

/-! ## The kernels on Arrow's arrays -/

/-- An array that is what its type says. -/
abbrev SoundColumn : Type := { column : Column // column.Sound }

/-- The kernels of Arrow itself. -/
structure NativeKernels extends NativeTake where
  /-- `length` on arrays that are no lists. -/
  otherLength : Column → Except UnnestError (List (Option ℕ))

def fieldLabel : ArrowField → FieldLabel
  | .plain name nullable metadata _ => ⟨name, nullable, metadata, none⟩
  | .wide name nullable metadata type =>
      ⟨name, nullable, metadata, some type⟩

def takeErrorText : TakeError → String
  | .native text => text
  | .cannotRebuild _ =>
      "Cannot manually rebuild array type after take overflow."
  | .constructor _ => "invalid array"

theorem sound_values
    {layout : ListLayout} {child : ArrowField} {offsets : List ℕ}
    {validity : List Bool} {values : Column}
    (h : (Column.list layout child offsets validity values).Sound) :
    values.Sound :=
  ⟨h.valid.2.2, h.ordered.2⟩

theorem sound_of_mem_columns
    {columns : List Column} (hvalid : AllValid columns)
    (hordered : AllOrdered columns) :
    ∀ column ∈ columns, column.Sound := by
  induction columns with
  | nil =>
      intro column hmem
      cases hmem
  | cons first rest ih =>
      intro column hmem
      rcases List.mem_cons.mp hmem with rfl | hmem
      · exact ⟨hvalid.1, hordered.1⟩
      · exact ih hvalid.2 hordered.2 column hmem

def columnLists : SoundColumn → Option (SoundColumn × Spans)
  | ⟨.list layout _ offsets validity values, h⟩ =>
      some (⟨values, sound_values h⟩, layout.spans offsets validity)
  | _ => none

def columnStructs : SoundColumn → Option (List (FieldLabel × SoundColumn))
  | ⟨.struct fields _ columns, h⟩ =>
      some ((fields.map fieldLabel).zip
        (columns.attachWith _
          (sound_of_mem_columns h.valid.2 h.ordered)))
  | _ => none

section Kernels

variable (native : NativeKernels)

def columnLength (column : SoundColumn) :
    Except UnnestError (List (Option ℕ)) :=
  match columnLists column with
  | some (_, spans) =>
      .ok (spans.map (Option.map fun offsets => offsets.2 - offsets.1))
  | none => native.otherLength column.1

def columnTake (column : SoundColumn) (indices : List (Option ℕ)) :
    Except UnnestError SoundColumn :=
  match h : safeTake native.take column.1 indices with
  | .ok taken =>
      .ok ⟨taken, safeTake_sound native.toNativeTake column.2 h⟩
  | .error e => .error (.library (takeErrorText e))

def columnKernels : Kernels SoundColumn ArrowTree.Cell where
  cells column := column.1.rowCells
  lists := columnLists
  structs := columnStructs
  shape column := column.1.dataType.shape
  length := columnLength native
  safeTake := columnTake native
  newNullArray column n :=
    ⟨newNullArray column.1.dataType n,
      (isNullArray_newNullArray column.1.dataType n).sound⟩

end Kernels

/-! ## The laws of the kernels -/

theorem columnLists_cases
    {column values : SoundColumn} {spans : Spans}
    (h : columnLists column = some (values, spans)) :
    ∃ layout child offsets validity,
      column.1 = .list layout child offsets validity values.1 ∧
        spans = layout.spans offsets validity := by
  obtain ⟨column, hsound⟩ := column
  cases column with
  | list layout child offsets validity values' =>
      obtain ⟨rfl, rfl⟩ := Prod.mk.inj (Option.some.inj h)
      exact ⟨layout, child, offsets, validity, rfl, rfl⟩
  | leaf => cases h
  | map => cases h
  | struct => cases h
  | encoded => cases h

theorem columnStructs_cases
    {column : SoundColumn} {columns : List (FieldLabel × SoundColumn)}
    (h : columnStructs column = some columns) :
    ∃ fields validity children,
      column.1 = .struct fields validity children ∧
        ∃ hsound : ∀ child ∈ children, child.Sound,
          columns = (fields.map fieldLabel).zip
            (children.attachWith _ hsound) := by
  obtain ⟨column, hsound⟩ := column
  cases column with
  | struct fields validity children =>
      obtain rfl := Option.some.inj h
      exact ⟨fields, validity, children, rfl,
        sound_of_mem_columns hsound.valid.2 hsound.ordered, rfl⟩
  | leaf => cases h
  | list => cases h
  | map => cases h
  | encoded => cases h

theorem field_structCell (valid : Bool) (cells : List RowCell) (i : ℕ) :
    ArrowCell.field i (structCell valid cells) = cells[i]?.getD .null := by
  unfold structCell
  split_ifs with h
  · cases hcell : cells[i]? with
    | none => rfl
    | some cell =>
        have hmissing := List.all_eq_true.mp h.2 cell
          (List.mem_of_getElem? hcell)
        cases cell with
        | null => rfl
        | leaf => cases hmissing
        | list => cases hmissing
        | struct => cases hmissing
  · rfl

theorem getElem?_allRowCells (columns : List Column) (i : ℕ) :
    (allRowCells columns)[i]? = columns[i]?.map Column.rowCells := by
  induction columns generalizing i with
  | nil => rfl
  | cons column columns ih =>
      cases i with
      | zero => rfl
      | succ i => exact ih i

theorem fieldShapes_eq
    {fields : List ArrowField} {validity : List Bool}
    {columns : List Column} (hok : StructOk fields validity columns) :
    fieldShapes fields =
      columns.map fun column => column.dataType.shape := by
  induction hok with
  | nil => rfl
  | @cons field column _ _ hchild _ ih =>
      rw [fieldShapes, List.map_cons, ih, field.shape_eq, hchild.1]

/-- Only a list has the shape of a list. -/
theorem columnLists_of_shape
    {column : SoundColumn} {item : Shape}
    (h : column.1.dataType.shape = .list item) :
    ∃ values spans, columnLists column = some (values, spans) ∧
      values.1.dataType.shape = item := by
  obtain ⟨column, hsound⟩ := column
  cases column with
  | leaf => cases h
  | map => cases h
  | struct => cases h
  | encoded type =>
      have hopaque : type.Opaque := hsound.valid
      cases type with
      | list layout child =>
          cases layout with
          | listView => cases h
          | largeListView => cases h
          | list => exact hopaque.elim
          | largeList => exact hopaque.elim
          | fixedSizeList => exact hopaque.elim
      | leaf => cases h
      | map => cases h
      | struct => exact hopaque.elim
      | dictionary => cases h
      | runEndEncoded => cases h
      | union => cases h
  | list layout child offsets validity values =>
      have hplain : layout.plain = true := hsound.valid.1
      have htype : values.dataType = child.dataType :=
        hsound.valid.2.1.1
      have hshape : DataType.shape (.list layout child) =
          .list child.shape := by
        cases layout with
        | list => rfl
        | largeList => rfl
        | fixedSizeList => rfl
        | listView => cases hplain
        | largeListView => cases hplain
      refine ⟨⟨values, sound_values hsound⟩, _, rfl, ?_⟩
      change values.dataType.shape = item
      rw [htype, ← child.shape_eq]
      exact Shape.list.inj (hshape.symm.trans h)

theorem columnTake_ok
    {native : NativeKernels} {column taken : SoundColumn}
    {indices : List (Option ℕ)}
    (hrange : InRange column.1.rowCells.length indices)
    (h : columnTake native column indices = .ok taken) :
    Taken column.1 indices taken.1 := by
  unfold columnTake at h
  split at h
  · rename_i result hresult
    obtain rfl := Except.ok.inj h
    exact taken_of_ok native.toNativeTake column.2 hrange hresult
  · cases h

theorem columnKernels_lawful (native : NativeKernels) :
    (columnKernels native).Lawful where
  lists_cells := by
    intro column values spans h
    obtain ⟨layout, child, offsets, validity, hcolumn, rfl⟩ :=
      columnLists_cases h
    change column.1.rowCells = _
    rw [hcolumn, Column.rowCells]
    rfl
  lists_bounds := by
    intro column values spans h start stop hmem
    obtain ⟨layout, child, offsets, validity, hcolumn, rfl⟩ :=
      columnLists_cases h
    have hsound := column.2
    rw [hcolumn] at hsound
    exact hsound.span_bounds hmem
  length_lists := by
    intro column values spans h
    change columnLength native column = _
    unfold columnLength
    rw [show columnLists column = some (values, spans) from h]
  safeTake_cells := fun hrange h => (columnTake_ok hrange h).cells_eq
  newNullArray_cells := fun column n =>
    (isNullArray_newNullArray column.1.dataType n).cells_eq
  structs_cells := by
    intro column columns h i label child hchild
    obtain ⟨fields, validity, children, hcolumn, hall, rfl⟩ :=
      columnStructs_cases h
    have hsound := column.2
    rw [hcolumn] at hsound
    have hget : children[i]? = some child.1 := by
      have hright := (List.getElem?_zip_eq_some.mp hchild).2
      have hval := congrArg (Option.map Subtype.val) hright
      rw [← List.getElem?_map, List.attachWith_map_subtype_val] at hval
      exact hval
    have hcells : (allRowCells children)[i]? = some child.1.rowCells := by
      rw [getElem?_allRowCells, hget]
      rfl
    have hlength : child.1.rowCells.length = validity.length :=
      length_allRowCells hsound.valid.1 hsound.ordered _
        (List.mem_of_getElem? hcells)
    change child.1.rowCells = column.1.rowCells.map (ArrowCell.field i)
    rw [hcolumn, Column.rowCells, structRows, List.map_map]
    apply List.ext_getElem
    · simpa using hlength
    · intro r hr hr'
      simp [field_structCell, List.getElem?_map, hcells, hr]
  lists_shape := fun h => columnLists_of_shape h
  structs_shape := by
    intro column columns h
    obtain ⟨fields, validity, children, hcolumn, hall, rfl⟩ :=
      columnStructs_cases h
    have hsound := column.2
    rw [hcolumn] at hsound
    have hok : StructOk fields validity children := hsound.valid.1
    change column.1.dataType.shape = _
    rw [hcolumn]
    change Shape.struct (fieldShapes fields) = _
    have hsnd : ((fields.map fieldLabel).zip
          (children.attachWith _ hall)).map Prod.snd =
        children.attachWith _ hall := by
      apply List.map_snd_zip
      rw [List.length_attachWith, List.length_map, List.Forall₂.length_eq hok]
    rw [fieldShapes_eq hok]
    conv_lhs => rw [← List.attachWith_map_val hall, ← hsnd]
    rw [List.map_map]
    rfl
  safeTake_shape := fun hrange h => (columnTake_ok hrange h).widens.shape_eq
  newNullArray_shape := fun column n => by
    change (newNullArray column.1.dataType n).dataType.shape = _
    rw [(isNullArray_newNullArray column.1.dataType n).type_eq]
    rfl

/-! ## The operator on Arrow's arrays -/

/-- Whenever the operator returns, its rows are those that each row of the
input gives by itself, in the order of the input, whichever arrays had to be
rebuilt. -/
theorem unnest_expands_each_row
    (native : NativeKernels) (preserveNulls : Bool)
    (schema : List FieldLabel) (unnests : List ListUnnest)
    (structColumns : Finset ℕ) (batch : Batch (columnKernels native))
    (htyped : WellTyped unnests batch.shapes)
    {result : Option (Batch (columnKernels native))}
    (h : buildBatch (columnKernels native) preserveNulls schema unnests
      structColumns batch = .ok result) :
    resultRows result = batch.rows.flatMap
      (unnestBatchRow preserveNulls unnests structColumns batch.shapes) :=
  buildBatch_rows (columnKernels_lawful native) schema unnests
    structColumns batch htyped h

/-- A column that is no flattened struct has the label that the plan gives to
its number before the structs are flattened.  In a plan whose fields differ,
these are the labels of the plan exactly if the structs before each column give
as many columns as there are structs. -/
theorem unnest_labels_iff
    (native : NativeKernels) (preserveNulls : Bool)
    (schema : List FieldLabel) (hnodup : schema.Nodup)
    (unnests : List ListUnnest) (structColumns : Finset ℕ)
    (batch : Batch (columnKernels native))
    (htyped : WellTyped unnests batch.shapes)
    (hplan : schema.length =
      (partWidths unnests structColumns batch.shapes).sum)
    {out : Batch (columnKernels native)}
    (h : buildBatch (columnKernels native) preserveNulls schema unnests
      structColumns batch = .ok (some out)) :
    out.fields.length = schema.length ∧
      (∀ j < (collectKeys unnests batch.shapes.length).length,
        j ∉ structColumns →
        out.fields[outputIndex unnests structColumns batch.shapes j]? =
          schema[j]?) ∧
      ((∀ j < (collectKeys unnests batch.shapes.length).length,
          j ∉ structColumns →
          out.fields[outputIndex unnests structColumns batch.shapes j]? =
            schema[outputIndex unnests structColumns batch.shapes j]?) ↔
        ∀ j < (collectKeys unnests batch.shapes.length).length,
          j ∉ structColumns →
          outputIndex unnests structColumns batch.shapes j = j) :=
  buildBatch_labels_iff (columnKernels_lawful native) schema hnodup unnests
    structColumns batch htyped hplan h

section Example

def leafKernels : NativeKernels where
  toNativeTake := leafTake
  otherLength _ := .error .invalidDatatype

def textColumn (texts : List (Option String)) : SoundColumn :=
  ⟨.leaf .utf8 (texts.map (Option.map .text)), by
    intro cell hcell c hc
    obtain ⟨text, -, rfl⟩ := List.mem_map.mp hcell
    obtain ⟨text, -, rfl⟩ := Option.map_eq_some_iff.mp hc
    exact ⟨text, rfl⟩, trivial⟩

def listColumn : SoundColumn :=
  ⟨.list .list (.plain "item" true [] (.leaf .utf8)) [0, 2, 2]
    [true, false] (textColumn [some "x", some "y"]).1,
    ⟨rfl, ⟨rfl, by decide⟩, (textColumn [some "x", some "y"]).2.valid⟩,
    by decide, trivial⟩

def exampleBatch : Batch (columnKernels leafKernels) where
  fields := [⟨"id", true, [], none⟩, ⟨"xs", true, [], none⟩]
  columns := [textColumn [some "a", some "b"], listColumn]
  numRows := 2
  labelled := rfl
  sized := by
    intro column hmem
    simp only [List.mem_cons, List.not_mem_nil, or_false] at hmem
    rcases hmem with rfl | rfl
    · rfl
    · rfl

/-- Three rows come out of two: the null list is kept as a null. -/
theorem unnest_expands_example :
    ∃ out : Batch (columnKernels leafKernels),
      buildBatch (columnKernels leafKernels) true exampleBatch.fields
          [⟨1, 1⟩] ∅ exampleBatch = .ok (some out) ∧
        out.numRows = 3 ∧
        resultRows (some out) = exampleBatch.rows.flatMap
          (unnestBatchRow true [⟨1, 1⟩] ∅ exampleBatch.shapes) :=
  ⟨_, rfl, rfl, unnest_expands_each_row leafKernels true
    exampleBatch.fields [⟨1, 1⟩] ∅ exampleBatch (by decide) rfl⟩

def structColumn : SoundColumn :=
  ⟨.struct [.plain "f" true [] (.leaf .utf8),
      .plain "g" true [] (.leaf .utf8)] [true, true]
    [(textColumn [some "x", none]).1, (textColumn [none, some "y"]).1],
    ⟨.cons ⟨rfl, rfl, .inl rfl⟩ (.cons ⟨rfl, rfl, .inl rfl⟩ .nil),
      (textColumn [some "x", none]).2.valid,
      (textColumn [none, some "y"]).2.valid, trivial⟩,
    trivial, trivial, trivial⟩

def structBatch : Batch (columnKernels leafKernels) where
  fields := [⟨"s", true, [], none⟩, ⟨"id", true, [], none⟩]
  columns := [structColumn, textColumn [some "a", some "b"]]
  numRows := 2
  labelled := rfl
  sized := by
    intro column hmem
    simp only [List.mem_cons, List.not_mem_nil, or_false] at hmem
    rcases hmem with rfl | rfl
    · rfl
    · rfl

def flatFields : List FieldLabel :=
  [⟨"s.f", true, [], none⟩, ⟨"s.g", true, [], none⟩,
    ⟨"id", true, [], none⟩]

/-- Behind a struct of two fields a column has the label of the second. -/
theorem unnest_labels_example :
    ∃ out : Batch (columnKernels leafKernels),
      buildBatch (columnKernels leafKernels) true flatFields [] {0}
          structBatch = .ok (some out) ∧
        out.fields.map FieldLabel.name = ["f", "g", "s.g"] ∧
        ¬ ∀ j < 2, j ∉ ({0} : Finset ℕ) →
          out.fields[outputIndex [] {0} structBatch.shapes j]? =
            flatFields[outputIndex [] {0} structBatch.shapes j]? := by
  refine ⟨_, rfl, rfl, fun hlabels => ?_⟩
  have hiff := (unnest_labels_iff leafKernels true flatFields (by decide)
    [] {0} structBatch (by decide) rfl rfl).2.2.mp hlabels
  exact absurd (hiff 1 (by decide) (by decide)) (by decide)

end Example

end Unnest

end Streamling
