import Mathlib
import Streamling.Operators.StreamChain
import Streamling.Operators.UnnestColumns

/-!
# Chains of operators on Arrow arrays

The chain theorem on the arrays of Arrow's types.  Of Arrow's own kernels it
asks that `take` takes, that `filter` filters, and nothing else.
-/

namespace Streamling

namespace StreamOperators

open ArrowCells ArrowTree Unnest
open StreamStages (runChain)

/-! ## Kernels -/

/-- Whether a row of a boolean array is true. -/
def isTrueCell : RowCell → Bool
  | .leaf (.other code) => decide (code ≠ 0)
  | _ => false

def booleanValue : ArrowTree.Cell → Bool
  | .other code => decide (code ≠ 0)
  | _ => false

def columnBooleans : SoundColumn → Option (List (Option Bool))
  | ⟨.leaf (.other name) cells, _⟩ =>
      if name = "Boolean" then some (cells.map (Option.map booleanValue))
      else none
  | _ => none

/-- The kernels of Arrow itself, with the one that filters call. -/
structure NativeBatchKernels extends NativeKernels where
  filter : SoundColumn → List Bool → Except UnnestError SoundColumn
  filter_cells : ∀ {column mask filtered},
    filter column mask = .ok filtered →
      mask.length = column.1.rowCells.length →
        filtered.1.rowCells = keepCells column.1.rowCells mask
  filter_shape : ∀ {column mask filtered},
    filter column mask = .ok filtered →
      filtered.1.dataType.shape = column.1.dataType.shape

def columnBatchKernels (native : NativeBatchKernels) :
    BatchKernels SoundColumn ArrowTree.Cell where
  toKernels := columnKernels native.toNativeKernels
  booleans := columnBooleans
  filter := native.filter

theorem columnBooleans_cells
    {column : SoundColumn} {values : List (Option Bool)}
    (h : columnBooleans column = some values) :
    values.map (·.getD false) = column.1.rowCells.map isTrueCell := by
  obtain ⟨column, hsound⟩ := column
  cases column with
  | leaf type cells =>
      cases type with
      | other name =>
          simp only [columnBooleans] at h
          by_cases hname : name = "Boolean"
          · rw [if_pos hname] at h
            obtain rfl := Option.some.inj h
            rw [Column.rowCells, List.map_map, List.map_map]
            apply List.map_congr_left
            rintro (_ | _ | _ | code) _
            · rfl
            · rfl
            · rfl
            · rfl
          · rw [if_neg hname] at h
            cases h
      | utf8 | largeUtf8 | binary | largeBinary => cases h
      | fixedSizeBinary | decimal128 | decimal256 => cases h
  | list => cases h
  | map => cases h
  | struct => cases h
  | encoded => cases h

theorem columnBatchKernels_lawful (native : NativeBatchKernels) :
    (columnBatchKernels native).Lawful isTrueCell where
  kernels_lawful := columnKernels_lawful native.toNativeKernels
  booleans_cells := columnBooleans_cells
  filter_cells := native.filter_cells
  filter_shape := native.filter_shape

/-! ## Chains -/

/-- Wherever a chain of filters, projections and unnests is stopped, what it
has put out is an initial part of its input, with each row replaced by the
rows that it gives by itself and each checkpoint message in its place; a chain
that does not fail has replaced all of its input. -/
theorem stream_chain_keeps_events
    (native : NativeBatchKernels) {shapes : List Shape}
    {operators : List (StreamOperator (columnBatchKernels native))}
    {f : List RowCell → List (List RowCell)}
    (htyped : TypedChain (columnBatchKernels native) isTrueCell shapes
      operators f)
    (items : List (StreamBatch (columnBatchKernels native)))
    (hitems : ∀ item ∈ items, item.batch.shapes = shapes) :
    (∀ outs, outs <+:
        (runChain (operators.map
          (StreamOperator.stage (columnBatchKernels native))) items).1 →
      ∃ read, read <+: items ∧ outs.flatMap StreamBatch.events =
        (read.flatMap StreamBatch.events).flatMap (expandEvent f)) ∧
    ((runChain (operators.map
        (StreamOperator.stage (columnBatchKernels native))) items).2 =
          none →
      (runChain (operators.map
          (StreamOperator.stage (columnBatchKernels native)))
            items).1.flatMap StreamBatch.events =
        (items.flatMap StreamBatch.events).flatMap (expandEvent f)) :=
  stream_chain_events (columnBatchKernels_lawful native) htyped items hitems

section Example

/-- A column of the batch as an expression. -/
def columnExpr (native : NativeBatchKernels) (i : ℕ) :
    PhysicalExpr (columnBatchKernels native) :=
  fun batch => column (columnBatchKernels native) batch i

theorem computes_columnExpr
    (native : NativeBatchKernels) (shapes : List Shape) (i : ℕ) :
    Computes (columnBatchKernels native) shapes (columnExpr native i)
      (fun cells => cells[i]?.getD .null) (shapes[i]?.getD .leaf) := by
  have hcolumn : ∀ {batch : ArrowBatch (columnBatchKernels native)}
      {array : SoundColumn}, columnExpr native i batch = .ok array →
        batch.columns[i]? = some array := by
    intro batch array h
    unfold columnExpr column at h
    cases hget : batch.columns[i]? with
    | none =>
        rw [hget] at h
        cases h
    | some found =>
        rw [hget] at h
        rw [Except.ok.inj h]
  refine ⟨?_, ?_⟩
  · intro batch array _ h
    have hget := hcolumn h
    rw [cells_eq_map_range (batch.sized array (List.mem_of_getElem? hget)),
      Batch.rows, List.map_map]
    apply List.map_congr_left
    intro r _
    rw [Function.comp_apply, List.getElem?_map, hget]
    rfl
  · intro batch array hshapes h
    rw [← hshapes, Batch.shapes, List.getElem?_map, hcolumn h]
    rfl

/-- Arrow's `filter` on leaves. -/
def filterLeaves (column : SoundColumn) (mask : List Bool) :
    Except UnnestError SoundColumn :=
  match column with
  | ⟨.leaf type cells, h⟩ =>
      .ok ⟨.leaf type (keepCells cells mask), by
        refine ⟨fun cell hcell c hc => ?_, trivial⟩
        refine h.valid cell ?_ c hc
        obtain ⟨entry, hentry, hkept⟩ := List.mem_filterMap.mp hcell
        split at hkept
        · rw [← Option.some.inj hkept]
          exact (List.of_mem_zip hentry).1
        · cases hkept⟩
  | _ => .error .invalidDatatype

def leafBatchKernels : NativeBatchKernels where
  toNativeKernels := leafKernels
  filter := filterLeaves
  filter_cells := by
    rintro ⟨column, hsound⟩ mask filtered h _
    cases column with
    | leaf type cells =>
        obtain rfl := Except.ok.inj h
        simp only [Column.rowCells, keepCells_map]
    | list => cases h
    | map => cases h
    | struct => cases h
    | encoded => cases h
  filter_shape := by
    rintro ⟨column, hsound⟩ mask filtered h
    cases column with
    | leaf type cells =>
        obtain rfl := Except.ok.inj h
        rfl
    | list => cases h
    | map => cases h
    | struct => cases h
    | encoded => cases h

def flagColumn : SoundColumn :=
  ⟨.leaf (.other "Boolean") [some (.other 1), some (.other 0)], by
    intro cell _ c _
    trivial, trivial⟩

def flagBatch : StreamBatch (columnBatchKernels leafBatchKernels) where
  batch :=
    { fields := [⟨"flag", true, [], none⟩, ⟨"xs", true, [], none⟩]
      columns := [flagColumn, listColumn]
      numRows := 2
      labelled := rfl
      sized := by
        intro column hmem
        simp only [List.mem_cons, List.not_mem_nil, or_false] at hmem
        rcases hmem with rfl | rfl
        · rfl
        · rfl }
  messages := [.marker 1 0]

/-- Expand the lists, keep the flagged rows, and drop the flag. -/
def flaggedItems :
    List (StreamOperator (columnBatchKernels leafBatchKernels)) :=
  [.unnest
      { preserveNulls := true
        schema := [⟨"flag", true, [], none⟩, ⟨"x", true, [], none⟩]
        schemaColumns := [flagColumn, textColumn []]
        unnests := [⟨1, 1⟩]
        structColumns := ∅ },
    .filter (columnExpr leafBatchKernels 0) none
      [⟨"flag", true, [], none⟩, ⟨"x", true, [], none⟩],
    .projection [columnExpr leafBatchKernels 1] [⟨"x", true, [], none⟩]]

/-- The shapes behind the unnest. -/
def expandedShapes : List Shape :=
  outputShapes [⟨1, 1⟩] ∅ flagBatch.batch.shapes

/-- The elements of the list of a row, if its flag is true. -/
def flaggedRow (cells : List RowCell) : List (List RowCell) :=
  (unnestBatchRow true [⟨1, 1⟩] ∅ flagBatch.batch.shapes cells).flatMap
    fun cells =>
      (if isTrueCell (cells[0]?.getD .null) then [cells] else []).flatMap
        fun cells => [[cells[1]?.getD .null]]

theorem flaggedItems_typed :
    TypedChain (columnBatchKernels leafBatchKernels) isTrueCell
      flagBatch.batch.shapes flaggedItems flaggedRow := by
  have hvalues : List.Forall₂ (fun expr value =>
      Computes (columnBatchKernels leafBatchKernels) expandedShapes expr
        value.1 value.2)
      [columnExpr leafBatchKernels 1]
      [(fun cells => cells[1]?.getD .null,
        expandedShapes[1]?.getD .leaf)] :=
    .cons (computes_columnExpr leafBatchKernels expandedShapes 1) .nil
  have hlists : WellTyped [⟨1, 1⟩] flagBatch.batch.shapes := by decide
  exact .cons (.unnest hlists rfl)
    (.cons (.filter (computes_columnExpr leafBatchKernels
      expandedShapes 0)) (.cons (.projection hvalues) .nil))

/-- Two rows come out, and the marker behind them. -/
theorem stream_chain_keeps_flagged :
    (runChain (flaggedItems.map (StreamOperator.stage
        (columnBatchKernels leafBatchKernels))) [flagBatch]).1.flatMap
      StreamBatch.events =
        ([flagBatch].flatMap StreamBatch.events).flatMap
          (expandEvent flaggedRow) ∧
      ([flagBatch].flatMap StreamBatch.events).flatMap
          (expandEvent flaggedRow) =
        [.row [.leaf (.text "x")], .row [.leaf (.text "y")],
          .message (.marker 1 0)] := by
  refine ⟨(stream_chain_keeps_events leafBatchKernels flaggedItems_typed
    [flagBatch] ?_).2 rfl, rfl⟩
  intro item hitem
  rw [List.mem_singleton.mp hitem]

end Example

end StreamOperators

end Streamling
