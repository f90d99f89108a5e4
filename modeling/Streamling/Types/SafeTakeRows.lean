import Mathlib
import Streamling.Types.NullArrays

/-!
# Rows that are taken

Whether Arrow takes the rows or the array is rebuilt, the result is an array
with the rows that were asked for.  Rebuilding never trips over a constructor:
it fails only where Arrow reports another error, or where an array has no
layout with large offsets.

The indices are those of rows, or null.  Beyond the last row Arrow's `take`
panics for most arrays, and for a struct without fields it may do so or not.
-/

namespace Streamling

namespace ArrowTree

open Arrow (LeafType)
open ArrowCells (InRange Shape Spans spanCell spanLength takeCells)

/-! ## Types of taken arrays -/

mutual

/-- A type, or the one that a rebuilt array has. -/
inductive Widens : DataType → DataType → Prop
  | same {type : DataType} : Widens type type
  | leaf {type large : LeafType} (h : largeLeaf type = some large) :
      Widens (.leaf type) (.leaf large)
  | list {layout : ListLayout} {child : ArrowField} {type : DataType}
      (hlayout : layout = .list ∨ layout = .largeList)
      (hchild : Widens child.dataType type) :
      Widens (.list layout child) (.list .largeList (child.retyped type))
  | struct {fields fields' : List ArrowField}
      (h : FieldsWiden fields fields') :
      Widens (.struct fields) (.struct fields')

inductive FieldsWiden : List ArrowField → List ArrowField → Prop
  | nil : FieldsWiden [] []
  | cons {field : ArrowField} {type : DataType}
      {fields fields' : List ArrowField}
      (hfield : Widens field.dataType type)
      (hfields : FieldsWiden fields fields') :
      FieldsWiden (field :: fields) (field.retyped type :: fields')

end

@[simp] theorem ArrowField.dataType_retyped
    (field : ArrowField) (type : DataType) :
    (field.retyped type).dataType = type := rfl

@[simp] theorem ArrowField.nullable_retyped
    (field : ArrowField) (type : DataType) :
    (field.retyped type).nullable = field.nullable := rfl

@[simp] theorem ArrowField.name_retyped
    (field : ArrowField) (type : DataType) :
    (field.retyped type).name = field.name := rfl

mutual

/-- Lists and structs stay nested as they were. -/
theorem Widens.shape_eq :
    {type type' : DataType} → Widens type type' → type'.shape = type.shape
  | _, _, .same => rfl
  | _, _, .leaf _ => rfl
  | _, _, @Widens.list layout child _ hlayout hchild => by
      have hshape := hchild.shape_eq
      rcases hlayout with rfl | rfl
      · simp only [DataType.shape, ArrowField.shape_eq child,
          ArrowField.shape_eq (child.retyped _),
          ArrowField.dataType_retyped, hshape]
      · simp only [DataType.shape, ArrowField.shape_eq child,
          ArrowField.shape_eq (child.retyped _),
          ArrowField.dataType_retyped, hshape]
  | _, _, .struct hfields => by
      simp only [DataType.shape, hfields.shapes_eq]

theorem FieldsWiden.shapes_eq :
    {fields fields' : List ArrowField} → FieldsWiden fields fields' →
      fieldShapes fields' = fieldShapes fields
  | _, _, .nil => rfl
  | _, _, @FieldsWiden.cons field _ _ _ hfield hfields => by
      simp only [fieldShapes, ArrowField.shape_eq field,
        ArrowField.shape_eq (field.retyped _), ArrowField.dataType_retyped,
        hfield.shape_eq, hfields.shapes_eq]

end

/-! ## Taken arrays -/

/-- The result has the rows of the indices. -/
structure Taken (array : Column) (indices : List (Option ℕ))
    (result : Column) : Prop where
  sound : result.Sound
  widens : Widens array.dataType result.dataType
  cells_eq : result.rowCells = takeCells array.rowCells indices

/-- The array is to be rebuilt. -/
def TakeOutcome.Overflows : TakeOutcome → Prop
  | offsetOverflow | panicked | killed => True
  | _ => False

/-- An array of the type can be rebuilt with large offsets. -/
def DataType.hasLargeLayout : DataType → Bool
  | .leaf type => (largeLeaf type).isSome
  | .list layout _ => layout = .list ∨ layout = .largeList
  | .struct _ => true
  | _ => false

theorem hasLargeLayout_eq_false
    {type : DataType} (h : type.Opaque) : type.hasLargeLayout = false := by
  unfold DataType.Opaque at h
  split at h
  · rfl
  · rfl
  · rfl
  · rfl
  · rfl
  · exact absurd h id

/-- Arrow's `take`, on arrays that are what their types say. -/
structure NativeTake where
  take : Column → List (Option ℕ) → TakeOutcome
  sound : ∀ {array indices result}, array.Sound →
    take array indices = .success result →
      result.Sound ∧ result.dataType = array.dataType
  rows : ∀ {array indices result}, array.Sound →
    InRange array.rowCells.length indices →
    take array indices = .success result →
      result.rowCells = takeCells array.rowCells indices
  /-- A struct without fields has no offsets. -/
  emptyStruct : ∀ {validity indices},
    InRange (Column.struct [] validity []).rowCells.length indices →
    ¬ (take (.struct [] validity []) indices).Overflows

/-- Rows are taken, or Arrow has failed with another error than an overflow,
or its offsets overflow for an array that cannot be rebuilt. -/
inductive TakeSpec (native : NativeTake) (array : Column)
    (indices : List (Option ℕ)) : Except TakeError Column → Prop
  | ok {result : Column} (h : Taken array indices result) :
      TakeSpec native array indices (.ok result)
  | native {part : Column} {taken : List (Option ℕ)} {text : String}
      (h : native.take part taken = .arrowError text) :
      TakeSpec native array indices (.error (.native text))
  | cannotRebuild (part : Column) {taken : List (Option ℕ)}
      (hlayout : part.dataType.hasLargeLayout = false)
      (h : (native.take part taken).Overflows) :
      TakeSpec native array indices (.error (.cannotRebuild part.dataType))

/-- An error below an array is one of the array. -/
theorem TakeSpec.error_of
    {native : NativeTake} {array part : Column}
    {indices taken : List (Option ℕ)} {e : TakeError}
    (h : TakeSpec native part taken (.error e)) :
    TakeSpec native array indices (.error e) := by
  cases h with
  | native h => exact .native h
  | cannotRebuild part hlayout h => exact .cannotRebuild part hlayout h

theorem NativeTake.orRebuild_spec
    (native : NativeTake) {array : Column} (hsound : array.Sound)
    {indices : List (Option ℕ)}
    (hrange : InRange array.rowCells.length indices)
    (rebuild : Unit → Except TakeError Column)
    (h : (native.take array indices).Overflows →
      TakeSpec native array indices (rebuild ())) :
    TakeSpec native array indices
      ((native.take array indices).orRebuild rebuild) := by
  cases houtcome : native.take array indices with
  | success result =>
      obtain ⟨hresult, htype⟩ := native.sound hsound houtcome
      exact .ok ⟨hresult, by rw [htype]; exact .same,
        native.rows hsound hrange houtcome⟩
  | arrowError text => exact .native houtcome
  | offsetOverflow => exact h (houtcome ▸ trivial)
  | panicked => exact h (houtcome ▸ trivial)
  | killed => exact h (houtcome ▸ trivial)

theorem Taken.validity_eq
    {array result : Column} {indices : List (Option ℕ)}
    (h : Taken array indices result) (hsound : array.Sound) :
    result.validity = takenValidity array.validity indices := by
  rw [result.validity_eq h.sound.ordered, h.cells_eq, takeCells,
    List.map_map, takenValidity, array.validity_eq hsound.ordered]
  apply List.map_congr_left
  rintro (_ | index) _
  · rfl
  · simp only [Function.comp_apply, Option.bind_some, List.getElem?_map]
    cases array.rowCells[index]? with
    | none => rfl
    | some cell => rfl

/-! ### Leaves -/

theorem largeLeaf_fits
    {type large : LeafType} (h : largeLeaf type = some large) {cell : Cell}
    (hfits : Cell.Fits type cell) : Cell.Fits large cell := by
  cases type with
  | utf8 | largeUtf8 | binary | largeBinary =>
      obtain rfl := Option.some.inj h
      exact hfits
  | fixedSizeBinary | decimal128 | decimal256 | other => cases h

theorem rowCells_taken_leaf
    (cells : List (Option Cell)) (indices : List (Option ℕ)) :
    (indices.map fun index => (index.bind (cells[·]?)).join).map
        (fun cell => cell.elim .null .leaf) =
      takeCells (cells.map fun cell =>
        cell.elim ArrowCells.ArrowCell.null ArrowCells.ArrowCell.leaf)
        indices := by
  rw [takeCells, List.map_map]
  apply List.map_congr_left
  rintro (_ | index) _
  · rfl
  · simp only [Function.comp_apply, Option.bind_some, List.getElem?_map]
    rcases cells[index]? with _ | _ | cell
    · rfl
    · rfl
    · rfl

theorem taken_leaf
    {type large : LeafType} (h : largeLeaf type = some large)
    {cells : List (Option Cell)} (hsound : (Column.leaf type cells).Sound)
    (indices : List (Option ℕ)) :
    Taken (.leaf type cells) indices (.leaf large
      (indices.map fun index => (index.bind (cells[·]?)).join)) := by
  refine ⟨⟨?_, trivial⟩, .leaf h, rowCells_taken_leaf cells indices⟩
  intro cell hcell c hc
  obtain ⟨index, -, rfl⟩ := List.mem_map.mp hcell
  apply largeLeaf_fits h
  rcases index with _ | index
  · cases hc
  · cases hget : cells[index]? with
    | none =>
        rw [Option.bind_some, hget] at hc
        cases hc
    | some found =>
        rw [Option.bind_some, hget] at hc
        exact hsound.valid found (List.mem_of_getElem? hget) c hc

/-! ### Lists -/

theorem length_nestedIndices (spans : Spans) :
    (nestedIndices spans).length = (spans.map spanLength).sum := by
  rw [nestedIndices, List.length_flatMap]
  congr 1
  apply List.map_congr_left
  rintro (_ | ⟨start, stop⟩) _
  · rfl
  · simp [spanLength]

theorem length_newOffsets (currentOffset : ℕ) (spans : Spans) :
    (newOffsets currentOffset spans).length = spans.length + 1 := by
  induction spans generalizing currentOffset with
  | nil => rfl
  | cons span spans ih => simp [newOffsets, ih]

theorem getLast?_newOffsets (currentOffset : ℕ) (spans : Spans) :
    (newOffsets currentOffset spans).getLast? =
      some (currentOffset + (spans.map spanLength).sum) := by
  induction spans generalizing currentOffset with
  | nil => rfl
  | cons span spans ih =>
      have hne : newOffsets (currentOffset + spanLength span) spans ≠ [] :=
        by
          intro h
          have := length_newOffsets (currentOffset + spanLength span) spans
          rw [h] at this
          cases this
      rw [newOffsets, List.getLast?_cons_of_ne_nil hne, ih, List.map_cons,
        List.sum_cons, Nat.add_assoc]

theorem le_of_mem_newOffsets
    {currentOffset offset : ℕ} {spans : Spans}
    (h : offset ∈ newOffsets currentOffset spans) :
    currentOffset ≤ offset := by
  induction spans generalizing currentOffset with
  | nil => exact (List.mem_singleton.mp h).ge
  | cons span spans ih =>
      rcases List.mem_cons.mp h with rfl | h
      · exact le_refl _
      · exact (Nat.le_add_right _ _).trans (ih h)

theorem pairwise_newOffsets (currentOffset : ℕ) (spans : Spans) :
    (newOffsets currentOffset spans).Pairwise (· ≤ ·) := by
  induction spans generalizing currentOffset with
  | nil => exact List.pairwise_singleton _ _
  | cons span spans ih =>
      refine List.pairwise_cons.mpr ⟨?_, ih _⟩
      intro offset hmem
      exact (Nat.le_add_right _ _).trans (le_of_mem_newOffsets hmem)

/-- The offsets of a rebuilt list, row by row. -/
theorem getElem?_newOffsets
    (currentOffset : ℕ) (spans : Spans) {i : ℕ} (hi : i ≤ spans.length) :
    (newOffsets currentOffset spans)[i]? =
      some (currentOffset + ((spans.take i).map spanLength).sum) := by
  induction spans generalizing currentOffset i with
  | nil =>
      obtain rfl : i = 0 := Nat.le_zero.mp hi
      rfl
  | cons span spans ih =>
      cases i with
      | zero => rfl
      | succ i =>
          rw [newOffsets, List.getElem?_cons_succ, ih _ (by simpa using hi),
            List.take_succ_cons, List.map_cons, List.sum_cons,
            Nat.add_assoc]

/-- The values of one row are where its new offsets say. -/
theorem take_nestedIndices
    (spans : Spans) {i : ℕ} (hi : i < spans.length) :
    ((nestedIndices spans).drop ((spans.take i).map spanLength).sum).take
        (spanLength spans[i]) =
      nestedIndices [spans[i]] := by
  induction spans generalizing i with
  | nil => cases hi
  | cons span spans ih =>
      have hhead : nestedIndices (span :: spans) =
          nestedIndices [span] ++ nestedIndices spans := by
        simp [nestedIndices]
      have hlength : (nestedIndices [span]).length = spanLength span := by
        rw [length_nestedIndices]
        simp
      rw [hhead]
      cases i with
      | zero =>
          rw [List.take_zero, List.map_nil, List.sum_nil, List.drop_zero]
          rw [List.getElem_cons_zero]
          exact List.take_left' hlength
      | succ i =>
          have hi' : i < spans.length := by simpa using hi
          rw [List.take_succ_cons, List.map_cons, List.sum_cons,
            ← hlength, List.drop_length_add_append,
            List.getElem_cons_succ]
          exact ih hi'

theorem mem_spans
    {layout : ListLayout} {offsets : List ℕ} {validity : List Bool}
    {span : ℕ × ℕ} (h : some span ∈ layout.spans offsets validity) :
    ∃ i < validity.length, span = layout.rowSpan offsets i := by
  obtain ⟨⟨valid, i⟩, hmem, hspan⟩ := List.mem_map.mp h
  have hi := (List.mem_zipIdx' hmem).1
  cases valid with
  | false => cases hspan
  | true => exact ⟨i, hi, (Option.some.inj hspan).symm⟩

/-- The values of each row lie within the array. -/
theorem Column.Sound.span_bounds
    {layout : ListLayout} {child : ArrowField} {offsets : List ℕ}
    {validity : List Bool} {values : Column}
    (h : (Column.list layout child offsets validity values).Sound)
    {start stop : ℕ}
    (hmem : some (start, stop) ∈ layout.spans offsets validity) :
    start ≤ stop ∧ stop ≤ values.rowCells.length := by
  obtain ⟨⟨hplain, ⟨-, hok⟩, -⟩, horder, hordered⟩ := h
  rw [values.length_rowCells hordered]
  obtain ⟨i, hi, hspan⟩ := mem_spans hmem
  have hoffsets (hok : OffsetsOk offsets validity.length
      values.validity.length) :
      offsets[i]?.getD 0 ≤ offsets[i + 1]?.getD 0 ∧
        offsets[i + 1]?.getD 0 ≤ values.validity.length := by
    obtain ⟨hlength, hlast⟩ := hok
    have h₁ : i < offsets.length := by omega
    have h₂ : i + 1 < offsets.length := by omega
    have hne : offsets ≠ [] := List.ne_nil_of_length_pos (by omega)
    simp only [List.getElem?_eq_getElem h₁, List.getElem?_eq_getElem h₂,
      Option.getD_some]
    refine ⟨List.pairwise_iff_getElem.mp horder _ _ h₁ h₂
      (Nat.lt_succ_self i), ?_⟩
    refine le_trans ?_ (hlast (offsets.getLast hne)
      (List.getLast?_eq_getLast_of_ne_nil hne))
    rw [List.getLast_eq_getElem]
    rcases Nat.lt_or_ge (i + 1) (offsets.length - 1) with hlt | hge
    · exact List.pairwise_iff_getElem.mp horder _ _ h₂ (by omega) hlt
    · have heq : i + 1 = offsets.length - 1 := by omega
      simp only [heq, le_refl]
  cases layout with
  | list =>
      obtain ⟨rfl, rfl⟩ := Prod.mk.inj hspan
      exact hoffsets hok.1
  | largeList =>
      obtain ⟨rfl, rfl⟩ := Prod.mk.inj hspan
      exact hoffsets hok.1
  | fixedSizeList size =>
      obtain ⟨rfl, rfl⟩ := Prod.mk.inj hspan
      refine ⟨Nat.le_add_right _ _, ?_⟩
      rw [hok.1, Nat.mul_comm size, ← Nat.succ_mul]
      exact Nat.mul_le_mul_right size hi
  | listView => cases hplain
  | largeListView => cases hplain

theorem mem_takenSpans
    {spans : Spans} {indices : List (Option ℕ)} {span : ℕ × ℕ}
    (h : some span ∈ takenSpans spans indices) : some span ∈ spans := by
  obtain ⟨index, -, hspan⟩ := List.mem_map.mp h
  rcases index with _ | index
  · cases hspan
  · cases hget : spans[index]? with
    | none =>
        rw [Option.bind_some, hget] at hspan
        cases hspan
    | some found =>
        rw [Option.bind_some, hget] at hspan
        obtain rfl : found = some span := hspan
        exact List.mem_of_getElem? hget

theorem map_takenSpans
    (values : List RowCell) (spans : Spans) (indices : List (Option ℕ)) :
    (takenSpans spans indices).map (spanCell values) =
      takeCells (spans.map (spanCell values)) indices := by
  rw [takenSpans, takeCells, List.map_map]
  apply List.map_congr_left
  rintro (_ | index) _
  · rfl
  · simp only [Function.comp_apply, Option.bind_some, List.getElem?_map]
    cases spans[index]? with
    | none => rfl
    | some span => rfl

/-- The cells of a rebuilt list are those of the spans that were taken. -/
theorem rowCells_rebuilt
    {values : List RowCell} {spans : Spans} {field : ArrowField}
    {taken : Column}
    (hbounds : ∀ start stop, some (start, stop) ∈ spans →
      start ≤ stop ∧ stop ≤ values.length)
    (htaken : taken.rowCells = takeCells values (nestedIndices spans)) :
    (Column.list .largeList field (newOffsets 0 spans)
        (spans.map Option.isSome) taken).rowCells =
      spans.map (spanCell values) := by
  rw [Column.rowCells, htaken, ListLayout.spans, List.map_map]
  apply List.ext_getElem
  · simp
  · intro i hi hi'
    have hin : i < spans.length := by simpa using hi'
    simp only [List.getElem_map, List.getElem_zipIdx, Function.comp_apply,
      Nat.zero_add]
    rcases hspan : spans[i] with _ | ⟨start, stop⟩
    · rfl
    · obtain ⟨hle, hstop⟩ := hbounds start stop
        (hspan ▸ List.getElem_mem hin)
      have hdrop := take_nestedIndices spans hin
      rw [hspan] at hdrop
      have htake : (spans.take (i + 1)).map spanLength =
          (spans.take i).map spanLength ++ [spanLength spans[i]] := by
        rw [List.take_succ_eq_append_getElem hin, List.map_append]
        rfl
      have hsum : ((spans.take (i + 1)).map spanLength).sum =
          ((spans.take i).map spanLength).sum + (stop - start) := by
        rw [htake, List.sum_append, hspan]
        simp [spanLength]
      simp only [Option.isSome_some, if_true, ListLayout.rowSpan,
        getElem?_newOffsets 0 spans hin.le,
        getElem?_newOffsets 0 spans (Nat.succ_le_of_lt hin),
        Option.getD_some, Nat.zero_add, spanCell, hsum,
        Nat.add_sub_cancel_left]
      rw [takeCells, ← List.map_drop, ← List.map_take]
      have hcells := ArrowCells.takeCells_range hle hstop
      rw [← hcells]
      simp only [spanLength, Option.elim_some] at hdrop
      rw [hdrop]
      simp [takeCells, nestedIndices]

/-- Every value that is taken for a list lies within the values. -/
theorem mem_nestedIndices
    {spans : Spans} {n : ℕ}
    (hbounds : ∀ start stop, some (start, stop) ∈ spans →
      start ≤ stop ∧ stop ≤ n)
    {index : Option ℕ} (h : index ∈ nestedIndices spans) :
    ∃ i < n, index = some i := by
  obtain ⟨span, hspan, hmem⟩ := List.mem_flatMap.mp h
  rcases span with _ | ⟨start, stop⟩
  · cases hmem
  · obtain ⟨i, hi, rfl⟩ := List.mem_map.mp hmem
    have hrange := List.mem_range'_1.mp hi
    have hstop := hbounds start stop hspan
    exact ⟨i, by omega, rfl⟩

/-- The rebuilt list is one that Arrow accepts. -/
theorem taken_list
    (native : NativeTake) {layout : ListLayout} {child : ArrowField}
    {offsets : List ℕ} {validity : List Bool} {values taken : Column}
    (hlayout : layout = .list ∨ layout = .largeList)
    (hsound : (Column.list layout child offsets validity values).Sound)
    {indices : List (Option ℕ)}
    (htaken : Taken values
      (nestedIndices (takenSpans (layout.spans offsets validity) indices))
      taken) :
    TakeSpec native (.list layout child offsets validity values) indices
      (rebuildLargeListArray child
        (takenSpans (layout.spans offsets validity) indices) taken) := by
  have hvalues : values.Sound :=
    ⟨hsound.valid.2.2, hsound.ordered.2⟩
  have hbounds : ∀ start stop,
      some (start, stop) ∈
        takenSpans (layout.spans offsets validity) indices →
      start ≤ stop ∧ stop ≤ values.rowCells.length :=
    fun start stop h => hsound.span_bounds (mem_takenSpans h)
  set spans := takenSpans (layout.spans offsets validity) indices
    with hspans
  have hlength : taken.validity.length = (spans.map spanLength).sum := by
    rw [← taken.length_rowCells htaken.sound.ordered, htaken.cells_eq,
      ArrowCells.length_takeCells, length_nestedIndices]
  have hnulls : child.nullable ∨ false ∉ values.validity := by
    obtain ⟨-, ⟨-, hok⟩, -⟩ := hsound.valid
    rcases hlayout with rfl | rfl
    · exact hok.2
    · exact hok.2
  have hok : ListOk .largeList (child.retyped taken.dataType)
      (newOffsets 0 spans) (spans.map Option.isSome) taken.dataType
      taken.validity := by
    refine ⟨rfl, ⟨?_, ?_⟩, ?_⟩
    · rw [length_newOffsets, List.length_map]
    · intro last hlast
      rw [getLast?_newOffsets, Option.mem_some_iff] at hlast
      rw [hlength]
      omega
    · refine hnulls.imp id fun hnot hmem => ?_
      rw [htaken.validity_eq hvalues] at hmem
      obtain ⟨index, hindex, hnull⟩ := List.mem_map.mp hmem
      obtain ⟨k, hk, rfl⟩ := mem_nestedIndices hbounds hindex
      rw [values.length_rowCells hvalues.ordered] at hk
      rw [Option.bind_some, List.getElem?_eq_getElem hk,
        Option.getD_some] at hnull
      exact hnot (hnull ▸ List.getElem_mem hk)
  have hnew : listNew .largeList (child.retyped taken.dataType)
      (newOffsets 0 spans) (spans.map Option.isSome) taken =
        .ok (.list .largeList (child.retyped taken.dataType)
          (newOffsets 0 spans) (spans.map Option.isSome) taken) :=
    if_pos hok
  rw [rebuildLargeListArray, hnew]
  refine .ok ⟨⟨⟨rfl, hok, htaken.sound.valid⟩, pairwise_newOffsets 0 spans,
    htaken.sound.ordered⟩, .list hlayout ?_, ?_⟩
  · have htype : values.dataType = child.dataType :=
      hsound.valid.2.1.1
    rw [← htype]
    exact htaken.widens
  · rw [rowCells_rebuilt hbounds htaken.cells_eq, hspans, map_takenSpans,
      Column.rowCells]

/-- Without any row there are no values below a list. -/
theorem taken_orNoValues
    {native : NativeTake} {layout : ListLayout} {child : ArrowField}
    {offsets : List ℕ} {validity : List Bool} {values : Column}
    (hsound : (Column.list layout child offsets validity values).Sound)
    (indices : List (Option ℕ))
    {taken : Except TakeError Column}
    (h : TakeSpec native values indices taken) :
    TakeSpec native values indices (orNoValues child indices taken) := by
  unfold orNoValues
  by_cases hempty : indices.isEmpty = true
  · rw [if_pos hempty]
    have hnull := isNullArray_newNullArray child.dataType 0
    have htype : values.dataType = child.dataType := hsound.valid.2.1.1
    refine .ok ⟨hnull.sound, ?_, ?_⟩
    · rw [hnull.type_eq, htype]
      exact .same
    · rw [hnull.cells_eq, List.isEmpty_iff.mp hempty]
      rfl
  · rw [if_neg hempty]
    exact h

/-! ### Structs -/

/-- The columns of a struct, each with the rows of the indices. -/
inductive AllTaken (indices : List (Option ℕ)) :
    List Column → List Column → Prop
  | nil : AllTaken indices [] []
  | cons {column taken : Column} {columns rest : List Column} :
      Taken column indices taken → AllTaken indices columns rest →
      AllTaken indices (column :: columns) (taken :: rest)

theorem AllTaken.sound
    {indices : List (Option ℕ)} {columns taken : List Column}
    (h : AllTaken indices columns taken) :
    AllValid taken ∧ AllOrdered taken := by
  induction h with
  | nil => exact ⟨trivial, trivial⟩
  | cons htaken _ ih =>
      exact ⟨⟨htaken.sound.valid, ih.1⟩, htaken.sound.ordered, ih.2⟩

theorem AllTaken.cells
    {indices : List (Option ℕ)} {columns taken : List Column}
    (h : AllTaken indices columns taken) :
    allRowCells taken =
      (allRowCells columns).map fun cells => takeCells cells indices := by
  induction h with
  | nil => rfl
  | cons htaken _ ih =>
      rw [allRowCells, allRowCells, List.map_cons, htaken.cells_eq, ih]

abbrev takenFields (fields : List ArrowField) (taken : List Column) :
    List ArrowField :=
  List.zipWith (fun field (column : Column) =>
    field.retyped column.dataType) fields taken

theorem AllTaken.fieldsWiden
    {indices : List (Option ℕ)} {columns taken : List Column}
    (h : AllTaken indices columns taken) {fields : List ArrowField}
    {validity : List Bool} (hok : StructOk fields validity columns) :
    FieldsWiden fields (takenFields fields taken) := by
  induction h generalizing fields with
  | nil =>
      cases hok
      exact .nil
  | cons htaken _ ih =>
      cases hok with
      | @cons field _ _ _ hchild hrest =>
          refine .cons ?_ (ih hrest)
          rw [← hchild.1]
          exact htaken.widens

theorem AllTaken.structOk
    {indices : List (Option ℕ)} {columns taken : List Column}
    (h : AllTaken indices columns taken) {fields : List ArrowField}
    {validity : List Bool} (hok : StructOk fields validity columns)
    (hsound : AllValid columns ∧ AllOrdered columns) :
    StructOk (takenFields fields taken) (takenValidity validity indices)
      taken := by
  induction h generalizing fields with
  | nil =>
      cases hok
      exact .nil
  | @cons column _ _ _ htaken _ ih =>
      cases hok with
      | @cons field _ _ _ hchild hrest =>
          have hcolumn : column.Sound := ⟨hsound.1.1, hsound.2.1⟩
          have hvalidity := htaken.validity_eq hcolumn
          refine .cons ⟨rfl, ?_, ?_⟩ (ih hrest ⟨hsound.1.2, hsound.2.2⟩)
          · rw [hvalidity, takenValidity, takenValidity, List.length_map,
              List.length_map]
          · refine hchild.2.2.imp id fun hmasked pair hpair => ?_
            rw [hvalidity, takenValidity, takenValidity, List.zip_map']
              at hpair
            obtain ⟨index, -, rfl⟩ := List.mem_map.mp hpair
            rcases index with _ | index
            · exact .inr rfl
            · change (column.validity[index]?).getD false = true ∨
                (validity[index]?).getD false = false
              rcases Nat.lt_or_ge index column.validity.length with
                hlt | hge
              · have hlt' : index < validity.length := by
                  rw [← hchild.2.1]
                  exact hlt
                have hmem : (column.validity[index], validity[index]) ∈
                    column.validity.zip validity := by
                  have hzip : index <
                      (column.validity.zip validity).length := by
                    rw [List.length_zip]
                    omega
                  exact List.mem_iff_getElem.mpr
                    ⟨index, hzip, List.getElem_zip⟩
                have := hmasked _ hmem
                simpa only [List.getElem?_eq_getElem hlt,
                  List.getElem?_eq_getElem hlt', Option.getD_some]
                  using this
              · right
                rw [List.getElem?_eq_none (by rw [← hchild.2.1]; exact hge)]
                rfl

theorem getD_takeCells
    (cells : List RowCell) {indices : List (Option ℕ)} {i : ℕ}
    (hi : i < indices.length) :
    (takeCells cells indices)[i]?.getD .null =
      (indices[i].bind (cells[·]?)).getD .null := by
  simp [takeCells, hi]

theorem structCell_missing
    {ι : Type} {parts : List ι} {cell : ι → RowCell}
    (h : ∀ part ∈ parts, cell part = .null) :
    structCell false (parts.map cell) = .null := by
  refine if_pos ⟨rfl, List.all_eq_true.mpr fun x hmem => ?_⟩
  obtain ⟨part, hpart, rfl⟩ := List.mem_map.mp hmem
  rw [h part hpart]
  rfl

theorem structRows_taken
    (validity : List Bool) (columns : List (List RowCell))
    (indices : List (Option ℕ))
    (hlength : ∀ cells ∈ columns, cells.length = validity.length) :
    structRows (takenValidity validity indices)
        (columns.map fun cells => takeCells cells indices) =
      takeCells (structRows validity columns) indices := by
  apply List.ext_getElem
  · simp [structRows, takenValidity]
  · intro i hi hi'
    have hin : i < indices.length := by simpa using hi'
    have hleft : (structRows (takenValidity validity indices)
          (columns.map fun cells => takeCells cells indices))[i] =
        structCell ((indices[i].bind (validity[·]?)).getD false)
          (columns.map fun cells =>
            (indices[i].bind (cells[·]?)).getD .null) := by
      simp [structRows, takenValidity, Function.comp_def,
        getD_takeCells _ hin]
    have hright : (takeCells (structRows validity columns) indices)[i] =
        (indices[i].bind
          ((structRows validity columns)[·]?)).getD .null := by
      simp [takeCells]
    rw [hleft, hright]
    rcases indices[i] with _ | index
    · exact structCell_missing fun _ _ => rfl
    · simp only [Option.bind_some, structRows, List.getElem?_map,
        List.getElem?_zipIdx]
      rcases Nat.lt_or_ge index validity.length with hlt | hge
      · simp [hlt]
      · rw [List.getElem?_eq_none hge]
        refine structCell_missing fun cells hmem => ?_
        rw [List.getElem?_eq_none (by rw [hlength cells hmem]; exact hge)]
        rfl

theorem length_allRowCells
    {fields : List ArrowField} {validity : List Bool}
    {columns : List Column} (hok : StructOk fields validity columns)
    (hordered : AllOrdered columns) :
    ∀ cells ∈ allRowCells columns, cells.length = validity.length := by
  induction hok with
  | nil =>
      intro cells hmem
      cases hmem
  | @cons field column _ _ hchild _ ih =>
      intro cells hmem
      rcases List.mem_cons.mp hmem with rfl | hmem
      · rw [column.length_rowCells hordered.1, hchild.2.1]
      · exact ih hordered.2 cells hmem

/-- The rebuilt struct is one that Arrow accepts. -/
theorem taken_struct
    (native : NativeTake) {fields : List ArrowField} {validity : List Bool}
    {columns taken : List Column}
    (hsound : (Column.struct fields validity columns).Sound)
    {indices : List (Option ℕ)} (htaken : AllTaken indices columns taken)
    (hne : taken ≠ []) :
    TakeSpec native (.struct fields validity columns) indices
      (rebuildStructArray fields (takenValidity validity indices)
        taken) := by
  obtain ⟨⟨hok, hvalid⟩, hordered⟩ := hsound
  have hok' := htaken.structOk hok ⟨hvalid, hordered⟩
  have hnew : structNew (takenFields fields taken)
      (takenValidity validity indices) taken =
        .ok (.struct (takenFields fields taken)
          (takenValidity validity indices) taken) := if_pos hok'
  rw [rebuildStructArray, if_neg (by simpa using hne), hnew]
  refine .ok ⟨⟨⟨hok', htaken.sound.1⟩, htaken.sound.2⟩,
    .struct (htaken.fieldsWiden hok), ?_⟩
  rw [Column.rowCells, Column.rowCells, htaken.cells,
    structRows_taken _ _ _ (length_allRowCells hok hordered)]

/-! ### All arrays -/

section

variable (native : NativeTake)

/-- The columns of a struct have its rows. -/
theorem inRange_columns
    {fields : List ArrowField} {validity : List Bool}
    {columns : List Column}
    (hsound : (Column.struct fields validity columns).Sound)
    {indices : List (Option ℕ)}
    (hrange : InRange (Column.struct fields validity columns).rowCells.length
      indices) :
    ∀ cells ∈ allRowCells columns, InRange cells.length indices := by
  intro cells hmem
  rw [length_allRowCells hsound.valid.1 hsound.ordered cells hmem]
  simpa [Column.rowCells, structRows] using hrange

mutual

theorem manualSafeTake_spec :
    (array : Column) → array.Sound → ∀ indices,
      InRange array.rowCells.length indices →
      (native.take array indices).Overflows →
      TakeSpec native array indices
        (manualSafeTake native.take array indices)
  | .leaf type cells, hsound, indices, _, hoverflows => by
      rw [manualSafeTake]
      cases hlarge : largeLeaf type with
      | none =>
          refine .cannotRebuild (.leaf type cells) ?_ hoverflows
          change (largeLeaf type).isSome = false
          rw [hlarge]
          rfl
      | some large => exact .ok (taken_leaf hlarge hsound indices)
  | .list layout child offsets validity values, hsound, indices, _,
      hoverflows => by
      have hvalues : values.Sound :=
        ⟨hsound.valid.2.2, hsound.ordered.2⟩
      rw [manualSafeTake]
      by_cases hlayout : layout = .list ∨ layout = .largeList
      · rw [if_pos hlayout]
        set spans := takenSpans (layout.spans offsets validity) indices
        have hnested : InRange values.rowCells.length
            (nestedIndices spans) := by
          intro i hi
          obtain ⟨k, hk, heq⟩ := mem_nestedIndices
            (fun start stop h => hsound.span_bounds (mem_takenSpans h)) hi
          exact Option.some.inj heq ▸ hk
        have hspec := taken_orNoValues hsound
          (nestedIndices spans) (native.orRebuild_spec hvalues hnested
            (fun _ => manualSafeTake native.take values
              (nestedIndices spans))
            (manualSafeTake_spec values hvalues (nestedIndices spans)
              hnested))
        cases hresult : orNoValues child (nestedIndices spans)
            ((native.take values (nestedIndices spans)).orRebuild
              fun _ => manualSafeTake native.take values
                (nestedIndices spans)) with
        | error e =>
            rw [hresult] at hspec
            simp only [bind, Except.bind, hresult]
            exact hspec.error_of
        | ok taken =>
            rw [hresult] at hspec
            cases hspec with
            | ok htaken =>
                simp only [bind, Except.bind, hresult]
                exact taken_list native hlayout hsound htaken
      · rw [if_neg hlayout]
        refine .cannotRebuild
          (.list layout child offsets validity values) ?_ hoverflows
        exact decide_eq_false hlayout
  | .struct fields validity columns, hsound, indices, hrange,
      hoverflows => by
      rw [manualSafeTake]
      have hspec := manualTakeAll_spec columns
        ⟨hsound.valid.2, hsound.ordered⟩ indices
        (inRange_columns hsound hrange)
      cases hall : manualTakeAll native.take columns indices with
      | error e =>
          obtain ⟨part, taken, herror⟩ := hspec.2 e hall
          exact herror.error_of
      | ok taken =>
          have htaken := hspec.1 taken hall
          refine taken_struct native hsound htaken ?_
          rintro rfl
          -- only a struct without fields has no columns
          cases htaken
          cases hsound.valid.1
          exact native.emptyStruct hrange hoverflows
  | .map entries fields sorted offsets validity values, _, _, _,
      hoverflows =>
      .cannotRebuild
        (.map entries fields sorted offsets validity values) rfl
        hoverflows
  | .encoded type index validity, hsound, _, _, hoverflows =>
      .cannotRebuild (.encoded type index validity)
        (hasLargeLayout_eq_false hsound.valid) hoverflows

theorem manualTakeAll_spec :
    (columns : List Column) → AllValid columns ∧ AllOrdered columns →
      ∀ indices,
        (∀ cells ∈ allRowCells columns, InRange cells.length indices) →
        (∀ taken, manualTakeAll native.take columns indices = .ok taken →
          AllTaken indices columns taken) ∧
        ∀ e, manualTakeAll native.take columns indices = .error e →
          ∃ part taken, TakeSpec native part taken (.error e)
  | [], _, indices, _ => by
      refine ⟨fun taken h => ?_, fun e h => by cases h⟩
      obtain rfl := Except.ok.inj h
      exact .nil
  | column :: columns, hsound, indices, hrange => by
      have hcolumn : column.Sound := ⟨hsound.1.1, hsound.2.1⟩
      have hin : InRange column.rowCells.length indices :=
        hrange _ List.mem_cons_self
      have hfirst := native.orRebuild_spec hcolumn hin
        (fun _ => manualSafeTake native.take column indices)
        (manualSafeTake_spec column hcolumn indices hin)
      have hrest := manualTakeAll_spec columns
        ⟨hsound.1.2, hsound.2.2⟩ indices
        fun cells hmem => hrange cells (List.mem_cons_of_mem _ hmem)
      rw [manualTakeAll]
      cases hresult : (native.take column indices).orRebuild
          (fun _ => manualSafeTake native.take column indices) with
      | error e =>
          rw [hresult] at hfirst
          refine ⟨fun taken htaken => (by cases htaken), fun e' he => ?_⟩
          obtain rfl := Except.error.inj he
          exact ⟨column, indices, hfirst⟩
      | ok taken =>
          rw [hresult] at hfirst
          cases hall : manualTakeAll native.take columns indices with
          | error e =>
              refine ⟨fun taken htaken => (by cases htaken),
                fun e' he => ?_⟩
              obtain rfl := Except.error.inj he
              exact hrest.2 e hall
          | ok rest =>
              refine ⟨fun result hok => ?_, fun e' he => by cases he⟩
              obtain rfl := Except.ok.inj hok
              cases hfirst with
              | ok htaken => exact .cons htaken (hrest.1 rest hall)

end

theorem safeTake_spec
    {array : Column} (hsound : array.Sound) {indices : List (Option ℕ)}
    (hrange : InRange array.rowCells.length indices) :
    TakeSpec native array indices (safeTake native.take array indices) :=
  native.orRebuild_spec hsound hrange _
    (manualSafeTake_spec native array hsound _ hrange)

theorem taken_of_ok
    {array result : Column} (hsound : array.Sound)
    {indices : List (Option ℕ)}
    (hrange : InRange array.rowCells.length indices)
    (h : safeTake native.take array indices = .ok result) :
    Taken array indices result := by
  have hspec := safeTake_spec native hsound hrange
  rw [h] at hspec
  cases hspec with
  | ok htaken => exact htaken

/-- Whichever way the rows are taken, they are the ones that were asked for,
of the same type or the rebuilt one, and only Arrow's other errors and arrays
without large offsets fail. -/
theorem safe_take_takes_rows
    (array : Column) (hsound : array.Sound) (indices : List (Option ℕ))
    (hrange : InRange array.rowCells.length indices) :
    (∃ result, safeTake native.take array indices = .ok result ∧
      result.Sound ∧ Widens array.dataType result.dataType ∧
      result.rowCells = takeCells array.rowCells indices) ∨
    (∃ part taken text, native.take part taken = .arrowError text ∧
      safeTake native.take array indices = .error (.native text)) ∨
    ∃ part taken, (native.take part taken).Overflows ∧
      part.dataType.hasLargeLayout = false ∧
      safeTake native.take array indices =
        .error (.cannotRebuild part.dataType) := by
  have hspec := safeTake_spec native hsound hrange
  cases hresult : safeTake native.take array indices with
  | ok result =>
      obtain ⟨hresult, hwidens, hcells⟩ :=
        taken_of_ok native hsound hrange hresult
      exact .inl ⟨result, rfl, hresult, hwidens, hcells⟩
  | error e =>
      rw [hresult] at hspec
      cases hspec with
      | native h => exact .inr (.inl ⟨_, _, _, h, rfl⟩)
      | cannotRebuild _ hlayout h =>
          exact .inr (.inr ⟨_, _, h, hlayout, rfl⟩)

/-! ### Arrays of all indices -/

theorem orRebuild_sound
    {array result : Column} (hsound : array.Sound)
    {indices : List (Option ℕ)} {rebuild : Unit → Except TakeError Column}
    (hrebuild : ∀ rebuilt, rebuild () = .ok rebuilt → rebuilt.Sound)
    (h : (native.take array indices).orRebuild rebuild = .ok result) :
    result.Sound := by
  cases houtcome : native.take array indices with
  | success taken =>
      rw [houtcome] at h
      obtain rfl := Except.ok.inj h
      exact (native.sound hsound houtcome).1
  | arrowError text =>
      rw [houtcome] at h
      cases h
  | offsetOverflow | panicked | killed =>
      rw [houtcome] at h
      exact hrebuild result h

mutual

/-- The constructors have checked every array that is rebuilt. -/
theorem manualSafeTake_sound :
    (array : Column) → array.Sound → ∀ indices result,
      manualSafeTake native.take array indices = .ok result → result.Sound
  | .leaf type cells, hsound, indices, result, h => by
      rw [manualSafeTake] at h
      cases hlarge : largeLeaf type with
      | none =>
          rw [hlarge] at h
          cases h
      | some large =>
          rw [hlarge] at h
          obtain rfl := Except.ok.inj h
          exact (taken_leaf hlarge hsound indices).sound
  | .list layout child offsets validity values, hsound, indices, result,
      h => by
      have hvalues : values.Sound :=
        ⟨hsound.valid.2.2, hsound.ordered.2⟩
      rw [manualSafeTake] at h
      split_ifs at h
      cases htaken : orNoValues child
          (nestedIndices (takenSpans (layout.spans offsets validity) indices))
          ((native.take values (nestedIndices
            (takenSpans (layout.spans offsets validity) indices))).orRebuild
              fun _ => manualSafeTake native.take values (nestedIndices
                (takenSpans (layout.spans offsets validity) indices))) with
      | error e =>
          simp only [bind, Except.bind, htaken] at h
          cases h
      | ok taken =>
          simp only [bind, Except.bind, htaken, rebuildLargeListArray,
            listNew] at h
          have hsoundTaken : taken.Sound := by
            unfold orNoValues at htaken
            split_ifs at htaken
            · obtain rfl := Except.ok.inj htaken
              exact (isNullArray_newNullArray child.dataType 0).sound
            · exact orRebuild_sound native hvalues
                (manualSafeTake_sound values hvalues _) htaken
          split_ifs at h with hok
          · obtain rfl := Except.ok.inj h
            exact ⟨⟨rfl, hok, hsoundTaken.valid⟩, pairwise_newOffsets 0 _,
              hsoundTaken.ordered⟩
          · cases h
  | .struct fields validity columns, hsound, indices, result, h => by
      rw [manualSafeTake] at h
      cases hall : manualTakeAll native.take columns indices with
      | error e =>
          simp only [bind, Except.bind, hall] at h
          cases h
      | ok taken =>
          simp only [bind, Except.bind, hall, rebuildStructArray,
            structNew] at h
          have hsoundTaken := manualTakeAll_sound columns
            ⟨hsound.valid.2, hsound.ordered⟩ indices taken hall
          split_ifs at h with hempty hok
          · obtain rfl := Except.ok.inj h
            exact ⟨⟨hok, hsoundTaken.1⟩, hsoundTaken.2⟩
          · cases h
  | .map _ _ _ _ _ _, _, _, _, h => by cases h
  | .encoded _ _ _, _, _, _, h => by cases h

theorem manualTakeAll_sound :
    (columns : List Column) → AllValid columns ∧ AllOrdered columns →
      ∀ indices taken, manualTakeAll native.take columns indices = .ok taken →
        AllValid taken ∧ AllOrdered taken
  | [], _, indices, taken, h => by
      obtain rfl := Except.ok.inj h
      exact ⟨trivial, trivial⟩
  | column :: columns, hsound, indices, taken, h => by
      have hcolumn : column.Sound := ⟨hsound.1.1, hsound.2.1⟩
      rw [manualTakeAll] at h
      cases hfirst : (native.take column indices).orRebuild
          (fun _ => manualSafeTake native.take column indices) with
      | error e =>
          simp only [bind, Except.bind, hfirst] at h
          cases h
      | ok first =>
          cases hall : manualTakeAll native.take columns indices with
          | error e =>
              simp only [bind, Except.bind, hfirst, hall] at h
              cases h
          | ok rest =>
              simp only [bind, Except.bind, hfirst, hall] at h
              obtain rfl := Except.ok.inj h
              have hfirst := orRebuild_sound native hcolumn
                (manualSafeTake_sound column hcolumn indices) hfirst
              have hrest := manualTakeAll_sound columns
                ⟨hsound.1.2, hsound.2.2⟩ indices rest hall
              exact ⟨⟨hfirst.valid, hrest.1⟩, hfirst.ordered, hrest.2⟩

end

theorem safeTake_sound
    {array result : Column} (hsound : array.Sound)
    {indices : List (Option ℕ)}
    (h : safeTake native.take array indices = .ok result) : result.Sound :=
  orRebuild_sound native hsound
    (manualSafeTake_sound native array hsound indices) h

end

section Example

/-- Arrow's `take` on leaves, and on structs without fields; other arrays are
rebuilt. -/
def takeLeaves : Column → List (Option ℕ) → TakeOutcome
  | .leaf type cells, indices =>
      .success (.leaf type
        (indices.map fun index => (index.bind (cells[·]?)).join))
  | .struct [] validity [], indices =>
      .success (.struct [] (takenValidity validity indices) [])
  | _, _ => .offsetOverflow

theorem takeLeaves_cases
    {array result : Column} {indices : List (Option ℕ)}
    (h : takeLeaves array indices = .success result) :
    (∃ type cells, array = .leaf type cells ∧
      result = .leaf type
        (indices.map fun index => (index.bind (cells[·]?)).join)) ∨
    ∃ validity, array = .struct [] validity [] ∧
      result = .struct [] (takenValidity validity indices) [] := by
  unfold takeLeaves at h
  split at h
  · exact .inl ⟨_, _, rfl, (TakeOutcome.success.inj h).symm⟩
  · exact .inr ⟨_, rfl, (TakeOutcome.success.inj h).symm⟩
  · cases h

def leafTake : NativeTake where
  take := takeLeaves
  sound := by
    intro array indices result hsound h
    obtain ⟨type, cells, rfl, rfl⟩ | ⟨validity, rfl, rfl⟩ :=
      takeLeaves_cases h
    · refine ⟨⟨?_, trivial⟩, rfl⟩
      intro cell hcell c hc
      obtain ⟨index, -, rfl⟩ := List.mem_map.mp hcell
      rcases index with _ | index
      · cases hc
      · cases hget : cells[index]? with
        | none =>
            rw [Option.bind_some, hget] at hc
            cases hc
        | some found =>
            rw [Option.bind_some, hget] at hc
            exact hsound.valid found (List.mem_of_getElem? hget) c hc
    · exact ⟨⟨⟨.nil, trivial⟩, trivial⟩, rfl⟩
  rows := by
    intro array indices result hsound _ h
    obtain ⟨type, cells, rfl, rfl⟩ | ⟨validity, rfl, rfl⟩ :=
      takeLeaves_cases h
    · exact rowCells_taken_leaf cells indices
    · exact structRows_taken validity [] indices (by simp)
  emptyStruct := fun _ h => h

def exampleTexts : Column :=
  .leaf .utf8 [some (.text "a"), none, some (.text "b")]

theorem exampleTexts_sound : exampleTexts.Sound := by
  refine ⟨?_, trivial⟩
  intro cell hcell c hc
  simp only [List.mem_cons, List.not_mem_nil, or_false] at hcell
  rcases hcell with rfl | rfl | rfl
  · exact ⟨"a", (Option.some.inj hc).symm⟩
  · cases hc
  · exact ⟨"b", (Option.some.inj hc).symm⟩

def exampleStruct : Column :=
  .struct [.plain "t" true [] (.leaf .utf8)] [true, false, true]
    [exampleTexts]

theorem exampleStruct_sound : exampleStruct.Sound :=
  ⟨⟨.cons ⟨rfl, rfl, .inl rfl⟩ .nil, exampleTexts_sound.valid, trivial⟩,
    trivial, trivial⟩

/-- A struct is rebuilt, with its texts taken by Arrow. -/
theorem safe_take_takes_texts :
    ((∃ result, safeTake leafTake.take exampleStruct [some 2, none] =
        .ok result ∧ result.Sound ∧
      Widens exampleStruct.dataType result.dataType ∧
      result.rowCells =
        takeCells exampleStruct.rowCells [some 2, none]) ∨
    (∃ part taken text, leafTake.take part taken = .arrowError text ∧
      safeTake leafTake.take exampleStruct [some 2, none] =
        .error (.native text)) ∨
    ∃ part taken, (leafTake.take part taken).Overflows ∧
      part.dataType.hasLargeLayout = false ∧
      safeTake leafTake.take exampleStruct [some 2, none] =
        .error (.cannotRebuild part.dataType)) ∧
    safeTake leafTake.take exampleStruct [some 2, none] =
      .ok (.struct [.plain "t" true [] (.leaf .utf8)] [true, false]
        [.leaf .utf8 [some (.text "b"), none]]) := by
  refine ⟨safe_take_takes_rows leafTake exampleStruct exampleStruct_sound
    [some 2, none] ?_, rfl⟩
  intro i hi
  simp only [List.mem_cons, Option.some.injEq, List.not_mem_nil,
    or_false, reduceCtorEq] at hi
  subst hi
  decide

end Example

end ArrowTree

end Streamling
