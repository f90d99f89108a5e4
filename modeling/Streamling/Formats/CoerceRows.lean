import Mathlib
import Streamling.Formats.ArrowAvro

/-!
# Coercion works row by row

The value of a row of a column is read through the offsets and the validity of
its containers.  What a coercion makes of a row is decided by the value of
that row alone, wherever it stands in its batch.
-/

namespace Streamling

namespace Avro

open Arrow

/-! ## Rows -/

/-- A value of a column, with those of its elements or fields. -/
inductive Value where
  | null
  | cell (c : Cell)
  | list (items : List Value)
  | struct (fields : List Value)

/-- The elements of a row of a list column. -/
def elements (at' : ℕ → Value) (offsets : List ℕ) (r : ℕ) : List Value :=
  let start := offsets[r]?.getD 0
  let stop := offsets[r + 1]?.getD 0
  (List.range (stop - start)).map fun i => at' (start + i)

mutual

/-- The value of a row; null for a row that the column does not have. -/
def valueAt : DataType → Column → ℕ → Value
  | .leaf _, .leaf cells, r =>
      match (cells[r]?).join with
      | none => .null
      | some c => .cell c
  | .list (.mk _ _ _ type), .list offsets validity values, r =>
      if validity[r]? = some true then
        .list (elements (valueAt type values) offsets r)
      else .null
  | .largeList (.mk _ _ _ type), .list offsets validity values, r =>
      if validity[r]? = some true then
        .list (elements (valueAt type values) offsets r)
      else .null
  | .map (.mk _ _ _ type) _, .list offsets validity values, r =>
      if validity[r]? = some true then
        .list (elements (valueAt type values) offsets r)
      else .null
  | .fixedSizeList (.mk _ _ _ type) size, .fixedSizeList validity values, r =>
      if validity[r]? = some true then
        .list ((List.range size).map fun i =>
          valueAt type values (r * size + i))
      else .null
  | .struct fields, .struct validity columns, r =>
      if validity[r]? = some true then .struct (valuesAt fields columns r)
      else .null
  | _, _, _ => .null

def valuesAt : List ArrowField → List Column → ℕ → List Value
  | .mk _ _ _ type :: fields, column :: columns, r =>
      valueAt type column r :: valuesAt fields columns r
  | _, _, _ => []

end

mutual

/-- A column of the shape of its type. -/
def HasType : DataType → Column → Prop
  | .leaf _, .leaf _ => True
  | .list (.mk _ _ _ type), .list _ _ values => HasType type values
  | .largeList (.mk _ _ _ type), .list _ _ values => HasType type values
  | .map (.mk _ _ _ type) _, .list _ _ values => HasType type values
  | .fixedSizeList (.mk _ _ _ type) _, .fixedSizeList _ values =>
      HasType type values
  | .struct fields, .struct _ columns => HaveTypes fields columns
  | _, _ => False

def HaveTypes : List ArrowField → List Column → Prop
  | [], [] => True
  | .mk _ _ _ type :: fields, column :: columns =>
      HasType type column ∧ HaveTypes fields columns
  | _, _ => False

end

/-- The values of a row of a batch. -/
def RecordBatch.row (batch : RecordBatch) (r : ℕ) : List Value :=
  valuesAt batch.fields batch.columns r

/-- A cast makes of a row what its value decides. -/
def CastLocal (cast : DataType → Column → DataType → Except AvroError Column) :
    Prop :=
  ∀ type target src src' out out' r r',
    cast type src target = .ok out → cast type src' target = .ok out' →
    valueAt type src r = valueAt type src' r' →
    valueAt target out r = valueAt target out' r'

variable {cast : DataType → Column → DataType → Except AvroError Column}
  {toPlainString : ℤ → ℤ → String}

theorem valuesAt_getElem?
    {fields : List ArrowField} {columns : List Column} {i : ℕ}
    {field : ArrowField} {column : Column} (r : ℕ)
    (hfield : fields[i]? = some field) (hcolumn : columns[i]? = some column) :
    (valuesAt fields columns r)[i]? =
      some (valueAt field.dataType column r) := by
  induction fields generalizing columns i with
  | nil => simp at hfield
  | cons first fields ih =>
      obtain ⟨name, nullable, metadata, type⟩ := first
      cases columns with
      | nil => simp at hcolumn
      | cons head columns =>
          cases i with
          | zero =>
              obtain rfl := Option.some.inj hfield
              obtain rfl := Option.some.inj hcolumn
              simp [valuesAt, ArrowField.dataType]
          | succ i =>
              simp only [valuesAt, List.getElem?_cons_succ]
              exact ih hfield hcolumn

theorem hasType_of_haveTypes
    {fields : List ArrowField} {columns : List Column} {i : ℕ}
    {field : ArrowField} {column : Column} (h : HaveTypes fields columns)
    (hfield : fields[i]? = some field) (hcolumn : columns[i]? = some column) :
    HasType field.dataType column := by
  induction fields generalizing columns i with
  | nil => simp at hfield
  | cons first fields ih =>
      obtain ⟨name, nullable, metadata, type⟩ := first
      cases columns with
      | nil => simp at hcolumn
      | cons head columns =>
          rw [HaveTypes] at h
          cases i with
          | zero =>
              obtain rfl := Option.some.inj hfield
              obtain rfl := Option.some.inj hcolumn
              exact h.1
          | succ i => exact ih h.2 hfield hcolumn

theorem hasType_leaf
    {leaf : LeafType} {column : Column} (h : HasType (.leaf leaf) column) :
    ∃ cells, column = .leaf cells := by
  cases column with
  | leaf cells => exact ⟨cells, rfl⟩
  | _ => simp [HasType] at h

/-! ## Leaves -/

theorem valueAt_leaf (type : LeafType) (cells : List (Option Cell)) (r : ℕ) :
    valueAt (.leaf type) (.leaf cells) r =
      match (cells[r]?).join with
      | none => .null
      | some c => .cell c := by
  rw [valueAt]

/-- Leaf columns agree on rows whose cells agree. -/
theorem valueAt_leaf_eq_iff
    {type type' : LeafType} {cells cells' : List (Option Cell)} {r r' : ℕ} :
    valueAt (.leaf type) (.leaf cells) r =
        valueAt (.leaf type') (.leaf cells') r' ↔
      (cells[r]?).join = (cells'[r']?).join := by
  rw [valueAt_leaf, valueAt_leaf]
  rcases (cells[r]?).join with _ | c
  · rcases (cells'[r']?).join with _ | c'
    · simp
    · simp
  · rcases (cells'[r']?).join with _ | c'
    · simp
    · simp

theorem join_map {α β : Type} (f : α → β) (cells : List (Option α)) (r : ℕ) :
    ((cells.map (Option.map f))[r]?).join = ((cells[r]?).join).map f := by
  rw [List.getElem?_map]
  rcases cells[r]? with _ | _ | c
  · rfl
  · rfl
  · rfl

/-- A row of converted cells is decided by the row. -/
theorem integerCells_local
    {α : Type} {convert : α → Except AvroError ℤ}
    {rows rows' : List (Option α)} {out out' : List (Option Cell)} {r r' : ℕ}
    (h : integerCells convert rows = .ok out)
    (h' : integerCells convert rows' = .ok out')
    (heq : (rows[r]?).join = (rows'[r']?).join) :
    (out[r]?).join = (out'[r']?).join := by
  have hrow {rows : List (Option α)} {out : List (Option Cell)}
      (h : integerCells convert rows = .ok out) (r : ℕ) :
      (out[r]?).join = ((rows[r]?).join).bind fun a =>
        match convert a with
        | .ok value => some (.integer value)
        | .error _ => none := by
    induction rows generalizing out r with
    | nil =>
        obtain rfl := Except.ok.inj h
        rfl
    | cons row rows ih =>
        rcases row with _ | a
        · cases hrest : integerCells convert rows with
          | error e => simp [integerCells, hrest, bind, Except.bind] at h
          | ok rest =>
              simp only [integerCells, hrest, bind, Except.bind, pure,
                Except.pure] at h
              obtain rfl := Except.ok.inj h
              cases r with
              | zero => rfl
              | succ r => simpa using ih hrest r
        · cases hvalue : convert a with
          | error e => simp [integerCells, hvalue, bind, Except.bind] at h
          | ok value =>
              cases hrest : integerCells convert rows with
              | error e =>
                  simp [integerCells, hvalue, hrest, bind, Except.bind] at h
              | ok rest =>
                  simp only [integerCells, hvalue, hrest, bind, Except.bind,
                    pure, Except.pure] at h
                  obtain rfl := Except.ok.inj h
                  cases r with
                  | zero => simp [hvalue]
                  | succ r => simpa using ih hrest r
  rw [hrow h, hrow h', heq]

/-- Binary columns have the bytes of their cells. -/
theorem asBinaryIter_eq_ok
    {type : DataType} {src : Column} {rows : List (Option (List UInt8))}
    (h : asBinaryIter type src = .ok rows) :
    ∃ leaf cells, type = .leaf leaf ∧ src = .leaf cells ∧
      rows = cells.map (Option.map Cell.toBytes) := by
  unfold asBinaryIter at h
  split at h
  · exact ⟨_, _, rfl, rfl, (Except.ok.inj h).symm⟩
  · exact ⟨_, _, rfl, rfl, (Except.ok.inj h).symm⟩
  · exact ⟨_, _, rfl, rfl, (Except.ok.inj h).symm⟩
  · simp at h

theorem asBinaryIter_local
    {type : DataType} {src src' : Column}
    {rows rows' : List (Option (List UInt8))} {r r' : ℕ}
    (h : asBinaryIter type src = .ok rows)
    (h' : asBinaryIter type src' = .ok rows')
    (heq : valueAt type src r = valueAt type src' r') :
    (rows[r]?).join = (rows'[r']?).join := by
  obtain ⟨leaf, cells, rfl, rfl, rfl⟩ := asBinaryIter_eq_ok h
  obtain ⟨_, cells', -, rfl, rfl⟩ := asBinaryIter_eq_ok h'
  rw [join_map, join_map, valueAt_leaf_eq_iff.mp heq]

theorem passOrCast_local
    (hcast : CastLocal cast) {type target : DataType}
    {src src' out out' : Column} {r r' : ℕ}
    (h : passOrCast cast type src target = .ok out)
    (h' : passOrCast cast type src' target = .ok out')
    (heq : valueAt type src r = valueAt type src' r') :
    valueAt target out r = valueAt target out' r' := by
  unfold passOrCast at h h'
  split_ifs at h h' with htype
  · obtain rfl := Except.ok.inj h
    obtain rfl := Except.ok.inj h'
    rw [← htype]
    exact heq
  · exact hcast _ _ _ _ _ _ _ _ h h' heq

theorem binaryToDecimalString_local
    {type : DataType} {src src' out out' : Column} {target : ArrowField}
    {leaf : LeafType} {r r' : ℕ}
    (h : binaryToDecimalString toPlainString type src target = .ok out)
    (h' : binaryToDecimalString toPlainString type src' target = .ok out')
    (heq : valueAt type src r = valueAt type src' r') :
    valueAt (.leaf leaf) out r = valueAt (.leaf leaf) out' r' := by
  unfold binaryToDecimalString at h h'
  split at h
  · simp at h
  · rename_i scale hscale
    simp only [hscale] at h'
    cases hrows : asBinaryIter type src with
    | error e => simp [hrows, bind, Except.bind] at h
    | ok rows =>
        cases hrows' : asBinaryIter type src' with
        | error e => simp [hrows', bind, Except.bind] at h'
        | ok rows' =>
            simp only [hrows, hrows', bind, Except.bind, pure,
              Except.pure] at h h'
            obtain rfl := Except.ok.inj h
            obtain rfl := Except.ok.inj h'
            rw [valueAt_leaf_eq_iff, join_map, join_map,
              asBinaryIter_local hrows hrows' heq]

theorem binaryToDecimalArb_local
    {type : DataType} {src src' out out' : Column} {target : ArrowField}
    {leaf : LeafType} {r r' : ℕ}
    (h : binaryToDecimalArb type src target = .ok out)
    (h' : binaryToDecimalArb type src' target = .ok out')
    (heq : valueAt type src r = valueAt type src' r') :
    valueAt (.leaf leaf) out r = valueAt (.leaf leaf) out' r' := by
  unfold binaryToDecimalArb at h h'
  split at h
  · simp at h
  · rename_i field hfield
    simp only [hfield] at h'
    cases hrows : asBinaryIter type src with
    | error e => simp [hrows, bind, Except.bind] at h
    | ok rows =>
        cases hrows' : asBinaryIter type src' with
        | error e => simp [hrows', bind, Except.bind] at h'
        | ok rows' =>
            simp only [hrows, hrows', bind, Except.bind, pure,
              Except.pure] at h h'
            obtain rfl := Except.ok.inj h
            obtain rfl := Except.ok.inj h'
            rw [valueAt_leaf_eq_iff, join_map, join_map,
              asBinaryIter_local hrows hrows' heq]

theorem integerColumn_local
    {α : Type} {convert : α → Except AvroError ℤ} {leaf : LeafType}
    {rows rows' : List (Option α)} {out out' : Column} {r r' : ℕ}
    (h : (do
      let cells ← integerCells convert rows
      return Column.leaf cells) = Except.ok out)
    (h' : (do
      let cells ← integerCells convert rows'
      return Column.leaf cells) = Except.ok out')
    (heq : (rows[r]?).join = (rows'[r']?).join) :
    valueAt (.leaf leaf) out r = valueAt (.leaf leaf) out' r' := by
  cases hcells : integerCells convert rows with
  | error e => simp [hcells, bind, Except.bind] at h
  | ok cells =>
      cases hcells' : integerCells convert rows' with
      | error e => simp [hcells', bind, Except.bind] at h'
      | ok cells' =>
          simp only [hcells, hcells', bind, Except.bind, pure,
            Except.pure] at h h'
          obtain rfl := Except.ok.inj h
          obtain rfl := Except.ok.inj h'
          rw [valueAt_leaf_eq_iff]
          exact integerCells_local hcells hcells' heq

/-- Bytes that are converted to integers. -/
theorem binaryIntegers_local
    {convert : List UInt8 → Except AvroError ℤ} {type : DataType}
    {leaf : LeafType} {src src' out out' : Column} {r r' : ℕ}
    (h : (do
      let rows ← asBinaryIter type src
      let cells ← integerCells convert rows
      return Column.leaf cells) = Except.ok out)
    (h' : (do
      let rows ← asBinaryIter type src'
      let cells ← integerCells convert rows
      return Column.leaf cells) = Except.ok out')
    (heq : valueAt type src r = valueAt type src' r') :
    valueAt (.leaf leaf) out r = valueAt (.leaf leaf) out' r' := by
  cases hrows : asBinaryIter type src with
  | error e => simp [hrows, bind, Except.bind] at h
  | ok rows =>
      cases hrows' : asBinaryIter type src' with
      | error e => simp [hrows', bind, Except.bind] at h'
      | ok rows' =>
          simp only [hrows, hrows', bind, Except.bind] at h h'
          exact integerColumn_local h h'
            (asBinaryIter_local hrows hrows' heq)

theorem binaryOrPassthroughDecimal128_local
    (hcast : CastLocal cast) {type : DataType} {p : ℕ} {sc : ℤ}
    {src src' out out' : Column} {r r' : ℕ}
    (hsrc : HasType type src) (hsrc' : HasType type src')
    (h : binaryOrPassthroughDecimal128 cast type src p sc = .ok out)
    (h' : binaryOrPassthroughDecimal128 cast type src' p sc = .ok out')
    (heq : valueAt type src r = valueAt type src' r') :
    valueAt (.leaf (.decimal128 p sc)) out r =
      valueAt (.leaf (.decimal128 p sc)) out' r' := by
  by_cases hleaf : ∃ leaf, type = .leaf leaf
  · obtain ⟨leaf, rfl⟩ := hleaf
    obtain ⟨cells, rfl⟩ := hasType_leaf hsrc
    obtain ⟨cells', rfl⟩ := hasType_leaf hsrc'
    have hcells := valueAt_leaf_eq_iff.mp heq
    cases leaf with
    | binary => exact binaryIntegers_local h h' heq
    | largeBinary => exact binaryIntegers_local h h' heq
    | fixedSizeBinary width => exact binaryIntegers_local h h' heq
    | decimal128 q t =>
        obtain rfl := Except.ok.inj h
        obtain rfl := Except.ok.inj h'
        exact valueAt_leaf_eq_iff.mpr hcells
    | decimal256 q t =>
        simp only [binaryOrPassthroughDecimal128] at h h'
        exact integerColumn_local h h' hcells
    | utf8 => exact hcast _ _ _ _ _ _ _ _ h h' heq
    | largeUtf8 => exact hcast _ _ _ _ _ _ _ _ h h' heq
    | other name => exact hcast _ _ _ _ _ _ _ _ h h' heq
  · have hother (src : Column) :
        binaryOrPassthroughDecimal128 cast type src p sc =
          cast type src (.leaf (.decimal128 p sc)) := by
      cases type with
      | leaf leaf => exact absurd ⟨leaf, rfl⟩ hleaf
      | _ => rfl
    rw [hother] at h h'
    exact hcast _ _ _ _ _ _ _ _ h h' heq

theorem binaryOrPassthroughDecimal256_local
    (hcast : CastLocal cast) {type : DataType} {p : ℕ} {sc : ℤ}
    {src src' out out' : Column} {r r' : ℕ}
    (hsrc : HasType type src) (hsrc' : HasType type src')
    (h : binaryOrPassthroughDecimal256 cast type src p sc = .ok out)
    (h' : binaryOrPassthroughDecimal256 cast type src' p sc = .ok out')
    (heq : valueAt type src r = valueAt type src' r') :
    valueAt (.leaf (.decimal256 p sc)) out r =
      valueAt (.leaf (.decimal256 p sc)) out' r' := by
  by_cases hleaf : ∃ leaf, type = .leaf leaf
  · obtain ⟨leaf, rfl⟩ := hleaf
    obtain ⟨cells, rfl⟩ := hasType_leaf hsrc
    obtain ⟨cells', rfl⟩ := hasType_leaf hsrc'
    have hcells := valueAt_leaf_eq_iff.mp heq
    cases leaf with
    | binary => exact binaryIntegers_local h h' heq
    | largeBinary => exact binaryIntegers_local h h' heq
    | fixedSizeBinary width => exact binaryIntegers_local h h' heq
    | decimal256 q t =>
        obtain rfl := Except.ok.inj h
        obtain rfl := Except.ok.inj h'
        exact valueAt_leaf_eq_iff.mpr hcells
    | decimal128 q t => exact hcast _ _ _ _ _ _ _ _ h h' heq
    | utf8 => exact hcast _ _ _ _ _ _ _ _ h h' heq
    | largeUtf8 => exact hcast _ _ _ _ _ _ _ _ h h' heq
    | other name => exact hcast _ _ _ _ _ _ _ _ h h' heq
  · have hother (src : Column) :
        binaryOrPassthroughDecimal256 cast type src p sc =
          cast type src (.leaf (.decimal256 p sc)) := by
      cases type with
      | leaf leaf => exact absurd ⟨leaf, rfl⟩ hleaf
      | _ => rfl
    rw [hother] at h h'
    exact hcast _ _ _ _ _ _ _ _ h h' heq

theorem coerceLeaf_local
    (hcast : CastLocal cast) {type : DataType} {target : ArrowField}
    {leaf : LeafType} {src src' out out' : Column} {r r' : ℕ}
    (hsrc : HasType type src) (hsrc' : HasType type src')
    (h : coerceLeaf cast toPlainString type src target leaf = .ok out)
    (h' : coerceLeaf cast toPlainString type src' target leaf = .ok out')
    (heq : valueAt type src r = valueAt type src' r') :
    valueAt (.leaf leaf) out r = valueAt (.leaf leaf) out' r' := by
  cases leaf with
  | decimal128 p sc =>
      exact binaryOrPassthroughDecimal128_local hcast hsrc hsrc' h h' heq
  | decimal256 p sc =>
      exact binaryOrPassthroughDecimal256_local hcast hsrc hsrc' h h' heq
  | largeBinary =>
      simp only [coerceLeaf] at h h'
      split_ifs at h h' with hfield
      · exact binaryToDecimalArb_local h h' heq
      · exact passOrCast_local hcast h h' heq
  | utf8 =>
      simp only [coerceLeaf] at h h'
      split_ifs at h h' with hfield
      · exact binaryToDecimalString_local h h' heq
      · exact passOrCast_local hcast h h' heq
  | largeUtf8 =>
      simp only [coerceLeaf] at h h'
      split_ifs at h h' with hfield
      · exact binaryToDecimalString_local h h' heq
      · exact passOrCast_local hcast h h' heq
  | binary => exact passOrCast_local hcast h h' heq
  | fixedSizeBinary width => exact passOrCast_local hcast h h' heq
  | other name => exact passOrCast_local hcast h h' heq

/-! ## Nested columns -/

theorem valueAt_nullColumn (rows r : ℕ) (type : DataType) :
    valueAt type (nullColumn rows type) r = .null := by
  have hfalse : ¬ (List.replicate rows false)[r]? = some true := by
    rw [List.getElem?_replicate]
    split_ifs <;> simp
  cases type with
  | leaf leaf =>
      have hnone : ((List.replicate rows (none : Option Cell))[r]?).join =
          none := by
        rw [List.getElem?_replicate]
        split_ifs <;> rfl
      rw [nullColumn, valueAt_leaf, hnone]
  | list child =>
      obtain ⟨_, _, _, type⟩ := child
      rw [nullColumn, valueAt, if_neg hfalse]
  | largeList child =>
      obtain ⟨_, _, _, type⟩ := child
      rw [nullColumn, valueAt, if_neg hfalse]
  | fixedSizeList child size =>
      obtain ⟨_, _, _, type⟩ := child
      rw [nullColumn, valueAt, if_neg hfalse]
  | map child sorted =>
      obtain ⟨_, _, _, type⟩ := child
      rw [nullColumn, valueAt, if_neg hfalse]
  | struct fields => rw [nullColumn, valueAt, if_neg hfalse]

/-- Elements that are decided one by one. -/
theorem elements_congr
    {f f' g g' : ℕ → Value} {offsets offsets' : List ℕ} {r r' : ℕ}
    (h : elements f offsets r = elements f' offsets' r')
    (hstep : ∀ i j, f i = f' j → g i = g' j) :
    elements g offsets r = elements g' offsets' r' := by
  simp only [elements] at h ⊢
  have hlength := congrArg List.length h
  rw [List.length_map, List.length_map, List.length_range,
    List.length_range] at hlength
  rw [hlength] at h ⊢
  rw [List.map_inj_left] at h ⊢
  intro i hi
  exact hstep _ _ (h i hi)

/-- Two rows of containers are equal if both are null, or both are not and
have equal contents. -/
theorem ite_value_eq_iff
    {p q : Prop} [Decidable p] [Decidable q] {α : Type} {wrap : α → Value}
    (hinj : Function.Injective wrap) (hne : ∀ a, wrap a ≠ .null) {a b : α} :
    (if p then wrap a else Value.null) = (if q then wrap b else .null) ↔
      (p ↔ q) ∧ (p → a = b) := by
  by_cases hp : p
  · by_cases hq : q
    · simp [hp, hq, hinj.eq_iff]
    · simp [hp, hq, hne]
  · by_cases hq : q
    · simp [hp, hq, (hne b).symm]
    · simp [hp, hq]

theorem list_value_eq_iff
    {p q : Prop} [Decidable p] [Decidable q] {a b : List Value} :
    (if p then Value.list a else .null) = (if q then .list b else .null) ↔
      (p ↔ q) ∧ (p → a = b) :=
  ite_value_eq_iff (fun _ _ h => Value.list.inj h) nofun

theorem struct_value_eq_iff
    {p q : Prop} [Decidable p] [Decidable q] {a b : List Value} :
    (if p then Value.struct a else .null) = (if q then .struct b else .null) ↔
      (p ↔ q) ∧ (p → a = b) :=
  ite_value_eq_iff (fun _ _ h => Value.struct.inj h) nofun

/-- The parts of a list column, and its rows. -/
theorem listParts_spec
    {type element : DataType} {src values : Column} {offsets : List ℕ}
    {validity : List Bool} (hsrc : HasType type src)
    (h : listParts type src = .ok (element, offsets, validity, values)) :
    HasType element values ∧ ∀ r, valueAt type src r =
      if validity[r]? = some true then
        .list (elements (valueAt element values) offsets r)
      else .null := by
  cases type with
  | list child =>
      obtain ⟨_, _, _, type⟩ := child
      cases src with
      | list offsets' validity' values' =>
          simp only [listParts, Except.ok.injEq, Prod.mk.injEq] at h
          obtain ⟨rfl, rfl, rfl, rfl⟩ := h
          refine ⟨hsrc, fun r => ?_⟩
          rw [valueAt]
          rfl
      | _ => simp [HasType] at hsrc
  | largeList child =>
      obtain ⟨_, _, _, type⟩ := child
      cases src with
      | list offsets' validity' values' =>
          simp only [listParts] at h
          split at h
          · simp at h
          · simp only [Except.ok.injEq, Prod.mk.injEq] at h
            obtain ⟨rfl, rfl, rfl, rfl⟩ := h
            refine ⟨hsrc, fun r => ?_⟩
            rw [valueAt]
            rfl
      | _ => simp [HasType] at hsrc
  | _ => simp [listParts] at h

theorem listTryNew_eq_ok
    {child : ArrowField} {offsets : List ℕ} {validity : List Bool}
    {values out : Column}
    (h : listTryNew child offsets validity values = .ok out) :
    out = .list offsets validity values := by
  unfold listTryNew at h
  split_ifs at h
  exact (Except.ok.inj h).symm

theorem structTryNew_eq_ok
    {fields : List ArrowField} {columns : List Column} {validity : List Bool}
    {out : Column} (h : structTryNew fields columns validity = .ok out) :
    out = .struct validity columns := by
  unfold structTryNew at h
  split at h
  · exact (Except.ok.inj h).symm
  · simp at h

theorem listParts_child
    {type element : DataType} {src : Column}
    {rest : List ℕ × List Bool × Column}
    (h : listParts type src = .ok (element, rest)) :
    ∃ child, (type = .list child ∨ type = .largeList child) ∧
      element = child.dataType := by
  unfold listParts at h
  split at h
  · rename_i child offsets validity values
    exact ⟨child, Or.inl rfl, (congrArg Prod.fst (Except.ok.inj h)).symm⟩
  · rename_i child offsets validity values
    split at h
    · simp at h
    · exact ⟨child, Or.inr rfl, (congrArg Prod.fst (Except.ok.inj h)).symm⟩
  · simp at h

theorem listParts_element
    {type element element' : DataType} {src src' : Column}
    {rest rest' : List ℕ × List Bool × Column}
    (h : listParts type src = .ok (element, rest))
    (h' : listParts type src' = .ok (element', rest')) :
    element = element' := by
  obtain ⟨child, htype, rfl⟩ := listParts_child h
  obtain ⟨child', htype', rfl⟩ := listParts_child h'
  rcases htype with rfl | rfl
  · rcases htype' with hchild | hchild
    · rw [DataType.list.inj hchild]
    · simp at hchild
  · rcases htype' with hchild | hchild
    · simp at hchild
    · rw [DataType.largeList.inj hchild]

mutual

theorem coerceArray_local (hcast : CastLocal cast) : (target : ArrowField) →
    ∀ {type : DataType} {src src' out out' : Column} {r r' : ℕ},
    HasType type src → HasType type src' →
    coerceArray cast toPlainString type src target = .ok out →
    coerceArray cast toPlainString type src' target = .ok out' →
    valueAt type src r = valueAt type src' r' →
    valueAt target.dataType out r = valueAt target.dataType out' r'
  | .mk _ _ _ (.leaf _), _, _, _, _, _, _, _, hsrc, hsrc', h, h', heq => by
      rw [coerceArray] at h h'
      exact coerceLeaf_local hcast hsrc hsrc' h h' heq
  | .mk _ _ _ (.list (.mk name nullable metadata child)), type, src, src',
      out, out', r, r', hsrc, hsrc', h, h', heq => by
      rw [coerceArray] at h h'
      rcases hparts : listParts type src with
        e | ⟨element, offsets, validity, values⟩
      · simp [hparts, bind, Except.bind] at h
      rcases hparts' : listParts type src' with
        e | ⟨_, offsets', validity', values'⟩
      · simp [hparts', bind, Except.bind] at h'
      obtain rfl := listParts_element hparts hparts'
      rcases hcoerced : coerceArray cast toPlainString element values
        (.mk name nullable metadata child) with e | coerced
      · simp [hparts, hcoerced, bind, Except.bind] at h
      rcases hcoerced' : coerceArray cast toPlainString element values'
        (.mk name nullable metadata child) with e | coerced'
      · simp [hparts', hcoerced', bind, Except.bind] at h'
      simp only [hparts, hparts', hcoerced, hcoerced', bind, Except.bind]
        at h h'
      obtain rfl := listTryNew_eq_ok h
      obtain rfl := listTryNew_eq_ok h'
      obtain ⟨hvalues, hrows⟩ := listParts_spec hsrc hparts
      obtain ⟨hvalues', hrows'⟩ := listParts_spec hsrc' hparts'
      rw [hrows, hrows', list_value_eq_iff] at heq
      rw [ArrowField.dataType, valueAt, valueAt, list_value_eq_iff]
      refine ⟨heq.1, fun hvalid => elements_congr (heq.2 hvalid) ?_⟩
      intro i j hij
      exact coerceArray_local hcast (.mk name nullable metadata child)
        hvalues hvalues' hcoerced hcoerced' hij
  | .mk _ _ _ (.struct fields), type, src, src', out, out', r, r', hsrc,
      hsrc', h, h', heq => by
      cases type with
      | struct sources =>
          cases src with
          | struct validity columns =>
              cases src' with
              | struct validity' columns' =>
                  rw [coerceArray] at h h'
                  rcases hchildren : coerceFields cast toPlainString sources
                    columns validity.length fields with e | children
                  · simp [hchildren, bind, Except.bind] at h
                  rcases hchildren' : coerceFields cast toPlainString sources
                    columns' validity'.length fields with e | children'
                  · simp [hchildren', bind, Except.bind] at h'
                  simp only [hchildren, hchildren', bind, Except.bind]
                    at h h'
                  obtain rfl := structTryNew_eq_ok h
                  obtain rfl := structTryNew_eq_ok h'
                  rw [HasType] at hsrc hsrc'
                  rw [valueAt, valueAt, struct_value_eq_iff] at heq
                  rw [ArrowField.dataType, valueAt, valueAt,
                    struct_value_eq_iff]
                  exact ⟨heq.1, fun hvalid => coerceFields_local hcast fields
                    hsrc hsrc' hchildren hchildren' (heq.2 hvalid)⟩
              | _ => simp [HasType] at hsrc'
          | _ => simp [HasType] at hsrc
      | _ => simp [coerceArray] at h
  | .mk _ _ _ (.largeList _), _, _, _, _, _, _, _, _, _, h, h', heq => by
      rw [coerceArray] at h h'
      exact passOrCast_local hcast h h' heq
  | .mk _ _ _ (.fixedSizeList _ _), _, _, _, _, _, _, _, _, _, h, h', heq => by
      rw [coerceArray] at h h'
      exact passOrCast_local hcast h h' heq
  | .mk _ _ _ (.map _ _), _, _, _, _, _, _, _, _, _, h, h', heq => by
      rw [coerceArray] at h h'
      exact passOrCast_local hcast h h' heq

theorem coerceFields_local (hcast : CastLocal cast) :
    (targets : List ArrowField) →
    ∀ {sources : List ArrowField} {columns columns' out out' : List Column}
      {rows rows' r r' : ℕ},
    HaveTypes sources columns → HaveTypes sources columns' →
    coerceFields cast toPlainString sources columns rows targets = .ok out →
    coerceFields cast toPlainString sources columns' rows' targets =
      .ok out' →
    valuesAt sources columns r = valuesAt sources columns' r' →
    valuesAt targets out r = valuesAt targets out' r'
  | [], _, _, _, _, _, _, _, _, _, _, _, _, _, _ => by
      simp [valuesAt]
  | .mk name nullable metadata type :: targets, sources, columns, columns',
      out, out', rows, rows', r, r', hcolumns, hcolumns', h, h', heq => by
      rw [coerceFields] at h h'
      rcases hfind : findField (ArrowField.mk name nullable metadata
        type).name sources with _ | ⟨i, source⟩
      · simp only [hfind] at h h'
        split_ifs at h h' with hnullable
        · rcases hrest : coerceFields cast toPlainString sources columns rows
            targets with e | rest
          · simp [hrest, bind, Except.bind] at h
          rcases hrest' : coerceFields cast toPlainString sources columns'
            rows' targets with e | rest'
          · simp [hrest', bind, Except.bind] at h'
          simp only [hrest, hrest', bind, Except.bind, pure, Except.pure]
            at h h'
          obtain rfl := Except.ok.inj h
          obtain rfl := Except.ok.inj h'
          rw [valuesAt, valuesAt, coerceFields_local hcast targets hcolumns
            hcolumns' hrest hrest' heq]
          simp only [ArrowField.dataType, valueAt_nullColumn]
      · obtain ⟨hsource, -⟩ := findField_eq_some hfind
        simp only [hfind] at h h'
        rcases hcolumn : columns[i]? with _ | column
        · simp [hcolumn] at h
        rcases hcolumn' : columns'[i]? with _ | column'
        · simp [hcolumn'] at h'
        simp only [hcolumn, hcolumn'] at h h'
        rcases hcoerced : coerceArray cast toPlainString source.dataType
          column (.mk name nullable metadata type) with e | coerced
        · simp [hcoerced, bind, Except.bind] at h
        rcases hcoerced' : coerceArray cast toPlainString source.dataType
          column' (.mk name nullable metadata type) with e | coerced'
        · simp [hcoerced', bind, Except.bind] at h'
        rcases hrest : coerceFields cast toPlainString sources columns rows
          targets with e | rest
        · simp [hcoerced, hrest, bind, Except.bind] at h
        rcases hrest' : coerceFields cast toPlainString sources columns'
          rows' targets with e | rest'
        · simp [hcoerced', hrest', bind, Except.bind] at h'
        simp only [hcoerced, hcoerced', hrest, hrest', bind, Except.bind,
          pure, Except.pure] at h h'
        obtain rfl := Except.ok.inj h
        obtain rfl := Except.ok.inj h'
        have hvalue := valuesAt_getElem? r hsource hcolumn
        rw [heq, valuesAt_getElem? r' hsource hcolumn',
          Option.some.injEq] at hvalue
        rw [valuesAt, valuesAt, coerceFields_local hcast targets hcolumns
          hcolumns' hrest hrest' heq]
        have hhead := coerceArray_local hcast (.mk name nullable metadata
          type) (hasType_of_haveTypes hcolumns hsource hcolumn)
          (hasType_of_haveTypes hcolumns' hsource hcolumn') hcoerced
          hcoerced' hvalue.symm
        rw [ArrowField.dataType] at hhead
        rw [hhead]

end

/-- Two batches of one type are coerced to equal rows where they have equal
rows. -/
theorem coerceBatchToTarget_local
    (hcast : CastLocal cast) {target : List ArrowField}
    {batch batch' out out' : RecordBatch} {r r' : ℕ}
    (hfields : batch.fields = batch'.fields)
    (htypes : HaveTypes batch.fields batch.columns)
    (htypes' : HaveTypes batch'.fields batch'.columns)
    (h : coerceBatchToTarget cast toPlainString batch target = .ok out)
    (h' : coerceBatchToTarget cast toPlainString batch' target = .ok out')
    (heq : batch.row r = batch'.row r') : out.row r = out'.row r' := by
  obtain ⟨columns, hcolumns, rfl⟩ := coerceBatchToTarget_eq_ok h
  obtain ⟨columns', hcolumns', rfl⟩ := coerceBatchToTarget_eq_ok h'
  unfold RecordBatch.row at heq ⊢
  rw [← hfields] at hcolumns' htypes' heq
  exact coerceFields_local hcast target htypes htypes' hcolumns hcolumns' heq

end Avro

end Streamling
