import Mathlib
import Streamling.Operators.StreamOperators

/-!
# Chains of stream operators

The rows and the messages of a stream, in their order.  A chain of filters,
projections and unnests replaces each row by the rows that it gives by itself
and leaves each message where it is: what has been put out, whenever the chain
is stopped, comes from an initial part of the input.
-/

namespace Streamling

namespace StreamOperators

open ArrowCells Unnest ExceptLists
open StreamStages (Expands ChainExpands runChain)

/-! ## Events of a stream -/

inductive StreamEvent (α : Type) where
  | row (cells : List (ArrowCell α))
  | message (message : CheckpointMessage)

/-- A row is replaced by its rows; a message stays. -/
def expandEvent {α : Type}
    (f : List (ArrowCell α) → List (List (ArrowCell α))) :
    StreamEvent α → List (StreamEvent α)
  | .row cells => (f cells).map .row
  | .message message => [.message message]

section Model

variable {κ α : Type} {kernels : BatchKernels κ α}

def StreamBatch.events (item : StreamBatch kernels) :
    List (StreamEvent α) :=
  item.batch.rows.map .row ++ item.messages.map .message

theorem flatMap_expandEvent
    (f : List (ArrowCell α) → List (List (ArrowCell α)))
    (rows : List (List (ArrowCell α))) (messages : List CheckpointMessage) :
    (rows.map StreamEvent.row ++
        messages.map StreamEvent.message).flatMap
        (expandEvent f) =
      (rows.flatMap f).map StreamEvent.row ++
        messages.map StreamEvent.message := by
  rw [List.flatMap_append, List.flatMap_map, List.flatMap_map,
    List.map_flatMap]
  congr 1
  exact List.map_eq_flatMap.symm

/-! ## What the kernels and expressions compute -/

/-- The cells that a mask keeps. -/
def keepCells {β : Type} (cells : List β) (mask : List Bool) : List β :=
  (cells.zip mask).filterMap fun entry =>
    if entry.2 then some entry.1 else none

structure BatchKernels.Lawful (kernels : BatchKernels κ α)
    (isTrue : ArrowCell α → Bool) : Prop where
  kernels_lawful : kernels.toKernels.Lawful
  booleans_cells : ∀ {array values},
    kernels.booleans array = some values →
      values.map (·.getD false) = (kernels.cells array).map isTrue
  filter_cells : ∀ {array mask filtered},
    kernels.filter array mask = .ok filtered →
      mask.length = (kernels.cells array).length →
        kernels.cells filtered = keepCells (kernels.cells array) mask
  filter_shape : ∀ {array mask filtered},
    kernels.filter array mask = .ok filtered →
      kernels.shape filtered = kernels.shape array

/-- On batches of some shapes the expression has a value for each row. -/
structure Computes (kernels : BatchKernels κ α) (shapes : List Shape)
    (expr : PhysicalExpr kernels) (value : List (ArrowCell α) → ArrowCell α)
    (shape : Shape) : Prop where
  cells_eq : ∀ {batch : ArrowBatch kernels} {array : κ},
    batch.shapes = shapes → expr batch = .ok array →
      kernels.cells array = batch.rows.map value
  shape_eq : ∀ {batch : ArrowBatch kernels} {array : κ},
    batch.shapes = shapes → expr batch = .ok array →
      kernels.shape array = shape

/-! ## Rows of filtered batches -/

theorem length_rows (batch : ArrowBatch kernels) :
    batch.rows.length = batch.numRows := by
  simp [Batch.rows]

theorem keepCells_map
    {β γ : Type} (f : β → γ) (cells : List β) (mask : List Bool) :
    keepCells (cells.map f) mask = (keepCells cells mask).map f := by
  induction cells generalizing mask with
  | nil => rfl
  | cons cell cells ih =>
      cases mask with
      | nil => rfl
      | cons kept mask =>
          have hrest := ih mask
          unfold keepCells at hrest ⊢
          cases kept with
          | true => simpa using hrest
          | false => simpa using hrest

theorem length_keepCells
    {β : Type} {cells : List β} {mask : List Bool}
    (h : mask.length = cells.length) :
    (keepCells cells mask).length = mask.count true := by
  induction cells generalizing mask with
  | nil =>
      obtain rfl := List.length_eq_zero_iff.mp h
      rfl
  | cons cell cells ih =>
      cases mask with
      | nil => cases h
      | cons kept mask =>
          have hrest := ih (Nat.succ.inj h)
          unfold keepCells at hrest ⊢
          cases kept with
          | true => simpa using hrest
          | false => simpa using hrest

/-- A mask that is computed from the elements filters them. -/
theorem keepCells_self
    {β : Type} (p : β → Bool) (cells : List β) :
    keepCells cells (cells.map p) = cells.filter p := by
  induction cells with
  | nil => rfl
  | cons cell cells ih =>
      unfold keepCells at ih ⊢
      cases hp : p cell with
      | true => simpa [hp] using ih
      | false => simpa [hp] using ih

/-- A batch whose columns are kept by a mask has the rows kept by it. -/
theorem rows_of_kept
    {batch out : ArrowBatch kernels} {mask : List Bool}
    (hmask : mask.length = batch.numRows)
    (hrows : out.numRows = mask.count true)
    (hcolumns : List.Forall₂ (fun column filtered =>
      kernels.cells filtered = keepCells (kernels.cells column) mask)
      batch.columns out.columns) :
    out.rows = keepCells batch.rows mask := by
  set kept := keepCells (List.range batch.numRows) mask with hkept
  have hlength : kept.length = out.numRows := by
    rw [hrows]
    exact length_keepCells (by simpa using hmask)
  have hcells : List.Forall₂ (fun column filtered =>
      ∀ j (hj : j < kept.length),
        Batch.cellAt kernels.toKernels j filtered =
          Batch.cellAt kernels.toKernels kept[j] column)
      batch.columns out.columns := by
    refine forall₂_of_mem hcolumns ?_
    intro column hcolumn filtered hfiltered j hj
    have hrange : kernels.cells column = (List.range batch.numRows).map
        fun i => Batch.cellAt kernels.toKernels i column :=
      cells_eq_map_range (batch.sized column hcolumn)
    rw [hrange, keepCells_map] at hfiltered
    rw [Batch.cellAt, hfiltered]
    simp [← hkept, hj]
  rw [Batch.rows, Batch.rows, keepCells_map, ← hkept, ← hlength]
  apply List.ext_getElem
  · simp
  · intro j hj hj'
    have hlt : j < kept.length := by simpa using hj'
    simp only [List.getElem_map, List.getElem_range]
    exact (map_eq_map_of_forall₂ hcells fun column filtered h =>
      (h j hlt).symm).symm

/-- The rows of a batch that a filter array keeps. -/
theorem rows_filterRecordBatch
    {isTrue : ArrowCell α → Bool} (lawful : kernels.Lawful isTrue)
    {batch out : ArrowBatch kernels} {filterArray : List (Option Bool)}
    (hlength : filterArray.length = batch.numRows)
    (h : filterRecordBatch kernels batch filterArray = .ok out) :
    out.rows = keepCells batch.rows (filterArray.map (·.getD false)) ∧
      out.shapes = batch.shapes := by
  unfold filterRecordBatch at h
  cases hfiltered : batch.columns.mapM (fun column =>
      kernels.filter column (filterArray.map (·.getD false))) with
  | error e =>
      simp [hfiltered, bind, Except.bind] at h
  | ok filtered =>
      simp only [hfiltered, bind, Except.bind] at h
      obtain ⟨-, hcolumns, hrows⟩ := Batch.of_tryNewWithRowCount h
      have hforall := mapM_eq_ok_iff.mp hfiltered
      refine ⟨rows_of_kept (by simpa using hlength) hrows ?_, ?_⟩
      · rw [hcolumns]
        refine forall₂_of_mem hforall ?_
        intro column hmem array harray
        refine lawful.filter_cells harray ?_
        rw [batch.sized column hmem]
        simpa using hlength
      · rw [Batch.shapes, Batch.shapes, hcolumns]
        exact (map_eq_map_of_forall₂ hforall fun column array harray =>
          (lawful.filter_shape harray).symm).symm

/-- A batch of the same columns has the same rows. -/
theorem rows_tryNew
    {batch out : ArrowBatch kernels} {fields : List FieldLabel}
    (h : Batch.tryNew kernels.toKernels fields batch.columns = .ok out) :
    out.rows = batch.rows ∧ out.shapes = batch.shapes := by
  obtain ⟨-, hcolumns, first, hfirst, hrows⟩ := Batch.of_tryNew h
  have hnum : out.numRows = batch.numRows := by
    rw [hrows, batch.sized first hfirst]
  rw [Batch.rows, Batch.rows, Batch.shapes, Batch.shapes, hcolumns, hnum]
  exact ⟨rfl, rfl⟩

def selectCells (indices : List ℕ) (cells : List (ArrowCell α)) :
    List (ArrowCell α) :=
  indices.map fun i => cells[i]?.getD .null

def selectShapes (indices : List ℕ) (shapes : List Shape) : List Shape :=
  indices.map fun i => shapes[i]?.getD .leaf

theorem rows_projected
    {batch out : ArrowBatch kernels} {indices : List ℕ} {columns : List κ}
    {fields : List FieldLabel}
    (hcolumns : indices.mapM (column kernels batch) = .ok columns)
    (h : Batch.tryNew kernels.toKernels fields columns = .ok out) :
    out.rows = batch.rows.map (selectCells indices) ∧
      out.shapes = selectShapes indices batch.shapes ∧
      out.numRows = batch.numRows := by
  obtain ⟨-, hout, first, hfirst, hrows⟩ := Batch.of_tryNew h
  have hforall : List.Forall₂ (fun i array => batch.columns[i]? = some array)
      indices columns := by
    refine forall₂_of_mem (mapM_eq_ok_iff.mp hcolumns) ?_
    intro i _ array harray
    unfold column at harray
    cases hget : batch.columns[i]? with
    | none =>
        rw [hget] at harray
        cases harray
    | some found =>
        rw [hget] at harray
        rw [Except.ok.inj harray]
  have hnum : out.numRows = batch.numRows := by
    obtain ⟨i, -, hget⟩ := exists_of_mem_right hforall hfirst
    rw [hrows, batch.sized first (List.mem_of_getElem? hget)]
  refine ⟨?_, ?_, hnum⟩
  · rw [Batch.rows, Batch.rows, hout, hnum, List.map_map]
    apply List.map_congr_left
    intro r _
    refine (map_eq_map_of_forall₂ hforall ?_).symm
    intro i array hget
    rw [List.getElem?_map, hget]
    rfl
  · rw [Batch.shapes, hout, selectShapes]
    refine (map_eq_map_of_forall₂ hforall ?_).symm
    intro i array hget
    rw [Batch.shapes, List.getElem?_map, hget]
    rfl

/-! ## What an operator does to a row -/

variable (kernels) in
/-- The shapes that an operator reads and puts out, and the rows that it makes
of one row. -/
inductive Typed (isTrue : ArrowCell α → Bool) : List Shape →
    StreamOperator kernels → List Shape →
    (List (ArrowCell α) → List (List (ArrowCell α))) → Prop
  | filter {shapes : List Shape} {predicate : PhysicalExpr kernels}
      {value : List (ArrowCell α) → ArrowCell α} {shape : Shape}
      {schema : List FieldLabel}
      (hvalue : Computes kernels shapes predicate value shape) :
      Typed isTrue shapes (.filter predicate none schema) shapes
        fun cells => if isTrue (value cells) then [cells] else []
  | filterProjected {shapes : List Shape} {predicate : PhysicalExpr kernels}
      {value : List (ArrowCell α) → ArrowCell α} {shape : Shape}
      {indices : List ℕ}
      {schema : List FieldLabel}
      (hvalue : Computes kernels shapes predicate value shape) :
      Typed isTrue shapes (.filter predicate (some indices) schema)
        (selectShapes indices shapes) fun cells =>
          if isTrue (value cells) then [selectCells indices cells] else []
  | projection {shapes : List Shape} {exprs : List (PhysicalExpr kernels)}
      {values : List ((List (ArrowCell α) → ArrowCell α) × Shape)}
      {schema : List FieldLabel}
      (hvalues : List.Forall₂ (fun expr value =>
        Computes kernels shapes expr value.1 value.2) exprs values) :
      Typed isTrue shapes (.projection exprs schema)
        (values.map Prod.snd) fun cells =>
          [values.map fun value => value.1 cells]
  | unnest {shapes : List Shape} {plan : UnnestPlan κ}
      (htyped : WellTyped plan.unnests shapes)
      (hplan : plan.schemaColumns.map kernels.shape =
        outputShapes plan.unnests plan.structColumns shapes) :
      Typed isTrue shapes (.unnest plan)
        (outputShapes plan.unnests plan.structColumns shapes)
        (unnestBatchRow plan.preserveNulls plan.unnests plan.structColumns
          shapes)

section Steps

variable {isTrue : ArrowCell α → Bool} {shapes : List Shape}

theorem filter_flatMap
    {β γ : Type} (p : β → Bool) (f : β → γ) (xs : List β) :
    (xs.filter p).map f =
      xs.flatMap fun x => if p x then [f x] else [] := by
  induction xs with
  | nil => rfl
  | cons x xs ih =>
      cases hp : p x with
      | true => simp [hp, ih]
      | false => simp [hp, ih]

/-- The filter array of a predicate, as a mask of the rows. -/
theorem mask_of_predicate
    (lawful : kernels.Lawful isTrue) {predicate : PhysicalExpr kernels}
    {value : List (ArrowCell α) → ArrowCell α} {shape : Shape}
    (hvalue : Computes kernels shapes predicate value shape)
    {batch : ArrowBatch kernels} (hshapes : batch.shapes = shapes)
    {array : κ} (harray : predicate batch = .ok array)
    {filterArray : List (Option Bool)}
    (hbooleans : kernels.booleans array = some filterArray) :
    filterArray.map (·.getD false) =
        batch.rows.map (fun cells => isTrue (value cells)) ∧
      filterArray.length = batch.numRows := by
  have hmask : filterArray.map (·.getD false) =
      batch.rows.map (fun cells => isTrue (value cells)) := by
    rw [lawful.booleans_cells hbooleans, hvalue.cells_eq hshapes harray,
      List.map_map]
    rfl
  refine ⟨hmask, ?_⟩
  have hlength := congrArg List.length hmask
  simpa [length_rows] using hlength

theorem filterAndProject_rows
    (lawful : kernels.Lawful isTrue) {predicate : PhysicalExpr kernels}
    {value : List (ArrowCell α) → ArrowCell α} {shape : Shape}
    (hvalue : Computes kernels shapes predicate value shape)
    {batch out : ArrowBatch kernels} (hshapes : batch.shapes = shapes)
    {schema : List FieldLabel}
    (h : filterAndProject kernels predicate none schema batch = .ok out) :
    out.rows = batch.rows.flatMap
        (fun cells => if isTrue (value cells) then [cells] else []) ∧
      out.shapes = shapes := by
  unfold filterAndProject at h
  cases harray : predicate batch with
  | error e =>
      simp [harray, bind, Except.bind] at h
  | ok array =>
      simp only [harray, bind, Except.bind] at h
      cases hbooleans : kernels.booleans array with
      | none =>
          rw [hbooleans] at h
          cases h
      | some filterArray =>
          rw [hbooleans] at h
          obtain ⟨hmask, hlength⟩ :=
            mask_of_predicate lawful hvalue hshapes harray hbooleans
          cases hfiltered : filterRecordBatch kernels batch filterArray with
          | error e => simp [hfiltered] at h
          | ok filtered =>
              simp only [hfiltered] at h
              obtain ⟨hrows, hsame⟩ := rows_tryNew h
              obtain ⟨hkept, hkeptShapes⟩ :=
                rows_filterRecordBatch lawful hlength hfiltered
              refine ⟨?_, by rw [hsame, hkeptShapes, hshapes]⟩
              rw [hrows, hkept, hmask, keepCells_self,
                ← List.map_id' (List.filter _ _), filter_flatMap]

theorem filterAndProject_projected_rows
    (lawful : kernels.Lawful isTrue) {predicate : PhysicalExpr kernels}
    {value : List (ArrowCell α) → ArrowCell α} {shape : Shape}
    (hvalue : Computes kernels shapes predicate value shape)
    {batch out : ArrowBatch kernels} (hshapes : batch.shapes = shapes)
    {indices : List ℕ} {schema : List FieldLabel}
    (h : filterAndProject kernels predicate (some indices) schema batch =
      .ok out) :
    out.rows = batch.rows.flatMap
        (fun cells => if isTrue (value cells) then
          [selectCells indices cells] else []) ∧
      out.shapes = selectShapes indices shapes := by
  unfold filterAndProject at h
  cases harray : predicate batch with
  | error e =>
      simp [harray, bind, Except.bind] at h
  | ok array =>
      simp only [harray, bind, Except.bind] at h
      cases hbooleans : kernels.booleans array with
      | none =>
          rw [hbooleans] at h
          cases h
      | some filterArray =>
          rw [hbooleans] at h
          obtain ⟨hmask, hlength⟩ :=
            mask_of_predicate lawful hvalue hshapes harray hbooleans
          cases hcolumns : indices.mapM (column kernels batch) with
          | error e => simp [hcolumns] at h
          | ok columns =>
              simp only [hcolumns] at h
              cases hbatch : Batch.tryNew kernels.toKernels
                  (buildSchemaFromColumns schema columns) columns with
              | error e => simp [hbatch] at h
              | ok projected =>
                  simp only [hbatch] at h
                  obtain ⟨hrows, hsame, hnum⟩ :=
                    rows_projected hcolumns hbatch
                  obtain ⟨hkept, hkeptShapes⟩ :=
                    rows_filterRecordBatch lawful
                      (hlength.trans hnum.symm) h
                  refine ⟨?_, by rw [hkeptShapes, hsame, hshapes]⟩
                  rw [hkept, hrows, keepCells_map, hmask, keepCells_self,
                    filter_flatMap]

theorem batchProject_rows
    {exprs : List (PhysicalExpr kernels)}
    {values : List ((List (ArrowCell α) → ArrowCell α) × Shape)}
    (hvalues : List.Forall₂ (fun expr value =>
      Computes kernels shapes expr value.1 value.2) exprs values)
    {batch out : ArrowBatch kernels} (hshapes : batch.shapes = shapes)
    {schema : List FieldLabel}
    (h : batchProject kernels exprs schema batch = .ok out) :
    out.rows = batch.rows.flatMap
        (fun cells => [values.map fun value => value.1 cells]) ∧
      out.shapes = values.map Prod.snd := by
  unfold batchProject at h
  cases harrays : exprs.mapM (fun expr => expr batch) with
  | error e =>
      simp [harrays, bind, Except.bind] at h
  | ok arrays =>
      simp only [harrays, bind, Except.bind] at h
      have hforall : List.Forall₂ (fun value array =>
          kernels.cells array = batch.rows.map value.1 ∧
            kernels.shape array = value.2) values arrays := by
        refine forall₂_comp_of_mem hvalues.flip
          (mapM_eq_ok_iff.mp harrays) ?_
        intro value _ expr array hcomputes harray
        exact ⟨hcomputes.cells_eq hshapes harray,
          hcomputes.shape_eq hshapes harray⟩
      have hout : out.columns = arrays ∧ out.numRows = batch.numRows := by
        split at h
        · obtain ⟨-, hcolumns, hrows⟩ := Batch.of_tryNewWithRowCount h
          exact ⟨hcolumns, hrows⟩
        · obtain ⟨-, hcolumns, first, hfirst, hrows⟩ := Batch.of_tryNew h
          obtain ⟨value, -, hcells, -⟩ := exists_of_mem_right hforall hfirst
          refine ⟨hcolumns, ?_⟩
          rw [hrows, hcells, List.length_map, length_rows]
      obtain ⟨hcolumns, hnum⟩ := hout
      refine ⟨?_, ?_⟩
      · rw [← List.map_eq_flatMap]
        apply List.ext_getElem
        · simp [length_rows, hnum]
        · intro r hr hr'
          have hlt : r < batch.rows.length := by simpa using hr'
          simp only [Batch.rows, List.getElem_map, List.getElem_range,
            hcolumns]
          refine (map_eq_map_of_forall₂ hforall ?_).symm
          intro value array harray
          rw [Batch.cellAt, harray.1, List.getElem?_map,
            List.getElem?_eq_getElem hlt]
          simp [Batch.rows]
      · rw [Batch.shapes, hcolumns]
        exact (map_eq_map_of_forall₂ hforall
          fun value array harray => harray.2.symm).symm

/-- What an unnest returns for a batch. -/
theorem unnest_rows
    (lawful : kernels.Lawful isTrue) {plan : UnnestPlan κ}
    (htyped : WellTyped plan.unnests shapes)
    {batch : ArrowBatch kernels} (hshapes : batch.shapes = shapes)
    {result : Option (ArrowBatch kernels)}
    (h : buildBatch kernels.toKernels plan.preserveNulls plan.schema
      plan.unnests plan.structColumns batch = .ok result) :
    resultRows result = batch.rows.flatMap
        (unnestBatchRow plan.preserveNulls plan.unnests
          plan.structColumns shapes) ∧
      ∀ out ∈ result, out.shapes =
        outputShapes plan.unnests plan.structColumns shapes := by
  subst hshapes
  refine ⟨buildBatch_rows lawful.kernels_lawful plan.schema plan.unnests
    plan.structColumns batch htyped h, ?_⟩
  rintro out hout
  cases built_of_ok lawful.kernels_lawful htyped h with
  | nothing _ => cases hout
  | batch hstage _ hflattened =>
      obtain rfl := Option.some.inj hout
      exact hstage.outputShapes_eq lawful.kernels_lawful hflattened

/-- The empty batch that carries messages has no row. -/
theorem createEmptyCheckpointBatch_events
    (lawful : kernels.Lawful isTrue) {plan : UnnestPlan κ}
    {outShapes : List Shape}
    (hplan : plan.schemaColumns.map kernels.shape = outShapes)
    {resolved : ResolvedBatch kernels}
    (hresolved : ∀ batch ∈ resolved, batch.shapes = outShapes)
    {messages : List CheckpointMessage} {out : StreamBatch kernels}
    (h : createEmptyCheckpointBatch kernels plan resolved messages =
      .ok out) :
    out.events = messages.map .message ∧ out.batch.shapes = outShapes := by
  unfold createEmptyCheckpointBatch at h
  set types := (resolved.map Batch.columns).getD plan.schemaColumns
    with htypes
  cases hbatch : Batch.tryNew kernels.toKernels
      ((resolved.map Batch.fields).getD plan.schema)
      (types.map (kernels.newNullArray · 0)) with
  | error e => simp [hbatch, bind, Except.bind] at h
  | ok batch =>
      simp only [hbatch, bind, Except.bind] at h
      obtain rfl := Except.ok.inj h
      obtain ⟨-, hcolumns, first, hfirst, hrows⟩ := Batch.of_tryNew hbatch
      have hzero : batch.numRows = 0 := by
        obtain ⟨type, -, rfl⟩ := List.mem_map.mp hfirst
        rw [hrows, lawful.kernels_lawful.newNullArray_cells]
        rfl
      have hshapes : types.map kernels.shape = outShapes := by
        cases hlast : resolved with
        | none =>
            rw [htypes, hlast]
            exact hplan
        | some last =>
            rw [htypes, hlast]
            exact hresolved last hlast
      refine ⟨?_, ?_⟩
      · simp [StreamBatch.events, Batch.rows, hzero]
      · rw [Batch.shapes, hcolumns, List.map_map, ← hshapes]
        apply List.map_congr_left
        intro type _
        exact lawful.kernels_lawful.newNullArray_shape type 0

theorem events_of_rows
    {f : List (ArrowCell α) → List (List (ArrowCell α))}
    {item : StreamBatch kernels}
    {batch : ArrowBatch kernels}
    (hrows : batch.rows = item.batch.rows.flatMap f) :
    StreamBatch.events ⟨batch, item.messages⟩ =
      item.events.flatMap (expandEvent f) := by
  rw [StreamBatch.events, StreamBatch.events, flatMap_expandEvent, hrows]

/-- An operator that puts out a batch for each, with its messages. -/
theorem expands_of_each
    {make : ArrowBatch kernels → Except UnnestError (ArrowBatch kernels)}
    {outShapes : List Shape}
    {f : List (ArrowCell α) → List (List (ArrowCell α))}
    (hmake : ∀ {batch out : ArrowBatch kernels}, batch.shapes = shapes →
      make batch = .ok out →
        out.rows = batch.rows.flatMap f ∧ out.shapes = outShapes) :
    Expands
      (fun (resolved : ResolvedBatch kernels)
          (item : StreamBatch kernels) => do
        let batch ← make item.batch
        Except.ok (some ⟨batch, item.messages⟩, resolved))
      (fun resolved => ∀ batch ∈ resolved, batch.shapes = outShapes)
      (fun item => item.batch.shapes = shapes)
      (fun item => item.batch.shapes = outShapes)
      StreamBatch.events (expandEvent f) := by
  refine ⟨?_⟩
  intro resolved item out resolved' hresolved hitem hstep
  cases hbatch : make item.batch with
  | error e => simp [hbatch, bind, Except.bind] at hstep
  | ok batch =>
      simp only [hbatch, bind, Except.bind] at hstep
      obtain ⟨rfl, rfl⟩ := Prod.mk.inj (Except.ok.inj hstep)
      obtain ⟨hrows, hshapes⟩ := hmake hitem hbatch
      refine ⟨hresolved, ?_, ?_⟩
      · simpa using events_of_rows hrows
      · rintro _ ⟨⟩
        exact hshapes

/-- An unnest skips a batch only if it has no row and no message left. -/
theorem expands_unnest
    (lawful : kernels.Lawful isTrue) {plan : UnnestPlan κ}
    (htyped : WellTyped plan.unnests shapes)
    (hplan : plan.schemaColumns.map kernels.shape =
      outputShapes plan.unnests plan.structColumns shapes) :
    Expands (unnestStep kernels plan)
      (fun resolved => ∀ batch ∈ resolved, batch.shapes =
        outputShapes plan.unnests plan.structColumns shapes)
      (fun item => item.batch.shapes = shapes)
      (fun item => item.batch.shapes =
        outputShapes plan.unnests plan.structColumns shapes)
      StreamBatch.events
      (expandEvent (unnestBatchRow plan.preserveNulls plan.unnests
        plan.structColumns shapes)) := by
  refine ⟨?_⟩
  intro resolved item out resolved' hresolved hitem hstep
  unfold unnestStep at hstep
  cases hbuilt : buildBatch kernels.toKernels plan.preserveNulls
      plan.schema plan.unnests plan.structColumns item.batch with
  | error e => simp [hbuilt, bind, Except.bind] at hstep
  | ok result =>
      obtain ⟨hrows, hshapes⟩ := unnest_rows lawful htyped hitem hbuilt
      simp only [hbuilt, bind, Except.bind] at hstep
      cases result with
      | some batch =>
          have hbatch := hshapes batch rfl
          have hkeeps : ∀ b ∈ some batch, b.shapes =
              outputShapes plan.unnests plan.structColumns shapes := by
            rintro _ ⟨⟩
            exact hbatch
          by_cases hskip : batch.numRows = 0 ∧ item.messages = []
          · simp only [if_pos hskip] at hstep
            obtain ⟨rfl, rfl⟩ := Prod.mk.inj (Except.ok.inj hstep)
            refine ⟨hkeeps, ?_, by rintro _ ⟨⟩⟩
            rw [← events_of_rows hrows]
            simp [StreamBatch.events, Batch.rows, hskip.1, hskip.2]
          · simp only [if_neg hskip] at hstep
            obtain ⟨rfl, rfl⟩ := Prod.mk.inj (Except.ok.inj hstep)
            refine ⟨hkeeps, ?_, ?_⟩
            · simpa using events_of_rows hrows
            · rintro _ ⟨⟩
              exact hbatch
      | none =>
          have hnone : item.events.flatMap
              (expandEvent (unnestBatchRow plan.preserveNulls
                plan.unnests plan.structColumns shapes)) =
              item.messages.map .message := by
            rw [StreamBatch.events, flatMap_expandEvent, ← hrows]
            rfl
          by_cases hskip : item.messages = []
          · simp only [if_pos hskip] at hstep
            obtain ⟨rfl, rfl⟩ := Prod.mk.inj (Except.ok.inj hstep)
            refine ⟨hresolved, ?_, by rintro _ ⟨⟩⟩
            rw [hnone, hskip]
            rfl
          · simp only [if_neg hskip] at hstep
            cases hempty : createEmptyCheckpointBatch kernels plan
                resolved item.messages with
            | error e => simp [hempty] at hstep
            | ok empty =>
                simp only [hempty] at hstep
                obtain ⟨rfl, rfl⟩ := Prod.mk.inj (Except.ok.inj hstep)
                obtain ⟨hevents, hshape⟩ :=
                  createEmptyCheckpointBatch_events lawful hplan
                    hresolved hempty
                refine ⟨hresolved, ?_, ?_⟩
                · rw [hnone, ← hevents]
                  simp
                · rintro _ ⟨⟩
                  exact hshape

/-- An operator replaces the rows of a batch and keeps its messages. -/
theorem Typed.expands
    (lawful : kernels.Lawful isTrue) {operator : StreamOperator kernels}
    {outShapes : List Shape}
    {f : List (ArrowCell α) → List (List (ArrowCell α))}
    (h : Typed kernels isTrue shapes operator outShapes f) :
    Expands (operator.step kernels)
      (fun resolved => ∀ batch ∈ resolved, batch.shapes = outShapes)
      (fun item => item.batch.shapes = shapes)
      (fun item => item.batch.shapes = outShapes)
      StreamBatch.events (expandEvent f) := by
  cases h with
  | filter hvalue =>
      exact expands_of_each fun hshapes hbatch =>
        filterAndProject_rows lawful hvalue hshapes hbatch
  | filterProjected hvalue =>
      exact expands_of_each fun hshapes hbatch =>
        filterAndProject_projected_rows lawful hvalue hshapes hbatch
  | projection hvalues =>
      exact expands_of_each fun hshapes hbatch =>
        batchProject_rows hvalues hshapes hbatch
  | unnest htyped hplan => exact expands_unnest lawful htyped hplan

end Steps

/-! ## Chains -/

variable (kernels) in
/-- Operators that read what the one before puts out, and the rows that they
make of one row together. -/
inductive TypedChain (isTrue : ArrowCell α → Bool) : List Shape →
    List (StreamOperator kernels) →
    (List (ArrowCell α) → List (List (ArrowCell α))) → Prop
  | nil {shapes : List Shape} :
      TypedChain isTrue shapes [] fun cells => [cells]
  | cons {shapes outShapes : List Shape} {operator : StreamOperator kernels}
      {operators : List (StreamOperator kernels)}
      {f rest : List (ArrowCell α) → List (List (ArrowCell α))}
      (hoperator : Typed kernels isTrue shapes operator outShapes f)
      (hoperators : TypedChain isTrue outShapes operators rest) :
      TypedChain isTrue shapes (operator :: operators)
        fun cells => (f cells).flatMap rest

theorem expandEvent_flatMap
    (f rest : List (ArrowCell α) → List (List (ArrowCell α))) :
    expandEvent (fun cells => (f cells).flatMap rest) =
      fun event => (expandEvent f event).flatMap (expandEvent rest) := by
  funext event
  cases event with
  | message message => rfl
  | row cells =>
      rw [expandEvent, expandEvent, List.flatMap_map, List.map_flatMap]
      rfl

theorem expandEvent_singleton :
    expandEvent (fun cells : List (ArrowCell α) => [cells]) =
      fun event => [event] := by
  funext event
  cases event with
  | message message => rfl
  | row cells => rfl

theorem TypedChain.chainExpands
    {isTrue : ArrowCell α → Bool} (lawful : kernels.Lawful isTrue)
    {shapes : List Shape} {operators : List (StreamOperator kernels)}
    {f : List (ArrowCell α) → List (List (ArrowCell α))}
    (h : TypedChain kernels isTrue shapes operators f) :
    ChainExpands StreamBatch.events
      (fun item : StreamBatch kernels => item.batch.shapes = shapes)
      (operators.map (StreamOperator.stage kernels)) (expandEvent f) := by
  induction h with
  | nil =>
      rw [expandEvent_singleton]
      exact .nil
  | cons hoperator _ ih =>
      rw [expandEvent_flatMap]
      refine .cons ?_ (hoperator.expands lawful) ih
      rintro batch ⟨⟩

/-- Wherever a chain is stopped, its output is an initial part of the input
with each row replaced by the rows it gives, and each message in its place; a
chain that does not fail has replaced all of them. -/
theorem stream_chain_events
    {isTrue : ArrowCell α → Bool} (lawful : kernels.Lawful isTrue)
    {shapes : List Shape} {operators : List (StreamOperator kernels)}
    {f : List (ArrowCell α) → List (List (ArrowCell α))}
    (htyped : TypedChain kernels isTrue shapes operators f)
    (items : List (StreamBatch kernels))
    (hitems : ∀ item ∈ items, item.batch.shapes = shapes) :
    (∀ outs, outs <+:
        (runChain (operators.map (StreamOperator.stage kernels)) items).1 →
      ∃ read, read <+: items ∧ outs.flatMap StreamBatch.events =
        (read.flatMap StreamBatch.events).flatMap (expandEvent f)) ∧
    ((runChain (operators.map (StreamOperator.stage kernels)) items).2 =
        none →
      (runChain (operators.map (StreamOperator.stage kernels))
          items).1.flatMap StreamBatch.events =
        (items.flatMap StreamBatch.events).flatMap (expandEvent f)) := by
  have hchain := htyped.chainExpands lawful
  exact ⟨fun outs hprefix => hchain.run_prefix hitems hprefix,
    fun hnone => hchain.run_complete hitems hnone⟩

end Model

end StreamOperators

end Streamling
