import Mathlib
import Streamling.Operators.Unnest
import Streamling.Support.ExceptLists

/-!
# What unnesting does to a row

The rows that one row gives, level by level, without any array.  Whenever the
operator returns, the rows of its batch are those that the rows of the input
give one after the other; nothing is shared between two rows.
-/

namespace Streamling

namespace Unnest

open ColumnRows (rows rows_flatMap rows_congr)
open ArrowCells ExceptLists

/-! ## The rows of one row -/

section Semantics

variable {α : Type}

/-- A column, or what an expression has expanded so far. -/
inductive Key where
  | column (i : ℕ)
  | temp (unnesting : ListUnnest)
  deriving DecidableEq, Repr

abbrev Row (α : Type) : Type := Key → ArrowCell α

def Row.ofCells (cells : List (ArrowCell α)) : Row α
  | .column i => cells[i]?.getD .null
  | .temp _ => .null

/-- Where a level finds the list of an expression. -/
def sourceKey (level : ℕ) (unnesting : ListUnnest) : Key :=
  if level = unnesting.depth then .column unnesting.indexInInputSchema
  else .temp unnesting

variable (preserveNulls : Bool) (unnests : List ListUnnest)

/-- How many rows a list asks for; a null asks for one if nulls are kept. -/
def cellLength : ArrowCell α → ℕ
  | .null => if preserveNulls then 1 else 0
  | cell => cell.items.length

/-- The length of the longest list of the row that is expanded at a level. -/
def rowLength (level : ℕ) (row : Row α) : ℕ :=
  ((unnests.filter fun unnesting => level ≤ unnesting.depth).map
    fun unnesting =>
      cellLength preserveNulls (row (sourceKey level unnesting))).foldl max 0

/-- The items of a list, with nulls up to a length. -/
def padded (n : ℕ) (cell : ArrowCell α) : List (ArrowCell α) :=
  cell.items ++ List.replicate (n - cell.items.length) .null

/-- What a row gives in one column: the lists that are expanded give their
items, and the columns of the batch are repeated. -/
def expandKey (level : ℕ) (row : Row α) : Key → List (ArrowCell α)
  | .column i =>
      List.replicate (rowLength preserveNulls unnests level row)
        (row (.column i))
  | .temp unnesting =>
      if unnesting ∈ unnests ∧ level ≤ unnesting.depth then
        padded (rowLength preserveNulls unnests level row)
          (row (sourceKey level unnesting))
      else
        List.replicate (rowLength preserveNulls unnests level row) .null

/-- The rows of a row at one level. -/
def unnestRow (level : ℕ) (row : Row α) : List (Row α) :=
  rows .null (rowLength preserveNulls unnests level row)
    (expandKey preserveNulls unnests level row)

def unnestRowLevels : ℕ → Row α → List (Row α)
  | 0, row => [row]
  | level + 1, row =>
      (unnestRow preserveNulls unnests (level + 1) row).flatMap
        (unnestRowLevels level)

/-- The number of levels. -/
def levelCount : ℕ :=
  (unnests.map ListUnnest.depth).foldr max 0

/-- The expansions of column `i` that have a level. -/
def expansionsOf (i : ℕ) : List ListUnnest :=
  unnests.dedup.filter fun unnesting =>
    unnesting.indexInInputSchema = i ∧ 0 < unnesting.depth

/-- The columns, each replaced by its expansions. -/
def collectKeys (n : ℕ) : List Key :=
  (List.range n).flatMap fun i =>
    match expansionsOf unnests i with
    | [] => [.column i]
    | expanded => expanded.map .temp

/-- The shape under a key after the last level. -/
def keyShape (shapes : List Shape) : Key → Shape
  | .column i => shapes[i]?.getD .leaf
  | .temp unnesting =>
      ((shapes[unnesting.indexInInputSchema]?).bind
        (Shape.peel unnesting.depth)).getD .leaf

/-- The cells of one column of the output. -/
def flattenCell (structColumns : Finset ℕ) (idx : ℕ) (shape : Shape)
    (cell : ArrowCell α) : List (ArrowCell α) :=
  if idx ∈ structColumns then
    (List.range shape.width).map fun i => cell.field i
  else [cell]

def outputRow (structColumns : Finset ℕ) (shapes : List Shape)
    (row : Row α) : List (ArrowCell α) :=
  (collectKeys unnests shapes.length).zipIdx.flatMap fun entry =>
    flattenCell structColumns entry.2 (keyShape shapes entry.1)
      (row entry.1)

/-- The rows that the operator makes of one row. -/
def unnestBatchRow (structColumns : Finset ℕ) (shapes : List Shape)
    (cells : List (ArrowCell α)) : List (List (ArrowCell α)) :=
  (unnestRowLevels preserveNulls unnests (levelCount unnests)
    (Row.ofCells cells)).map (outputRow unnests structColumns shapes)

/-- Every expression finds its lists. -/
def WellTyped (shapes : List Shape) : Prop :=
  ∀ unnesting ∈ unnests, 0 < unnesting.depth →
    ((shapes[unnesting.indexInInputSchema]?).bind
      (Shape.peel unnesting.depth)).isSome = true

instance (shapes : List Shape) : Decidable (WellTyped unnests shapes) :=
  inferInstanceAs (Decidable (∀ _ ∈ _, _ → _ = true))

end Semantics

/-! ## Each key of a row has the length of the row -/

section Lengths

variable {α : Type} {preserveNulls : Bool} {unnests : List ListUnnest}
  {level : ℕ}

theorem length_items_le_cellLength
    (preserveNulls : Bool) (cell : ArrowCell α) :
    cell.items.length ≤ cellLength preserveNulls cell := by
  cases cell with
  | null => exact Nat.zero_le _
  | leaf value => exact le_refl _
  | list items => exact le_refl _
  | struct valid fields => exact le_refl _

theorem le_foldl_max {n start : ℕ} {lengths : List ℕ}
    (h : n ∈ lengths ∨ n ≤ start) : n ≤ lengths.foldl max start := by
  induction lengths generalizing start with
  | nil =>
      rcases h with h | h
      · cases h
      · exact h
  | cons length lengths ih =>
      rw [List.foldl_cons]
      apply ih
      rcases h with h | h
      · rcases List.mem_cons.mp h with rfl | h
        · exact .inr (le_max_right _ _)
        · exact .inl h
      · exact .inr (h.trans (le_max_left _ _))

theorem length_padded {n : ℕ} {cell : ArrowCell α}
    (h : cell.items.length ≤ n) : (padded n cell).length = n := by
  rw [padded, List.length_append, List.length_replicate]
  omega

theorem mem_activeAt
    {unnesting : ListUnnest} :
    unnesting ∈ activeAt unnests level ↔
      unnesting ∈ unnests ∧ level ≤ unnesting.depth := by
  simp [activeAt]

theorem length_items_le_rowLength
    {unnesting : ListUnnest} (hactive : unnesting ∈ activeAt unnests level)
    (row : Row α) :
    (row (sourceKey level unnesting)).items.length ≤
      rowLength preserveNulls unnests level row := by
  refine (length_items_le_cellLength preserveNulls _).trans ?_
  apply le_foldl_max
  exact .inl (List.mem_map.mpr ⟨unnesting, hactive, rfl⟩)

theorem length_expandKey (row : Row α) (key : Key) :
    (expandKey preserveNulls unnests level row key).length =
      rowLength preserveNulls unnests level row := by
  cases key with
  | column i => exact List.length_replicate
  | temp unnesting =>
      by_cases hactive : unnesting ∈ unnests ∧ level ≤ unnesting.depth
      · rw [expandKey, if_pos hactive]
        exact length_padded
          (length_items_le_rowLength (mem_activeAt.mpr hactive) row)
      · rw [expandKey, if_neg hactive]
        exact List.length_replicate

end Lengths

/-! ## Cells of an array -/

section Cells

variable {α : Type}

theorem cellLength_spanCell
    (preserveNulls : Bool) {values : List (ArrowCell α)}
    {span : Option (ℕ × ℕ)}
    (h : ∀ start stop, span = some (start, stop) →
      start ≤ stop ∧ stop ≤ values.length) :
    cellLength preserveNulls (spanCell values span) =
      (span.map fun offsets => offsets.2 - offsets.1).getD
        (nullLength preserveNulls) := by
  have hlength := length_items_spanCell h
  rcases span with _ | ⟨start, stop⟩
  · rfl
  · exact hlength

theorem rowIndices_eq_ok
    {span : Option (ℕ × ℕ)} {n : ℕ} {indices : List (Option ℕ)}
    (h : rowIndices span n = .ok indices) :
    spanLength span ≤ n ∧
      indices = (span.elim [] fun offsets =>
          (List.range' offsets.1 (offsets.2 - offsets.1)).map some) ++
        List.replicate (n - spanLength span) none := by
  unfold rowIndices at h
  by_cases hslice : u32Max < spanLength span
  · rw [if_pos hslice] at h
    cases h
  rw [if_neg hslice] at h
  by_cases hnegative : n < spanLength span
  · rw [if_pos hnegative] at h
    cases h
  rw [if_neg hnegative] at h
  by_cases hpadding : u32Max < n - spanLength span
  · rw [if_pos hpadding] at h
    cases h
  rw [if_neg hpadding] at h
  exact ⟨not_lt.mp hnegative, (Except.ok.inj h).symm⟩

/-- The indices of a row take its list with nulls behind. -/
theorem takeCells_rowIndices
    {values : List (ArrowCell α)} {span : Option (ℕ × ℕ)} {n : ℕ}
    {indices : List (Option ℕ)}
    (h : ∀ start stop, span = some (start, stop) →
      start ≤ stop ∧ stop ≤ values.length)
    (hindices : rowIndices span n = .ok indices) :
    takeCells values indices = padded n (spanCell values span) := by
  obtain ⟨-, rfl⟩ := rowIndices_eq_ok hindices
  have hlength := length_items_spanCell h
  rcases span with _ | ⟨start, stop⟩
  · simp [spanCell, padded, ArrowCell.items, spanLength, takeCells]
  · obtain ⟨hle, hstop⟩ := h start stop rfl
    simp only [Option.elim_some, takeCells_append, takeCells_replicate,
      takeCells_range hle hstop, padded, hlength]
    rfl

theorem inRange_rowIndices
    {values : ℕ} {span : Option (ℕ × ℕ)} {n : ℕ}
    {indices : List (Option ℕ)}
    (h : ∀ start stop, span = some (start, stop) →
      start ≤ stop ∧ stop ≤ values)
    (hindices : rowIndices span n = .ok indices) :
    InRange values indices := by
  obtain ⟨-, rfl⟩ := rowIndices_eq_ok hindices
  intro i hi
  rcases List.mem_append.mp hi with hi | hi
  · rcases span with _ | ⟨start, stop⟩
    · cases hi
    · obtain ⟨hle, hstop⟩ := h start stop rfl
      obtain ⟨k, hk, heq⟩ := List.mem_map.mp hi
      have hrange := List.mem_range'_1.mp hk
      obtain rfl := Option.some.inj heq
      dsimp only at hrange
      omega
  · cases (List.mem_replicate.mp hi).2

end Cells

/-! ## Arrays by their rows -/

section Arrays

variable {κ α : Type} {kernels : Kernels κ α} {preserveNulls : Bool}

open Batch (cellAt)

theorem cells_eq_map_range
    {array : κ} {n : ℕ} (hlength : (kernels.cells array).length = n) :
    kernels.cells array =
      (List.range n).map fun i => cellAt kernels i array := by
  apply List.ext_getElem
  · simpa using hlength
  · intro i hi hi'
    simp [cellAt, hi]

/-- The fold that keeps the longer length of each row. -/
theorem foldl_longest
    {n : ℕ} (first : List ℕ) (rest : List (List ℕ))
    (hlength : ∀ lengths ∈ first :: rest, lengths.length = n) :
    rest.foldl
        (List.zipWith fun longest current =>
          if longest < current then current else longest)
        first =
      (List.range n).map fun i =>
        ((first :: rest).map fun lengths => lengths[i]?.getD 0).foldl
          max 0 := by
  induction rest generalizing first with
  | nil =>
      apply List.ext_getElem
      · simpa using hlength first List.mem_cons_self
      · intro i hi hi'
        have hi'' : i < first.length := by simpa using hi
        simp [hi'']
  | cons second rest ih =>
      have hfirst : first.length = n := hlength first List.mem_cons_self
      have hsecond : second.length = n :=
        hlength second (List.mem_cons_of_mem _ List.mem_cons_self)
      rw [List.foldl_cons, ih]
      · apply List.map_congr_left
        intro i hi
        have hin : i < n := List.mem_range.mp hi
        have h₁ : i < first.length := by omega
        have h₂ : i < second.length := by omega
        have hmax :
            (if first[i] < second[i] then second[i] else first[i]) =
              max first[i] second[i] := by
          rcases Nat.lt_or_ge first[i] second[i] with hlt | hge
          · rw [if_pos hlt, max_eq_right hlt.le]
          · rw [if_neg (Nat.not_lt.mpr hge), max_eq_left hge]
        simp only [List.map_cons, List.foldl_cons,
          List.getElem?_zipWith, List.getElem?_eq_getElem h₁,
          List.getElem?_eq_getElem h₂, Option.getD_some, hmax,
          Nat.zero_max]
      · intro lengths hmem
        rcases List.mem_cons.mp hmem with rfl | hmem
        · rw [List.length_zipWith, hfirst, hsecond, min_self]
        · exact hlength lengths
            (List.mem_cons_of_mem _ (List.mem_cons_of_mem _ hmem))

/-- An array of lists with `n` rows. -/
structure IsSource (kernels : Kernels κ α) (n : ℕ) (array : κ) : Prop where
  isList : ∃ item, kernels.shape array = .list item
  length_eq : (kernels.cells array).length = n

/-- The lengths of the lists of an array. -/
theorem length_source
    (lawful : kernels.Lawful) {array : κ} {item : Shape}
    (hlist : kernels.shape array = .list item) :
    (kernels.length array).map
        (·.map (·.getD (nullLength preserveNulls))) =
      .ok ((kernels.cells array).map (cellLength preserveNulls)) := by
  obtain ⟨values, spans, hlists, -⟩ := lawful.lists_shape hlist
  rw [lawful.length_lists hlists, lawful.lists_cells hlists]
  simp only [Except.map, List.map_map]
  congr 1
  apply List.map_congr_left
  intro span hspan
  refine (cellLength_spanCell preserveNulls ?_).symm
  rintro start stop rfl
  exact lawful.lists_bounds hlists start stop hspan

/-- The length of each row is that of its longest list. -/
theorem findLongestLength_eq
    (lawful : kernels.Lawful) {n : ℕ} {arrays : List κ}
    {lengths : List ℕ}
    (hsources : ∀ array ∈ arrays, IsSource kernels n array)
    (h : findLongestLength kernels preserveNulls arrays = .ok lengths) :
    lengths = (List.range n).map fun i =>
      (arrays.map fun array =>
        cellLength preserveNulls (cellAt kernels i array)).foldl max 0 := by
  have hlengths :
      (arrays.mapM fun array =>
        (kernels.length array).map
          (·.map (·.getD (nullLength preserveNulls)))) =
        .ok (arrays.map fun array =>
          (kernels.cells array).map (cellLength preserveNulls)) := by
    apply mapM_eq_ok_of_forall
    intro array hmem
    obtain ⟨item, hlist⟩ := (hsources array hmem).isList
    exact length_source lawful hlist
  unfold findLongestLength at h
  rw [hlengths] at h
  cases arrays with
  | nil => cases h
  | cons first rest =>
      obtain rfl := Except.ok.inj h
      rw [foldl_longest (n := n)]
      · apply List.map_congr_left
        intro i hi
        have hin : i < n := List.mem_range.mp hi
        congr 1
        simp only [← List.map_cons (f := fun array : κ =>
          (kernels.cells array).map (cellLength preserveNulls)),
          List.map_map]
        apply List.map_congr_left
        intro array hmem
        have hi' : i < (kernels.cells array).length := by
          rw [(hsources array hmem).length_eq]
          exact hin
        simp [cellAt, hi']
      · intro lengths hmem
        rw [← List.map_cons (f := fun array : κ =>
          (kernels.cells array).map (cellLength preserveNulls))] at hmem
        obtain ⟨array, harray, rfl⟩ := List.mem_map.mp hmem
        rw [List.length_map]
        exact (hsources array harray).length_eq

theorem takeIndices_cons_eq_ok
    {span : Option (ℕ × ℕ)} {spans : Spans} {n : ℕ} {lengths : List ℕ}
    {indices : List (Option ℕ)}
    (h : takeIndices (span :: spans) (n :: lengths) = .ok indices) :
    ∃ first rest, rowIndices span n = .ok first ∧
      takeIndices spans lengths = .ok rest ∧ indices = first ++ rest := by
  simp only [takeIndices] at h
  cases hrow : rowIndices span n with
  | error e =>
      rw [hrow] at h
      cases h
  | ok first =>
      cases hrest : takeIndices spans lengths with
      | error e =>
          rw [hrow, hrest] at h
          cases h
      | ok rest =>
          rw [hrow, hrest] at h
          exact ⟨first, rest, rfl, rfl, (Except.ok.inj h).symm⟩

/-- The taken cells of all rows, one row after the other. -/
theorem takeCells_takeIndices
    {values : List (ArrowCell α)} {spans : Spans} {lengths : List ℕ}
    {indices : List (Option ℕ)}
    (hbounds : ∀ start stop, some (start, stop) ∈ spans →
      start ≤ stop ∧ stop ≤ values.length)
    (h : takeIndices spans lengths = .ok indices) :
    InRange values.length indices ∧
      takeCells values indices =
        ((spans.map (spanCell values)).zip lengths).flatMap
          fun entry => padded entry.2 entry.1 := by
  induction spans generalizing lengths indices with
  | nil =>
      obtain rfl := Except.ok.inj h
      exact ⟨nofun, rfl⟩
  | cons span spans ih =>
      cases lengths with
      | nil =>
          obtain rfl := Except.ok.inj h
          exact ⟨nofun, rfl⟩
      | cons length lengths =>
          obtain ⟨first, rest, hrow, hrest, rfl⟩ := takeIndices_cons_eq_ok h
          have hspan : ∀ start stop, span = some (start, stop) →
              start ≤ stop ∧ stop ≤ values.length := by
            rintro start stop rfl
            exact hbounds start stop List.mem_cons_self
          obtain ⟨hrange, hcells⟩ := ih (fun start stop hmem =>
            hbounds start stop (List.mem_cons_of_mem _ hmem)) hrest
          refine ⟨?_, ?_⟩
          · intro i hi
            exact (List.mem_append.mp hi).elim
              (inRange_rowIndices hspan hrow i) (hrange i)
          · rw [takeCells_append, takeCells_rowIndices hspan hrow, hcells]
            rfl

theorem zip_map_range
    {β γ : Type} (n : ℕ) (f : ℕ → β) (g : ℕ → γ) :
    ((List.range n).map f).zip ((List.range n).map g) =
      (List.range n).map fun i => (f i, g i) :=
  List.zip_map'

/-- The expansion of an array of lists, row by row. -/
theorem cells_unnestListArray
    (lawful : kernels.Lawful) {n : ℕ} {array taken : κ}
    {lengths : ℕ → ℕ} (hsource : IsSource kernels n array)
    (h : unnestListArray kernels ((List.range n).map lengths) array =
      .ok taken) :
    kernels.cells taken =
      (List.range n).flatMap fun i =>
        padded (lengths i) (cellAt kernels i array) := by
  obtain ⟨item, hlist⟩ := hsource.isList
  obtain ⟨values, spans, hlists, -⟩ := lawful.lists_shape hlist
  unfold unnestListArray at h
  simp only [hlists] at h
  cases hindices : takeIndices spans ((List.range n).map lengths) with
  | error e =>
      rw [hindices] at h
      cases h
  | ok indices =>
      rw [hindices] at h
      obtain ⟨hrange, hcells⟩ :=
        takeCells_takeIndices (lawful.lists_bounds hlists) hindices
      rw [lawful.safeTake_cells hrange h, hcells,
        ← lawful.lists_cells hlists,
        cells_eq_map_range hsource.length_eq, zip_map_range,
        List.flatMap_map]

theorem zipIdx_map_range
    {β : Type} (n : ℕ) (f : ℕ → β) :
    ((List.range n).map f).zipIdx =
      (List.range n).map fun i => (f i, i) := by
  apply List.ext_getElem
  · simp
  · intro i hi hi'
    simp

theorem createTakeIndices_eq (n : ℕ) (lengths : ℕ → ℕ) :
    createTakeIndices ((List.range n).map lengths) =
      (List.range n).flatMap fun i =>
        List.replicate (lengths i) (some i) := by
  rw [createTakeIndices, zipIdx_map_range, List.flatMap_map]

theorem inRange_createTakeIndices (n : ℕ) (lengths : ℕ → ℕ) :
    InRange n (createTakeIndices ((List.range n).map lengths)) := by
  intro i hi
  rw [createTakeIndices_eq] at hi
  obtain ⟨row, hrow, hmem⟩ := List.mem_flatMap.mp hi
  obtain rfl := Option.some.inj (List.mem_replicate.mp hmem).2
  exact List.mem_range.mp hrow

theorem length_createTakeIndices (n : ℕ) (lengths : ℕ → ℕ) :
    (createTakeIndices ((List.range n).map lengths)).length =
      ((List.range n).map lengths).sum := by
  rw [createTakeIndices_eq, List.length_flatMap]
  simp

/-- A repeated column, row by row. -/
theorem takeCells_createTakeIndices
    (array : κ) (n : ℕ) (lengths : ℕ → ℕ) :
    takeCells (kernels.cells array)
        (createTakeIndices ((List.range n).map lengths)) =
      (List.range n).flatMap fun i =>
        List.replicate (lengths i) (cellAt kernels i array) := by
  rw [createTakeIndices_eq, takeCells_flatMap]
  apply List.flatMap_congr
  intro i _
  rw [takeCells_replicate]
  rfl

theorem replicate_sum
    {β : Type} (parts : List ℕ) (x : β) :
    List.replicate parts.sum x =
      parts.flatMap fun n => List.replicate n x := by
  induction parts with
  | nil => rfl
  | cons n parts ih =>
      rw [List.sum_cons, List.replicate_add, ih, List.flatMap_cons]

/-- A blanked column, row by row. -/
theorem cells_newNullArray_range
    (lawful : kernels.Lawful) (array : κ) (n : ℕ) (lengths : ℕ → ℕ) :
    kernels.cells (kernels.newNullArray array
        (createTakeIndices ((List.range n).map lengths)).length) =
      (List.range n).flatMap fun i =>
        List.replicate (lengths i) .null := by
  rw [lawful.newNullArray_cells, length_createTakeIndices, replicate_sum,
    List.flatMap_map]

end Arrays

end Unnest

end Streamling
