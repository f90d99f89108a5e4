import Mathlib
import Streamling.Types.ArrowTree

/-!
# The cells of Arrow arrays

What the rows of an array hold, whatever its layout: a value, a list of cells,
or the fields of a struct.
-/

namespace Streamling

namespace ArrowCells

open ArrowTree (FieldMetadata WideType)

/-! ## Cells -/

/-- One cell of an array.  A null struct may still have fields below it. -/
inductive ArrowCell (α : Type) where
  | null
  | leaf (value : α)
  | list (items : List (ArrowCell α))
  | struct (valid : Bool) (fields : List (ArrowCell α))

namespace ArrowCell

variable {α : Type}

def items : ArrowCell α → List (ArrowCell α)
  | list items => items
  | _ => []

def field (i : ℕ) : ArrowCell α → ArrowCell α
  | struct _ fields => fields[i]?.getD null
  | _ => null

def isNull : ArrowCell α → Bool
  | null => true
  | struct valid _ => !valid
  | _ => false

end ArrowCell

/-- How lists and structs are nested in an array. -/
inductive Shape where
  | leaf
  | list (item : Shape)
  | struct (children : List Shape)

/-- The shape below `depth` lists. -/
def Shape.peel : ℕ → Shape → Option Shape
  | 0, shape => some shape
  | depth + 1, .list item => item.peel depth
  | _ + 1, _ => none

theorem Shape.peel_add (j k : ℕ) (shape : Shape) :
    shape.peel (j + k) = (shape.peel j).bind (Shape.peel k) := by
  induction j generalizing shape with
  | zero => rw [Nat.zero_add]; rfl
  | succ j ih =>
      rw [Nat.succ_add]
      cases shape with
      | leaf => rfl
      | struct children => rfl
      | list item => exact ih item

/-- How many columns a struct is flattened to. -/
def Shape.width : Shape → ℕ
  | .struct children => children.length
  | _ => 0

/-- The shapes of the columns that a struct is flattened to. -/
def Shape.children : Shape → List Shape
  | .struct children => children
  | _ => []

/-- A field without its type, but for an extension of it. -/
structure FieldLabel where
  name : String
  nullable : Bool
  metadata : FieldMetadata
  extension : Option WideType
  deriving DecidableEq

/-- The first and the last offset of each list, or none for a null. -/
abbrev Spans : Type := List (Option (ℕ × ℕ))

def spanLength (span : Option (ℕ × ℕ)) : ℕ :=
  span.elim 0 fun offsets => offsets.2 - offsets.1

/-- The cell of a list from its offsets. -/
def spanCell {α : Type} (values : List (ArrowCell α)) :
    Option (ℕ × ℕ) → ArrowCell α
  | none => .null
  | some (start, stop) => .list ((values.drop start).take (stop - start))

/-- The cells that are taken by index, a null index giving a null. -/
def takeCells {α : Type} (values : List (ArrowCell α))
    (indices : List (Option ℕ)) : List (ArrowCell α) :=
  indices.map fun index => (index.bind (values[·]?)).getD .null

/-! ## Cells taken by index -/

section Take

variable {α : Type}

/-- The indices are those of `n` rows, or null. -/
def InRange (n : ℕ) (indices : List (Option ℕ)) : Prop :=
  ∀ i, some i ∈ indices → i < n

@[simp] theorem length_takeCells
    (values : List (ArrowCell α)) (indices : List (Option ℕ)) :
    (takeCells values indices).length = indices.length := by
  simp [takeCells]

theorem takeCells_append
    (values : List (ArrowCell α)) (front back : List (Option ℕ)) :
    takeCells values (front ++ back) =
      takeCells values front ++ takeCells values back :=
  List.map_append

theorem takeCells_flatMap
    {ι : Type} (values : List (ArrowCell α)) (parts : List ι)
    (indices : ι → List (Option ℕ)) :
    takeCells values (parts.flatMap indices) =
      parts.flatMap fun x => takeCells values (indices x) := by
  simp only [takeCells, List.map_flatMap]

theorem takeCells_replicate
    (values : List (ArrowCell α)) (n : ℕ) (index : Option ℕ) :
    takeCells values (List.replicate n index) =
      List.replicate n ((index.bind (values[·]?)).getD .null) := by
  simp [takeCells]

/-- Consecutive indices take a part of the values. -/
theorem takeCells_range
    {values : List (ArrowCell α)} {start stop : ℕ}
    (hle : start ≤ stop) (hstop : stop ≤ values.length) :
    takeCells values ((List.range' start (stop - start)).map some) =
      (values.drop start).take (stop - start) := by
  apply List.ext_getElem
  · simp only [length_takeCells, List.length_map, List.length_range',
      List.length_take, List.length_drop]
    omega
  · intro i hi hi'
    have hlt : i < stop - start := by
      simpa [takeCells] using hi
    have hin : start + i < values.length := by omega
    simp [takeCells, hin]

/-- The cell of a list has as many items as its offsets span. -/
theorem length_items_spanCell
    {values : List (ArrowCell α)} {span : Option (ℕ × ℕ)}
    (h : ∀ start stop, span = some (start, stop) →
      start ≤ stop ∧ stop ≤ values.length) :
    (spanCell values span).items.length = spanLength span := by
  rcases span with _ | ⟨start, stop⟩
  · rfl
  · obtain ⟨hle, hstop⟩ := h start stop rfl
    simp only [spanCell, ArrowCell.items, spanLength, Option.elim_some,
      List.length_take, List.length_drop]
    omega

end Take

end ArrowCells

end Streamling
