import Mathlib

/-!
# Tables by columns and by rows

A table given by its columns, each a list of cells under a key, read as the
list of its rows.  Columns that are put together part by part have the rows
of the parts in the same order.
-/

namespace Streamling

namespace ColumnRows

variable {K α : Type*}

/-- The first `n` rows of a table; a missing cell is `missing`. -/
def rows (missing : α) (n : ℕ) (table : K → List α) : List (K → α) :=
  (List.range n).map fun i key => (table key)[i]?.getD missing

section Rows

variable {missing : α}

@[simp] theorem length_rows (n : ℕ) (table : K → List α) :
    (rows missing n table).length = n := by
  simp [rows]

@[simp] theorem rows_zero (table : K → List α) :
    rows missing 0 table = [] := rfl

theorem rows_congr
    {n : ℕ} {table other : K → List α}
    (h : ∀ key, ∀ i < n,
      (table key)[i]?.getD missing = (other key)[i]?.getD missing) :
    rows missing n table = rows missing n other := by
  apply List.map_congr_left
  intro i hi
  funext key
  exact h key i (List.mem_range.mp hi)

theorem rows_append
    {n m : ℕ} {front back : K → List α}
    (h : ∀ key, (front key).length = n) :
    rows missing (n + m) (fun key => front key ++ back key) =
      rows missing n front ++ rows missing m back := by
  simp only [rows, List.range_add, List.map_append, List.map_map]
  congr 1
  · apply List.map_congr_left
    intro i hi
    funext key
    rw [List.getElem?_append_left (by rw [h key]; exact List.mem_range.mp hi)]
  · apply List.map_congr_left
    intro i _
    funext key
    have hle : (front key).length ≤ n + i := by
      rw [h key]
      exact Nat.le_add_right n i
    simp only [Function.comp_apply]
    rw [List.getElem?_append_right hle, h key, Nat.add_sub_cancel_left]

/-- Columns made of one part for each element of a list. -/
theorem rows_flatMap
    {ι : Type*} (parts : List ι) (size : ι → ℕ) {part : K → ι → List α}
    (h : ∀ key, ∀ x ∈ parts, (part key x).length = size x) :
    rows missing (parts.map size).sum
        (fun key => parts.flatMap (part key)) =
      parts.flatMap fun x =>
        rows missing (size x) fun key => part key x := by
  induction parts with
  | nil => rfl
  | cons x parts ih =>
      have hrest : ∀ key, ∀ y ∈ parts, (part key y).length = size y :=
        fun key y hy => h key y (List.mem_cons_of_mem _ hy)
      simp only [List.map_cons, List.sum_cons, List.flatMap_cons]
      rw [rows_append fun key => h key x List.mem_cons_self, ih hrest]

end Rows

end ColumnRows

end Streamling
