import Mathlib.Data.List.Pairwise
import Mathlib.Order.Lattice

/-!
# Consecutive half-open intervals

A list of intervals tiles `[lo, hi)` when each interval starts where the one
before it ends, the first at `lo` and the last ending at `hi`.  The intervals
of a tiling are in order, do not overlap and leave no gap.
-/

namespace Tiling

variable {α : Type*} [LinearOrder α]

/-- The intervals `tiles`, read as half-open, follow each other from `lo` to
`hi`; none of them is empty. -/
def Tiles (lo : α) : List (α × α) → α → Prop
  | [], hi => lo = hi
  | (a, b) :: tiles, hi => a = lo ∧ a < b ∧ Tiles b tiles hi

/-- Some tile contains the point. -/
def Covered (tiles : List (α × α)) (x : α) : Prop :=
  ∃ tile ∈ tiles, tile.1 ≤ x ∧ x < tile.2

/-- A tiling is extended at its end by an interval that starts there. -/
theorem Tiles.snoc
    {lo mid hi : α} {tiles : List (α × α)}
    (h : Tiles lo tiles mid) (hlt : mid < hi) :
    Tiles lo (tiles ++ [(mid, hi)]) hi := by
  induction tiles generalizing lo with
  | nil =>
      obtain rfl : lo = mid := h
      exact ⟨rfl, hlt, rfl⟩
  | cons tile tiles ih =>
      obtain ⟨hstart, hne, hrest⟩ := h
      exact ⟨hstart, hne, ih hrest⟩

theorem Tiles.le
    {lo hi : α} {tiles : List (α × α)} (h : Tiles lo tiles hi) :
    lo ≤ hi := by
  induction tiles generalizing lo with
  | nil => exact le_of_eq h
  | cons tile tiles ih =>
      obtain ⟨hstart, hne, hrest⟩ := h
      rw [← hstart]
      exact le_trans (le_of_lt hne) (ih hrest)

/-- There is no gap: exactly the points from `lo` to before `hi` are in a
tile. -/
theorem Tiles.covered_iff
    {lo hi x : α} {tiles : List (α × α)} (h : Tiles lo tiles hi) :
    Covered tiles x ↔ lo ≤ x ∧ x < hi := by
  induction tiles generalizing lo with
  | nil =>
      obtain rfl : lo = hi := h
      simp [Covered]
  | cons tile tiles ih =>
      obtain ⟨rfl, hne, hrest⟩ := h
      have hsplit : Covered (tile :: tiles) x ↔
          (tile.1 ≤ x ∧ x < tile.2) ∨ Covered tiles x := by
        simp [Covered]
      rw [hsplit, ih hrest]
      constructor
      · rintro (⟨hlo, hhi⟩ | ⟨hlo, hhi⟩)
        · exact ⟨hlo, lt_of_lt_of_le hhi hrest.le⟩
        · exact ⟨le_trans (le_of_lt hne) hlo, hhi⟩
      · rintro ⟨hlo, hhi⟩
        rcases lt_or_ge x tile.2 with hx | hx
        · exact .inl ⟨hlo, hx⟩
        · exact .inr ⟨hx, hhi⟩

theorem Tiles.start_le_of_mem
    {lo hi : α} {tiles : List (α × α)} (h : Tiles lo tiles hi)
    {tile : α × α} (hmem : tile ∈ tiles) : lo ≤ tile.1 := by
  induction tiles generalizing lo with
  | nil => simp at hmem
  | cons first tiles ih =>
      obtain ⟨rfl, hne, hrest⟩ := h
      rcases List.mem_cons.mp hmem with rfl | htail
      · exact le_rfl
      · exact le_trans (le_of_lt hne) (ih hrest htail)

/-- There is no overlap: a tile ends before every later tile starts. -/
theorem Tiles.pairwise
    {lo hi : α} {tiles : List (α × α)} (h : Tiles lo tiles hi) :
    tiles.Pairwise fun earlier later => earlier.2 ≤ later.1 := by
  induction tiles generalizing lo with
  | nil => exact List.Pairwise.nil
  | cons tile tiles ih =>
      obtain ⟨-, -, hrest⟩ := h
      exact List.pairwise_cons.mpr
        ⟨fun later hlater => hrest.start_le_of_mem hlater, ih hrest⟩

end Tiling
