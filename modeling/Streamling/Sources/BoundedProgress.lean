import Mathlib
import Streamling.Support.Coalesce
import Streamling.Sources.FileProgress

/-!
# The progress of a bounded scan

The files of a bounded scan that were committed are kept as ranges of paths.
Ranges are merged over the listing, so that a few of them stand for many
files, and a listed path is covered exactly if it was committed or covered at
the start.
-/

namespace Streamling

namespace FileSource

/-- An inclusive range of paths. -/
abbrev PathRange := Coalesce.Span String

structure BoundedProgress where
  completed : List PathRange
  deriving DecidableEq

def BoundedProgress.covers (p : BoundedProgress) (path : String) : Bool :=
  p.completed.any fun range => range.Contains path

/-- The index of the first element that does not satisfy the predicate, in a
list that has those that do in front. -/
def partitionPoint {α : Type*} (pred : α → Bool) (l : List α) : ℕ :=
  (l.takeWhile pred).length

/-- Whether the sorted listing holds a path strictly between two paths. -/
def listsPathBetween (listing : List String) (low high : String) : Bool :=
  let afterLow := partitionPoint (fun path => decide (path ≤ low)) listing
  listing[afterLow]?.any fun path => decide (path < high)

/-- Sort the ranges and merge those that overlap or have no listed path
between them. -/
def coalesceRanges (ranges : List PathRange) (listing : List String) :
    List PathRange :=
  Coalesce.coalesce (listsPathBetween listing) ranges

structure RangeProgress where
  listing : List String
  progress : BoundedProgress

namespace RangeProgress

def new (listing : List String) (persisted : BoundedProgress) :
    RangeProgress :=
  ⟨listing, persisted⟩

def commit (p : RangeProgress) (files : List FileKey) :
    RangeProgress × BoundedProgress :=
  let completed := p.progress.completed ++
    files.map fun file => Coalesce.Span.single file.path
  let progress := ⟨coalesceRanges completed p.listing⟩
  ({ p with progress := progress }, progress)

/-- The progress after several commits. -/
def commitAll (p : RangeProgress) (commits : List (List FileKey)) :
    RangeProgress :=
  commits.foldl (fun p files => (p.commit files).1) p

end RangeProgress

/-! ## The binary search -/

theorem getElem?_partitionPoint
    {α : Type*} (pred : α → Bool) (l : List α) :
    l[partitionPoint pred l]? = (l.dropWhile pred).head? := by
  induction l with
  | nil => rfl
  | cons a l ih =>
      by_cases h : pred a = true
      · simpa [partitionPoint, h] using ih
      · simp [partitionPoint, h]

theorem listsPathBetween_iff
    {listing : List String} (hsorted : listing.Pairwise (· ≤ ·))
    (low high : String) :
    listsPathBetween listing low high = true ↔
      ∃ path, path ∈ listing ∧ low < path ∧ path < high := by
  let below (path : String) : Bool := decide (path ≤ low)
  have hsplit : listing.takeWhile below ++ listing.dropWhile below = listing :=
    List.takeWhile_append_dropWhile
  have hfront : ∀ path ∈ listing.takeWhile below, path ≤ low := by
    intro path hpath
    have hbelow : below path = true := List.mem_takeWhile_imp hpath
    exact of_decide_eq_true hbelow
  have hget := getElem?_partitionPoint below listing
  change (listing[partitionPoint below listing]?.any _ = true) ↔ _
  rw [hget]
  cases hback : listing.dropWhile below with
  | nil =>
      simp only [List.head?_nil, Option.any_none, Bool.false_eq_true,
        false_iff, not_exists, not_and]
      intro path hpath hlow
      rw [← hsplit, hback, List.append_nil] at hpath
      exact absurd (hfront path hpath) (not_le.mpr hlow)
  | cons first rest =>
      have hfirst : ¬ first ≤ low := by
        have hnot := List.head?_dropWhile_not below listing
        rw [hback] at hnot
        simpa [below] using hnot
      rw [List.head?_cons, Option.any_some, decide_eq_true_eq]
      constructor
      · intro hhigh
        refine ⟨first, ?_, not_le.mp hfirst, hhigh⟩
        rw [← hsplit, hback]
        simp
      · rintro ⟨path, hpath, hlow, hhigh⟩
        rw [← hsplit, hback] at hpath hsorted
        rcases List.mem_append.mp hpath with hpath | hpath
        · exact absurd (hfront path hpath) (not_le.mpr hlow)
        · rcases List.mem_cons.mp hpath with rfl | hpath
          · exact hhigh
          · have htail := (List.pairwise_append.mp hsorted).2.1
            have hle := (List.pairwise_cons.mp htail).1 path hpath
            exact hle.trans_lt hhigh

/-! ## Exact progress -/

section Commits

variable {listing : List String} (hsorted : listing.Pairwise (· ≤ ·))

/-- The files of a commit, as ranges. -/
def fileRanges (files : List FileKey) : List PathRange :=
  files.map fun file => Coalesce.Span.single file.path

include hsorted

theorem isCoalesced_coalesceRanges
    (ranges : List PathRange) :
    Coalesce.IsCoalesced (· ∈ listing) ranges
      (coalesceRanges ranges listing) :=
  Coalesce.isCoalesced_coalesce (listsPathBetween_iff hsorted) ranges

end Commits

theorem listing_commitAll
    (p : RangeProgress) (commits : List (List FileKey)) :
    (p.commitAll commits).listing = p.listing := by
  unfold RangeProgress.commitAll
  induction commits generalizing p with
  | nil => rfl
  | cons files commits ih => exact ih _

/-- The listed paths that a file covers. -/
theorem contains_fileRanges
    (files : List FileKey) {path : String} :
    (∃ range ∈ fileRanges files, range.Contains path) ↔
      ∃ file ∈ files, file.path = path := by
  constructor
  · rintro ⟨range, hrange, hcontains⟩
    obtain ⟨file, hfile, rfl⟩ := List.mem_map.mp hrange
    exact ⟨file, hfile, le_antisymm hcontains.1 hcontains.2⟩
  · rintro ⟨file, hfile, rfl⟩
    exact ⟨_, List.mem_map_of_mem hfile, le_refl _, le_refl _⟩

/-- One commit covers the listed paths covered before and its files. -/
theorem commit_covers_iff
    {p : RangeProgress} (hsorted : p.listing.Pairwise (· ≤ ·))
    (files : List FileKey) {path : String} (hpath : path ∈ p.listing) :
    (p.commit files).2.covers path = true ↔
      p.progress.covers path = true ∨ ∃ file ∈ files, file.path = path := by
  have hcovers := (isCoalesced_coalesceRanges hsorted
    (p.progress.completed ++ fileRanges files)).covers_iff hpath
  have hany (b : BoundedProgress) : b.covers path = true ↔
      ∃ range ∈ b.completed, range.Contains path := by
    simp [BoundedProgress.covers]
  rw [hany, hany]
  refine hcovers.trans ?_
  rw [← contains_fileRanges files]
  simp only [List.mem_append, or_and_right, exists_or]

theorem commitAll_covers_iff
    {p : RangeProgress} (hsorted : p.listing.Pairwise (· ≤ ·))
    (commits : List (List FileKey)) {path : String} (hpath : path ∈ p.listing) :
    (p.commitAll commits).progress.covers path = true ↔
      p.progress.covers path = true ∨
        ∃ file ∈ commits.flatten, file.path = path := by
  induction commits generalizing p with
  | nil => simp [RangeProgress.commitAll]
  | cons files commits ih =>
      have hstep : p.commitAll (files :: commits) =
          (p.commit files).1.commitAll commits := rfl
      have hcommit : (p.commit files).1.progress = (p.commit files).2 := rfl
      rw [hstep, ih (p := (p.commit files).1) hsorted hpath, hcommit,
        commit_covers_iff hsorted files hpath, List.flatten_cons]
      simp only [List.mem_append, or_and_right, exists_or, or_assoc]

/-- Committing the same files again changes nothing. -/
theorem commit_commit
    {p : RangeProgress} (hsorted : p.listing.Pairwise (· ≤ ·))
    (files : List FileKey) :
    (p.commit files).1.commit files = p.commit files := by
  have hcoalesced := isCoalesced_coalesceRanges hsorted
    (p.progress.completed ++ fileRanges files)
  have hinside : ∀ s ∈ fileRanges files,
      ∃ r ∈ coalesceRanges (p.progress.completed ++ fileRanges files)
        p.listing, s.Inside r :=
    fun s hs => hcoalesced.inside s (List.mem_append_right _ hs)
  have hagain : coalesceRanges
      (coalesceRanges (p.progress.completed ++ fileRanges files) p.listing ++
        fileRanges files) p.listing =
      coalesceRanges (p.progress.completed ++ fileRanges files) p.listing :=
    Coalesce.coalesce_append_inside (listsPathBetween_iff hsorted) hcoalesced
      hinside
  exact congrArg
    (fun ranges => (RangeProgress.mk p.listing ⟨ranges⟩,
      BoundedProgress.mk ranges)) hagain

/-- After every commit exactly the listed paths are covered that were covered
at the start or committed since; the ranges are sorted and disjoint with a
listed path between neighbours, and committing the same files again changes
nothing. -/
theorem bounded_progress_exact
    (listing : List String) (hsorted : listing.Pairwise (· ≤ ·))
    (initial : List PathRange) (commits : List (List FileKey))
    (files : List FileKey) :
    let p := (RangeProgress.new listing ⟨initial⟩).commitAll commits
    let result := (p.commit files).2
    (∀ path ∈ listing, result.covers path = true ↔
      (∃ range ∈ initial, range.Contains path) ∨
        ∃ file ∈ commits.flatten ++ files, file.path = path) ∧
    result.completed.Pairwise (fun a b => a.last < b.first) ∧
    result.completed.IsChain (fun a b =>
      ∃ path, path ∈ listing ∧ a.last < path ∧ path < b.first) ∧
    (p.commit files).1.commit files = p.commit files := by
  intro p result
  have hlisting : p.listing = listing := listing_commitAll _ commits
  have hsorted' : p.listing.Pairwise (· ≤ ·) := hlisting.symm ▸ hsorted
  have hcoalesced := isCoalesced_coalesceRanges hsorted'
    (p.progress.completed ++ fileRanges files)
  refine ⟨?_, hcoalesced.sorted, ?_, commit_commit hsorted' files⟩
  · intro path hpath
    have hstart : (BoundedProgress.mk initial).covers path = true ↔
        ∃ range ∈ initial, range.Contains path := by
      simp [BoundedProgress.covers]
    have hbefore := commitAll_covers_iff
      (p := RangeProgress.new listing ⟨initial⟩) hsorted commits hpath
    refine (commit_covers_iff hsorted' files (hlisting.symm ▸ hpath)).trans ?_
    rw [hbefore]
    change ((BoundedProgress.mk initial).covers path = true ∨ _) ∨ _ ↔ _
    rw [hstart]
    simp only [List.mem_append, or_and_right, exists_or, or_assoc]
  · rw [← hlisting]
    exact hcoalesced.separated

/-- Two files on either side of a listed one that was not committed. -/
theorem bounded_progress_exact_apart :
    let p := (RangeProgress.new ["a", "b", "c"]
      ⟨[Coalesce.Span.single "c"]⟩).commitAll [[]]
    let result := (p.commit [⟨0, "a"⟩]).2
    (∀ path ∈ ["a", "b", "c"], result.covers path = true ↔
      (∃ range ∈ [Coalesce.Span.single "c"], range.Contains path) ∨
        ∃ file ∈ [[]].flatten ++ [FileKey.mk 0 "a"], file.path = path) ∧
    result.completed.Pairwise (fun a b => a.last < b.first) ∧
    result.completed.IsChain (fun a b =>
      ∃ path, path ∈ ["a", "b", "c"] ∧ a.last < path ∧ path < b.first) ∧
    (p.commit [⟨0, "a"⟩]).1.commit [⟨0, "a"⟩] = p.commit [⟨0, "a"⟩] :=
  bounded_progress_exact ["a", "b", "c"] (by decide)
    [Coalesce.Span.single "c"] [[]] [⟨0, "a"⟩]

end FileSource

end Streamling
