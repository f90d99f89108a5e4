import Streamling.Sources.FileWatermark

/-!
# What the watermark of the continuous file source never skips

The outstanding files are not covered by the watermark and are at or after
its time, so folding them in order never moves it back and never passes a
file that has not committed.  A file in flight therefore stays unknown to
every watermark that is returned, through any number of restarts whose first
listing still contains it; a committed file stays known.
-/

namespace Streamling

namespace FileSource

namespace FileWatermark

theorem covers_iff {w : FileWatermark} {key : FileKey} :
    w.covers key = true ↔
      key.lastModifiedMs < w.lastModifiedMs ∨
        key.lastModifiedMs = w.lastModifiedMs ∧
          key.path ∈ w.boundaryPaths := by
  simp [covers]

/-- A restart from the watermark would skip the file. -/
def Knows (w : FileWatermark) (key : FileKey) : Prop :=
  w.covers key = true ∨ key ∈ w.committedAhead

/-- The files carried ahead are outstanding: at or after the time of the
watermark, and not covered by it. -/
def WellFormed (w : FileWatermark) : Prop :=
  ∀ key ∈ w.committedAhead,
    w.lastModifiedMs ≤ key.lastModifiedMs ∧ w.covers key = false

theorem wellFormed_initial : initial.WellFormed := by
  simp [WellFormed, initial]

end FileWatermark

/-! ## Folding a file -/

section Fold

variable {w : FileWatermark} {entry : FileKey × Bool}

theorem lastModifiedMs_fold :
    (WatermarkProgress.fold w entry).lastModifiedMs =
      entry.1.lastModifiedMs := by
  unfold WatermarkProgress.fold advanceWatermark
  split
  · rename_i heq
    exact heq.symm
  · rfl

theorem covers_fold_self :
    (WatermarkProgress.fold w entry).covers entry.1 = true := by
  rw [FileWatermark.covers_iff, lastModifiedMs_fold]
  refine Or.inr ⟨rfl, ?_⟩
  unfold WatermarkProgress.fold advanceWatermark
  split <;> simp

theorem covers_fold_of_covers
    (hle : w.lastModifiedMs ≤ entry.1.lastModifiedMs) {key : FileKey}
    (h : w.covers key = true) :
    (WatermarkProgress.fold w entry).covers key = true := by
  rw [FileWatermark.covers_iff] at h ⊢
  rw [lastModifiedMs_fold]
  rcases h with hlt | ⟨heq, hmem⟩
  · exact Or.inl (lt_of_lt_of_le hlt hle)
  · by_cases hms : entry.1.lastModifiedMs = w.lastModifiedMs
    · right
      refine ⟨heq.trans hms.symm, ?_⟩
      unfold WatermarkProgress.fold advanceWatermark
      rw [if_pos hms]
      exact List.mem_union_left hmem _
    · left
      omega

/-- Folding a file does not cover any file after it. -/
theorem not_covers_fold
    {key : FileKey} (hlt : entry.1 < key) (h : w.covers key = false) :
    (WatermarkProgress.fold w entry).covers key = false := by
  rw [Bool.eq_false_iff] at h ⊢
  intro hcovers
  rw [FileWatermark.covers_iff, lastModifiedMs_fold] at hcovers
  have hle := FileKey.lastModifiedMs_le_of_lt hlt
  rcases hcovers with hms | ⟨hms, hmem⟩
  · omega
  · -- at the same time the path is another one
    have hpath : key.path ≠ entry.1.path := by
      intro hpath
      have heq : key = entry.1 := by
        cases key
        simp_all
      exact absurd heq (ne_of_gt hlt)
    unfold WatermarkProgress.fold advanceWatermark at hmem
    split at hmem
    · rename_i hsame
      rcases List.mem_union_iff.mp hmem with hold | hnew
      · exact h (FileWatermark.covers_iff.mpr
          (Or.inr ⟨hms.trans hsame, hold⟩))
      · exact hpath (by simpa using hnew)
    · exact hpath (by simpa using hmem)

end Fold

/-- What folding the files of `front`, the first of the outstanding ones,
does to the watermark. -/
structure Folded (w w' : FileWatermark)
    (front back : List (FileKey × Bool)) : Prop where
  le : w.lastModifiedMs ≤ w'.lastModifiedMs
  covers_of_covers : ∀ key, w.covers key = true → w'.covers key = true
  covers_front : ∀ entry ∈ front, w'.covers entry.1 = true
  above : ∀ entry ∈ back, w'.lastModifiedMs ≤ entry.1.lastModifiedMs
  not_covers : ∀ entry ∈ back, w'.covers entry.1 = false

theorem folded_foldl
    {w : FileWatermark} {front back : List (FileKey × Bool)}
    (hsorted : (front ++ back).Pairwise fun a b => a.1 < b.1)
    (habove : ∀ entry ∈ front ++ back,
      w.lastModifiedMs ≤ entry.1.lastModifiedMs)
    (hfresh : ∀ entry ∈ front ++ back, w.covers entry.1 = false) :
    Folded w (front.foldl WatermarkProgress.fold w) front back := by
  induction front generalizing w with
  | nil =>
      exact ⟨le_refl _, fun _ h => h, by simp, by simpa using habove,
        by simpa using hfresh⟩
  | cons first front ih =>
      have hfirst := habove first (by simp)
      obtain ⟨hlater, hrest⟩ := List.pairwise_cons.mp hsorted
      have hfolded : Folded (WatermarkProgress.fold w first)
          (front.foldl WatermarkProgress.fold
            (WatermarkProgress.fold w first)) front back := by
        apply ih hrest
        · intro entry hentry
          rw [lastModifiedMs_fold]
          exact FileKey.lastModifiedMs_le_of_lt (hlater entry hentry)
        · intro entry hentry
          exact not_covers_fold (hlater entry hentry)
            (hfresh entry (List.mem_cons_of_mem _ hentry))
      refine ⟨?_, ?_, ?_, hfolded.above, hfolded.not_covers⟩
      · have hle := hfolded.le
        rw [lastModifiedMs_fold] at hle
        exact le_trans hfirst hle
      · intro key hkey
        exact hfolded.covers_of_covers key
          (covers_fold_of_covers hfirst hkey)
      · intro entry hentry
        rcases List.mem_cons.mp hentry with rfl | hentry
        · exact hfolded.covers_of_covers _ covers_fold_self
        · exact hfolded.covers_front entry hentry

namespace WatermarkProgress

/-! ## The invariant of a run -/

/-- The outstanding files are not covered and not before the watermark. -/
structure Inv (p : WatermarkProgress) : Prop where
  above : ∀ key committed, p.outstanding.find? key = some committed →
    p.committed.lastModifiedMs ≤ key.lastModifiedMs
  fresh : ∀ key committed, p.outstanding.find? key = some committed →
    p.committed.covers key = false

/-- The run will not read the file: it is covered, or outstanding and
committed. -/
def Knows (p : WatermarkProgress) (key : FileKey) : Prop :=
  p.committed.covers key = true ∨ p.outstanding.find? key = some true

/-- A file being read is not known. -/
theorem Inv.not_knows
    {p : WatermarkProgress} (h : p.Inv) {key : FileKey}
    (hflight : p.outstanding.find? key = some false) : ¬ p.Knows key := by
  rintro (hcovers | hcommitted)
  · simp [h.fresh key false hflight] at hcovers
  · simp [hflight] at hcommitted

theorem knows_toWatermark_iff {p : WatermarkProgress} {key : FileKey} :
    p.toWatermark.Knows key ↔ p.Knows key := by
  have hahead : key ∈ p.toWatermark.committedAhead ↔
      p.outstanding.find? key = some true := by
    rw [OrderedMap.find?_eq_some_iff]
    simp [toWatermark]
  have hcovers : p.toWatermark.covers key = p.committed.covers key := rfl
  rw [FileWatermark.Knows, Knows, hahead, hcovers]

theorem Inv.wellFormed_toWatermark
    {p : WatermarkProgress} (h : p.Inv) : p.toWatermark.WellFormed := by
  intro key hkey
  have hfind : p.outstanding.find? key = some true := by
    rw [OrderedMap.find?_eq_some_iff]
    simpa [toWatermark] using hkey
  exact ⟨h.above key true hfind, h.fresh key true hfind⟩

/-! ## Starting a run -/

theorem find?_new (w : FileWatermark) (key : FileKey) :
    (new w).outstanding.find? key =
      if key ∈ w.committedAhead then some true else none := by
  simp only [new, OrderedMap.find?_foldl_insert, OrderedMap.find?_empty]

theorem inv_new {w : FileWatermark} (h : w.WellFormed) : (new w).Inv := by
  have hmem : ∀ key committed,
      (new w).outstanding.find? key = some committed →
        key ∈ w.committedAhead := by
    intro key committed hfind
    rw [find?_new] at hfind
    by_contra hmem
    simp [hmem] at hfind
  constructor
  · intro key committed hfind
    exact (h key (hmem key committed hfind)).1
  · intro key committed hfind
    exact (h key (hmem key committed hfind)).2

theorem knows_new_iff {w : FileWatermark} {key : FileKey} :
    (new w).Knows key ↔ w.Knows key := by
  have hcovers : (new w).committed.covers key = w.covers key := rfl
  rw [Knows, FileWatermark.Knows, find?_new, hcovers]
  by_cases hmem : key ∈ w.committedAhead
  · simp [hmem]
  · simp [hmem]

/-! ## Discovering files -/

theorem mem_discover {p : WatermarkProgress} {files : List FileKey}
    {key : FileKey} :
    key ∈ (p.discover files).2 ↔
      key ∈ files ∧ p.committed.covers key = false ∧
        p.outstanding.find? key = none := by
  simp [discover]

theorem find?_discover (p : WatermarkProgress) (files : List FileKey)
    (key : FileKey) :
    (p.discover files).1.outstanding.find? key =
      if key ∈ (p.discover files).2 then some false
      else p.outstanding.find? key :=
  OrderedMap.find?_foldl_insert _ _ _ _

theorem committed_discover (p : WatermarkProgress) (files : List FileKey) :
    (p.discover files).1.committed = p.committed := rfl

theorem knows_discover_iff {p : WatermarkProgress} {files : List FileKey}
    {key : FileKey} :
    (p.discover files).1.Knows key ↔ p.Knows key := by
  rw [Knows, Knows, find?_discover, committed_discover]
  by_cases hmem : key ∈ (p.discover files).2
  · have hnone := (mem_discover.mp hmem).2.2
    simp [hmem, hnone]
  · simp [hmem]

theorem inv_discover
    {p : WatermarkProgress} (h : p.Inv) (files : List FileKey) :
    (p.discover files).1.Inv := by
  have hcases : ∀ key committed,
      (p.discover files).1.outstanding.find? key = some committed →
        key ∈ (p.discover files).2 ∨
          p.outstanding.find? key = some committed := by
    intro key committed hfind
    rw [find?_discover] at hfind
    split at hfind
    · rename_i hmem
      exact Or.inl hmem
    · exact Or.inr hfind
  constructor
  · intro key committed hfind
    rcases hcases key committed hfind with hnew | hold
    · -- an uncovered file is not before the watermark
      have hcovers := (mem_discover.mp hnew).2.1
      by_contra hlt
      rw [Bool.eq_false_iff] at hcovers
      exact hcovers (FileWatermark.covers_iff.mpr (Or.inl (not_le.mp hlt)))
    · exact h.above key committed hold
  · intro key committed hfind
    rcases hcases key committed hfind with hnew | hold
    · exact (mem_discover.mp hnew).2.1
    · exact h.fresh key committed hold

/-- A known file is not discovered. -/
theorem not_mem_discover
    {p : WatermarkProgress} {key : FileKey} (h : p.Knows key)
    (files : List FileKey) : key ∉ (p.discover files).2 := by
  intro hmem
  obtain ⟨-, hcovers, hnone⟩ := mem_discover.mp hmem
  rcases h with hknown | hknown
  · simp [hcovers] at hknown
  · simp [hnone] at hknown

/-! ## Committing files -/

theorem find?_markCommitted (m : OrderedMap FileKey Bool)
    (file key : FileKey) :
    (markCommitted m file).find? key =
      if key = file ∧ (m.find? key).isSome = true then some true
      else m.find? key := by
  unfold markCommitted
  split
  · rename_i hsome
    rw [OrderedMap.find?_insert]
    by_cases heq : key = file
    · simp [heq, hsome]
    · simp [heq]
  · rename_i hnone
    by_cases heq : key = file
    · simp [heq, hnone]
    · simp [heq]

theorem find?_foldl_markCommitted (files : List FileKey)
    (m : OrderedMap FileKey Bool) (key : FileKey) :
    (files.foldl markCommitted m).find? key =
      if key ∈ files ∧ (m.find? key).isSome = true then some true
      else m.find? key := by
  induction files generalizing m with
  | nil => simp
  | cons file files ih =>
      rw [List.foldl_cons, ih, find?_markCommitted]
      by_cases hsome : (m.find? key).isSome = true
      · by_cases heq : key = file
        · simp [heq ▸ hsome, heq]
        · simp [heq]
      · simp [hsome]

/-- The run with the files marked, before anything is folded. -/
def marked (p : WatermarkProgress) (files : List FileKey) :
    WatermarkProgress :=
  { p with outstanding := files.foldl markCommitted p.outstanding }

theorem inv_marked
    {p : WatermarkProgress} (h : p.Inv) (files : List FileKey) :
    (p.marked files).Inv := by
  have hsome : ∀ key committed,
      (p.marked files).outstanding.find? key = some committed →
        ∃ old, p.outstanding.find? key = some old := by
    intro key committed hfind
    simp only [marked, find?_foldl_markCommitted] at hfind
    split at hfind
    · rename_i hmem
      exact Option.isSome_iff_exists.mp hmem.2
    · exact ⟨committed, hfind⟩
  constructor
  · intro key committed hfind
    obtain ⟨old, hold⟩ := hsome key committed hfind
    exact h.above key old hold
  · intro key committed hfind
    obtain ⟨old, hold⟩ := hsome key committed hfind
    exact h.fresh key old hold

theorem knows_marked_of_knows
    {p : WatermarkProgress} {files : List FileKey} {key : FileKey}
    (h : p.Knows key) : (p.marked files).Knows key := by
  rcases h with hcovers | hcommitted
  · exact Or.inl hcovers
  · right
    simp only [marked, find?_foldl_markCommitted, hcommitted]
    simp

theorem knows_marked_of_mem
    {p : WatermarkProgress} {files : List FileKey} {key : FileKey}
    (hmem : key ∈ files) (hsome : (p.outstanding.find? key).isSome = true) :
    (p.marked files).Knows key := by
  right
  simp only [marked, find?_foldl_markCommitted]
  rw [if_pos ⟨hmem, hsome⟩]

theorem find?_marked_of_not_mem
    {p : WatermarkProgress} {files : List FileKey} {key : FileKey}
    (hmem : key ∉ files) :
    (p.marked files).outstanding.find? key = p.outstanding.find? key := by
  simp only [marked, find?_foldl_markCommitted]
  rw [if_neg fun h => hmem h.1]

/-- The outstanding files that are not folded. -/
theorem find?_foldCommitted_eq_some_iff
    {p : WatermarkProgress} {key : FileKey} {committed : Bool} :
    p.foldCommitted.outstanding.find? key = some committed ↔
      (key, committed) ∈
        p.outstanding.entries.dropWhile fun entry => entry.2 := by
  rw [OrderedMap.find?_eq_some_iff]
  exact Iff.rfl

theorem folded_foldCommitted {p : WatermarkProgress} (h : p.Inv) :
    Folded p.committed p.foldCommitted.committed
      (p.outstanding.entries.takeWhile fun entry => entry.2)
      (p.outstanding.entries.dropWhile fun entry => entry.2) := by
  have hfind : ∀ entry ∈ p.outstanding.entries,
      p.outstanding.find? entry.1 = some entry.2 :=
    fun entry hentry => OrderedMap.find?_eq_some_iff.mpr hentry
  apply folded_foldl
  · rw [List.takeWhile_append_dropWhile]
    exact p.outstanding.sorted
  · rw [List.takeWhile_append_dropWhile]
    intro entry hentry
    exact h.above entry.1 entry.2 (hfind entry hentry)
  · rw [List.takeWhile_append_dropWhile]
    intro entry hentry
    exact h.fresh entry.1 entry.2 (hfind entry hentry)

theorem inv_foldCommitted {p : WatermarkProgress} (h : p.Inv) :
    p.foldCommitted.Inv := by
  have hfolded := folded_foldCommitted h
  constructor
  · intro key committed hfind
    exact hfolded.above (key, committed)
      (find?_foldCommitted_eq_some_iff.mp hfind)
  · intro key committed hfind
    exact hfolded.not_covers (key, committed)
      (find?_foldCommitted_eq_some_iff.mp hfind)

theorem knows_foldCommitted_of_knows
    {p : WatermarkProgress} (h : p.Inv) {key : FileKey}
    (hknows : p.Knows key) : p.foldCommitted.Knows key := by
  have hfolded := folded_foldCommitted h
  rcases hknows with hcovers | hcommitted
  · exact Or.inl (hfolded.covers_of_covers key hcovers)
  · have hmem := OrderedMap.find?_eq_some_iff.mp hcommitted
    rw [← List.takeWhile_append_dropWhile (p := fun entry => entry.2)
      (l := p.outstanding.entries)] at hmem
    rcases List.mem_append.mp hmem with hfront | hback
    · exact Or.inl (hfolded.covers_front (key, true) hfront)
    · exact Or.inr (find?_foldCommitted_eq_some_iff.mpr hback)

/-- A file that has not committed is not folded. -/
theorem find?_foldCommitted_of_inFlight
    {p : WatermarkProgress} {key : FileKey}
    (hflight : p.outstanding.find? key = some false) :
    p.foldCommitted.outstanding.find? key = some false := by
  rw [find?_foldCommitted_eq_some_iff]
  have hmem := OrderedMap.find?_eq_some_iff.mp hflight
  rw [← List.takeWhile_append_dropWhile (p := fun entry => entry.2)
    (l := p.outstanding.entries)] at hmem
  rcases List.mem_append.mp hmem with hfront | hback
  · have hcommitted := List.mem_takeWhile_imp hfront
    simp at hcommitted
  · exact hback

/-- What a commit does. -/
structure Committed (p : WatermarkProgress) (files : List FileKey) :
    Prop where
  inv : (p.commit files).1.Inv
  le : p.committed.lastModifiedMs ≤
    (p.commit files).1.committed.lastModifiedMs
  knows_of_knows : ∀ key, p.Knows key → (p.commit files).1.Knows key
  knows_of_mem : ∀ key ∈ files, (p.outstanding.find? key).isSome = true →
    (p.commit files).1.Knows key
  inFlight : ∀ key ∉ files, p.outstanding.find? key = some false →
    (p.commit files).1.outstanding.find? key = some false
  unlisted : p.listed = false → ∀ key ∉ files,
    (p.commit files).1.outstanding.find? key = p.outstanding.find? key ∧
      (p.commit files).1.committed = p.committed

theorem listed_commit (p : WatermarkProgress) (files : List FileKey) :
    (p.commit files).1.listed = p.listed := by
  simp only [commit]
  split <;> rfl

theorem commit_of_listed
    {p : WatermarkProgress} (files : List FileKey) (h : p.listed = true) :
    (p.commit files).1 = (p.marked files).foldCommitted := by
  simp only [commit, marked, h, if_true]

theorem commit_of_not_listed
    {p : WatermarkProgress} (files : List FileKey) (h : p.listed = false) :
    (p.commit files).1 = p.marked files := by
  simp only [commit, marked, h, Bool.false_eq_true, if_false]

theorem committed_commit
    {p : WatermarkProgress} (h : p.Inv) (files : List FileKey) :
    Committed p files := by
  have hmarked := inv_marked h files
  cases hlisted : p.listed with
  | true =>
      have hcommit := commit_of_listed files hlisted
      refine
        { inv := ?_, le := ?_, knows_of_knows := ?_, knows_of_mem := ?_,
          inFlight := ?_, unlisted := ?_ }
      · rw [hcommit]
        exact inv_foldCommitted hmarked
      · rw [hcommit]
        exact (folded_foldCommitted hmarked).le
      · intro key hknows
        rw [hcommit]
        exact knows_foldCommitted_of_knows hmarked
          (knows_marked_of_knows hknows)
      · intro key hmem hsome
        rw [hcommit]
        exact knows_foldCommitted_of_knows hmarked
          (knows_marked_of_mem hmem hsome)
      · intro key hmem hflight
        rw [hcommit]
        apply find?_foldCommitted_of_inFlight
        rw [find?_marked_of_not_mem hmem]
        exact hflight
      · intro hunlisted
        simp [hunlisted] at hlisted
  | false =>
      have hcommit := commit_of_not_listed files hlisted
      refine
        { inv := ?_, le := ?_, knows_of_knows := ?_, knows_of_mem := ?_,
          inFlight := ?_, unlisted := ?_ }
      · rw [hcommit]
        exact hmarked
      · rw [hcommit]
        exact le_refl _
      · intro key hknows
        rw [hcommit]
        exact knows_marked_of_knows hknows
      · intro key hmem hsome
        rw [hcommit]
        exact knows_marked_of_mem hmem hsome
      · intro key hmem hflight
        rw [hcommit, find?_marked_of_not_mem hmem]
        exact hflight
      · intro _ key hmem
        rw [hcommit]
        exact ⟨find?_marked_of_not_mem hmem, rfl⟩

theorem commit_snd (p : WatermarkProgress) (files : List FileKey) :
    (p.commit files).2 = (p.commit files).1.toWatermark := rfl

end WatermarkProgress

namespace WatermarkRuns

/-! ## The invariant over all runs -/

structure Inv (s : WatermarkRuns) : Prop where
  progress : s.progress.Inv
  persisted : s.persisted.WellFormed
  persisted_le :
    s.persisted.lastModifiedMs ≤ s.progress.committed.lastModifiedMs
  persisted_knows : ∀ key, s.persisted.Knows key → s.progress.Knows key
  returned : ∀ w ∈ s.returned, w.WellFormed ∧
    w.lastModifiedMs ≤ s.progress.committed.lastModifiedMs ∧
    ∀ key, w.Knows key → s.progress.Knows key
  last : ∀ w ∈ s.returned.getLast?,
    s.persisted.lastModifiedMs ≤ w.lastModifiedMs ∧
    ∀ key, key ∈ s.committed ∨ s.persisted.Knows key → w.Knows key
  discovered : ∀ key ∈ s.discovered,
    s.progress.Knows key ∨ s.progress.outstanding.find? key = some false
  listed : s.discovered ≠ [] → s.progress.listed = true
  inFlight : ∀ key ∈ s.discovered, key ∉ s.committed →
    s.progress.outstanding.find? key = some false
  committed : ∀ key ∈ s.committed, s.progress.Knows key
  durable : ∀ key ∈ s.durable, s.persisted.Knows key

theorem inv_start : start.Inv where
  progress := WatermarkProgress.inv_new FileWatermark.wellFormed_initial
  persisted := FileWatermark.wellFormed_initial
  persisted_le := le_refl _
  persisted_knows := fun _ => WatermarkProgress.knows_new_iff.mpr
  returned := by simp [start]
  last := by simp [start]
  discovered := by simp [start]
  listed := by simp [start]
  inFlight := by simp [start]
  committed := by simp [start]
  durable := by simp [start]

theorem inv_discover
    {s : WatermarkRuns} (h : s.Inv) (files : List FileKey) :
    Inv
      { s with
        progress := (s.progress.discover files).1
        discovered := s.discovered ++ (s.progress.discover files).2 } := by
  have hknows : ∀ {key}, s.progress.Knows key →
      (s.progress.discover files).1.Knows key :=
    WatermarkProgress.knows_discover_iff.mpr
  have hflight : ∀ key,
      key ∈ (s.progress.discover files).2 ∨
        s.progress.outstanding.find? key = some false →
      (s.progress.discover files).1.outstanding.find? key =
        some false := by
    intro key hkey
    rw [WatermarkProgress.find?_discover]
    rcases hkey with hnew | hold
    · rw [if_pos hnew]
    · rw [hold]
      simp
  refine
    { h with
      progress := WatermarkProgress.inv_discover h.progress files
      persisted_knows := fun key hkey => hknows (h.persisted_knows key hkey)
      returned := ?_, discovered := ?_, listed := fun _ => rfl,
      inFlight := ?_
      committed := fun key hkey => hknows (h.committed key hkey) }
  · intro w hw
    obtain ⟨hwell, hle, hall⟩ := h.returned w hw
    exact ⟨hwell, hle, fun key hkey => hknows (hall key hkey)⟩
  · intro key hkey
    rcases List.mem_append.mp hkey with hold | hnew
    · rcases h.discovered key hold with hknown | hread
      · exact Or.inl (hknows hknown)
      · exact Or.inr (hflight key (Or.inr hread))
    · exact Or.inr (hflight key (Or.inl hnew))
  · intro key hkey huncommitted
    apply hflight key
    rcases List.mem_append.mp hkey with hold | hnew
    · exact Or.inr (h.inFlight key hold huncommitted)
    · exact Or.inl hnew

theorem inv_commit
    {s : WatermarkRuns} (h : s.Inv) {files : List FileKey}
    (hfiles : ∀ file ∈ files, file ∈ s.discovered) :
    Inv
      { s with
        progress := (s.progress.commit files).1
        returned := s.returned ++ [(s.progress.commit files).2]
        committed := s.committed ++ files } := by
  have hcommit := WatermarkProgress.committed_commit h.progress files
  have hreturned : ∀ key, (s.progress.commit files).2.Knows key ↔
      (s.progress.commit files).1.Knows key :=
    fun _ => WatermarkProgress.knows_toWatermark_iff
  have hcommitted : ∀ key ∈ s.committed ++ files,
      (s.progress.commit files).1.Knows key := by
    intro key hkey
    rcases List.mem_append.mp hkey with hold | hnew
    · exact hcommit.knows_of_knows key (h.committed key hold)
    · rcases h.discovered key (hfiles key hnew) with hknown | hread
      · exact hcommit.knows_of_knows key hknown
      · exact hcommit.knows_of_mem key hnew (by simp [hread])
  have hpersisted : ∀ key, s.persisted.Knows key →
      (s.progress.commit files).1.Knows key :=
    fun key hkey => hcommit.knows_of_knows key (h.persisted_knows key hkey)
  refine
    { h with
      progress := hcommit.inv
      persisted_le := le_trans h.persisted_le hcommit.le
      persisted_knows := hpersisted
      returned := ?_, last := ?_, discovered := ?_, listed := ?_,
      inFlight := ?_, committed := hcommitted }
  · intro w hw
    rcases List.mem_append.mp hw with hold | hnew
    · obtain ⟨hwell, hle, hall⟩ := h.returned w hold
      exact ⟨hwell, le_trans hle hcommit.le,
        fun key hkey => hcommit.knows_of_knows key (hall key hkey)⟩
    · obtain rfl := List.mem_singleton.mp hnew
      exact ⟨hcommit.inv.wellFormed_toWatermark, le_refl _,
        fun key => (hreturned key).mp⟩
  · intro w hw
    obtain rfl : (s.progress.commit files).2 = w := by
      simpa using hw
    refine ⟨le_trans h.persisted_le hcommit.le, ?_⟩
    intro key hkey
    rw [hreturned]
    rcases hkey with hcommitted' | hold
    · exact hcommitted key hcommitted'
    · exact hpersisted key hold
  · intro key hkey
    rcases h.discovered key hkey with hknown | hread
    · exact Or.inl (hcommit.knows_of_knows key hknown)
    · by_cases hmem : key ∈ files
      · exact Or.inl (hcommit.knows_of_mem key hmem (by simp [hread]))
      · exact Or.inr (hcommit.inFlight key hmem hread)
  · intro hsome
    rw [WatermarkProgress.listed_commit]
    exact h.listed hsome
  · intro key hkey huncommitted
    have hold : key ∉ s.committed :=
      fun hmem => huncommitted (List.mem_append_left _ hmem)
    have hnew : key ∉ files :=
      fun hmem => huncommitted (List.mem_append_right _ hmem)
    exact hcommit.inFlight key hnew (h.inFlight key hkey hold)

theorem inv_persist
    {s : WatermarkRuns} (h : s.Inv) {w : FileWatermark}
    (hw : s.returned.getLast? = some w) :
    Inv { s with persisted := w, durable := s.durable ++ s.committed } := by
  obtain ⟨hwell, hle, hall⟩ := h.returned w (List.mem_of_getLast? hw)
  obtain ⟨-, hknows⟩ := h.last w hw
  refine
    { h with
      persisted := hwell, persisted_le := hle, persisted_knows := hall,
      last := ?_, durable := ?_ }
  · intro w' hw'
    obtain rfl : w = w' := by simpa [hw] using hw'
    refine ⟨le_refl _, ?_⟩
    rintro key (hcommitted | hknown)
    · exact hknows key (Or.inl hcommitted)
    · exact hknown
  · intro key hkey
    rcases List.mem_append.mp hkey with hold | hnew
    · exact hknows key (Or.inr (h.durable key hold))
    · exact hknows key (Or.inl hnew)

theorem inv_restart {s : WatermarkRuns} (h : s.Inv) :
    Inv
      { s with
        progress := WatermarkProgress.new s.persisted
        returned := []
        discovered := []
        committed := [] } where
  progress := WatermarkProgress.inv_new h.persisted
  persisted := h.persisted
  persisted_le := le_refl _
  persisted_knows := fun _ => WatermarkProgress.knows_new_iff.mpr
  returned := by simp
  last := by simp
  discovered := by simp
  listed := by simp
  inFlight := by simp
  committed := by simp
  durable := h.durable

theorem inv_step
    (s : WatermarkRuns) (a : Action) (s' : WatermarkRuns) (h : s.Inv)
    (hstep : s.step a = some s') : s'.Inv := by
  cases a with
  | discover files =>
      obtain rfl := Option.some_inj.mp hstep
      exact inv_discover h files
  | commit files =>
      simp only [step] at hstep
      split at hstep
      · rename_i hfiles
        obtain rfl := Option.some_inj.mp hstep
        exact inv_commit h hfiles
      · cases hstep
  | persist =>
      simp only [step] at hstep
      split at hstep
      · rename_i w hw
        obtain rfl := Option.some_inj.mp hstep
        exact inv_persist h hw
      · cases hstep
  | restart =>
      obtain rfl := Option.some_inj.mp hstep
      exact inv_restart h

/-! ## Files in flight -/

/-- The file is not committed, and the first listing of a run contains it. -/
def StillListed (key : FileKey) (s : WatermarkRuns) : Action → Prop
  | .discover files => s.progress.listed = false → key ∈ files
  | .commit files => key ∉ files
  | .persist => True
  | .restart => True

/-- No watermark knows the file, and it is outstanding as soon as the run has
listed the path. -/
structure InFlight (key : FileKey) (s : WatermarkRuns) : Prop where
  persisted : ¬ s.persisted.Knows key
  returned : ∀ w ∈ s.returned, ¬ w.Knows key
  listed : s.progress.listed = true →
    s.progress.outstanding.find? key = some false
  unlisted : s.progress.listed = false →
    s.progress.committed.covers key = false ∧
      s.progress.outstanding.find? key = none

theorem inFlight_of_discovered
    {s : WatermarkRuns} (h : s.Inv) {key : FileKey}
    (hkey : key ∈ s.discovered) (huncommitted : key ∉ s.committed) :
    InFlight key s := by
  have hread := h.inFlight key hkey huncommitted
  have hunknown := h.progress.not_knows hread
  have hlisted := h.listed (List.ne_nil_of_mem hkey)
  refine ⟨?_, ?_, fun _ => hread, ?_⟩
  · exact fun hknows => hunknown (h.persisted_knows key hknows)
  · exact fun w hw hknows => hunknown ((h.returned w hw).2.2 key hknows)
  · intro hunlisted
    simp [hlisted] at hunlisted

theorem inFlight_step
    {key : FileKey} (s : WatermarkRuns) (a : Action) (s' : WatermarkRuns)
    (h : s.Inv ∧ InFlight key s) (hstill : StillListed key s a)
    (hstep : s.step a = some s') : s'.Inv ∧ InFlight key s' := by
  refine ⟨inv_step s a s' h.1 hstep, ?_⟩
  obtain ⟨hinv, hflight⟩ := h
  cases a with
  | discover files =>
      obtain rfl := Option.some_inj.mp hstep
      refine ⟨hflight.persisted, hflight.returned, fun _ => ?_, ?_⟩
      · show (s.progress.discover files).1.outstanding.find? key = some false
        rw [WatermarkProgress.find?_discover]
        cases hlisted : s.progress.listed with
        | true =>
            rw [hflight.listed hlisted]
            simp
        | false =>
            obtain ⟨hcovers, hnone⟩ := hflight.unlisted hlisted
            rw [if_pos]
            exact WatermarkProgress.mem_discover.mpr
              ⟨hstill hlisted, hcovers, hnone⟩
      · intro hunlisted
        cases hunlisted
  | commit files =>
      simp only [step] at hstep
      split at hstep
      · obtain rfl := Option.some_inj.mp hstep
        have hcommit :=
          WatermarkProgress.committed_commit hinv.progress files
        have hlisted := WatermarkProgress.listed_commit s.progress files
        have hunknown : ¬ (s.progress.commit files).1.Knows key := by
          cases hs : s.progress.listed with
          | true =>
              exact hcommit.inv.not_knows
                (hcommit.inFlight key hstill (hflight.listed hs))
          | false =>
              obtain ⟨hcovers, hnone⟩ := hflight.unlisted hs
              obtain ⟨hfind, hsame⟩ := hcommit.unlisted hs key hstill
              rw [WatermarkProgress.Knows, hfind, hsame]
              simp [hcovers, hnone]
        refine ⟨hflight.persisted, ?_, ?_, ?_⟩
        · intro w hw
          rcases List.mem_append.mp hw with hold | hnew
          · exact hflight.returned w hold
          · obtain rfl := List.mem_singleton.mp hnew
            rw [WatermarkProgress.commit_snd,
              WatermarkProgress.knows_toWatermark_iff]
            exact hunknown
        · intro hs
          rw [hlisted] at hs
          exact hcommit.inFlight key hstill (hflight.listed hs)
        · intro hs
          rw [hlisted] at hs
          obtain ⟨hcovers, hnone⟩ := hflight.unlisted hs
          obtain ⟨hfind, hsame⟩ := hcommit.unlisted hs key hstill
          exact ⟨hsame ▸ hcovers, hfind.trans hnone⟩
      · cases hstep
  | persist =>
      simp only [step] at hstep
      split at hstep
      · rename_i w hw
        obtain rfl := Option.some_inj.mp hstep
        exact
          { hflight with
            persisted := hflight.returned w (List.mem_of_getLast? hw) }
      · cases hstep
  | restart =>
      obtain rfl := Option.some_inj.mp hstep
      refine ⟨hflight.persisted, by simp, ?_, fun _ => ?_⟩
      · intro hlisted
        cases hlisted
      · have hunknown : ¬ (WatermarkProgress.new s.persisted).Knows key :=
          fun hknows =>
            hflight.persisted (WatermarkProgress.knows_new_iff.mp hknows)
        constructor
        · rw [Bool.eq_false_iff]
          exact fun hcovers => hunknown (Or.inl hcovers)
        · show (WatermarkProgress.new s.persisted).outstanding.find? key = none
          rw [WatermarkProgress.find?_new, if_neg]
          exact fun hmem => hflight.persisted (Or.inr hmem)

/-! ## Times -/

theorem persisted_le_step
    (s : WatermarkRuns) (a : Action) (s' : WatermarkRuns) (h : s.Inv)
    (hstep : s.step a = some s') :
    s.persisted.lastModifiedMs ≤ s'.persisted.lastModifiedMs := by
  cases a with
  | discover files =>
      obtain rfl := Option.some_inj.mp hstep
      exact le_refl _
  | commit files =>
      simp only [step] at hstep
      split at hstep
      · obtain rfl := Option.some_inj.mp hstep
        exact le_refl _
      · cases hstep
  | persist =>
      simp only [step] at hstep
      split at hstep
      · rename_i w hw
        obtain rfl := Option.some_inj.mp hstep
        exact (h.last w hw).1
      · cases hstep
  | restart =>
      obtain rfl := Option.some_inj.mp hstep
      exact le_refl _

theorem committed_le_step
    {s s' : WatermarkRuns} {a : Action} (h : s.Inv) (ha : a ≠ .restart)
    (hstep : s.step a = some s') :
    s.progress.committed.lastModifiedMs ≤
      s'.progress.committed.lastModifiedMs := by
  cases a with
  | discover files =>
      obtain rfl := Option.some_inj.mp hstep
      exact le_refl _
  | commit files =>
      simp only [step] at hstep
      split at hstep
      · obtain rfl := Option.some_inj.mp hstep
        exact (WatermarkProgress.committed_commit h.progress files).le
      · cases hstep
  | persist =>
      simp only [step] at hstep
      split at hstep
      · obtain rfl := Option.some_inj.mp hstep
        exact le_refl _
      · cases hstep
  | restart => exact absurd rfl ha

/-! ## The guarantees -/

/-- What a sequence of runs promises in a state. -/
structure Guarantees (s : WatermarkRuns) : Prop where
  /-- A file discovered in this run and not committed stays unknown to every
  watermark, in this run and in later ones whose first listing still contains
  it, and the first listing of a later run discovers it again. -/
  in_flight : ∀ key ∈ s.discovered, key ∉ s.committed → ∀ later t,
    Transition.run step s later = some t →
    Transition.AllSteps step (StillListed key) s later →
      ¬ t.persisted.Knows key ∧ (∀ w ∈ t.returned, ¬ w.Knows key) ∧
        (t.progress.listed = false → ∀ files, key ∈ files →
          key ∈ (t.progress.discover files).2)
  /-- A file committed in this run, or before a watermark that was persisted,
  is not discovered. -/
  committed : ∀ key, key ∈ s.committed ∨ key ∈ s.durable → ∀ files,
    key ∉ (s.progress.discover files).2
  /-- Outstanding files are not before the watermark. -/
  outstanding : ∀ key committed,
    s.progress.outstanding.find? key = some committed →
      s.progress.committed.lastModifiedMs ≤ key.lastModifiedMs
  /-- The persisted time never decreases, and within a run neither does that
  of the watermark. -/
  persisted_mono : ∀ later t, Transition.run step s later = some t →
    s.persisted.lastModifiedMs ≤ t.persisted.lastModifiedMs
  watermark_mono : ∀ later t, .restart ∉ later →
    Transition.run step s later = some t →
      s.progress.committed.lastModifiedMs ≤
        t.progress.committed.lastModifiedMs

/-- Over every sequence of runs of the watermark progress, with restarts at
any point, no file in flight is skipped and no committed file is read
again. -/
theorem watermark_progress_never_skips
    (actions : List Action) (s : WatermarkRuns)
    (hrun : Transition.run step start actions = some s) : s.Guarantees := by
  have hs : s.Inv := Transition.run_invariant inv_step inv_start hrun
  refine ⟨?_, ?_, hs.progress.above, ?_, ?_⟩
  · intro key hkey huncommitted later t hlater hstill
    obtain ⟨hinv, hflight⟩ := Transition.run_invariant_of_allSteps
      inFlight_step ⟨hs, inFlight_of_discovered hs hkey huncommitted⟩ hstill
      hlater
    refine ⟨hflight.persisted, hflight.returned, ?_⟩
    intro hlisted files hmem
    obtain ⟨hcovers, hnone⟩ := hflight.unlisted hlisted
    exact WatermarkProgress.mem_discover.mpr ⟨hmem, hcovers, hnone⟩
  · intro key hkey files
    apply WatermarkProgress.not_mem_discover
    rcases hkey with hcommitted | hdurable
    · exact hs.committed key hcommitted
    · exact hs.persisted_knows key (hs.durable key hdurable)
  · intro later t hlater
    exact Transition.run_relates_of_inv
      (R := fun s t : WatermarkRuns =>
        s.persisted.lastModifiedMs ≤ t.persisted.lastModifiedMs)
      (P := fun _ => True) inv_step (fun _ => le_refl _) le_trans
      (fun s a s' h _ hstep => persisted_le_step s a s' h hstep) hs
      (fun _ _ => trivial) hlater
  · intro later t hrestart hlater
    have hne : ∀ a ∈ later, a ≠ .restart := by
      rintro a ha rfl
      exact hrestart ha
    exact Transition.run_relates_of_inv
      (R := fun s t : WatermarkRuns =>
        s.progress.committed.lastModifiedMs ≤
          t.progress.committed.lastModifiedMs)
      inv_step (fun _ => le_refl _) le_trans
      (fun _ _ _ h ha hstep => committed_le_step h ha hstep) hs hne hlater

/-- The file at time 30 commits ahead of the one at time 20, which is in
flight when the run crashes. -/
theorem watermark_progress_never_skips_crash :
    ∃ s, Transition.run step start
        [.discover [⟨30, "c"⟩, ⟨10, "a"⟩, ⟨20, "b"⟩],
          .commit [⟨30, "c"⟩, ⟨10, "a"⟩], .persist, .restart,
          .discover [⟨10, "a"⟩, ⟨20, "b"⟩, ⟨30, "c"⟩]] = some s ∧
      (s.persisted = ⟨10, ["a"], [⟨30, "c"⟩]⟩ ∧
        s.discovered = [⟨20, "b"⟩]) ∧ s.Guarantees := by
  refine Exists.imp
    (fun s (h : _ ∧ s.persisted = ⟨10, ["a"], [⟨30, "c"⟩]⟩ ∧
        s.discovered = [⟨20, "b"⟩]) =>
      ⟨h.1, h.2, watermark_progress_never_skips _ s h.1⟩)
    (Transition.exists_run_of_decide (by decide +kernel))

end WatermarkRuns

end FileSource

end Streamling
