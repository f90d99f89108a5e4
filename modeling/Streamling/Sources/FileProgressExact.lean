import Mathlib
import Streamling.Sources.FileProgress

/-!
# What the progress tracker of the file source commits

The files of a partition that are no longer pending are the first ones it
advanced, and they were committed under a persist whose put succeeded.  The
count taken for a persist therefore ends where the partition's snapshot of
the epoch was taken, or where an earlier persist already ended: every commit
adds exactly the files before the marks of its attempt.
-/

namespace Streamling

namespace FileSource

/-- Taking up to the larger of two marks takes what precedes either. -/
theorem mem_take_max {α : Type*} {l : List α} {a b : ℕ} {x : α} :
    x ∈ l.take (max a b) ↔ x ∈ l.take a ∨ x ∈ l.take b := by
  rcases le_total a b with h | h
  · rw [max_eq_right h]
    have hsub : x ∈ l.take a → x ∈ l.take b :=
      fun hx => List.take_subset_take_left l h hx
    tauto
  · rw [max_eq_left h]
    have hsub : x ∈ l.take b → x ∈ l.take a :=
      fun hx => List.take_subset_take_left l h hx
    tauto

namespace TrackerState

variable {n : ℕ} {File σ : Type*}

theorem alreadyPersisted_eq_false_iff
    {s : TrackerState n File σ} {epoch : CheckpointEpoch} :
    s.alreadyPersisted epoch = false ↔
      ∀ last ∈ s.persistedEpoch, last < epoch := by
  unfold alreadyPersisted
  cases s.persistedEpoch <;> simp

/-- An epoch still to be persisted is above every epoch that was. -/
theorem lt_of_alreadyPersisted
    {s : TrackerState n File σ} {older epoch : CheckpointEpoch}
    (holder : s.alreadyPersisted older = true)
    (hfresh : s.alreadyPersisted epoch = false) : older < epoch := by
  obtain ⟨last, hsome, hle⟩ : ∃ last,
      s.persistedEpoch = some last ∧ older ≤ last := by
    simpa [alreadyPersisted, Option.any_eq_true] using holder
  have hlt := alreadyPersisted_eq_false_iff.mp hfresh last hsome
  exact lt_of_le_of_lt hle hlt

theorem recorded_snapshot
    (s : TrackerState n File σ) (partition p : Fin n)
    (epoch e : CheckpointEpoch) :
    (s.snapshot partition epoch).recorded e p =
      if e = epoch ∧ p = partition then
        some (s.persisted partition + (s.pending partition).length)
      else s.recorded e p := by
  simp only [recorded, snapshot, OrderedMap.find?_insert]
  by_cases he : e = epoch
  · subst he
    by_cases hp : p = partition
    · subst hp
      simp
    · cases hfind : s.snapshots.find? e <;> simp [hp]
  · simp [he]

theorem slices_eq_some
    {s : TrackerState n File σ} {counted : Fin n → ℕ}
    (h : ∀ p, counted p ≤ (s.pending p).length) :
    s.slices counted =
      some ((List.finRange n).flatMap fun p =>
        (s.pending p).take (counted p)) :=
  if_pos h

end TrackerState

theorem Progress.replay_append
    {File σ ν : Type*} (progress : Progress File σ ν) (initial : σ)
    (history : List (ProgressOp File σ)) (op : ProgressOp File σ) :
    progress.replay initial (history ++ [op]) =
      match op with
      | .commit files =>
          let result :=
            progress.commit (progress.replay initial history).1 files
          (result.1, some result.2)
      | .access f =>
          (f (progress.replay initial history).1,
            (progress.replay initial history).2) := by
  cases op <;> simp [replay]

namespace TrackerRun

variable {n : ℕ} {File σ ν : Type*}

/-! ## The files of the attempts -/

theorem filesOf_append
    {s : TrackerRun n File σ ν} {front back : List (Attempt n)}
    {file : File} :
    s.FilesOf (front ++ back) file ↔
      s.FilesOf front file ∨ s.FilesOf back file := by
  simp only [FilesOf, List.mem_append, or_and_right, exists_or]

theorem filesOf_singleton
    {s : TrackerRun n File σ ν} {attempt : Attempt n} {file : File} :
    s.FilesOf [attempt] file ↔
      ∃ p, file ∈ (s.advanced p).take (attempt.claimed p) := by
  simp [FilesOf]

theorem FilesOf.mono
    {s : TrackerRun n File σ ν} {front back : List (Attempt n)}
    {file : File} (h : s.FilesOf front file)
    (hsub : ∀ attempt ∈ front, attempt ∈ back) : s.FilesOf back file := by
  obtain ⟨attempt, hattempt, hfile⟩ := h
  exact ⟨attempt, hsub attempt hattempt, hfile⟩

/-! ## The invariant -/

/-- What is known of the persist whose put is under way. -/
structure UnderWay (progress : Progress File σ ν) (initial : σ)
    (s : TrackerRun n File σ ν) (p : Persisting n ν) : Prop where
  fresh : s.state.alreadyPersisted p.epoch = false
  value_eq : (progress.replay initial s.history).2 = some p.value
  attempted : ∃ attempt, s.attempts.getLast? = some attempt ∧
    attempt.epoch = p.epoch ∧
    ∀ q, s.state.persisted q + p.counted q =
      max (s.state.persisted q) (attempt.claimed q)

structure Inv (progress : Progress File σ ν) (initial : σ)
    (s : TrackerRun n File σ ν) : Prop where
  running : s.panicked = false
  pending_eq : ∀ p,
    s.state.pending p = (s.advanced p).drop (s.state.persisted p)
  persisted_le : ∀ p, s.state.persisted p ≤ (s.advanced p).length
  recorded_eq : ∀ epoch p, s.state.alreadyPersisted epoch = false →
    s.state.recorded epoch p = s.taken p epoch
  taken_le : ∀ p epoch total, s.taken p epoch = some total →
    total ≤ (s.advanced p).length
  claimed_le : ∀ attempt ∈ s.attempts, ∀ p,
    attempt.claimed p ≤ (s.advanced p).length
  attempted : ∀ attempt ∈ s.succeeded, attempt ∈ s.attempts
  persisted_files : ∀ p,
    ∀ file ∈ (s.advanced p).take (s.state.persisted p),
      s.FilesOf s.succeeded file
  committed : ∀ file,
    file ∈ s.folded ↔ s.FilesOf s.attempts file
  progress_eq : s.state.progress = (progress.replay initial s.history).1
  epochs : ∀ attempt ∈ s.succeeded,
    s.state.alreadyPersisted attempt.epoch = true
  underWay : ∀ p ∈ s.persisting, UnderWay progress initial s p

theorem inv_start (progress : Progress File σ ν) (initial : σ) :
    Inv progress initial (start n File ν initial) where
  running := rfl
  pending_eq := by simp [start, TrackerState.new]
  persisted_le := by simp [start, TrackerState.new]
  recorded_eq := by simp [start, TrackerState.new, TrackerState.recorded]
  taken_le := by simp [start]
  claimed_le := by simp [start]
  attempted := by simp [start]
  persisted_files := by simp [start]
  committed := by simp [start, FilesOf, folded]
  progress_eq := by simp [start, TrackerState.new, Progress.replay]
  epochs := by simp [start]
  underWay := by simp [start]

section Steps

variable {progress : Progress File σ ν} {initial : σ}
  {s : TrackerRun n File σ ν}

theorem Inv.length_pending (h : Inv progress initial s) (p : Fin n) :
    s.state.persisted p + (s.state.pending p).length =
      (s.advanced p).length := by
  have hle := h.persisted_le p
  rw [h.pending_eq p, List.length_drop]
  omega

/-! ### Emitting files -/

theorem Inv.advance
    (h : Inv progress initial s) (partition : Fin n) (file : File) :
    Inv progress initial
      { s with
        state := s.state.advance partition file
        advanced :=
          Function.update s.advanced partition
            (s.advanced partition ++ [file]) } := by
  have hadvanced : ∀ p, ∃ more,
      Function.update s.advanced partition
        (s.advanced partition ++ [file]) p = s.advanced p ++ more := by
    intro p
    by_cases hp : p = partition
    · subst hp
      exact ⟨[file], by simp⟩
    · exact ⟨[], by simp [hp]⟩
  have hlength : ∀ p, (s.advanced p).length ≤
      (Function.update s.advanced partition
        (s.advanced partition ++ [file]) p).length := by
    intro p
    obtain ⟨more, hmore⟩ := hadvanced p
    simp [hmore]
  have htake : ∀ p k, k ≤ (s.advanced p).length →
      (Function.update s.advanced partition
        (s.advanced partition ++ [file]) p).take k =
        (s.advanced p).take k := by
    intro p k hk
    obtain ⟨more, hmore⟩ := hadvanced p
    rw [hmore, List.take_append_of_le_length hk]
  have hfiles : ∀ attempts, (∀ attempt ∈ attempts, attempt ∈ s.attempts) →
      ∀ f, (∃ attempt ∈ attempts, ∃ p,
        f ∈ (Function.update s.advanced partition
          (s.advanced partition ++ [file]) p).take (attempt.claimed p)) ↔
        s.FilesOf attempts f := by
    intro attempts hsub f
    refine exists_congr fun attempt => and_congr_right fun hattempt =>
      exists_congr fun p => ?_
    rw [htake p _ (h.claimed_le attempt (hsub attempt hattempt) p)]
  refine
    { h with
      pending_eq := ?_
      persisted_le := fun p => le_trans (h.persisted_le p) (hlength p)
      recorded_eq := h.recorded_eq
      taken_le := fun p epoch total ht =>
        le_trans (h.taken_le p epoch total ht) (hlength p)
      claimed_le := fun attempt hattempt p =>
        le_trans (h.claimed_le attempt hattempt p) (hlength p)
      persisted_files := ?_
      committed := ?_
      underWay := fun p hp => { h.underWay p hp with } }
  · intro p
    by_cases hp : p = partition
    · subst hp
      simp only [TrackerState.advance, Function.update_self, h.pending_eq p]
      rw [List.drop_append_of_le_length (h.persisted_le p)]
    · simp [TrackerState.advance, hp, h.pending_eq p]
  · intro p f hf
    have hf' := htake p _ (h.persisted_le p) ▸ hf
    exact (hfiles s.succeeded h.attempted f).mpr
      (h.persisted_files p f hf')
  · intro f
    exact (h.committed f).trans
      (hfiles s.attempts (fun _ ha => ha) f).symm

/-! ### Markers and ends of streams -/

theorem Inv.snapshot
    (h : Inv progress initial s) (partition : Fin n)
    (epoch : CheckpointEpoch) :
    Inv progress initial
      { s with
        state := s.state.snapshot partition epoch
        taken :=
          Function.update s.taken partition
            (Function.update (s.taken partition) epoch
              (some (s.advanced partition).length))
        lastTaken := Function.update s.lastTaken partition (some epoch) } := by
  have htaken : ∀ p e, Function.update s.taken partition
      (Function.update (s.taken partition) epoch
        (some (s.advanced partition).length)) p e =
      if e = epoch ∧ p = partition then
        some (s.advanced partition).length
      else s.taken p e := by
    intro p e
    by_cases hp : p = partition
    · subst hp
      by_cases he : e = epoch <;> simp [Function.update, he]
    · simp [hp]
  refine
    { h with
      recorded_eq := ?_
      taken_le := ?_
      underWay := fun p hp => { h.underWay p hp with } }
  · intro e p he
    rw [TrackerState.recorded_snapshot, h.length_pending partition]
    refine Eq.trans ?_ (htaken p e).symm
    split
    · rfl
    · exact h.recorded_eq e p he
  · intro p e total ht
    have ht := (htaken p e).symm.trans ht
    split at ht
    · rename_i heq
      obtain rfl : (s.advanced partition).length = total := by
        simpa using ht
      rw [heq.2]
    · exact h.taken_le p e total ht

theorem Inv.finish (h : Inv progress initial s) (partition : Fin n) :
    Inv progress initial
      { s with state := (s.state.finish partition).1 } :=
  { h with underWay := fun p hp => { h.underWay p hp with } }

theorem Inv.withProgress (h : Inv progress initial s) (access : σ → σ) :
    Inv progress initial
      { s with
        state := s.state.withProgress access
        history := s.history ++ [.access access] } where
  running := h.running
  pending_eq := h.pending_eq
  persisted_le := h.persisted_le
  recorded_eq := h.recorded_eq
  taken_le := h.taken_le
  claimed_le := h.claimed_le
  attempted := h.attempted
  persisted_files := h.persisted_files
  committed := by
    intro file
    refine Iff.trans ?_ (h.committed file)
    simp [folded, ProgressOp.files]
  progress_eq := by
    rw [Progress.replay_append, ← h.progress_eq]
    rfl
  epochs := h.epochs
  underWay := by
    intro p hp
    have hold := h.underWay p hp
    refine { hold with value_eq := ?_ }
    rw [Progress.replay_append]
    exact hold.value_eq

/-! ### Persisting -/

/-- What the tracker counts for an epoch ends where the partition's mark
is, or where an earlier persist ended. -/
theorem Inv.persisted_add_pendingBefore
    (h : Inv progress initial s) {epoch : CheckpointEpoch}
    (hfresh : s.state.alreadyPersisted epoch = false) (p : Fin n) :
    s.state.persisted p + s.state.pendingBefore epoch p =
      max (s.state.persisted p) (s.claimed epoch p) := by
  have hle := h.persisted_le p
  have hlength := h.length_pending p
  unfold TrackerState.pendingBefore claimed
  rw [h.recorded_eq epoch p hfresh]
  cases s.taken p epoch with
  | some total =>
      simp only
      omega
  | none =>
      simp only
      split <;> omega

theorem Inv.claimed_le_length
    (h : Inv progress initial s) (epoch : CheckpointEpoch) (p : Fin n) :
    s.claimed epoch p ≤ (s.advanced p).length := by
  unfold claimed
  split
  · rename_i total ht
    exact h.taken_le p epoch total ht
  · split
    · exact le_refl _
    · exact Nat.zero_le _

/-- The slice of a count and what was persisted before are the files up to
the mark the count reaches. -/
theorem Inv.mem_slice_iff
    (h : Inv progress initial s) {p : Fin n} {count mark : ℕ} {file : File}
    (hcount : s.state.persisted p + count =
      max (s.state.persisted p) mark) :
    file ∈ (s.advanced p).take (s.state.persisted p) ∨
        file ∈ (s.state.pending p).take count ↔
      file ∈ (s.advanced p).take (s.state.persisted p) ∨
        file ∈ (s.advanced p).take mark := by
  rw [← mem_take_max, ← hcount, List.take_add, List.mem_append,
    h.pending_eq p]

theorem Inv.persist
    (h : Inv progress initial s) (epoch : CheckpointEpoch) :
    Inv progress initial (s.persist progress epoch) := by
  unfold TrackerRun.persist
  split
  · exact h
  · rename_i hnot
    have hfresh : s.state.alreadyPersisted epoch = false := by
      simpa using hnot
    have hcount := h.persisted_add_pendingBefore hfresh
    have hbound : ∀ p, s.state.pendingBefore epoch p ≤
        (s.state.pending p).length := by
      intro p
      have hc := hcount p
      have hlength := h.length_pending p
      have hle := h.claimed_le_length epoch p
      have hpersisted := h.persisted_le p
      omega
    have hfiles : ∀ p file,
        file ∈ (s.advanced p).take (s.state.persisted p) →
          s.FilesOf s.attempts file := fun p file hfile =>
      (h.persisted_files p file hfile).mono h.attempted
    simp only [TrackerState.slices_eq_some hbound]
    refine
      { h with
        claimed_le := ?_
        attempted := fun attempt ha =>
          List.mem_append_left _ (h.attempted attempt ha)
        committed := ?_
        progress_eq := ?_
        underWay := ?_ }
    · intro attempt hattempt p
      rcases List.mem_append.mp hattempt with hold | hnew
      · exact h.claimed_le attempt hold p
      · obtain rfl := List.mem_singleton.mp hnew
        exact h.claimed_le_length epoch p
    · intro file
      have hnew : file ∈ (List.finRange n).flatMap (fun p =>
          (s.state.pending p).take (s.state.pendingBefore epoch p)) ↔
          ∃ p, file ∈
            (s.state.pending p).take (s.state.pendingBefore epoch p) := by
        simp
      refine Iff.trans ?_ filesOf_append.symm
      rw [filesOf_singleton]
      simp only [folded, List.flatMap_append, List.mem_append,
        List.flatMap_cons, List.flatMap_nil, List.append_nil,
        ProgressOp.files]
      rw [hnew]
      constructor
      · rintro (hold | ⟨p, hp⟩)
        · exact Or.inl ((h.committed file).mp hold)
        · rcases (h.mem_slice_iff (hcount p)).mp (Or.inr hp) with hp | hp
          · exact Or.inl (hfiles p file hp)
          · exact Or.inr ⟨p, hp⟩
      · rintro (hold | ⟨p, hp⟩)
        · exact Or.inl ((h.committed file).mpr hold)
        · rcases (h.mem_slice_iff (hcount p)).mpr (Or.inr hp) with hp | hp
          · exact Or.inl ((h.committed file).mpr (hfiles p file hp))
          · exact Or.inr ⟨p, hp⟩
    · rw [Progress.replay_append, ← h.progress_eq]
    · intro p hp
      obtain rfl := Option.some.inj hp
      refine ⟨hfresh, ?_, ⟨epoch, s.claimed epoch⟩, ?_, rfl, hcount⟩
      · rw [Progress.replay_append, ← h.progress_eq]
      · simp

/-! ### The end of a put -/

theorem UnderWay.counted_le
    {p : Persisting n ν} (hp : UnderWay progress initial s p)
    (h : Inv progress initial s) (q : Fin n) :
    p.counted q ≤ (s.state.pending q).length := by
  obtain ⟨attempt, hlast, -, hcount⟩ := hp.attempted
  have hmem : attempt ∈ s.attempts := List.mem_of_getLast? hlast
  have hc := hcount q
  have hlength := h.length_pending q
  have hpersisted := h.persisted_le q
  have hle := h.claimed_le attempt hmem q
  omega

theorem UnderWay.drain
    {p : Persisting n ν} (hp : UnderWay progress initial s p)
    (h : Inv progress initial s) :
    s.state.drain p.epoch p.counted =
      some
        { s.state with
          pending := fun q => (s.state.pending q).drop (p.counted q)
          persisted := fun q => s.state.persisted q + p.counted q
          snapshots := s.state.snapshots.retain fun recorded _ =>
            decide (p.epoch < recorded)
          persistedEpoch := some p.epoch } :=
  if_pos (hp.counted_le h)

theorem Inv.putSucceeds
    (h : Inv progress initial s) {p : Persisting n ν}
    (hp : UnderWay progress initial s p) :
    Inv progress initial (s.putSucceeds p) := by
  obtain ⟨attempt, hlast, hepoch, hcount⟩ := hp.attempted
  have hmem : attempt ∈ s.attempts := List.mem_of_getLast? hlast
  have hbelow := TrackerState.alreadyPersisted_eq_false_iff.mp hp.fresh
  have hlength : ∀ q, s.state.persisted q + p.counted q ≤
      (s.advanced q).length := by
    intro q
    rw [hcount q]
    exact max_le (h.persisted_le q) (h.claimed_le attempt hmem q)
  unfold TrackerRun.putSucceeds
  rw [hp.drain h]
  simp only [hlast, Option.toList_some]
  refine
    { h with
      pending_eq := ?_
      persisted_le := hlength
      recorded_eq := ?_
      attempted := ?_
      persisted_files := ?_
      epochs := ?_
      underWay := by simp }
  · intro q
    simp only [h.pending_eq q, List.drop_drop]
  · -- only the epochs after the persisted one still matter
    intro e q he
    have hlt : p.epoch < e := by
      simpa [TrackerState.alreadyPersisted] using he
    have hold : s.state.alreadyPersisted e = false := by
      apply TrackerState.alreadyPersisted_eq_false_iff.mpr
      intro last hlast'
      exact lt_trans (hbelow last hlast') hlt
    rw [← h.recorded_eq e q hold]
    simp [TrackerState.recorded, OrderedMap.find?_retain_key, hlt]
  · intro a ha
    rcases List.mem_append.mp ha with hold | hnew
    · exact h.attempted a hold
    · obtain rfl := List.mem_singleton.mp hnew
      exact hmem
  · intro q file hfile
    refine filesOf_append.mpr ?_
    have hfile' : file ∈ (s.advanced q).take
        (max (s.state.persisted q) (attempt.claimed q)) := by
      rw [← hcount q]
      exact hfile
    rcases mem_take_max.mp hfile' with hold | hnew
    · exact Or.inl (h.persisted_files q file hold)
    · exact Or.inr (filesOf_singleton.mpr ⟨q, hnew⟩)
  · intro a ha
    have hle : a.epoch ≤ p.epoch := by
      rcases List.mem_append.mp ha with hold | hnew
      · exact le_of_lt (TrackerState.lt_of_alreadyPersisted
          (h.epochs a hold) hp.fresh)
      · obtain rfl := List.mem_singleton.mp hnew
        exact le_of_eq hepoch
    simpa [TrackerState.alreadyPersisted] using hle

theorem Inv.putFails (h : Inv progress initial s) :
    Inv progress initial { s with persisting := none } :=
  { h with underWay := by simp }

end Steps

theorem inv_step
    {progress : Progress File σ ν} {initial : σ}
    (s : TrackerRun n File σ ν) (action : Action n File σ)
    (s' : TrackerRun n File σ ν) (h : Inv progress initial s)
    (hstep : step progress s action = some s') :
    Inv progress initial s' := by
  cases action with
  | advance partition file =>
      obtain rfl := Option.some.inj hstep
      exact h.advance partition file
  | snapshot partition epoch =>
      simp only [step] at hstep
      split at hstep
      · obtain rfl := Option.some.inj hstep
        exact h.snapshot partition epoch
      · simp at hstep
  | finish partition =>
      obtain rfl := Option.some.inj hstep
      exact h.finish partition
  | withProgress access =>
      obtain rfl := Option.some.inj hstep
      exact h.withProgress access
  | persist epoch =>
      simp only [step] at hstep
      split at hstep
      · obtain rfl := Option.some.inj hstep
        exact h.persist epoch
      · simp at hstep
  | putSucceeds =>
      simp only [step] at hstep
      split at hstep
      · rename_i p hp
        obtain rfl := Option.some.inj hstep
        exact h.putSucceeds (h.underWay p hp)
      · simp at hstep
  | putFails =>
      simp only [step] at hstep
      split at hstep
      · obtain rfl := Option.some.inj hstep
        exact h.putFails
      · simp at hstep

/-! ## Whole runs -/

/-- In every run no slice and no drain is out of bounds.  The files committed
are those before the marks of the persists attempted, and what a partition no
longer keeps pending was before a mark of a persist that succeeded.  A put
that succeeds leaves in the backend the value of all commits so far, those of
failed puts included, and its epoch is above every epoch put before. -/
theorem tracker_commits_marked_files
    (progress : Progress File σ ν) (initial : σ)
    (actions : List (Action n File σ)) (s : TrackerRun n File σ ν)
    (hrun : Transition.run (step progress) (start n File ν initial)
      actions = some s) :
    s.panicked = false ∧
      (∀ file, file ∈ s.folded ↔ s.FilesOf s.attempts file) ∧
      (∀ partition,
        s.state.pending partition =
            (s.advanced partition).drop (s.state.persisted partition) ∧
          ∀ file ∈
              (s.advanced partition).take (s.state.persisted partition),
            s.FilesOf s.succeeded file) ∧
      ∀ s', step progress s .putSucceeds = some s' →
        s'.backend = (progress.replay initial s'.history).2 ∧
          ∃ attempt, s'.attempts.getLast? = some attempt ∧
            s'.succeeded = s.succeeded ++ [attempt] ∧
            ∀ older ∈ s.succeeded, older.epoch < attempt.epoch := by
  have h : Inv progress initial s :=
    Transition.run_invariant inv_step (inv_start progress initial) hrun
  refine ⟨h.running, h.committed, fun q => ⟨h.pending_eq q,
    h.persisted_files q⟩, ?_⟩
  intro s' hstep
  simp only [step] at hstep
  split at hstep
  · rename_i p hpersisting
    have hp := h.underWay p hpersisting
    obtain ⟨attempt, hlast, hepoch, -⟩ := hp.attempted
    obtain rfl := Option.some.inj hstep
    have hdrain := hp.drain h
    refine ⟨?_, attempt, ?_, ?_, ?_⟩
    · simp [TrackerRun.putSucceeds, hdrain, hp.value_eq]
    · simp [TrackerRun.putSucceeds, hdrain, hlast]
    · simp [TrackerRun.putSucceeds, hdrain, hlast]
    · intro older holder
      rw [hepoch]
      exact TrackerState.lt_of_alreadyPersisted (h.epochs older holder)
        hp.fresh
  · simp at hstep

/-- A put fails and is retried while the partitions go on. -/
theorem tracker_commits_marked_files_retry :
    ∃ s : TrackerRun 2 FileKey WatermarkProgress FileWatermark,
      Transition.run (step watermarkProgress)
          (start 2 FileKey FileWatermark
            (WatermarkProgress.new FileWatermark.initial))
          [.withProgress fun p =>
            (p.discover [⟨10, "a"⟩, ⟨20, "b"⟩, ⟨30, "c"⟩]).1,
            .advance 0 ⟨10, "a"⟩, .snapshot 0 1, .advance 1 ⟨20, "b"⟩,
            .snapshot 1 1, .persist 1, .advance 0 ⟨30, "c"⟩, .putFails,
            .persist 1, .putSucceeds] = some s ∧
        (s.backend = some ⟨20, ["b"], []⟩ ∧
          s.state.pending 0 = [⟨30, "c"⟩]) ∧
        s.panicked = false ∧
        ∀ file, file ∈ s.folded ↔ s.FilesOf s.attempts file := by
  refine Exists.imp
    (fun s (h : _ ∧ s.backend = some ⟨20, ["b"], []⟩ ∧
        s.state.pending 0 = [⟨30, "c"⟩]) =>
      have hall := tracker_commits_marked_files _ _ _ s h.1
      ⟨h.1, h.2, hall.1, hall.2.1⟩)
    (Transition.exists_run_of_decide (by decide +kernel))

/-- The files of an epoch whose put failed stay in the progress, and an older
epoch persisted after it puts them. -/
theorem tracker_older_epoch_puts_newer_files :
    ∃ s : TrackerRun 1 FileKey WatermarkProgress FileWatermark,
      Transition.run (step watermarkProgress)
          (start 1 FileKey FileWatermark
            (WatermarkProgress.new FileWatermark.initial))
          [.withProgress fun p => (p.discover [⟨10, "a"⟩, ⟨20, "b"⟩]).1,
            .advance 0 ⟨10, "a"⟩, .snapshot 0 1, .advance 0 ⟨20, "b"⟩,
            .snapshot 0 2, .persist 2, .putFails, .persist 1,
            .putSucceeds] = some s ∧
        (s.attempts.map Attempt.epoch = [2, 1] ∧
          s.succeeded.map Attempt.epoch = [1] ∧
          s.backend = some ⟨20, ["b"], []⟩) ∧
        ¬ ∀ file, file ∈ s.folded ↔ s.FilesOf s.succeeded file := by
  refine Exists.imp
    (fun s (h : _ ∧ (s.attempts.map Attempt.epoch = [2, 1] ∧
        s.succeeded.map Attempt.epoch = [1] ∧
        s.backend = some ⟨20, ["b"], []⟩) ∧
        (⟨20, "b"⟩ ∈ s.folded ∧ ¬ s.FilesOf s.succeeded ⟨20, "b"⟩)) =>
      ⟨h.1, h.2.1, fun hall =>
        h.2.2.2 ((hall ⟨20, "b"⟩).mp h.2.2.1)⟩)
    (Transition.exists_run_of_decide (by decide +kernel))

end TrackerRun

end FileSource

end Streamling
