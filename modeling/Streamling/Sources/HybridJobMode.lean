import Streamling.Sources.HybridPhases

/-!
# Job mode of the hybrid source

In job mode the process that completes the last bounded phase terminates
instead of going on to the unbounded one.  This is decided when the phase
advances, but the phase saved then is the unbounded one: a process started
later loads it and executes the unbounded stream.  The unbounded source stays
untouched as long as no process finds such a state, or one it recovers to the
unbounded phase from.
-/

namespace Streamling

namespace Hybrid

/-- Every partition the offset provider reports has a saved offset. -/
def OffsetsComplete (b : StateBackend) (answer : Option Offsets) : Prop :=
  ∃ offsets ∈ answer, offsets ≠ [] ∧
    ∀ entry ∈ offsets, (b.offsets entry.1).isSome = true

instance (b : StateBackend) (answer : Option Offsets) :
    Decidable (OffsetsComplete b answer) :=
  match answer with
  | none => isFalse (by simp [OffsetsComplete])
  | some offsets =>
      decidable_of_iff
        (offsets ≠ [] ∧ ∀ entry ∈ offsets, (b.offsets entry.1).isSome = true)
        (by simp [OffsetsComplete])

/-- Recovery goes to the unbounded phase only if the offsets are complete and
the quick probe finds one. -/
theorem offsetsComplete_of_tryRecoverToUnbounded
    {config : HybridSourceConfig} {b : StateBackend} {reads : RecoveryReads}
    {offsets : Offsets}
    (h : tryRecoverToUnbounded config b reads = some offsets) :
    (b.offsets 0).isSome = true ∧ OffsetsComplete b reads.answer := by
  unfold tryRecoverToUnbounded at h
  split at h
  · rename_i hprobe
    split at h
    · split at h
      · rename_i found hanswer
        split at h
        · rename_i hall
          have hzero : (b.offsets 0).isSome = true := by
            simp only [StateBackend.hasAnyPersistedOffset,
              Bool.and_eq_true] at hprobe
            exact hprobe.2
          refine ⟨hzero, found, hanswer, hall.1, ?_⟩
          intro entry hentry
          have hentry := List.all_eq_true.mp hall.2 entry hentry
          simp only [Bool.and_eq_true] at hentry
          exact hentry.2
        · cases h
      · cases h
    · cases h
  · cases h

theorem lt_of_highestBoundedState
    {config : HybridSourceConfig} {cursors : ℕ → Bool} {idx : ℕ}
    (h : highestBoundedState config cursors = some idx) :
    idx < config.boundedSources := by
  have hmem := List.mem_of_find?_eq_some h
  simpa using hmem

/-- A recovery to a bounded phase: the highest one with a cursor, or the
phase the process started with. -/
theorem currentPhase_of_not_unbounded
    {config : HybridSourceConfig} {b : StateBackend} {cursors : ℕ → Bool}
    {state state' : HybridSourceState} {reads : RecoveryReads}
    (h : tryRecoverFromPersistedState config b cursors state reads =
      some state')
    (hnone : tryRecoverToUnbounded config b reads = none) :
    state'.currentPhase =
      (highestBoundedState config cursors).getD state.currentPhase := by
  simp only [tryRecoverFromPersistedState, hnone] at h
  split at h
  · rename_i idx hidx
    obtain ⟨marked, -, rfl⟩ := Option.map_eq_some_iff.mp h
    simp [hidx]
  · rename_i hidx
    obtain rfl := Option.some_inj.mp h
    simp [hidx]

namespace ProcessRun

/-! ## Processes that do not find a finished job -/

/-- A process does not load a state whose bounded phases are all complete,
and does not recover from complete offsets. -/
def NotFinished (config : HybridSourceConfig) (s : ProcessRun) :
    Action → Prop
  | .load _ =>
      s.stage = .loading →
        ∀ state ∈ s.backend.phase, state.currentPhase < config.boundedSources
  | .recover reads =>
      s.stage = .recovering →
        ¬ ((s.backend.offsets 0).isSome = true ∧
          OffsetsComplete s.backend reads.answer)
  | _ => True

instance (config : HybridSourceConfig) (s : ProcessRun) (a : Action) :
    Decidable (NotFinished config s a) := by
  unfold NotFinished
  split <;> infer_instance

/-- No unbounded stream was executed, and the process is at a bounded phase
whenever it may go on to execute one. -/
structure BelowUnbounded (config : HybridSourceConfig) (s : ProcessRun) :
    Prop where
  executed : ∀ phase ∈ s.executed, phase < config.boundedSources
  memory : s.stage = .loading ∨ s.stage = .recovering ∨ s.stage = .loopTop ∨
      (∃ attempt, s.stage = .saving attempt false) →
    s.memory.currentPhase < config.boundedSources

/-- A stage from which no stream is executed before the state is saved or a
process is started. -/
theorem BelowUnbounded.of_stage
    {config : HybridSourceConfig} {s s' : ProcessRun}
    (h : BelowUnbounded config s) (hexecuted : s'.executed = s.executed)
    (hstage : s'.stage = .down ∨ s'.stage = .panicked ∨
      s'.stage = .advancing ∨ (∃ phase, s'.stage = .streaming phase) ∨
      (∃ attempt, s'.stage = .saving attempt true) ∨
      ∃ rest, s'.stage = .seeding rest) :
    BelowUnbounded config s' := by
  refine ⟨hexecuted ▸ h.executed, ?_⟩
  intro hbefore
  rcases hstage with hs | hs | hs | ⟨phase, hs⟩ | ⟨attempt, hs⟩ | ⟨rest, hs⟩ <;>
    simp [hs] at hbefore

theorem belowUnbounded_save
    {config : HybridSourceConfig} {s : ProcessRun} {attempt : ℕ}
    {afterPhase : Bool} {outcome : PutOutcome}
    (hjob : config.jobMode = true) (h : BelowUnbounded config s)
    (hphase : afterPhase = false →
      s.memory.currentPhase < config.boundedSources) :
    BelowUnbounded config (s.save config attempt afterPhase outcome) := by
  simp only [save]
  split
  · split
    · exact h.of_stage rfl (Or.inl rfl)
    · rename_i hgoes
      refine ⟨h.executed, fun _ => ?_⟩
      cases afterPhase with
      | false => exact hphase rfl
      | true =>
          show s.memory.currentPhase < config.boundedSources
          simp only [hjob, true_and, and_true, not_le] at hgoes
          exact hgoes
  · split
    · cases afterPhase with
      | false => exact ⟨h.executed, fun _ => hphase rfl⟩
      | true => exact h.of_stage rfl (by simp)
    · exact h.of_stage rfl (Or.inl rfl)

theorem belowUnbounded_load
    {config : HybridSourceConfig} {s : ProcessRun} {reads : Bool}
    (h : BelowUnbounded config s) (hstage : s.stage = .loading)
    (hfinished : ∀ state ∈ s.backend.phase,
      state.currentPhase < config.boundedSources) :
    BelowUnbounded config (s.load config reads) := by
  have hmemory := h.memory (Or.inl hstage)
  unfold load
  split
  · split
    · rename_i state hstate
      exact ⟨h.executed, fun _ => hfinished state hstate⟩
    · split
      · exact ⟨h.executed, fun _ => hmemory⟩
      · exact ⟨h.executed, fun _ => hmemory⟩
  · exact h.of_stage rfl (Or.inl rfl)

theorem belowUnbounded_recover
    {config : HybridSourceConfig} {s : ProcessRun} {reads : RecoveryReads}
    (h : BelowUnbounded config s) (hstage : s.stage = .recovering)
    (hfinished : ¬ ((s.backend.offsets 0).isSome = true ∧
      OffsetsComplete s.backend reads.answer)) :
    BelowUnbounded config (s.recover config reads) := by
  have hmemory := h.memory (Or.inr (Or.inl hstage))
  have hnone : tryRecoverToUnbounded config s.backend reads = none := by
    apply Option.eq_none_iff_forall_ne_some.mpr
    intro offsets hsome
    exact hfinished (offsetsComplete_of_tryRecoverToUnbounded hsome)
  unfold recover
  split
  · rename_i state hstate
    refine ⟨h.executed, fun _ => ?_⟩
    show state.currentPhase < config.boundedSources
    rw [currentPhase_of_not_unbounded hstate hnone]
    cases hidx : highestBoundedState config s.cursors with
    | none => exact hmemory
    | some idx => exact lt_of_highestBoundedState hidx
  · exact h.of_stage rfl (by simp)

theorem belowUnbounded_advance
    {config : HybridSourceConfig} {s : ProcessRun} {answer : Option Offsets}
    (h : BelowUnbounded config s) :
    BelowUnbounded config (s.advance config answer) := by
  unfold advance
  split
  · exact h.of_stage rfl (by simp)
  · split
    · split
      · exact h.of_stage rfl (by simp)
      · exact h.of_stage rfl (by simp)
    · exact h.of_stage rfl (by simp)

theorem belowUnbounded_execute
    {config : HybridSourceConfig} {s : ProcessRun} (opens : Bool)
    (h : BelowUnbounded config s) (hstage : s.stage = .loopTop) :
    BelowUnbounded config (s.execute opens) := by
  have hmemory := h.memory (by simp [hstage])
  unfold execute
  split
  · refine ⟨?_, by simp⟩
    intro phase hphase
    rcases List.mem_append.mp hphase with hold | hnew
    · exact h.executed phase hold
    · obtain rfl := List.mem_singleton.mp hnew
      exact hmemory
  · exact h.of_stage rfl (Or.inl rfl)

theorem belowUnbounded_step
    {config : HybridSourceConfig} (hjob : config.jobMode = true)
    (hbounded : 1 ≤ config.boundedSources) (s : ProcessRun) (a : Action)
    (s' : ProcessRun) (h : BelowUnbounded config s)
    (hfinished : NotFinished config s a) (hstep : step config s a = some s') :
    BelowUnbounded config s' := by
  cases stepped_of_step hstep with
  | startProcess _ => exact ⟨h.executed, fun _ => hbounded⟩
  | crash => exact h.of_stage rfl (Or.inl rfl)
  | load reads hstage =>
      exact belowUnbounded_load h hstage (hfinished hstage)
  | recover reads hstage _ =>
      exact belowUnbounded_recover h hstage (hfinished hstage)
  | save outcome attempt afterPhase hstage =>
      apply belowUnbounded_save hjob h
      rintro rfl
      exact h.memory (by simp [hstage])
  | saveSeeded outcome _ => exact belowUnbounded_save hjob h (by simp)
  | execute opens hstage => exact belowUnbounded_execute opens h hstage
  | streamEnds shutdown phase _ =>
      unfold streamEnds
      split
      · exact h.of_stage rfl (by simp)
      · exact h.of_stage rfl (by simp)
  | streamFails phase _ => exact h.of_stage rfl (by simp)
  | advance answer _ _ => exact belowUnbounded_advance h
  | seed outcome entry rest _ =>
      unfold seed
      split
      · exact h.of_stage rfl (by simp)
      · exact h.of_stage rfl (by simp)
  | saveCursors cursors phase hstage _ =>
      exact h.of_stage rfl (by simp [hstage])
  | commitOffset partition offset phase hstage _ =>
      exact h.of_stage rfl (by simp [hstage])

/-- In job mode, over every sequence of processes with crashes at any step,
no process executes the unbounded stream as long as none finds a finished
job. -/
theorem hybrid_job_mode_stays_bounded
    (config : HybridSourceConfig) (hjob : config.jobMode = true)
    (hbounded : 1 ≤ config.boundedSources) (b : StateBackend)
    (actions : List Action) (s : ProcessRun)
    (hrun : Transition.run (step config) (start config b) actions = some s)
    (hfinished : Transition.AllSteps (step config) (NotFinished config)
      (start config b) actions) :
    ∀ phase ∈ s.executed, phase < config.boundedSources := by
  have hstart : BelowUnbounded config (start config b) :=
    ⟨by simp [start], fun _ => hbounded⟩
  have hs : BelowUnbounded config s :=
    Transition.run_invariant_of_allSteps
      (belowUnbounded_step hjob hbounded) hstart hfinished hrun
  exact hs.executed

/-- A job with one bounded phase. -/
def jobConfig : HybridSourceConfig where
  boundedSources := 1
  offsetProvider := true
  jobMode := true

/-- Nothing was saved yet. -/
def emptyBackend : StateBackend where
  phase := none
  offsets := fun _ => none
  cursors := fun _ => false

/-- The first process of a source on an empty backend, up to the end of its
first bounded stream; the first attempt to save its state fails. -/
def firstPhase : List Action :=
  [.startProcess, .load true, .recover ⟨true, fun _ => true, none⟩,
    .save .lost, .save .stored, .execute true, .streamEnds false]

theorem hybrid_job_mode_stays_bounded_one_phase :
    ∃ s, Transition.run (step jobConfig) (start jobConfig emptyBackend)
        (firstPhase ++ [.advance none, .save .stored]) = some s ∧
      s.stage = .down ∧ s.executed = [0] ∧
        ∀ phase ∈ s.executed, phase < 1 := by
  refine Exists.imp
    (fun s (h : _ ∧ s.stage = .down ∧ s.executed = [0]) =>
      ⟨h.1, h.2.1, h.2.2, hybrid_job_mode_stays_bounded jobConfig rfl
        (by decide) emptyBackend _ s h.1 (by decide)⟩)
    (Transition.exists_run_of_decide (by decide))

/-- The job completes and terminates; the next process executes phase one,
the unbounded stream. -/
theorem hybrid_job_mode_restarts_unbounded :
    ∃ s, Transition.run (step jobConfig) (start jobConfig emptyBackend)
        (firstPhase ++ [.advance none, .save .stored, .startProcess,
          .load true, .execute true]) = some s ∧
      ¬ ∀ phase ∈ s.executed, phase < jobConfig.boundedSources :=
  Transition.exists_run_of_decide (by decide)

end ProcessRun

end Hybrid

end Streamling
