import Streamling.Sources.HybridJobMode

/-!
# Recovery and phases of the hybrid source

Whatever a process crashes in, the phase in memory and the saved one stay
within the bounded sources and the phases before them completed, the phase
never goes back within a process, and the unbounded stream is executed only
once the offsets of the handoff are saved.  This needs that a phase saved
before the run was saved for the same number of bounded sources.

Without a saved phase, recovery goes to the phase the saved offsets and
cursors call for, except in one case: the quick probe looks at partition zero
only, so complete offsets that leave it out are not noticed.
-/

namespace Streamling

namespace Hybrid

/-! ## Valid states -/

/-- A state of a source with this many bounded phases. -/
structure ValidState (config : HybridSourceConfig)
    (state : HybridSourceState) : Prop where
  length_eq : state.completedPhases.length = config.boundedSources
  current_le : state.currentPhase ≤ config.boundedSources
  completed : ∀ i < state.currentPhase,
    state.completedPhases[i]? = some true

variable {config : HybridSourceConfig}

theorem validState_initialState : ValidState config config.initialState where
  length_eq := by simp [HybridSourceConfig.initialState]
  current_le := Nat.zero_le _
  completed := by simp [HybridSourceConfig.initialState]

/-- Marking the phases below the new current one keeps a state valid. -/
theorem exists_markCompleted
    {state : HybridSourceState} (h : ValidState config state) {count : ℕ}
    (hcount : count ≤ config.boundedSources) :
    ∃ marked, state.markCompleted count = some marked ∧
      ∀ offsets, ValidState config
        { marked with
          currentPhase := count
          unboundedOffsets := offsets } := by
  have hle : count ≤ state.completedPhases.length := by
    rw [h.length_eq]
    exact hcount
  refine ⟨_, if_pos hle, fun offsets => ⟨?_, hcount, ?_⟩⟩
  · simp only [List.length_append, List.length_replicate, List.length_drop,
      h.length_eq]
    omega
  · intro i hi
    have hi : i < count := hi
    simp [List.getElem?_append, hi]

theorem exists_advance
    {state : HybridSourceState} (h : ValidState config state)
    (hcurrent : state.currentPhase < config.boundedSources) :
    ∃ advanced, state.advance config.boundedSources = some advanced ∧
      ValidState config advanced ∧
      advanced.currentPhase = state.currentPhase + 1 := by
  have hlength : state.currentPhase < state.completedPhases.length := by
    rw [h.length_eq]
    exact hcurrent
  refine ⟨_, (if_pos hcurrent).trans (if_pos hlength),
    ⟨?_, hcurrent, ?_⟩, rfl⟩
  · simp [h.length_eq]
  · intro i hi
    have hi : i < state.currentPhase + 1 := hi
    rcases Nat.lt_or_eq_of_le (Nat.le_of_lt_succ hi) with hlt | rfl
    · rw [List.getElem?_set_ne (Nat.ne_of_gt hlt)]
      exact h.completed i hlt
    · exact List.getElem?_set_self hlength

theorem ValidState.withOffsets
    {state : HybridSourceState} (h : ValidState config state)
    (offsets : Option Offsets) :
    ValidState config { state with unboundedOffsets := offsets } :=
  ⟨h.length_eq, h.current_le, h.completed⟩

/-! ## The target of a recovery -/

/-- The phase a recovery should go to: the unbounded one if every partition
the offset provider reports has a saved offset, else the highest bounded one
with a cursor, else the first. -/
def recoveryTarget (config : HybridSourceConfig) (b : StateBackend)
    (cursors : ℕ → Bool) (answer : Option Offsets) : ℕ :=
  if config.offsetProvider = true ∧ OffsetsComplete b answer then
    config.boundedSources
  else (highestBoundedState config cursors).getD 0

/-- The offsets are complete but leave out partition zero. -/
def ProbeMisses (config : HybridSourceConfig) (b : StateBackend)
    (answer : Option Offsets) : Prop :=
  config.offsetProvider = true ∧ OffsetsComplete b answer ∧
    b.offsets 0 = none

/-- With all reads succeeding, recovery goes to the unbounded phase exactly
if the offsets are complete and partition zero is among the saved ones. -/
theorem tryRecoverToUnbounded_isSome_iff
    {b : StateBackend} {answer : Option Offsets} :
    (tryRecoverToUnbounded config b
        ⟨true, fun _ => true, answer⟩).isSome = true ↔
      config.offsetProvider = true ∧ OffsetsComplete b answer ∧
        (b.offsets 0).isSome = true := by
  constructor
  · intro h
    obtain ⟨offsets, hsome⟩ := Option.isSome_iff_exists.mp h
    have hcomplete := offsetsComplete_of_tryRecoverToUnbounded hsome
    refine ⟨?_, hcomplete.2, hcomplete.1⟩
    by_contra hprovider
    simp [tryRecoverToUnbounded, hprovider] at hsome
  · rintro ⟨hprovider, ⟨offsets, hanswer, hne, hall⟩, hzero⟩
    have hanswer : answer = some offsets := hanswer
    simp only [tryRecoverToUnbounded, StateBackend.hasAnyPersistedOffset,
      StateBackend.hasAllPersistedOffsets, hprovider, hzero, hanswer,
      Bool.true_and, if_true, List.all_eq_true]
    rw [if_pos ⟨hne, hall⟩]
    rfl

/-- Every recovery from a fresh state finds a valid one. -/
theorem exists_tryRecoverFromPersistedState
    (config : HybridSourceConfig) (b : StateBackend) (cursors : ℕ → Bool)
    (reads : RecoveryReads) :
    ∃ state, tryRecoverFromPersistedState config b cursors
        config.initialState reads = some state ∧
      ValidState config state ∧
      state.currentPhase =
        if (tryRecoverToUnbounded config b reads).isSome = true then
          config.boundedSources
        else (highestBoundedState config cursors).getD 0 := by
  cases hunbounded : tryRecoverToUnbounded config b reads with
  | some offsets =>
      obtain ⟨marked, hmarked, hvalid⟩ := exists_markCompleted
        validState_initialState (Nat.le_refl config.boundedSources)
      refine ⟨_, ?_, hvalid (some offsets), by simp⟩
      simp [tryRecoverFromPersistedState, hunbounded, hmarked]
  | none =>
      cases hidx : highestBoundedState config cursors with
      | some idx =>
          have hlt := lt_of_highestBoundedState hidx
          obtain ⟨marked, hmarked, hvalid⟩ := exists_markCompleted
            validState_initialState hlt.le
          refine ⟨_, ?_, hvalid marked.unboundedOffsets, by simp⟩
          simp [tryRecoverFromPersistedState, hunbounded, hidx, hmarked]
      | none =>
          refine ⟨config.initialState, ?_, validState_initialState, ?_⟩
          · simp [tryRecoverFromPersistedState, hunbounded, hidx]
          · simp [HybridSourceConfig.initialState]

namespace ProcessRun

/-! ## The invariant over all processes -/

/-- Every offset returned at the last handoff is saved, unless the unbounded
source has replaced it by an offset it committed. -/
def HandoffStored (s : ProcessRun) : Prop :=
  ∀ offsets ∈ s.handoff, ∀ entry ∈ offsets,
    s.backend.offsets entry.1 = some (entry.2 : ℤ) ∨
      entry.1 ∈ s.committed ∧ (s.backend.offsets entry.1).isSome = true

theorem handoffStored_of_none {s : ProcessRun} (h : s.handoff = none) :
    s.HandoffStored := by
  simp [HandoffStored, h]

/-- What holds at each stage of a process. -/
def StageInv (config : HybridSourceConfig) (s : ProcessRun) : Prop :=
  match s.stage with
  | .down => True
  | .loading => s.memory = config.initialState
  | .recovering =>
      s.memory = config.initialState ∧ s.backend.phase = none ∧
        0 < config.boundedSources
  | .saving _ false => s.handoff = none
  | .saving _ true =>
      s.memory.currentPhase = config.boundedSources → s.HandoffStored
  | .loopTop =>
      config.boundedSources = 0 ∨ s.backend.phase = some s.memory
  | .streaming phase =>
      phase = s.memory.currentPhase ∧
        (config.boundedSources = 0 ∨ s.backend.phase = some s.memory)
  | .advancing =>
      s.memory.currentPhase < config.boundedSources ∧
        s.backend.phase = some s.memory
  | .seeding rest =>
      (∀ state ∈ s.backend.phase,
          state.currentPhase < config.boundedSources) ∧
        ∃ seeded, s.handoff = some (seeded ++ rest) ∧
          ((seeded ++ rest).map Prod.fst).Nodup ∧
          ∀ entry ∈ seeded, s.backend.offsets entry.1 = some (entry.2 : ℤ)
  | .panicked => False

structure Inv (config : HybridSourceConfig) (s : ProcessRun) : Prop where
  memory : ValidState config s.memory
  saved : ∀ state ∈ s.backend.phase, ValidState config state
  stored : ∀ state ∈ s.backend.phase,
    state.currentPhase = config.boundedSources → s.HandoffStored
  handoff : s.handoff.isSome = true →
    0 < config.boundedSources ∧ s.backend.phase.isSome = true ∧
      config.offsetProvider = true ∧ config.jobMode = false
  stage : StageInv config s

theorem inv_start
    {b : StateBackend}
    (h : ∀ state ∈ b.phase, ValidState config state) :
    Inv config (start config b) where
  memory := validState_initialState
  saved := h
  stored := fun _ _ _ => handoffStored_of_none rfl
  handoff := by simp [start]
  stage := trivial

theorem Inv.handoff_eq_none
    {s : ProcessRun} (h : Inv config s)
    (hwhy : config.boundedSources = 0 ∨ s.backend.phase = none ∨
      config.offsetProvider = false ∨ config.jobMode = true) :
    s.handoff = none := by
  rw [← Option.not_isSome_iff_eq_none]
  intro hsome
  obtain ⟨hpos, hphase, hprovider, hjob⟩ := h.handoff hsome
  rcases hwhy with hzero | hnone | hprovider' | hjob'
  · omega
  · simp [hnone] at hphase
  · simp [hprovider'] at hprovider
  · simp [hjob'] at hjob

/-- A step that changes neither memory nor backend nor handoff has only its
new stage to answer for. -/
theorem Inv.toStage
    {s : ProcessRun} (h : Inv config s) {stage : ProcessStage}
    {executed : List ℕ}
    (hstage : StageInv config
      { s with stage := stage, executed := executed }) :
    Inv config { s with stage := stage, executed := executed } where
  memory := h.memory
  saved := h.saved
  stored := h.stored
  handoff := h.handoff
  stage := hstage

theorem inv_load
    {s : ProcessRun} {reads : Bool} (h : Inv config s)
    (hstage : s.stage = .loading) : Inv config (s.load config reads) := by
  have hfresh : s.memory = config.initialState := by
    have hs := h.stage
    simpa [StageInv, hstage] using hs
  unfold load
  split
  · split
    · rename_i state hstate
      exact
        { memory := h.saved state hstate, saved := h.saved,
          stored := h.stored, handoff := h.handoff, stage := Or.inr hstate }
    · rename_i hnone
      split
      · rename_i hzero
        exact h.toStage (Or.inl hzero)
      · rename_i hpos
        exact h.toStage ⟨hfresh, hnone, Nat.pos_of_ne_zero hpos⟩
  · exact h.toStage trivial

theorem inv_recover
    {s : ProcessRun} {reads : RecoveryReads} (h : Inv config s)
    (hstage : s.stage = .recovering) :
    Inv config (s.recover config reads) := by
  have hs : s.memory = config.initialState ∧ s.backend.phase = none ∧
      0 < config.boundedSources := by
    have hs := h.stage
    simpa only [StageInv, hstage] using hs
  obtain ⟨state, hstate, hvalid, -⟩ :=
    exists_tryRecoverFromPersistedState config s.backend s.cursors reads
  have hnone := h.handoff_eq_none (Or.inr (Or.inl hs.2.1))
  simp only [recover, hs.1, hstate]
  exact
    { memory := hvalid, saved := h.saved, stored := h.stored,
      handoff := h.handoff, stage := hnone }

theorem putPhase_offsets (b : StateBackend) (state : HybridSourceState)
    (outcome : PutOutcome) :
    (b.putPhase state outcome).offsets = b.offsets := by
  unfold StateBackend.putPhase
  split <;> rfl

theorem HandoffStored.putPhase
    {s : ProcessRun} (h : s.HandoffStored) (outcome : PutOutcome)
    (stage : ProcessStage) :
    HandoffStored
      { s with
        backend := s.backend.putPhase s.memory outcome
        stage := stage } := by
  unfold HandoffStored
  rw [putPhase_offsets]
  exact h

/-- Saving the state in memory, whether or not the write takes effect. -/
theorem inv_putPhase
    {s : ProcessRun} (h : Inv config s) (outcome : PutOutcome)
    {stage : ProcessStage}
    (hstored : s.memory.currentPhase = config.boundedSources →
      s.HandoffStored)
    (hstage : StageInv config
      { s with
        backend := s.backend.putPhase s.memory outcome
        stage := stage }) :
    Inv config
      { s with
        backend := s.backend.putPhase s.memory outcome
        stage := stage } := by
  have hphase : (s.backend.putPhase s.memory outcome).phase = some s.memory ∨
      s.backend.putPhase s.memory outcome = s.backend := by
    unfold StateBackend.putPhase
    split
    · exact Or.inl rfl
    · exact Or.inr rfl
  refine ⟨h.memory, ?_, ?_, ?_, hstage⟩
  · intro state hstate
    rcases hphase with hnew | hold
    · obtain rfl : s.memory = state := by simpa [hnew] using hstate
      exact h.memory
    · exact h.saved state (by simpa [hold] using hstate)
  · intro state hstate hcurrent
    apply HandoffStored.putPhase
    rcases hphase with hnew | hold
    · obtain rfl : s.memory = state := by simpa [hnew] using hstate
      exact hstored hcurrent
    · exact h.stored state (by simpa [hold] using hstate) hcurrent
  · intro hsome
    obtain ⟨hpos, hold, hrest⟩ := h.handoff hsome
    refine ⟨hpos, ?_, hrest⟩
    rcases hphase with hnew | heq
    · simp [hnew]
    · simpa [heq] using hold

theorem inv_save
    {s : ProcessRun} (h : Inv config s) (attempt : ℕ) (afterPhase : Bool)
    (outcome : PutOutcome)
    (hstored : s.memory.currentPhase = config.boundedSources →
      s.HandoffStored)
    (hrecovery : afterPhase = false → s.handoff = none) :
    Inv config (s.save config attempt afterPhase outcome) := by
  simp only [save]
  split
  · rename_i houtcome
    subst houtcome
    split
    · exact inv_putPhase h .stored hstored trivial
    · exact inv_putPhase h .stored hstored (Or.inr rfl)
  · split
    · apply inv_putPhase h outcome hstored
      cases afterPhase with
      | false => exact hrecovery rfl
      | true =>
          intro hcurrent
          exact (hstored hcurrent).putPhase outcome _
    · exact inv_putPhase h outcome hstored trivial

theorem inv_advance
    {s : ProcessRun} {answer : Option Offsets} (h : Inv config s)
    (hstage : s.stage = .advancing) (hmap : IsMap answer) :
    Inv config (s.advance config answer) := by
  have hs : s.memory.currentPhase < config.boundedSources ∧
      s.backend.phase = some s.memory := by
    have hs := h.stage
    simpa only [StageInv, hstage] using hs
  obtain ⟨state, hstate, hvalid, hcurrent⟩ := exists_advance h.memory hs.1
  have hbelow : ∀ saved ∈ s.backend.phase,
      saved.currentPhase < config.boundedSources := by
    intro saved hsaved
    obtain rfl : s.memory = saved := by simpa [hs.2] using hsaved
    exact hs.1
  have hpos : 0 < config.boundedSources := Nat.zero_lt_of_lt hs.1
  simp only [advance, hstate]
  split
  · rename_i hhandoff
    split
    · exact
        { memory := hvalid, saved := h.saved, stored := h.stored,
          handoff := h.handoff, stage := trivial }
    · rename_i offsets
      have hnodup := hmap offsets rfl
      refine ⟨hvalid.withOffsets _, h.saved, ?_, ?_, ?_⟩
      · intro saved hsaved hlast
        exact absurd hlast (hbelow saved hsaved).ne
      · intro _
        exact ⟨hpos, by simp [hs.2], hhandoff.2.2, by simpa using hhandoff.2.1⟩
      · exact ⟨hbelow, [], rfl, hnodup, by simp⟩
  · rename_i hhandoff
    refine ⟨hvalid, h.saved, h.stored, h.handoff, ?_⟩
    intro hlast
    -- the last bounded phase is left without a handoff only in job mode or
    -- without an offset provider, and then there never is one
    have hlast : state.currentPhase = config.boundedSources := hlast
    have hnone : s.handoff = none := by
      apply h.handoff_eq_none
      by_cases hjob : config.jobMode = true
      · exact Or.inr (Or.inr (Or.inr hjob))
      · have hprovider : ¬ config.offsetProvider = true := by
          intro hprovider
          exact hhandoff ⟨hlast, by simpa using hjob, hprovider⟩
        exact Or.inr (Or.inr (Or.inl (by simpa using hprovider)))
    exact handoffStored_of_none hnone

theorem putOffset_phase (b : StateBackend) (partition offset : ℤ)
    (outcome : PutOutcome) :
    (b.putOffset partition offset outcome).phase = b.phase := by
  unfold StateBackend.putOffset
  split <;> rfl

theorem inv_seed
    {s : ProcessRun} {entry : ℤ × ℕ} {rest : Offsets} {outcome : PutOutcome}
    (h : Inv config s) (hstage : s.stage = .seeding (entry :: rest)) :
    Inv config (s.seed entry rest outcome) := by
  have hs := h.stage
  simp only [StageInv, hstage] at hs
  obtain ⟨hbelow, seeded, hhandoff, hnodup, hseeded⟩ := hs
  have hbelow' : ∀ state ∈ (s.backend.putOffset entry.1 entry.2 outcome).phase,
      state.currentPhase < config.boundedSources := by
    rw [putOffset_phase]
    exact hbelow
  refine ⟨h.memory, ?_, ?_, ?_, ?_⟩
  · intro state hstate
    exact h.saved state (by simpa [seed, putOffset_phase] using hstate)
  · intro state hstate hlast
    exact absurd hlast (hbelow' state hstate).ne
  · intro hsome
    simpa [seed, putOffset_phase] using h.handoff hsome
  · unfold seed
    split
    · rename_i houtcome
      subst houtcome
      refine ⟨hbelow', seeded ++ [entry], by simp [hhandoff],
        by simpa using hnodup, ?_⟩
      intro other hother
      show Function.update s.backend.offsets entry.1 (some ↑entry.2)
        other.1 = _
      rcases List.mem_append.mp hother with hold | hnew
      · have hne : other.1 ≠ entry.1 := by
          intro heq
          rw [List.map_append, List.map_cons] at hnodup
          have hdisjoint := (List.nodup_append.mp hnodup).2.2
          exact hdisjoint _ (List.mem_map_of_mem hold) _
            List.mem_cons_self heq
        rw [Function.update_of_ne hne]
        exact hseeded other hold
      · obtain rfl := List.mem_singleton.mp hnew
        exact Function.update_self _ _ _
    · trivial

theorem inv_commitOffset
    {s : ProcessRun} {phase : ℕ} (h : Inv config s) (partition offset : ℤ)
    (hstage : s.stage = .streaming phase) :
    Inv config
      { s with
        backend := s.backend.putOffset partition offset .stored
        committed := partition :: s.committed } := by
  have hkeep : s.HandoffStored → HandoffStored
      { s with
        backend := s.backend.putOffset partition offset .stored
        committed := partition :: s.committed } := by
    intro hs offsets hoffsets entry hentry
    show Function.update s.backend.offsets partition (some offset) entry.1 =
        _ ∨ _ ∧
      (Function.update s.backend.offsets partition (some offset)
        entry.1).isSome = true
    by_cases heq : entry.1 = partition
    · right
      simp [heq]
    · rw [Function.update_of_ne heq]
      rcases hs offsets hoffsets entry hentry with hstored | ⟨hmem, hsome⟩
      · exact Or.inl hstored
      · exact Or.inr ⟨List.mem_cons_of_mem _ hmem, hsome⟩
  have hs := h.stage
  simp only [StageInv, hstage] at hs
  refine ⟨h.memory, h.saved, ?_, h.handoff, ?_⟩
  · intro state hstate hlast
    exact hkeep (h.stored state hstate hlast)
  · simp only [StageInv, hstage]
    exact hs

/-- A save behind a phase follows the handoff, if there is one. -/
theorem inv_saves
    {s : ProcessRun} {attempt : ℕ} {afterPhase : Bool} (h : Inv config s)
    (hstage : s.stage = .saving attempt afterPhase) (outcome : PutOutcome) :
    Inv config (s.save config attempt afterPhase outcome) := by
  have hs := h.stage
  cases afterPhase with
  | false =>
      have hnone : s.handoff = none := by
        simpa only [StageInv, hstage] using hs
      exact inv_save h attempt false outcome
        (fun _ => handoffStored_of_none hnone) (fun _ => hnone)
  | true =>
      simp only [StageInv, hstage] at hs
      exact inv_save h attempt true outcome hs (by simp)

/-- All partitions of the handoff have been seeded. -/
theorem inv_saveSeeded
    {s : ProcessRun} (h : Inv config s) (hstage : s.stage = .seeding [])
    (outcome : PutOutcome) : Inv config (s.save config 1 true outcome) := by
  have hs := h.stage
  simp only [StageInv, hstage, List.append_nil] at hs
  obtain ⟨-, seeded, hhandoff, -, hseeded⟩ := hs
  refine inv_save h 1 true outcome ?_ (by simp)
  intro _ offsets hoffsets entry hentry
  obtain rfl : seeded = offsets := by simpa [hhandoff] using hoffsets
  exact Or.inl (hseeded entry hentry)

theorem inv_execute
    {s : ProcessRun} (h : Inv config s) (hstage : s.stage = .loopTop)
    (opens : Bool) : Inv config (s.execute opens) := by
  have hs := h.stage
  simp only [StageInv, hstage] at hs
  unfold execute
  split
  · exact h.toStage ⟨rfl, hs⟩
  · exact h.toStage trivial

/-- A bounded stream that ends has had its phase saved. -/
theorem inv_streamEnds
    {s : ProcessRun} {phase : ℕ} (h : Inv config s)
    (hstage : s.stage = .streaming phase) (shutdown : Bool) :
    Inv config (s.streamEnds config phase shutdown) := by
  have hs := h.stage
  simp only [StageInv, hstage] at hs
  unfold streamEnds
  split
  · exact h.toStage trivial
  next hbounded =>
    have hlt : s.memory.currentPhase < config.boundedSources := by
      rw [← hs.1]
      by_contra hle
      exact hbounded (Or.inl (Nat.le_of_not_lt hle))
    have hsaved : s.backend.phase = some s.memory := by
      rcases hs.2 with hzero | hsaved
      · omega
      · exact hsaved
    exact h.toStage ⟨hlt, hsaved⟩

theorem inv_step
    (s : ProcessRun) (a : Action) (s' : ProcessRun) (h : Inv config s)
    (hstep : step config s a = some s') : Inv config s' := by
  cases stepped_of_step hstep with
  | startProcess _ =>
      exact
        { memory := validState_initialState, saved := h.saved,
          stored := h.stored, handoff := h.handoff, stage := rfl }
  | crash => exact h.toStage trivial
  | load reads hstage => exact inv_load h hstage
  | recover reads hstage _ => exact inv_recover h hstage
  | save outcome attempt afterPhase hstage => exact inv_saves h hstage outcome
  | saveSeeded outcome hstage => exact inv_saveSeeded h hstage outcome
  | execute opens hstage => exact inv_execute h hstage opens
  | streamEnds shutdown phase hstage => exact inv_streamEnds h hstage shutdown
  | streamFails phase _ => exact h.toStage trivial
  | advance answer hstage hmap => exact inv_advance h hstage hmap
  | seed outcome entry rest hstage => exact inv_seed h hstage
  | saveCursors cursors phase hstage _ =>
      have hs := h.stage
      exact
        { memory := h.memory, saved := h.saved, stored := h.stored,
          handoff := h.handoff
          stage := by
            simp only [StageInv, hstage] at hs ⊢
            exact hs }
  | commitOffset partition offset phase hstage _ =>
      exact inv_commitOffset h partition offset hstage

theorem save_memory
    (s : ProcessRun) (attempt : ℕ) (afterPhase : Bool)
    (outcome : PutOutcome) :
    (s.save config attempt afterPhase outcome).memory = s.memory := by
  simp only [save]
  split
  · split <;> rfl
  · split <;> rfl

/-- Within a process the phase never goes back. -/
theorem currentPhase_le_step
    {s s' : ProcessRun} {a : Action} (h : Inv config s)
    (ha : a ≠ .startProcess) (hstep : step config s a = some s') :
    s.memory.currentPhase ≤ s'.memory.currentPhase := by
  have hfresh : s.memory = config.initialState →
      ∀ n, s.memory.currentPhase ≤ n := by
    intro heq n
    rw [heq]
    exact Nat.zero_le n
  have hs := h.stage
  cases stepped_of_step hstep with
  | startProcess _ => exact absurd rfl ha
  | load reads hstage =>
      simp only [StageInv, hstage] at hs
      exact hfresh hs _
  | recover reads hstage _ =>
      simp only [StageInv, hstage] at hs
      exact hfresh hs.1 _
  | save outcome attempt afterPhase _ => rw [save_memory]
  | saveSeeded outcome _ => rw [save_memory]
  | execute opens _ =>
      unfold execute
      split <;> exact Nat.le_refl _
  | streamEnds shutdown phase _ =>
      unfold streamEnds
      split <;> exact Nat.le_refl _
  | advance answer hstage _ =>
      simp only [StageInv, hstage] at hs
      obtain ⟨state, hstate, -, hcurrent⟩ := exists_advance h.memory hs.1
      have hle : s.memory.currentPhase ≤ state.currentPhase := by omega
      simp only [advance, hstate]
      split
      · split <;> exact hle
      · exact hle
  | crash => exact Nat.le_refl _
  | streamFails phase _ => exact Nat.le_refl _
  | seed outcome entry rest _ => exact Nat.le_refl _
  | saveCursors cursors phase _ _ => exact Nat.le_refl _
  | commitOffset partition offset phase _ _ => exact Nat.le_refl _

theorem currentPhase_le_run
    {s t : ProcessRun} {later : List Action} (h : Inv config s)
    (hlater : .startProcess ∉ later)
    (hrun : Transition.run (step config) s later = some t) :
    s.memory.currentPhase ≤ t.memory.currentPhase := by
  have hstep : ∀ s a s', Inv config s → a ≠ .startProcess →
      step config s a = some s' →
      s.memory.currentPhase ≤ s'.memory.currentPhase :=
    fun _ _ _ hs ha hstep => currentPhase_le_step hs ha hstep
  have hne : ∀ a ∈ later, a ≠ .startProcess := by
    rintro a ha rfl
    exact hlater ha
  exact Transition.run_relates_of_inv
    (R := fun s t => s.memory.currentPhase ≤ t.memory.currentPhase)
    inv_step (fun _ => Nat.le_refl _) Nat.le_trans hstep h hne hrun

/-- Recovery with all reads succeeding goes to its target exactly if the
quick probe does not miss complete offsets. -/
theorem recovers_to_target_iff
    {s s' : ProcessRun} {answer : Option Offsets} (h : Inv config s)
    (hstep : step config s (.recover ⟨true, fun _ => true, answer⟩) =
      some s') :
    s'.memory.currentPhase =
        recoveryTarget config s.backend s.cursors answer ↔
      ¬ ProbeMisses config s.backend answer := by
  simp only [step] at hstep
  split at hstep
  · rename_i hstage
    split at hstep
    · have hs : s.memory = config.initialState ∧ s.backend.phase = none ∧
          0 < config.boundedSources := by
        have hs := h.stage
        simpa only [StageInv, hstage] using hs
      obtain ⟨state, hstate, -, hcurrent⟩ :=
        exists_tryRecoverFromPersistedState config s.backend s.cursors
          ⟨true, fun _ => true, answer⟩
      have hbounded : (highestBoundedState config s.cursors).getD 0 <
          config.boundedSources := by
        cases hidx : highestBoundedState config s.cursors with
        | none => exact hs.2.2
        | some idx => exact lt_of_highestBoundedState hidx
      obtain rfl : { s with memory := state, stage := .saving 1 false } =
          s' := by
        simpa only [recover, hs.1, hstate, Option.some_inj] using hstep
      show state.currentPhase = _ ↔ _
      simp only [hcurrent, tryRecoverToUnbounded_isSome_iff, recoveryTarget,
        ProbeMisses]
      by_cases hcomplete : config.offsetProvider = true ∧
          OffsetsComplete s.backend answer
      · cases hzero : s.backend.offsets 0 with
        | some offset => simp [hcomplete]
        | none =>
            simp only [hcomplete, Option.isSome_none, Bool.false_eq_true,
              and_false, if_false, and_self, if_true, not_true_eq_false,
              iff_false]
            exact hbounded.ne
      · have hprobe : ¬ (config.offsetProvider = true ∧
            OffsetsComplete s.backend answer ∧
              (s.backend.offsets 0).isSome = true) :=
          fun hall => hcomplete ⟨hall.1, hall.2.1⟩
        have hmiss : ¬ (config.offsetProvider = true ∧
            OffsetsComplete s.backend answer ∧
              s.backend.offsets 0 = none) :=
          fun hall => hcomplete ⟨hall.1, hall.2.1⟩
        simp [hcomplete, hprobe, hmiss]
    · cases hstep
  · cases hstep

/-- What the phases of a hybrid source promise in a state. -/
structure PhaseGuarantees (config : HybridSourceConfig) (s : ProcessRun) :
    Prop where
  /-- The states in memory and in the backend are valid, and no index was
  out of bounds. -/
  memory : ValidState config s.memory
  saved : ∀ state ∈ s.backend.phase, ValidState config state
  no_panic : s.stage ≠ .panicked
  /-- The phase does not go back before the next process starts. -/
  monotone : ∀ later t, .startProcess ∉ later →
    Transition.run (step config) s later = some t →
      s.memory.currentPhase ≤ t.memory.currentPhase
  /-- The unbounded stream is executed after the handoff was stored. -/
  handoff : ∀ phase, s.stage = .streaming phase →
    config.boundedSources ≤ phase → s.HandoffStored

theorem Inv.phaseGuarantees {s : ProcessRun} (h : Inv config s) :
    PhaseGuarantees config s where
  memory := h.memory
  saved := h.saved
  no_panic := by
    intro hstage
    have hs := h.stage
    simp only [StageInv, hstage] at hs
  monotone := fun _ _ hlater hrun => currentPhase_le_run h hlater hrun
  handoff := by
    intro phase hstage hunbounded
    have hs := h.stage
    simp only [StageInv, hstage] at hs
    rcases hs.2 with hzero | hsaved
    · exact handoffStored_of_none (h.handoff_eq_none (Or.inl hzero))
    · apply h.stored s.memory hsaved
      have hle := h.memory.current_le
      omega

/-- The phase guarantees hold in every run of processes exactly if the phase
key, when present, was saved for the same bounded sources; then a recovery
goes to its target exactly if the quick probe does not miss complete
offsets. -/
theorem hybrid_recovery_and_phases
    (config : HybridSourceConfig) (b : StateBackend) :
    ((∀ actions s,
        Transition.run (step config) (start config b) actions = some s →
          PhaseGuarantees config s) ↔
      ∀ state ∈ b.phase, ValidState config state) ∧
    ((∀ state ∈ b.phase, ValidState config state) →
      ∀ actions s,
        Transition.run (step config) (start config b) actions = some s →
          ∀ answer s',
            step config s (.recover ⟨true, fun _ => true, answer⟩) =
                some s' →
              (s'.memory.currentPhase =
                  recoveryTarget config s.backend s.cursors answer ↔
                ¬ ProbeMisses config s.backend answer)) := by
  have hinv : (∀ state ∈ b.phase, ValidState config state) →
      ∀ actions s,
        Transition.run (step config) (start config b) actions = some s →
          Inv config s := by
    intro hb actions s hrun
    exact Transition.run_invariant inv_step (inv_start hb) hrun
  refine ⟨⟨?_, ?_⟩, ?_⟩
  · intro hall
    exact (hall [] (start config b) rfl).saved
  · intro hb actions s hrun
    exact (hinv hb actions s hrun).phaseGuarantees
  · intro hb actions s hrun answer s' hstep
    exact recovers_to_target_iff (hinv hb actions s hrun) hstep

/-- A streaming source with bounded phases and an offset provider. -/
def streamingConfig (boundedSources : ℕ) : HybridSourceConfig where
  boundedSources := boundedSources
  offsetProvider := true
  jobMode := false

/-- A first process hands two partitions over to the unbounded source. -/
theorem hybrid_recovery_and_phases_handoff :
    ∃ s, Transition.run (step (streamingConfig 1))
        (start (streamingConfig 1) emptyBackend)
        (firstPhase ++ [.advance (some [(0, 7), (1, 9)]), .seed .stored,
          .seed .stored, .save .unacknowledged, .save .stored,
          .execute true]) = some s ∧
      s.stage = .streaming 1 ∧ PhaseGuarantees (streamingConfig 1) s := by
  refine Exists.imp
    (fun s (h : _ ∧ s.stage = .streaming 1) =>
      ⟨h.1, h.2, (hybrid_recovery_and_phases (streamingConfig 1)
        emptyBackend).1.mpr (by simp [emptyBackend]) _ s h.1⟩)
    (Transition.exists_run_of_decide (by decide))

/-- The unbounded source has an offset for its only reported partition. -/
def partitionOneBackend : StateBackend :=
  { emptyBackend with
    offsets := fun partition => if partition = 1 then some 10 else none }

/-- A state saved when the source had one bounded phase. -/
def olderBackend : StateBackend :=
  { emptyBackend with phase := some ⟨1, [true], none⟩ }

/-- Complete offsets without partition zero are not recovered from: the
process goes to phase zero although its target is the unbounded phase one.
And a state saved for one bounded phase, loaded by a source with two, makes
the process panic when it advances. -/
theorem hybrid_recovery_misses_offsets :
    (∃ s, Transition.run (step (streamingConfig 1))
          (start (streamingConfig 1) partitionOneBackend)
          [.startProcess, .load true,
            .recover ⟨true, fun _ => true, some [(1, 10)]⟩] = some s ∧
        s.memory.currentPhase = 0 ∧
        recoveryTarget (streamingConfig 1) partitionOneBackend s.cursors
          (some [(1, 10)]) = 1) ∧
      ∃ s, Transition.run (step (streamingConfig 2))
          (start (streamingConfig 2) olderBackend)
          [.startProcess, .load true, .execute true, .streamEnds false,
            .advance none] = some s ∧
        s.stage = .panicked := by
  constructor
  · exact Transition.exists_run_of_decide (by decide)
  · exact Transition.exists_run_of_decide (by decide)

end ProcessRun

end Hybrid

end Streamling
