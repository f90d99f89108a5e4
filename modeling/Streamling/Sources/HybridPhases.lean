import Mathlib
import Streamling.Support.Run

/-!
# The phases of the hybrid source

The hybrid source executes its bounded sources one after the other and then
the unbounded one.  The current phase is kept in memory and saved under one
key of the state backend; the offsets of the unbounded source and the cursors
of the bounded ones are saved under keys of their own.

A run here is a sequence of processes of one source, each of which may crash
between any two steps and whose writes may each be lost.  The next process
starts from what the backend holds.  What is streamed in a phase is not
modelled, only that its stream was executed.
-/

namespace Streamling

namespace Hybrid

/-- What the offset provider returns: an offset for each partition. -/
abbrev Offsets := List (ℤ × ℕ)

structure HybridSourceState where
  currentPhase : ℕ
  completedPhases : List Bool
  unboundedOffsets : Option Offsets
  deriving DecidableEq

structure HybridSourceConfig where
  boundedSources : ℕ
  offsetProvider : Bool
  jobMode : Bool

def HybridSourceConfig.initialState (config : HybridSourceConfig) :
    HybridSourceState where
  currentPhase := 0
  completedPhases := List.replicate config.boundedSources false
  unboundedOffsets := none

/-- The content of the state backend: the phase key, the offset saved for
each partition of the unbounded source, and which bounded sources have a
saved cursor. -/
structure StateBackend where
  phase : Option HybridSourceState
  offsets : ℤ → Option ℤ
  cursors : ℕ → Bool

/-- A write is acknowledged, or reported as failed without or in spite of
having taken effect. -/
inductive PutOutcome where
  | stored
  | lost
  | unacknowledged
  deriving DecidableEq

def PutOutcome.takesEffect : PutOutcome → Bool
  | .stored | .unacknowledged => true
  | .lost => false

namespace StateBackend

def putPhase (b : StateBackend) (state : HybridSourceState)
    (outcome : PutOutcome) : StateBackend :=
  if outcome.takesEffect then { b with phase := some state } else b

def putOffset (b : StateBackend) (partition : ℤ) (offset : ℤ)
    (outcome : PutOutcome) : StateBackend :=
  if outcome.takesEffect then
    { b with offsets := Function.update b.offsets partition (some offset) }
  else b

/-- The quick probe: only partition zero is looked up. -/
def hasAnyPersistedOffset (b : StateBackend) (read : Bool) : Bool :=
  read && (b.offsets 0).isSome

def hasAllPersistedOffsets (b : StateBackend) (reads : ℤ → Bool)
    (offsets : Offsets) : Bool :=
  offsets.all fun entry => reads entry.1 && (b.offsets entry.1).isSome

end StateBackend

namespace HybridSourceState

/-- Mark the first phases as completed; the indexing panics if there are not
that many. -/
def markCompleted (state : HybridSourceState) (count : ℕ) :
    Option HybridSourceState :=
  if count ≤ state.completedPhases.length then
    some
      { state with
        completedPhases :=
          List.replicate count true ++ state.completedPhases.drop count }
  else none

/-- The phase just executed is completed and the next one current. -/
def advance (state : HybridSourceState) (boundedSources : ℕ) :
    Option HybridSourceState :=
  if state.currentPhase < boundedSources then
    if state.currentPhase < state.completedPhases.length then
      some
        { state with
          completedPhases :=
            state.completedPhases.set state.currentPhase true
          currentPhase := state.currentPhase + 1 }
    else none
  else some { state with currentPhase := state.currentPhase + 1 }

end HybridSourceState

/-! ## Recovery -/

/-- How the reads of a recovery go: whether the quick probe and the lookups
of the partitions succeed, and what the offset provider answers. -/
structure RecoveryReads where
  probe : Bool
  lookups : ℤ → Bool
  answer : Option Offsets

/-- The offsets with which recovery goes to the unbounded phase, if it
does. -/
def tryRecoverToUnbounded (config : HybridSourceConfig) (b : StateBackend)
    (reads : RecoveryReads) : Option Offsets :=
  if b.hasAnyPersistedOffset reads.probe then
    if config.offsetProvider then
      match reads.answer with
      | some offsets =>
          if offsets ≠ [] ∧ b.hasAllPersistedOffsets reads.lookups offsets
          then some offsets
          else none
      | none => none
    else none
  else none

/-- The highest bounded phase whose source had a saved cursor. -/
def highestBoundedState (config : HybridSourceConfig)
    (cursors : ℕ → Bool) : Option ℕ :=
  (List.range config.boundedSources).reverse.find? cursors

/-- The state after a recovery, before it is saved. -/
def tryRecoverFromPersistedState (config : HybridSourceConfig)
    (b : StateBackend) (cursors : ℕ → Bool) (state : HybridSourceState)
    (reads : RecoveryReads) : Option HybridSourceState :=
  match tryRecoverToUnbounded config b reads with
  | some offsets =>
      (state.markCompleted config.boundedSources).map fun state =>
        { state with
          currentPhase := config.boundedSources
          unboundedOffsets := some offsets }
  | none =>
      match highestBoundedState config cursors with
      | some idx =>
          (state.markCompleted idx).map fun state =>
            { state with currentPhase := idx }
      | none => some state

/-! ## Processes -/

/-- Where the process stands.  While saving: the attempt, and whether the
state is saved after a phase rather than after a recovery. -/
inductive ProcessStage where
  | down
  | loading
  | recovering
  | saving (attempt : ℕ) (afterPhase : Bool)
  | loopTop
  | streaming (phase : ℕ)
  | advancing
  | seeding (rest : Offsets)
  | panicked
  deriving DecidableEq

/-- A sequence of processes of one hybrid source. -/
structure ProcessRun where
  backend : StateBackend
  memory : HybridSourceState
  /-- The cursors found when the bounded sources were constructed. -/
  cursors : ℕ → Bool
  stage : ProcessStage
  /-- The phases whose streams were executed. -/
  executed : List ℕ
  /-- What the offset provider returned at the last handoff. -/
  handoff : Option Offsets
  /-- The partitions the unbounded source committed since then. -/
  committed : List ℤ

namespace ProcessRun

def start (config : HybridSourceConfig) (b : StateBackend) :
    ProcessRun where
  backend := b
  memory := config.initialState
  cursors := b.cursors
  stage := .down
  executed := []
  handoff := none
  committed := []

inductive Action where
  | startProcess
  | crash
  | load (reads : Bool)
  | recover (reads : RecoveryReads)
  | save (outcome : PutOutcome)
  | execute (opens : Bool)
  | streamEnds (shutdown : Bool)
  | streamFails
  | advance (answer : Option Offsets)
  | seed (outcome : PutOutcome)
  | saveCursors (cursors : ℕ → Bool)
  | commitOffset (partition : ℤ) (offset : ℤ)

/-- Read the phase key; a source without bounded phases needs no recovery. -/
def load (config : HybridSourceConfig) (s : ProcessRun) (reads : Bool) :
    ProcessRun :=
  if reads then
    match s.backend.phase with
    | some state => { s with memory := state, stage := .loopTop }
    | none =>
        if config.boundedSources = 0 then { s with stage := .loopTop }
        else { s with stage := .recovering }
  else { s with stage := .down }

def recover (config : HybridSourceConfig) (s : ProcessRun)
    (reads : RecoveryReads) : ProcessRun :=
  match tryRecoverFromPersistedState config s.backend s.cursors s.memory
      reads with
  | some state => { s with memory := state, stage := .saving 1 false }
  | none => { s with stage := .panicked }

/-- How often the state is tried to be saved. -/
def MAX_ATTEMPTS : ℕ := 3

/-- One attempt to save the state.  After a phase, a job whose bounded phases
are all complete terminates. -/
def save (config : HybridSourceConfig) (s : ProcessRun) (attempt : ℕ)
    (afterPhase : Bool) (outcome : PutOutcome) : ProcessRun :=
  let s := { s with backend := s.backend.putPhase s.memory outcome }
  if outcome = .stored then
    if afterPhase ∧ config.boundedSources ≤ s.memory.currentPhase ∧
        config.jobMode then
      { s with stage := .down }
    else { s with stage := .loopTop }
  else if attempt < MAX_ATTEMPTS then
    { s with stage := .saving (attempt + 1) afterPhase }
  else { s with stage := .down }

/-- Open the stream of the current source. -/
def execute (s : ProcessRun) (opens : Bool) : ProcessRun :=
  if opens then
    { s with
      stage := .streaming s.memory.currentPhase
      executed := s.executed ++ [s.memory.currentPhase] }
  else { s with stage := .down }

/-- The inner stream ended: only a bounded one leads to another phase, and
not after a shutdown request. -/
def streamEnds (config : HybridSourceConfig) (s : ProcessRun) (phase : ℕ)
    (shutdown : Bool) : ProcessRun :=
  if config.boundedSources ≤ phase ∨ shutdown then { s with stage := .down }
  else { s with stage := .advancing }

/-- Advance in memory; at the handoff, ask the offset provider. -/
def advance (config : HybridSourceConfig) (s : ProcessRun)
    (answer : Option Offsets) : ProcessRun :=
  match s.memory.advance config.boundedSources with
  | none => { s with stage := .panicked }
  | some state =>
      if state.currentPhase = config.boundedSources ∧ ¬ config.jobMode ∧
          config.offsetProvider then
        match answer with
        | none => { s with memory := state, stage := .down }
        | some offsets =>
            { s with
              memory := { state with unboundedOffsets := some offsets }
              stage := .seeding offsets
              handoff := some offsets
              committed := [] }
      else { s with memory := state, stage := .saving 1 true }

/-- Seed the next partition of the unbounded source. -/
def seed (s : ProcessRun) (entry : ℤ × ℕ) (rest : Offsets)
    (outcome : PutOutcome) : ProcessRun :=
  { s with
    backend := s.backend.putOffset entry.1 entry.2 outcome
    stage := if outcome = .stored then .seeding rest else .down }

/-- The offset provider answers with a map: one offset for a partition. -/
def IsMap (answer : Option Offsets) : Prop :=
  ∀ offsets ∈ answer, (offsets.map Prod.fst).Nodup

instance (answer : Option Offsets) : Decidable (IsMap answer) :=
  inferInstanceAs (Decidable (∀ offsets ∈ answer, _))

def step (config : HybridSourceConfig) (s : ProcessRun) :
    Action → Option ProcessRun
  | .startProcess =>
      match s.stage with
      | .down | .panicked =>
          some
            { s with
              memory := config.initialState
              cursors := s.backend.cursors
              stage := .loading }
      | _ => none
  | .crash => some { s with stage := .down }
  | .load reads =>
      match s.stage with
      | .loading => some (s.load config reads)
      | _ => none
  | .recover reads =>
      match s.stage with
      | .recovering =>
          if IsMap reads.answer then some (s.recover config reads) else none
      | _ => none
  | .save outcome =>
      match s.stage with
      | .saving attempt afterPhase =>
          some (s.save config attempt afterPhase outcome)
      | .seeding [] => some (s.save config 1 true outcome)
      | _ => none
  | .execute opens =>
      match s.stage with
      | .loopTop => some (s.execute opens)
      | _ => none
  | .streamEnds shutdown =>
      match s.stage with
      | .streaming phase => some (s.streamEnds config phase shutdown)
      | _ => none
  | .streamFails =>
      match s.stage with
      | .streaming _ => some { s with stage := .down }
      | _ => none
  | .advance answer =>
      match s.stage with
      | .advancing =>
          if IsMap answer then some (s.advance config answer) else none
      | _ => none
  | .seed outcome =>
      match s.stage with
      | .seeding (entry :: rest) => some (s.seed entry rest outcome)
      | _ => none
  | .saveCursors cursors =>
      match s.stage with
      | .streaming phase =>
          if phase < config.boundedSources then
            some { s with backend := { s.backend with cursors := cursors } }
          else none
      | _ => none
  | .commitOffset partition offset =>
      match s.stage with
      | .streaming phase =>
          if config.boundedSources ≤ phase then
            some
              { s with
                backend := s.backend.putOffset partition offset .stored
                committed := partition :: s.committed }
          else none
      | _ => none

/-! ## What one step does -/

/-- The effects of the steps, with what was checked before them. -/
inductive Stepped (config : HybridSourceConfig) (s : ProcessRun) :
    Action → ProcessRun → Prop
  | startProcess (hstage : s.stage = .down ∨ s.stage = .panicked) :
      Stepped config s .startProcess
        { s with
          memory := config.initialState
          cursors := s.backend.cursors
          stage := .loading }
  | crash : Stepped config s .crash { s with stage := .down }
  | load (reads : Bool) (hstage : s.stage = .loading) :
      Stepped config s (.load reads) (s.load config reads)
  | recover (reads : RecoveryReads) (hstage : s.stage = .recovering)
      (hmap : IsMap reads.answer) :
      Stepped config s (.recover reads) (s.recover config reads)
  | save (outcome : PutOutcome) (attempt : ℕ) (afterPhase : Bool)
      (hstage : s.stage = .saving attempt afterPhase) :
      Stepped config s (.save outcome)
        (s.save config attempt afterPhase outcome)
  | saveSeeded (outcome : PutOutcome) (hstage : s.stage = .seeding []) :
      Stepped config s (.save outcome) (s.save config 1 true outcome)
  | execute (opens : Bool) (hstage : s.stage = .loopTop) :
      Stepped config s (.execute opens) (s.execute opens)
  | streamEnds (shutdown : Bool) (phase : ℕ)
      (hstage : s.stage = .streaming phase) :
      Stepped config s (.streamEnds shutdown)
        (s.streamEnds config phase shutdown)
  | streamFails (phase : ℕ) (hstage : s.stage = .streaming phase) :
      Stepped config s .streamFails { s with stage := .down }
  | advance (answer : Option Offsets) (hstage : s.stage = .advancing)
      (hmap : IsMap answer) :
      Stepped config s (.advance answer) (s.advance config answer)
  | seed (outcome : PutOutcome) (entry : ℤ × ℕ) (rest : Offsets)
      (hstage : s.stage = .seeding (entry :: rest)) :
      Stepped config s (.seed outcome) (s.seed entry rest outcome)
  | saveCursors (cursors : ℕ → Bool) (phase : ℕ)
      (hstage : s.stage = .streaming phase)
      (hphase : phase < config.boundedSources) :
      Stepped config s (.saveCursors cursors)
        { s with backend := { s.backend with cursors := cursors } }
  | commitOffset (partition offset : ℤ) (phase : ℕ)
      (hstage : s.stage = .streaming phase)
      (hphase : config.boundedSources ≤ phase) :
      Stepped config s (.commitOffset partition offset)
        { s with
          backend := s.backend.putOffset partition offset .stored
          committed := partition :: s.committed }

theorem stepped_of_step
    {config : HybridSourceConfig} {s s' : ProcessRun} {a : Action}
    (h : step config s a = some s') : Stepped config s a s' := by
  cases a with
  | startProcess =>
      simp only [step] at h
      split at h
      next hstage =>
        obtain rfl := Option.some_inj.mp h
        exact .startProcess (Or.inl hstage)
      next hstage =>
        obtain rfl := Option.some_inj.mp h
        exact .startProcess (Or.inr hstage)
      · cases h
  | crash =>
      obtain rfl := Option.some_inj.mp h
      exact .crash
  | load reads =>
      simp only [step] at h
      split at h
      next hstage =>
        obtain rfl := Option.some_inj.mp h
        exact .load reads hstage
      · cases h
  | recover reads =>
      simp only [step] at h
      split at h
      next hstage =>
        split at h
        next hmap =>
          obtain rfl := Option.some_inj.mp h
          exact .recover reads hstage hmap
        · cases h
      · cases h
  | save outcome =>
      simp only [step] at h
      split at h
      next attempt afterPhase hstage =>
        obtain rfl := Option.some_inj.mp h
        exact .save outcome attempt afterPhase hstage
      next hstage =>
        obtain rfl := Option.some_inj.mp h
        exact .saveSeeded outcome hstage
      · cases h
  | execute opens =>
      simp only [step] at h
      split at h
      next hstage =>
        obtain rfl := Option.some_inj.mp h
        exact .execute opens hstage
      · cases h
  | streamEnds shutdown =>
      simp only [step] at h
      split at h
      next phase hstage =>
        obtain rfl := Option.some_inj.mp h
        exact .streamEnds shutdown phase hstage
      · cases h
  | streamFails =>
      simp only [step] at h
      split at h
      next phase hstage =>
        obtain rfl := Option.some_inj.mp h
        exact .streamFails phase hstage
      · cases h
  | advance answer =>
      simp only [step] at h
      split at h
      next hstage =>
        split at h
        next hmap =>
          obtain rfl := Option.some_inj.mp h
          exact .advance answer hstage hmap
        · cases h
      · cases h
  | seed outcome =>
      simp only [step] at h
      split at h
      next entry rest hstage =>
        obtain rfl := Option.some_inj.mp h
        exact .seed outcome entry rest hstage
      · cases h
  | saveCursors cursors =>
      simp only [step] at h
      split at h
      next phase hstage =>
        split at h
        next hphase =>
          obtain rfl := Option.some_inj.mp h
          exact .saveCursors cursors phase hstage hphase
        · cases h
      · cases h
  | commitOffset partition offset =>
      simp only [step] at h
      split at h
      next phase hstage =>
        split at h
        next hphase =>
          obtain rfl := Option.some_inj.mp h
          exact .commitOffset partition offset phase hstage hphase
        · cases h
      · cases h

end ProcessRun

end Hybrid

end Streamling
