import Streamling.Checkpoints.Coordinator

/-!
# Finalization is safe

An epoch is finalized, and its finalizer broadcast, only when every sink that
was expected at the start has acknowledged that very epoch or has been removed
as completed.  Two invariants carry the argument.  The first follows the
acknowledgements: the expected set and every snapshot of it still contain all
initial sinks that were not removed, and an acknowledged sink was counted.
The second follows the finalizers: an epoch that a task still has to
broadcast, or that was broadcast, is never again open in the map, so no second
task can come to owe it.
-/

namespace Streamling

/-- The sinks counted for an epoch that is not finalized. -/
def EpochState.ackedSinks : EpochState → Finset String
  | .started _ => ∅
  | .inProgress ackedSinks _ => ackedSinks
  | .finalized => ∅

theorem EpochState.subset_ackedSinks_of_isComplete
    {expected : Finset String} {state : EpochState}
    (h : state.isComplete expected = true) :
    expected ⊆ state.ackedSinks ∧ state ≠ .finalized := by
  cases state with
  | started createdAt =>
      have : expected = ∅ := by simpa [isComplete] using h
      simp [ackedSinks, this]
  | inProgress acked createdAt => simpa [isComplete, ackedSinks] using h
  | finalized => simp [isComplete] at h

/-- What the acknowledgement arm does to the map. -/
theorem recordAck_cases (epochs : EpochMap) (epoch : CheckpointEpoch)
    (sinkId : String) (expected : Finset String) :
    recordAck epochs epoch sinkId expected = (epochs, .ignored) ∨
      ∃ state, epochs.find? epoch = some state ∧ state ≠ .finalized ∧
        ((∃ createdAt, recordAck epochs epoch sinkId expected =
            (epochs.insert epoch
              (.inProgress (insert sinkId state.ackedSinks) createdAt),
              .counted)) ∨
          (expected ⊆ insert sinkId state.ackedSinks ∧
            recordAck epochs epoch sinkId expected =
              (epochs.insert epoch .finalized, .finalized))) := by
  cases hfind : epochs.find? epoch with
  | none => exact Or.inl (by simp [recordAck, hfind])
  | some state =>
      cases state with
      | finalized => exact Or.inl (by simp [recordAck, hfind])
      | started createdAt =>
          refine Or.inr ⟨_, rfl, by simp, ?_⟩
          by_cases hsub : expected ⊆ {sinkId}
          · right
            simp [recordAck, hfind, hsub, EpochState.ackedSinks]
          · exact Or.inl
              ⟨createdAt,
                by simp [recordAck, hfind, hsub, EpochState.ackedSinks]⟩
      | inProgress acked createdAt =>
          refine Or.inr ⟨_, rfl, by simp, ?_⟩
          by_cases hsub : expected ⊆ insert sinkId acked
          · right
            simp [recordAck, hfind, hsub, EpochState.ackedSinks]
          · exact Or.inl
              ⟨createdAt,
                by simp [recordAck, hfind, hsub, EpochState.ackedSinks]⟩

theorem find?_finalizeReadyEpochs
    (epochs : EpochMap) (expected : Finset String)
    (epoch : CheckpointEpoch) :
    (finalizeReadyEpochs epochs expected).1.find? epoch =
      (epochs.find? epoch).map fun state =>
        if state.isComplete expected then .finalized else state :=
  OrderedMap.find?_mapValues _ _ epoch

theorem mem_finalizeReadyEpochs
    {epochs : EpochMap} {expected : Finset String}
    {epoch : CheckpointEpoch} :
    epoch ∈ (finalizeReadyEpochs epochs expected).2 ↔
      ∃ state, epochs.find? epoch = some state ∧
        state.isComplete expected = true := by
  simp only [finalizeReadyEpochs, List.mem_map, List.mem_filter,
    Prod.exists, OrderedMap.find?_eq_some_iff]
  constructor
  · rintro ⟨e, state, h, rfl⟩
    exact ⟨state, h⟩
  · rintro ⟨state, h⟩
    exact ⟨epoch, state, h, rfl⟩

theorem nodup_finalizeReadyEpochs
    (epochs : EpochMap) (expected : Finset String) :
    (finalizeReadyEpochs epochs expected).2.Nodup :=
  (OrderedMap.pairwise_filterMap_key epochs fun _ state =>
    state.isComplete expected).imp fun h => ne_of_lt h

namespace Coordination

/-! ## What a finalization needs -/

/-- An acknowledgement of exactly `epoch` by `sinkId` was counted, and the
sink was expected when it was checked. -/
def Counted (s : Coordination) (epoch : CheckpointEpoch)
    (sinkId : String) : Prop :=
  ∃ ack ∈ s.counted,
    ack.epoch = epoch ∧ ack.sinkId = sinkId ∧ sinkId ∈ ack.expected

/-- Every initial sink acknowledged `epoch` or was removed. -/
def Covered (initial : Finset String) (s : Coordination)
    (epoch : CheckpointEpoch) : Prop :=
  ∀ sinkId ∈ initial, s.Counted epoch sinkId ∨ sinkId ∈ s.removed

/-- The finalizers a task still has to broadcast.  The subscriber is `none`,
a caller of `sink_completed` is `some`. -/
def owed (s : Coordination) : Option ℕ → List CheckpointEpoch
  | none =>
      match s.subscriber with
      | .broadcasting epoch => [epoch]
      | _ => []
  | some caller =>
      match s.completions caller with
      | .broadcasting epochs => epochs
      | _ => []

/-- The invariant that follows the acknowledgements. -/
structure Coverage (initial : Finset String) (s : Coordination) : Prop where
  expected : ∀ k ∈ initial, k ∈ s.expectedSinks ∨ k ∈ s.removed
  snapshot : ∀ caller remaining,
    s.completions caller = .finalizing remaining →
      ∀ k ∈ initial, k ∈ remaining ∨ k ∈ s.removed
  accepted : ∀ e k seen, s.subscriber = .accepted e k seen → k ∈ seen
  acked : ∀ e state, s.epochs.find? e = some state →
    ∀ k ∈ state.ackedSinks, s.Counted e k
  finalized : ∀ e, s.epochs.find? e = some .finalized →
    s.Covered initial e
  sent : ∀ e ∈ s.finalizers, s.Covered initial e
  owed : ∀ task, ∀ e ∈ s.owed task, s.Covered initial e

/-- `epoch` was minted, and the map holds it at most as finalized. -/
def Done (s : Coordination) (epoch : CheckpointEpoch) : Prop :=
  epoch < s.nextEpoch ∧
    ∀ state, s.epochs.find? epoch = some state → state = .finalized

/-- The invariant that follows the finalizers. -/
structure Ledger (s : Coordination) : Prop where
  minted_lt : ∀ e ∈ s.mintedEpochs, e < s.nextEpoch
  minted_increasing : s.mintedEpochs.Pairwise (· < ·)
  tracked_lt : ∀ e state, s.epochs.find? e = some state →
    e < s.nextEpoch
  sent_done : ∀ e ∈ s.finalizers, s.Done e
  sent_nodup : s.finalizers.Nodup
  owed_done : ∀ task, ∀ e ∈ s.owed task, s.Done e
  owed_unsent : ∀ task, ∀ e ∈ s.owed task, e ∉ s.finalizers
  owed_nodup : ∀ task, (s.owed task).Nodup
  owed_disjoint : ∀ task task', task ≠ task' → ∀ e ∈ s.owed task,
    e ∉ s.owed task'

theorem coverage_start (timeout : ℕ) (sinks : List String) :
    (start timeout sinks).Coverage sinks.toFinset where
  expected := fun k hk => Or.inl hk
  snapshot := by simp [start]
  accepted := by simp [start]
  acked := by simp [start]
  finalized := by simp [start]
  sent := by simp [start]
  owed := by
    intro task
    cases task <;> simp [Coordination.owed, start]

theorem ledger_start (timeout : ℕ) (sinks : List String) :
    (start timeout sinks).Ledger where
  minted_lt := by simp [start, mintedEpochs]
  minted_increasing := by simp [start, mintedEpochs]
  tracked_lt := by simp [start]
  sent_done := by simp [start]
  sent_nodup := by simp [start]
  owed_done := by
    intro task
    cases task <;> simp [Coordination.owed, start]
  owed_unsent := by
    intro task
    cases task <;> simp [Coordination.owed, start]
  owed_nodup := by
    intro task
    cases task <;> simp [Coordination.owed, start]
  owed_disjoint := by
    intro task task' _
    cases task <;> simp [Coordination.owed, start]

/-! ## Sections that only move a task, drop epochs or remove a sink -/

section Frame

variable {initial : Finset String} {s s' : Coordination}

/-- The section counts, mints and broadcasts nothing and owes the same
finalizers; it leaves in the map only bindings that were there, and a sink it
no longer expects is removed. -/
structure Frame (s s' : Coordination) : Prop where
  bindings : ∀ e state, s'.epochs.find? e = some state →
    s.epochs.find? e = some state
  nextEpoch : s'.nextEpoch = s.nextEpoch
  expectedSinks : ∀ k ∈ s.expectedSinks,
    k ∈ s'.expectedSinks ∨ k ∈ s'.removed
  removed : s.removed ⊆ s'.removed
  counted : s'.counted = s.counted
  minted : s'.minted = s.minted
  finalizers : s'.finalizers = s.finalizers
  owed : s'.owed = s.owed
  snapshot : ∀ caller remaining,
    s'.completions caller = .finalizing remaining →
      s.completions caller = .finalizing remaining ∨
        remaining = s'.expectedSinks
  accepted : ∀ e k seen, s'.subscriber = .accepted e k seen →
    s.subscriber = .accepted e k seen ∨ k ∈ seen

theorem Frame.covered (h : Frame s s') {e : CheckpointEpoch}
    (hs : s.Covered initial e) : s'.Covered initial e := by
  intro k hk
  rcases hs k hk with hcounted | hremoved
  · left
    simpa only [Counted, h.counted] using hcounted
  · exact Or.inr (h.removed hremoved)

theorem Frame.done (h : Frame s s') {e : CheckpointEpoch}
    (hs : s.Done e) : s'.Done e := by
  refine ⟨h.nextEpoch ▸ hs.1, ?_⟩
  intro state hfind
  exact hs.2 state (h.bindings e state hfind)

theorem Frame.expected_or_removed (hs : s.Coverage initial)
    (h : Frame s s') :
    ∀ k ∈ initial, k ∈ s'.expectedSinks ∨ k ∈ s'.removed := by
  intro k hk
  rcases hs.expected k hk with hexpected | hremoved
  · exact h.expectedSinks k hexpected
  · exact Or.inr (h.removed hremoved)

theorem Coverage.frame (hs : s.Coverage initial) (h : Frame s s') :
    s'.Coverage initial where
  expected := h.expected_or_removed hs
  snapshot := by
    intro caller remaining hcall k hk
    rcases h.snapshot caller remaining hcall with hold | rfl
    · rcases hs.snapshot caller remaining hold k hk with hmem | hremoved
      · exact Or.inl hmem
      · exact Or.inr (h.removed hremoved)
    · exact h.expected_or_removed hs k hk
  accepted := by
    intro e k seen hsub
    rcases h.accepted e k seen hsub with hold | hmem
    · exact hs.accepted e k seen hold
    · exact hmem
  acked := by
    intro e state hfind k hk
    have := hs.acked e state (h.bindings e state hfind) k hk
    simpa only [Counted, h.counted] using this
  finalized := fun e hfind =>
    h.covered (hs.finalized e (h.bindings e _ hfind))
  sent := by
    rw [h.finalizers]
    exact fun e he => h.covered (hs.sent e he)
  owed := by
    rw [h.owed]
    exact fun task e he => h.covered (hs.owed task e he)

theorem Ledger.frame (hs : s.Ledger) (h : Frame s s') : s'.Ledger where
  minted_lt := by
    simp only [mintedEpochs, h.minted, h.nextEpoch]
    exact hs.minted_lt
  minted_increasing := by
    simp only [mintedEpochs, h.minted]
    exact hs.minted_increasing
  tracked_lt := by
    intro e state hfind
    rw [h.nextEpoch]
    exact hs.tracked_lt e state (h.bindings e state hfind)
  sent_done := by
    rw [h.finalizers]
    exact fun e he => h.done (hs.sent_done e he)
  sent_nodup := by
    rw [h.finalizers]
    exact hs.sent_nodup
  owed_done := by
    rw [h.owed]
    exact fun task e he => h.done (hs.owed_done task e he)
  owed_unsent := by
    rw [h.owed, h.finalizers]
    exact hs.owed_unsent
  owed_nodup := by
    rw [h.owed]
    exact hs.owed_nodup
  owed_disjoint := by
    rw [h.owed]
    exact hs.owed_disjoint

end Frame

/-! ## Minting -/

section Mint

variable {initial : Finset String} {s s' : Coordination}

/-- The section starts the next epoch and may drop others. -/
structure Mints (s s' : Coordination) : Prop where
  bindings : ∀ e state, s'.epochs.find? e = some state →
    (e = s.nextEpoch ∧ ∃ createdAt, state = .started createdAt) ∨
      s.epochs.find? e = some state
  nextEpoch : s'.nextEpoch = s.nextEpoch + 1
  minted : s'.minted = s.minted ++ [⟨s.nextEpoch, s.expectedSinks⟩]
  expectedSinks : s'.expectedSinks = s.expectedSinks
  removed : s'.removed = s.removed
  counted : s'.counted = s.counted
  finalizers : s'.finalizers = s.finalizers
  completions : s'.completions = s.completions
  subscriber : s'.subscriber = s.subscriber

theorem Mints.owed (h : Mints s s') : s'.owed = s.owed := by
  funext task
  cases task with
  | none => simp only [Coordination.owed, h.subscriber]
  | some caller => simp only [Coordination.owed, h.completions]

theorem Mints.covered (h : Mints s s') {e : CheckpointEpoch}
    (hs : s.Covered initial e) : s'.Covered initial e := by
  simpa only [Covered, Counted, h.counted, h.removed] using hs

theorem Mints.done (h : Mints s s') {e : CheckpointEpoch}
    (hs : s.Done e) : s'.Done e := by
  refine ⟨?_, ?_⟩
  · rw [h.nextEpoch]
    exact Nat.lt_succ_of_lt hs.1
  · intro state hfind
    rcases h.bindings e state hfind with ⟨rfl, -⟩ | hold
    · exact absurd hs.1 (lt_irrefl _)
    · exact hs.2 state hold

theorem Coverage.mint (hs : s.Coverage initial) (h : Mints s s') :
    s'.Coverage initial where
  expected := by
    rw [h.expectedSinks, h.removed]
    exact hs.expected
  snapshot := by
    rw [h.completions, h.removed]
    exact hs.snapshot
  accepted := by
    rw [h.subscriber]
    exact hs.accepted
  acked := by
    intro e state hfind k hk
    rcases h.bindings e state hfind with ⟨-, createdAt, rfl⟩ | hold
    · simp [EpochState.ackedSinks] at hk
    · simpa only [Counted, h.counted] using hs.acked e state hold k hk
  finalized := by
    intro e hfind
    rcases h.bindings e _ hfind with ⟨-, createdAt, hstate⟩ | hold
    · simp at hstate
    · exact h.covered (hs.finalized e hold)
  sent := by
    rw [h.finalizers]
    exact fun e he => h.covered (hs.sent e he)
  owed := by
    rw [h.owed]
    exact fun task e he => h.covered (hs.owed task e he)

theorem Ledger.mint (hs : s.Ledger) (h : Mints s s') : s'.Ledger where
  minted_lt := by
    intro e he
    simp only [mintedEpochs, h.minted, List.map_append, List.map_cons,
      List.map_nil, List.mem_append, List.mem_singleton] at he
    rw [h.nextEpoch]
    rcases he with he | rfl
    · exact Nat.lt_succ_of_lt (hs.minted_lt e he)
    · exact Nat.lt_succ_self _
  minted_increasing := by
    simp only [mintedEpochs, h.minted, List.map_append, List.map_cons,
      List.map_nil, List.pairwise_append, List.pairwise_singleton,
      List.mem_singleton, forall_eq, true_and]
    exact ⟨hs.minted_increasing, hs.minted_lt⟩
  tracked_lt := by
    intro e state hfind
    rw [h.nextEpoch]
    rcases h.bindings e state hfind with ⟨rfl, -⟩ | hold
    · exact Nat.lt_succ_self _
    · exact Nat.lt_succ_of_lt (hs.tracked_lt e state hold)
  sent_done := by
    rw [h.finalizers]
    exact fun e he => h.done (hs.sent_done e he)
  sent_nodup := by
    rw [h.finalizers]
    exact hs.sent_nodup
  owed_done := by
    rw [h.owed]
    exact fun task e he => h.done (hs.owed_done task e he)
  owed_unsent := by
    rw [h.owed, h.finalizers]
    exact hs.owed_unsent
  owed_nodup := by
    rw [h.owed]
    exact hs.owed_nodup
  owed_disjoint := by
    rw [h.owed]
    exact hs.owed_disjoint

end Mint

/-! ## Counting an acknowledgement and finalizing epochs -/

section Finalize

variable {initial : Finset String} {s s' : Coordination}
  {task : Option ℕ} {es : List CheckpointEpoch}

/-- The section may finalize the open epochs `es`, which `task` then owes,
and may count acknowledgements towards other open epochs. -/
structure Finalizes (s s' : Coordination) (task : Option ℕ)
    (es : List CheckpointEpoch) : Prop where
  free : s.owed task = []
  nodup : es.Nodup
  wasOpen : ∀ e ∈ es, ∃ state, s.epochs.find? e = some state ∧
    state ≠ .finalized
  bindings : ∀ e state, s'.epochs.find? e = some state →
    (e ∈ es ∧ state = .finalized) ∨
      (e ∉ es ∧ s.epochs.find? e = some state) ∨
      (e ∉ es ∧ state ≠ .finalized ∧
        ∃ before, s.epochs.find? e = some before ∧ before ≠ .finalized ∧
          ∀ k ∈ state.ackedSinks, k ∈ before.ackedSinks ∨ s'.Counted e k)
  counted : ∀ ack ∈ s.counted, ack ∈ s'.counted
  nextEpoch : s'.nextEpoch = s.nextEpoch
  expectedSinks : s'.expectedSinks = s.expectedSinks
  removed : s'.removed = s.removed
  minted : s'.minted = s.minted
  finalizers : s'.finalizers = s.finalizers
  owed_self : s'.owed task = es
  owed_other : ∀ task', task' ≠ task → s'.owed task' = s.owed task'
  snapshot : ∀ caller remaining,
    s'.completions caller = .finalizing remaining →
      s.completions caller = .finalizing remaining
  accepted : ∀ e k seen, s'.subscriber = .accepted e k seen →
    s.subscriber = .accepted e k seen

theorem Finalizes.mono_counted (h : Finalizes s s' task es)
    {e : CheckpointEpoch} {k : String} (hs : s.Counted e k) :
    s'.Counted e k := by
  obtain ⟨ack, hmem, hack⟩ := hs
  exact ⟨ack, h.counted ack hmem, hack⟩

theorem Finalizes.mono_covered (h : Finalizes s s' task es)
    {e : CheckpointEpoch} (hs : s.Covered initial e) :
    s'.Covered initial e := by
  intro k hk
  rcases hs k hk with hcounted | hremoved
  · exact Or.inl (h.mono_counted hcounted)
  · exact Or.inr (h.removed ▸ hremoved)

theorem Finalizes.done (h : Finalizes s s' task es) {e : CheckpointEpoch}
    (hs : s.Done e) : s'.Done e := by
  refine ⟨h.nextEpoch ▸ hs.1, ?_⟩
  intro state hfind
  rcases h.bindings e state hfind with
    ⟨-, hstate⟩ | ⟨-, hold⟩ | ⟨-, -, before, hold, hopen, -⟩
  · exact hstate
  · exact hs.2 state hold
  · exact absurd (hs.2 before hold) hopen

/-- An epoch the section finalizes was not done, so no task owed it and it
was not sent. -/
theorem Finalizes.not_done (h : Finalizes s s' task es)
    {e : CheckpointEpoch} (he : e ∈ es) : ¬ s.Done e := by
  intro hdone
  obtain ⟨state, hfind, hopen⟩ := h.wasOpen e he
  exact hopen (hdone.2 state hfind)

theorem Finalizes.done_new (hs : s.Ledger) (h : Finalizes s s' task es)
    {e : CheckpointEpoch} (he : e ∈ es) : s'.Done e := by
  obtain ⟨before, hfind, -⟩ := h.wasOpen e he
  refine ⟨h.nextEpoch ▸ hs.tracked_lt e before hfind, ?_⟩
  intro state hfind'
  rcases h.bindings e state hfind' with
    ⟨-, hstate⟩ | ⟨hnot, -⟩ | ⟨hnot, -⟩
  · exact hstate
  · exact absurd he hnot
  · exact absurd he hnot

theorem Coverage.finalize (hs : s.Coverage initial)
    (h : Finalizes s s' task es)
    (hcovered : ∀ e ∈ es, s'.Covered initial e) :
    s'.Coverage initial where
  expected := by
    rw [h.expectedSinks, h.removed]
    exact hs.expected
  snapshot := by
    rw [h.removed]
    exact fun caller remaining hcall =>
      hs.snapshot caller remaining (h.snapshot caller remaining hcall)
  accepted := fun e k seen hsub =>
    hs.accepted e k seen (h.accepted e k seen hsub)
  acked := by
    intro e state hfind k hk
    rcases h.bindings e state hfind with
      ⟨-, rfl⟩ | ⟨-, hold⟩ | ⟨-, -, before, hold, -, hacked⟩
    · simp [EpochState.ackedSinks] at hk
    · exact h.mono_counted (hs.acked e state hold k hk)
    · rcases hacked k hk with hbefore | hcounted
      · exact h.mono_counted (hs.acked e before hold k hbefore)
      · exact hcounted
  finalized := by
    intro e hfind
    rcases h.bindings e _ hfind with
      ⟨he, -⟩ | ⟨-, hold⟩ | ⟨-, hopen, -⟩
    · exact hcovered e he
    · exact h.mono_covered (hs.finalized e hold)
    · exact absurd rfl hopen
  sent := by
    rw [h.finalizers]
    exact fun e he => h.mono_covered (hs.sent e he)
  owed := by
    intro task' e he
    by_cases htask : task' = task
    · subst htask
      rw [h.owed_self] at he
      exact hcovered e he
    · rw [h.owed_other task' htask] at he
      exact h.mono_covered (hs.owed task' e he)

theorem Ledger.finalize (hs : s.Ledger) (h : Finalizes s s' task es) :
    s'.Ledger where
  minted_lt := by
    simp only [mintedEpochs, h.minted, h.nextEpoch]
    exact hs.minted_lt
  minted_increasing := by
    simp only [mintedEpochs, h.minted]
    exact hs.minted_increasing
  tracked_lt := by
    intro e state hfind
    rw [h.nextEpoch]
    rcases h.bindings e state hfind with
      ⟨he, -⟩ | ⟨-, hold⟩ | ⟨-, -, before, hold, -⟩
    · obtain ⟨before, hbefore, -⟩ := h.wasOpen e he
      exact hs.tracked_lt e before hbefore
    · exact hs.tracked_lt e state hold
    · exact hs.tracked_lt e before hold
  sent_done := by
    rw [h.finalizers]
    exact fun e he => h.done (hs.sent_done e he)
  sent_nodup := by
    rw [h.finalizers]
    exact hs.sent_nodup
  owed_done := by
    intro task' e he
    by_cases htask : task' = task
    · subst htask
      rw [h.owed_self] at he
      exact h.done_new hs he
    · rw [h.owed_other task' htask] at he
      exact h.done (hs.owed_done task' e he)
  owed_unsent := by
    intro task' e he
    rw [h.finalizers]
    by_cases htask : task' = task
    · subst htask
      rw [h.owed_self] at he
      exact fun hsent => h.not_done he (hs.sent_done e hsent)
    · rw [h.owed_other task' htask] at he
      exact hs.owed_unsent task' e he
  owed_nodup := by
    intro task'
    by_cases htask : task' = task
    · subst htask
      rw [h.owed_self]
      exact h.nodup
    · rw [h.owed_other task' htask]
      exact hs.owed_nodup task'
  owed_disjoint := by
    intro t t' hne e he he'
    by_cases ht : t = task
    · subst ht
      rw [h.owed_self] at he
      rw [h.owed_other t' hne.symm] at he'
      exact h.not_done he (hs.owed_done t' e he')
    · rw [h.owed_other t ht] at he
      by_cases ht' : t' = task
      · subst ht'
        rw [h.owed_self] at he'
        exact h.not_done he' (hs.owed_done t e he)
      · rw [h.owed_other t' ht'] at he'
        exact hs.owed_disjoint t t' hne e he he'

end Finalize

/-! ## Broadcasting a finalizer -/

section Broadcast

variable {initial : Finset String} {s s' : Coordination}
  {task : Option ℕ} {epoch : CheckpointEpoch}
  {rest : List CheckpointEpoch}

/-- `task` broadcasts the first finalizer it owes. -/
structure Broadcasts (s s' : Coordination) (task : Option ℕ)
    (epoch : CheckpointEpoch) (rest : List CheckpointEpoch) : Prop where
  owed : s.owed task = epoch :: rest
  owed_self : s'.owed task = rest
  owed_other : ∀ task', task' ≠ task → s'.owed task' = s.owed task'
  finalizers : s'.finalizers = s.finalizers ++ [epoch]
  epochs : s'.epochs = s.epochs
  nextEpoch : s'.nextEpoch = s.nextEpoch
  expectedSinks : s'.expectedSinks = s.expectedSinks
  removed : s'.removed = s.removed
  counted : s'.counted = s.counted
  minted : s'.minted = s.minted
  snapshot : ∀ caller remaining,
    s'.completions caller = .finalizing remaining →
      s.completions caller = .finalizing remaining
  accepted : ∀ e k seen, s'.subscriber = .accepted e k seen →
    s.subscriber = .accepted e k seen

theorem Broadcasts.owed_before (h : Broadcasts s s' task epoch rest)
    {task' : Option ℕ} {e : CheckpointEpoch} (he : e ∈ s'.owed task') :
    e ∈ s.owed task' := by
  by_cases htask : task' = task
  · subst htask
    rw [h.owed_self] at he
    rw [h.owed]
    exact List.mem_cons_of_mem _ he
  · rwa [h.owed_other task' htask] at he

theorem Broadcasts.covered (h : Broadcasts s s' task epoch rest)
    {e : CheckpointEpoch} (hs : s.Covered initial e) :
    s'.Covered initial e := by
  simpa only [Covered, Counted, h.counted, h.removed] using hs

theorem Broadcasts.done (h : Broadcasts s s' task epoch rest)
    {e : CheckpointEpoch} (hs : s.Done e) : s'.Done e := by
  simpa only [Done, h.nextEpoch, h.epochs] using hs

theorem Coverage.broadcast (hs : s.Coverage initial)
    (h : Broadcasts s s' task epoch rest) : s'.Coverage initial where
  expected := by
    rw [h.expectedSinks, h.removed]
    exact hs.expected
  snapshot := by
    rw [h.removed]
    exact fun caller remaining hcall =>
      hs.snapshot caller remaining (h.snapshot caller remaining hcall)
  accepted := fun e k seen hsub =>
    hs.accepted e k seen (h.accepted e k seen hsub)
  acked := by
    simp only [h.epochs, Counted, h.counted]
    exact hs.acked
  finalized := by
    rw [h.epochs]
    exact fun e hfind => h.covered (hs.finalized e hfind)
  sent := by
    intro e he
    rw [h.finalizers, List.mem_append, List.mem_singleton] at he
    rcases he with he | rfl
    · exact h.covered (hs.sent e he)
    · exact h.covered (hs.owed task e (by simp [h.owed]))
  owed := fun task' e he =>
    h.covered (hs.owed task' e (h.owed_before he))

theorem Ledger.broadcast (hs : s.Ledger)
    (h : Broadcasts s s' task epoch rest) : s'.Ledger where
  minted_lt := by
    simp only [mintedEpochs, h.minted, h.nextEpoch]
    exact hs.minted_lt
  minted_increasing := by
    simp only [mintedEpochs, h.minted]
    exact hs.minted_increasing
  tracked_lt := by
    rw [h.epochs, h.nextEpoch]
    exact hs.tracked_lt
  sent_done := by
    intro e he
    rw [h.finalizers, List.mem_append, List.mem_singleton] at he
    rcases he with he | rfl
    · exact h.done (hs.sent_done e he)
    · exact h.done (hs.owed_done task e (by simp [h.owed]))
  sent_nodup := by
    have hunsent := hs.owed_unsent task epoch (by simp [h.owed])
    rw [h.finalizers]
    exact hs.sent_nodup.append (by simp)
      (by simpa [List.disjoint_singleton] using hunsent)
  owed_done := fun task' e he =>
    h.done (hs.owed_done task' e (h.owed_before he))
  owed_unsent := by
    intro task' e he
    rw [h.finalizers, List.mem_append, List.mem_singleton]
    rintro (hsent | rfl)
    · exact hs.owed_unsent task' e (h.owed_before he) hsent
    · by_cases htask : task' = task
      · subst htask
        rw [h.owed_self] at he
        have hnodup := hs.owed_nodup task'
        rw [h.owed] at hnodup
        exact (List.nodup_cons.mp hnodup).1 he
      · exact hs.owed_disjoint task' task htask e (h.owed_before he)
          (by simp [h.owed])
  owed_nodup := by
    intro task'
    by_cases htask : task' = task
    · subst htask
      have hnodup := hs.owed_nodup task'
      rw [h.owed] at hnodup
      rw [h.owed_self]
      exact (List.nodup_cons.mp hnodup).2
    · rw [h.owed_other task' htask]
      exact hs.owed_nodup task'
  owed_disjoint := fun t t' hne e he he' =>
    hs.owed_disjoint t t' hne e (h.owed_before he) (h.owed_before he')

end Broadcast

/-! ## The sections, one by one -/

section Sections

variable {initial : Finset String} {s s' : Coordination}

/-- What one section can do to the parts of the state that the invariants
read. -/
inductive Effect (initial : Finset String) (s s' : Coordination) : Prop where
  | frame (h : Frame s s')
  | mint (h : Mints s s')
  | finalize (task : Option ℕ) (es : List CheckpointEpoch)
      (h : Finalizes s s' task es)
      (covered : ∀ e ∈ es, s'.Covered initial e)
  | broadcast (task : Option ℕ) (epoch : CheckpointEpoch)
      (rest : List CheckpointEpoch)
      (h : Broadcasts s s' task epoch rest)

/-- A section that keeps the map, the sinks and the history, and after which
the subscriber and the callers owe what they owed. -/
theorem frame_of_same
    (hepochs : s'.epochs = s.epochs) (hnext : s'.nextEpoch = s.nextEpoch)
    (hexpected : s'.expectedSinks = s.expectedSinks)
    (hremoved : s'.removed = s.removed) (hcounted : s'.counted = s.counted)
    (hminted : s'.minted = s.minted)
    (hfinalizers : s'.finalizers = s.finalizers)
    (hcompletions : s'.completions = s.completions)
    (hsubscriber : s'.subscriber = s.subscriber) : Frame s s' where
  bindings := by simp [hepochs]
  nextEpoch := hnext
  expectedSinks := by
    rw [hexpected]
    exact fun k hk => Or.inl hk
  removed := by rw [hremoved]
  counted := hcounted
  minted := hminted
  finalizers := hfinalizers
  owed := by
    funext task
    cases task with
    | none => simp only [owed, hsubscriber]
    | some caller => simp only [owed, hcompletions]
  snapshot := by
    rw [hcompletions]
    exact fun _ _ h => Or.inl h
  accepted := by
    rw [hsubscriber]
    exact fun _ _ _ h => Or.inl h

theorem receiveAck_frame {e : CheckpointEpoch} {k : String}
    (h : s.receiveAck e k = some s') : Frame s s' := by
  cases hsub : s.subscriber with
  | receiving =>
      simp only [receiveAck, hsub] at h
      split at h
      next hmem =>
        obtain rfl := Option.some.inj h
        refine
          { bindings := fun _ _ h => h
            nextEpoch := rfl
            expectedSinks := fun _ h => Or.inl h
            removed := subset_rfl
            counted := rfl
            minted := rfl
            finalizers := rfl
            owed := ?_
            snapshot := fun _ _ h => Or.inl h
            accepted := ?_ }
        · funext task
          cases task with
          | none => simp [owed, hsub]
          | some caller => rfl
        · intro e' k' seen heq
          right
          simp only [SubscriberTask.accepted.injEq] at heq
          rw [← heq.2.1, ← heq.2.2]
          exact hmem
      · obtain rfl := Option.some.inj h
        exact frame_of_same rfl rfl rfl rfl rfl rfl rfl rfl rfl
  | accepted e' k' seen => simp [receiveAck, hsub] at h
  | broadcasting e' => simp [receiveAck, hsub] at h

theorem removeSink_frame {caller : ℕ} {k : String}
    (h : s.removeSink caller k = some s') : Frame s s' := by
  cases hcall : s.completions caller with
  | idle =>
      simp only [removeSink, hcall] at h
      split at h
      · obtain rfl := Option.some.inj h
        refine
          { bindings := fun _ _ h => h
            nextEpoch := rfl
            expectedSinks := ?_
            removed := Finset.subset_insert _ _
            counted := rfl
            minted := rfl
            finalizers := rfl
            owed := ?_
            snapshot := ?_
            accepted := fun _ _ _ h => Or.inl h }
        · intro k' hk'
          by_cases hk : k' = k
          · right
            simp [hk]
          · left
            exact Finset.mem_erase.mpr ⟨hk, hk'⟩
        · funext task
          cases task with
          | none => rfl
          | some other =>
              by_cases ho : other = caller
              · subst ho
                simp [owed, hcall]
              · simp [owed, ho]
        · intro other remaining heq
          by_cases ho : other = caller
          · subst ho
            right
            simpa using heq.symm
          · left
            simpa [ho] using heq
      · obtain rfl := Option.some.inj h
        exact frame_of_same rfl rfl rfl rfl rfl rfl rfl rfl rfl
  | finalizing remaining => simp [removeSink, hcall] at h
  | broadcasting es => simp [removeSink, hcall] at h

theorem removeTimedOut_frame
    (h : s.removeTimedOut = some s') : Frame s s' := by
  cases hsweep : s.sweep with
  | none => simp [removeTimedOut, hsweep] at h
  | some read =>
      simp only [removeTimedOut, hsweep] at h
      obtain rfl := Option.some.inj h
      refine
        { bindings := ?_
          nextEpoch := rfl
          expectedSinks := fun _ h => Or.inl h
          removed := subset_rfl
          counted := rfl
          minted := rfl
          finalizers := rfl
          owed := ?_
          snapshot := fun _ _ h => Or.inl h
          accepted := fun _ _ _ h => Or.inl h }
      · intro e state hfind
        exact (OrderedMap.find?_retain_eq_some_iff.mp hfind).1
      · funext task
        cases task <;> rfl

theorem mintEpoch_effect (h : s.mintEpoch = some s') :
    Frame s s' ∨ Mints s s' := by
  cases hprod : s.producer with
  | ready createdAt =>
      simp only [mintEpoch, hprod] at h
      split at h
      · obtain rfl := Option.some.inj h
        exact Or.inl (frame_of_same rfl rfl rfl rfl rfl rfl rfl rfl rfl)
      · obtain rfl := Option.some.inj h
        refine Or.inr
          { bindings := ?_
            nextEpoch := rfl
            minted := rfl
            expectedSinks := rfl
            removed := rfl
            counted := rfl
            finalizers := rfl
            completions := rfl
            subscriber := rfl }
        intro e state hfind
        rw [OrderedMap.find?_insert] at hfind
        split at hfind
        next heq =>
          exact Or.inl ⟨heq, createdAt, (Option.some.inj hfind).symm⟩
        · simp at hfind
  | sleeping => simp [mintEpoch, hprod] at h
  | waiting => simp [mintEpoch, hprod] at h
  | sending e => simp [mintEpoch, hprod] at h
  | stopped => simp [mintEpoch, hprod] at h

theorem beginTerminal_effect (h : s.beginTerminal = some s') :
    Frame s s' ∨ Mints s s' := by
  simp only [beginTerminal] at h
  split at h
  · simp at h
  · split at h
    · obtain rfl := Option.some.inj h
      exact Or.inl (frame_of_same rfl rfl rfl rfl rfl rfl rfl rfl rfl)
    · obtain rfl := Option.some.inj h
      refine Or.inr
        { bindings := ?_
          nextEpoch := rfl
          minted := rfl
          expectedSinks := rfl
          removed := rfl
          counted := rfl
          finalizers := rfl
          completions := rfl
          subscriber := rfl }
      intro e state hfind
      rw [OrderedMap.find?_insert] at hfind
      split at hfind
      next heq => exact Or.inl ⟨heq, s.now, (Option.some.inj hfind).symm⟩
      · exact Or.inr hfind

theorem broadcastAcked_broadcasts (h : s.broadcastAcked = some s') :
    ∃ epoch, Broadcasts s s' none epoch [] := by
  cases hsub : s.subscriber with
  | broadcasting epoch =>
      simp only [broadcastAcked, hsub] at h
      obtain rfl := Option.some.inj h
      refine ⟨epoch,
        { owed := by simp [owed, hsub]
          owed_self := rfl
          owed_other := ?_
          finalizers := rfl
          epochs := rfl
          nextEpoch := rfl
          expectedSinks := rfl
          removed := rfl
          counted := rfl
          minted := rfl
          snapshot := fun _ _ h => h
          accepted := by simp }⟩
      intro task htask
      cases task with
      | none => exact absurd rfl htask
      | some caller => rfl
  | receiving => simp [broadcastAcked, hsub] at h
  | accepted e k seen => simp [broadcastAcked, hsub] at h

theorem broadcastReady_effect {caller : ℕ}
    (h : s.broadcastReady caller = some s') :
    Frame s s' ∨ ∃ epoch rest, Broadcasts s s' (some caller) epoch rest := by
  have hupdate : ∀ (call : CompletionCall) (other : ℕ)
      (remaining : Finset String), (∀ r, call ≠ .finalizing r) →
      Function.update s.completions caller call other =
        .finalizing remaining →
      s.completions other = .finalizing remaining := by
    intro call other remaining hcall heq
    by_cases ho : other = caller
    · subst ho
      rw [Function.update_self] at heq
      exact absurd heq (hcall remaining)
    · rwa [Function.update_of_ne ho] at heq
  cases hcall : s.completions caller with
  | broadcasting es =>
      cases es with
      | nil =>
          simp only [broadcastReady, hcall] at h
          obtain rfl := Option.some.inj h
          refine Or.inl
            { bindings := fun _ _ h => h
              nextEpoch := rfl
              expectedSinks := fun _ h => Or.inl h
              removed := subset_rfl
              counted := rfl
              minted := rfl
              finalizers := rfl
              owed := ?_
              snapshot := fun other remaining heq =>
                Or.inl (hupdate _ other remaining (by simp) heq)
              accepted := fun _ _ _ h => Or.inl h }
          funext task
          cases task with
          | none => rfl
          | some other =>
              by_cases ho : other = caller
              · subst ho
                simp [owed, hcall]
              · simp [owed, ho]
      | cons epoch rest =>
          simp only [broadcastReady, hcall] at h
          obtain rfl := Option.some.inj h
          refine Or.inr ⟨epoch, rest,
            { owed := by simp [owed, hcall]
              owed_self := by simp [owed]
              owed_other := ?_
              finalizers := rfl
              epochs := rfl
              nextEpoch := rfl
              expectedSinks := rfl
              removed := rfl
              counted := rfl
              minted := rfl
              snapshot := fun other remaining heq =>
                hupdate _ other remaining (by simp) heq
              accepted := fun _ _ _ h => h }⟩
          intro task htask
          cases task with
          | none => rfl
          | some other =>
              have ho : other ≠ caller := fun heq => htask (by rw [heq])
              simp [owed, ho]
  | idle => simp [broadcastReady, hcall] at h
  | finalizing remaining => simp [broadcastReady, hcall] at h

/-- Counting an acknowledgement finalizes at most its own epoch, and then
every expected sink has acknowledged it. -/
theorem countAck_effect (hs : s.Coverage initial)
    (h : s.countAck = some s') : Effect initial s s' := by
  cases hsub : s.subscriber with
  | accepted e k seen =>
      have hk : k ∈ seen := hs.accepted e k seen hsub
      simp only [countAck, hsub] at h
      have hother : ∀ task : Option ℕ, task ≠ none →
          ∀ t : Coordination, t.completions = s.completions →
            t.owed task = s.owed task := by
        intro task htask t ht
        cases task with
        | none => exact absurd rfl htask
        | some caller => simp only [owed, ht]
      rcases recordAck_cases s.epochs e k s.expectedSinks with
        hignored | ⟨state, hfind, hopen, hcase⟩
      · simp only [hignored] at h
        obtain rfl := Option.some.inj h
        refine .frame
          { bindings := fun _ _ h => h
            nextEpoch := rfl
            expectedSinks := fun _ h => Or.inl h
            removed := subset_rfl
            counted := rfl
            minted := rfl
            finalizers := rfl
            owed := ?_
            snapshot := fun _ _ h => Or.inl h
            accepted := by simp }
        funext task
        cases task with
        | none => simp [owed, hsub]
        | some caller => rfl
      · rcases hcase with ⟨createdAt, hcounted⟩ | ⟨hcomplete, hfinal⟩
        · simp only [hcounted] at h
          obtain rfl := Option.some.inj h
          refine .finalize none []
            { free := by simp [owed, hsub]
              nodup := List.nodup_nil
              wasOpen := by simp
              bindings := ?_
              counted := by simp +contextual
              nextEpoch := rfl
              expectedSinks := rfl
              removed := rfl
              minted := rfl
              finalizers := rfl
              owed_self := by simp [owed]
              owed_other := fun task htask => hother task htask _ rfl
              snapshot := fun _ _ h => h
              accepted := by simp } (by simp)
          intro e' state' hfind'
          simp only [OrderedMap.find?_insert] at hfind'
          right
          split at hfind'
          next heq =>
            subst heq
            obtain rfl := Option.some.inj hfind'
            refine Or.inr ⟨by simp, by simp, state, hfind, hopen, ?_⟩
            intro k' hk'
            rcases Finset.mem_insert.mp hk' with rfl | hbefore
            · exact Or.inr ⟨⟨e', k', seen⟩, by simp, rfl, rfl, hk⟩
            · exact Or.inl hbefore
          · exact Or.inl ⟨by simp, hfind'⟩
        · simp only [hfinal] at h
          obtain rfl := Option.some.inj h
          refine .finalize none [e]
            { free := by simp [owed, hsub]
              nodup := by simp
              wasOpen := by
                intro e' he'
                obtain rfl : e' = e := by simpa using he'
                exact ⟨state, hfind, hopen⟩
              bindings := ?_
              counted := by simp +contextual
              nextEpoch := rfl
              expectedSinks := rfl
              removed := rfl
              minted := rfl
              finalizers := rfl
              owed_self := by simp [owed]
              owed_other := fun task htask => hother task htask _ rfl
              snapshot := fun _ _ h => h
              accepted := by simp } ?_
          · intro e' state' hfind'
            simp only [OrderedMap.find?_insert] at hfind'
            split at hfind'
            next heq =>
              exact Or.inl ⟨by simp [heq], (Option.some.inj hfind').symm⟩
            next hne => exact Or.inr (Or.inl ⟨by simpa using hne, hfind'⟩)
          · intro e' he'
            obtain rfl : e' = e := by simpa using he'
            intro k' hk'
            rcases hs.expected k' hk' with hexpected | hremoved
            · left
              rcases Finset.mem_insert.mp (hcomplete hexpected) with
                rfl | hbefore
              · exact ⟨⟨e', k', seen⟩, by simp, rfl, rfl, hk⟩
              · obtain ⟨ack, hmem, hack⟩ :=
                  hs.acked e' state hfind k' hbefore
                exact ⟨ack, by simp [hmem], hack⟩
            · exact Or.inr hremoved
  | receiving => simp [countAck, hsub] at h
  | broadcasting e => simp [countAck, hsub] at h

/-- The finalize step of `sink_completed` only finalizes epochs that its
snapshot, hence every sink not removed, has acknowledged. -/
theorem finalizeReady_effect (hs : s.Coverage initial) {caller : ℕ}
    (h : s.finalizeReady caller = some s') : Effect initial s s' := by
  cases hcall : s.completions caller with
  | finalizing remaining =>
      simp only [finalizeReady, hcall] at h
      obtain rfl := Option.some.inj h
      refine .finalize (some caller)
        (finalizeReadyEpochs s.epochs remaining).2
        { free := by simp [owed, hcall]
          nodup := nodup_finalizeReadyEpochs _ _
          wasOpen := ?_
          bindings := ?_
          counted := fun _ h => h
          nextEpoch := rfl
          expectedSinks := rfl
          removed := rfl
          minted := rfl
          finalizers := rfl
          owed_self := by simp [owed]
          owed_other := ?_
          snapshot := ?_
          accepted := fun _ _ _ h => h } ?_
      · intro e he
        obtain ⟨state, hfind, hcomplete⟩ := mem_finalizeReadyEpochs.mp he
        exact ⟨state, hfind,
          (EpochState.subset_ackedSinks_of_isComplete hcomplete).2⟩
      · intro e state hfind
        rw [find?_finalizeReadyEpochs, Option.map_eq_some_iff] at hfind
        obtain ⟨before, hbefore, rfl⟩ := hfind
        split
        next hcomplete =>
          exact Or.inl
            ⟨mem_finalizeReadyEpochs.mpr ⟨before, hbefore, hcomplete⟩, rfl⟩
        next hnot =>
          refine Or.inr (Or.inl ⟨?_, hbefore⟩)
          intro hmem
          obtain ⟨state, hstate, hcomplete⟩ :=
            mem_finalizeReadyEpochs.mp hmem
          rw [hbefore] at hstate
          obtain rfl := Option.some.inj hstate
          exact hnot hcomplete
      · intro task htask
        cases task with
        | none => rfl
        | some other =>
            have ho : other ≠ caller := fun heq => htask (by rw [heq])
            simp [owed, ho]
      · intro other snapshot heq
        by_cases ho : other = caller
        · subst ho
          simp at heq
        · simpa [ho] using heq
      · intro e he k hk
        obtain ⟨state, hfind, hcomplete⟩ := mem_finalizeReadyEpochs.mp he
        rcases hs.snapshot caller remaining hcall k hk with hmem | hremoved
        · left
          exact hs.acked e state hfind k
            ((EpochState.subset_ackedSinks_of_isComplete hcomplete).1 hmem)
        · exact Or.inr hremoved
  | idle => simp [finalizeReady, hcall] at h
  | broadcasting es => simp [finalizeReady, hcall] at h

/-- The sections of the producer and of the sweep that only move the task. -/
theorem wakeProducer_frame (h : s.wakeProducer = some s') : Frame s s' := by
  simp only [wakeProducer] at h
  split at h
  · obtain rfl := Option.some.inj h
    exact frame_of_same rfl rfl rfl rfl rfl rfl rfl rfl rfl
  · simp at h

theorem checkLastEpoch_frame (h : s.checkLastEpoch = some s') :
    Frame s s' := by
  simp only [checkLastEpoch] at h
  split at h
  · obtain rfl := Option.some.inj h
    exact frame_of_same rfl rfl rfl rfl rfl rfl rfl rfl rfl
  · simp at h

theorem sendMarker_frame (h : s.sendMarker = some s') : Frame s s' := by
  simp only [sendMarker] at h
  split at h
  · obtain rfl := Option.some.inj h
    exact frame_of_same rfl rfl rfl rfl rfl rfl rfl rfl rfl
  · simp at h

theorem readTerminal_frame (h : s.readTerminal = some s') :
    Frame s s' := by
  simp only [readTerminal] at h
  split at h
  · obtain rfl := Option.some.inj h
    exact frame_of_same rfl rfl rfl rfl rfl rfl rfl rfl rfl
  · simp at h

/-- Every section has one of the effects the invariants are proved for. -/
theorem step_effect (hs : s.Coverage initial) {sec : Section}
    (h : s.step sec = some s') : Effect initial s s' := by
  cases sec with
  | elapse duration =>
      obtain rfl := Option.some.inj h
      exact .frame (frame_of_same rfl rfl rfl rfl rfl rfl rfl rfl rfl)
  | receiveAck e k => exact .frame (receiveAck_frame h)
  | countAck => exact countAck_effect hs h
  | broadcastAcked =>
      obtain ⟨epoch, hb⟩ := broadcastAcked_broadcasts h
      exact .broadcast none epoch [] hb
  | wakeProducer => exact .frame (wakeProducer_frame h)
  | checkLastEpoch => exact .frame (checkLastEpoch_frame h)
  | mintEpoch =>
      rcases mintEpoch_effect h with hf | hm
      · exact .frame hf
      · exact .mint hm
  | sendMarker => exact .frame (sendMarker_frame h)
  | removeSink caller k => exact .frame (removeSink_frame h)
  | finalizeReady caller => exact finalizeReady_effect hs h
  | broadcastReady caller =>
      rcases broadcastReady_effect h with hf | ⟨epoch, rest, hb⟩
      · exact .frame hf
      · exact .broadcast (some caller) epoch rest hb
  | startTerminal =>
      obtain rfl := Option.some.inj h
      exact .frame (frame_of_same rfl rfl rfl rfl rfl rfl rfl rfl rfl)
  | beginTerminal =>
      rcases beginTerminal_effect h with hf | hm
      · exact .frame hf
      · exact .mint hm
  | readTerminal => exact .frame (readTerminal_frame h)
  | removeTimedOut => exact .frame (removeTimedOut_frame h)

end Sections

/-! ## Whole runs -/

/-- Both invariants. -/
structure Safe (initial : Finset String) (s : Coordination) : Prop where
  coverage : s.Coverage initial
  ledger : s.Ledger

theorem Safe.step {initial : Finset String} {s s' : Coordination}
    {sec : Section} (hs : s.Safe initial) (h : s.step sec = some s') :
    s'.Safe initial := by
  cases step_effect hs.coverage h with
  | frame hf => exact ⟨hs.coverage.frame hf, hs.ledger.frame hf⟩
  | mint hm => exact ⟨hs.coverage.mint hm, hs.ledger.mint hm⟩
  | finalize task es hf hcovered =>
      exact ⟨hs.coverage.finalize hf hcovered, hs.ledger.finalize hf⟩
  | broadcast task epoch rest hb =>
      exact ⟨hs.coverage.broadcast hb, hs.ledger.broadcast hb⟩

theorem safe_run {timeout : ℕ} {sinks : List String}
    {sections : List Section} {s : Coordination}
    (h : Transition.run step (start timeout sinks) sections = some s) :
    s.Safe sinks.toFinset :=
  Transition.run_invariant (fun _ _ _ hs h => Safe.step hs h)
    ⟨coverage_start timeout sinks, ledger_start timeout sinks⟩ h

end Coordination

open Coordination in
/-- In every interleaving of the coordinator's critical sections: an epoch is
finalized, or its finalizer broadcast, only if every sink passed to `start`
had an acknowledgement of that epoch counted that was checked while the sink
was expected, or was removed; every finalizer is broadcast at most once; and
epoch numbers are minted in strictly increasing order. -/
theorem coordinator_finalizes_safely
    {timeout : ℕ} {sinks : List String} {sections : List Section}
    {s : Coordination}
    (h : Transition.run step (start timeout sinks) sections = some s) :
    (∀ e, s.epochs.find? e = some .finalized ∨ e ∈ s.finalizers →
      ∀ k ∈ sinks, k ∈ s.removed ∨
        ∃ ack ∈ s.counted,
          ack.epoch = e ∧ ack.sinkId = k ∧ k ∈ ack.expected) ∧
    s.finalizers.Nodup ∧
    s.mintedEpochs.Pairwise (· < ·) := by
  obtain ⟨hcov, hled⟩ := safe_run h
  refine ⟨?_, hled.sent_nodup, hled.minted_increasing⟩
  intro e he k hk
  have hcovered : s.Covered sinks.toFinset e := by
    rcases he with hfinal | hsent
    · exact hcov.finalized e hfinal
    · exact hcov.sent e hsent
  exact (hcovered k (List.mem_toFinset.mpr hk)).symm

open Coordination in
theorem coordinator_finalizes_safely_two_sinks :
    ∃ s, Transition.run step (start 300 ["a", "b"])
        [.wakeProducer, .checkLastEpoch, .mintEpoch, .sendMarker,
          .receiveAck 1 "a", .countAck, .removeSink 0 "b",
          .finalizeReady 0, .broadcastReady 0] = some s ∧
      s.finalizers = [1] ∧
      ∀ k ∈ ["a", "b"], k ∈ s.removed ∨
        ∃ ack ∈ s.counted,
          ack.epoch = 1 ∧ ack.sinkId = k ∧ k ∈ ack.expected := by
  obtain ⟨s, hs, hsent⟩ := Option.map_eq_some_iff.mp
    (show (Transition.run step (start 300 ["a", "b"])
        [.wakeProducer, .checkLastEpoch, .mintEpoch, .sendMarker,
          .receiveAck 1 "a", .countAck, .removeSink 0 "b",
          .finalizeReady 0, .broadcastReady 0]).map
      Coordination.finalizers = some [1] by decide)
  exact ⟨s, hs, hsent,
    (coordinator_finalizes_safely hs).1 1 (Or.inr (by simp [hsent]))⟩

end Streamling
