import Streamling.Checkpoints.CoordinatorSteps

/-!
# Finalization is complete

An epoch that every live sink has acknowledged does not stay open.  The
acknowledgement arm compares with the live expected set, so it finalizes an
epoch as soon as an acknowledgement completes it; an epoch that a removal
completes is left to the call that made the removal.  The snapshots of
concurrent calls may be larger than the live set, but the call that removed
last has the live set itself, and until it has finalized it is in flight.
-/

namespace Streamling

/-- Some sink that is still expected has not acknowledged the epoch. -/
def EpochState.awaits (expected : Finset String) (state : EpochState) :
    Prop :=
  ∃ k ∈ expected, k ∉ state.ackedSinks

theorem EpochState.awaits_of_not_isComplete
    {expected : Finset String} {state : EpochState}
    (hopen : state ≠ .finalized)
    (h : state.isComplete expected = false) : state.awaits expected := by
  cases state with
  | started createdAt =>
      have hne : expected ≠ ∅ := by simpa [isComplete] using h
      obtain ⟨k, hk⟩ := Finset.nonempty_of_ne_empty hne
      exact ⟨k, hk, by simp [ackedSinks]⟩
  | inProgress acked createdAt =>
      have hnot : ¬ expected ⊆ acked := by simpa [isComplete] using h
      obtain ⟨k, hk, hacked⟩ := Finset.not_subset.mp hnot
      exact ⟨k, hk, hacked⟩
  | finalized => exact absurd rfl hopen

/-- An epoch that is still open after its acknowledgement was recorded awaits
another sink. -/
theorem awaits_of_recordAck
    {epochs : EpochMap} {epoch : CheckpointEpoch} {sinkId : String}
    {expected : Finset String} {state : EpochState}
    (hfind : (recordAck epochs epoch sinkId expected).1.find? epoch =
      some state)
    (hopen : state ≠ .finalized) : state.awaits expected := by
  cases hbefore : epochs.find? epoch with
  | none => simp [recordAck, hbefore] at hfind
  | some before =>
      cases before with
      | finalized =>
          simp only [recordAck, hbefore, Option.some.injEq] at hfind
          exact absurd hfind.symm hopen
      | started createdAt =>
          by_cases hsub : expected ⊆ {sinkId}
          · simp only [recordAck, hbefore, hsub, if_true,
              OrderedMap.find?_insert_self, Option.some.injEq] at hfind
            exact absurd hfind.symm hopen
          · simp only [recordAck, hbefore, hsub, if_false,
              OrderedMap.find?_insert_self, Option.some.injEq] at hfind
            subst hfind
            exact Finset.not_subset.mp hsub
      | inProgress acked createdAt =>
          by_cases hsub : expected ⊆ insert sinkId acked
          · simp only [recordAck, hbefore, hsub, if_true,
              OrderedMap.find?_insert_self, Option.some.injEq] at hfind
            exact absurd hfind.symm hopen
          · simp only [recordAck, hbefore, hsub, if_false,
              OrderedMap.find?_insert_self, Option.some.injEq] at hfind
            subst hfind
            exact Finset.not_subset.mp hsub

theorem find?_recordAck_of_ne
    (epochs : EpochMap) {epoch e : CheckpointEpoch} (sinkId : String)
    (expected : Finset String) (he : e ≠ epoch) :
    (recordAck epochs epoch sinkId expected).1.find? e =
      epochs.find? e := by
  rcases recordAck_cases epochs epoch sinkId expected with
    hrecord | ⟨state, -, -, ⟨createdAt, hrecord⟩ | ⟨-, hrecord⟩⟩
  · rw [hrecord]
  · rw [hrecord, OrderedMap.find?_insert_of_ne _ _ he]
  · rw [hrecord, OrderedMap.find?_insert_of_ne _ _ he]

namespace Coordination

variable {s s' : Coordination} {sec : Section}

/-- `epoch` was minted while some sink was expected. -/
def MintedForSinks (s : Coordination) (epoch : CheckpointEpoch) : Prop :=
  ∃ m ∈ s.minted, m.epoch = epoch ∧ m.expected ≠ ∅

/-- A call of `sink_completed` with the live expected set as its snapshot is
about to finalize. -/
def Finalizing (s : Coordination) : Prop :=
  ∃ caller, s.completions caller = .finalizing s.expectedSinks

/-- Every open epoch awaits a live sink, or the call that removed the last
one it awaited is in flight. -/
def Pursued (s : Coordination) : Prop :=
  ∀ e state, s.epochs.find? e = some state → state ≠ .finalized →
    s.MintedForSinks e → state.awaits s.expectedSinks ∨ s.Finalizing

theorem pursued_start (timeout : ℕ) (sinks : List String) :
    (start timeout sinks).Pursued := by
  intro e state hfind
  simp [start] at hfind

/-- A section that mints `nextEpoch` and otherwise only drops epochs. -/
theorem Pursued.mint
    (h : s.Pursued) (hledger : s.Ledger) (hmints : Mints s s') :
    s'.Pursued := by
  have hfinalizing : s.Finalizing → s'.Finalizing := by
    rintro ⟨caller, hcall⟩
    exact ⟨caller, by rw [hmints.completions, hmints.expectedSinks, hcall]⟩
  intro e state hfind hopen hminted
  obtain ⟨m, hm, rfl, hexpected⟩ := hminted
  rw [hmints.minted] at hm
  rw [hmints.expectedSinks]
  rcases hmints.bindings m.epoch state hfind with
    ⟨hnew, createdAt, rfl⟩ | hold
  · -- The entry of the new epoch is the one just added.
    have hfresh : m ∉ s.minted := by
      intro hmem
      have hlt := hledger.minted_lt m.epoch (List.mem_map_of_mem hmem)
      rw [hnew] at hlt
      exact lt_irrefl _ hlt
    have hsame : m = ⟨s.nextEpoch, s.expectedSinks⟩ := by
      rcases List.mem_append.mp hm with hmem | hmem
      · exact absurd hmem hfresh
      · exact List.mem_singleton.mp hmem
    subst hsame
    obtain ⟨k, hk⟩ := Finset.nonempty_of_ne_empty hexpected
    exact Or.inl ⟨k, hk, by simp [EpochState.ackedSinks]⟩
  · have hmem : m ∈ s.minted := by
      rcases List.mem_append.mp hm with hmem | hmem
      · exact hmem
      · have hsame := List.mem_singleton.mp hmem
        have hlt := hledger.tracked_lt m.epoch state hold
        rw [hsame] at hlt
        exact absurd hlt (lt_irrefl _)
    have hbefore := h m.epoch state hold hopen ⟨m, hmem, rfl, hexpected⟩
    exact hbefore.imp_right hfinalizing

theorem Pursued.count
    (h : s.Pursued) (epoch : CheckpointEpoch) (sinkId : String)
    (subscriber : SubscriberTask) (counted : List CountedAck) :
    Pursued { s with
      epochs := (recordAck s.epochs epoch sinkId s.expectedSinks).1
      subscriber := subscriber
      counted := counted } := by
  intro e state hfind hopen hminted
  by_cases he : e = epoch
  · subst he
    exact Or.inl (awaits_of_recordAck hfind hopen)
  · have hold := find?_recordAck_of_ne s.epochs sinkId s.expectedSinks he
    exact h e state (hold.symm.trans hfind) hopen hminted

theorem Pursued.finalizeReady
    (h : s.Pursued) {caller : ℕ} {snapshot : Finset String}
    (hcall : s.completions caller = .finalizing snapshot) :
    Pursued { s with
      epochs := (finalizeReadyEpochs s.epochs snapshot).1
      completions := Function.update s.completions caller
        (.broadcasting (finalizeReadyEpochs s.epochs snapshot).2) } := by
  intro e state hfind hopen hminted
  simp only [find?_finalizeReadyEpochs, Option.map_eq_some_iff] at hfind
  obtain ⟨before, hbefore, hstate⟩ := hfind
  cases hcomplete : before.isComplete snapshot with
  | true =>
      rw [hcomplete, if_pos rfl] at hstate
      exact absurd hstate.symm hopen
  | false =>
      rw [hcomplete, if_neg (by simp)] at hstate
      subst hstate
      by_cases hlive : snapshot = s.expectedSinks
      · -- The call with the live set leaves open only what awaits a sink.
        left
        rw [hlive] at hcomplete
        exact before.awaits_of_not_isComplete hopen hcomplete
      · rcases h e before hbefore hopen hminted with hawaits | ⟨c, hc⟩
        · exact Or.inl hawaits
        · right
          refine ⟨c, ?_⟩
          have hne : c ≠ caller := by
            rintro rfl
            rw [hcall] at hc
            exact hlive (CompletionCall.finalizing.inj hc)
          simpa [hne] using hc

theorem Pursued.step
    (h : s.Pursued) (hledger : s.Ledger) (hstep : Stepped s sec s') :
    s'.Pursued := by
  cases hstep with
  | unchanged sec => exact h
  | elapse duration => exact h
  | accept epoch sinkId hsub => exact h
  | count epoch sinkId seen hsub subscriber counted =>
      exact h.count epoch sinkId subscriber counted
  | broadcastAcked epoch hsub => exact h
  | wake hproducer => exact h
  | check hproducer => exact h
  | halt createdAt hproducer hterminal => exact h
  | mint createdAt hproducer hterminal =>
      apply h.mint hledger
      refine ⟨?_, rfl, rfl, rfl, rfl, rfl, rfl, rfl, rfl⟩
      intro e state hfind
      simp only [OrderedMap.find?_insert, OrderedMap.find?_empty] at hfind
      split at hfind
      next he => exact Or.inl ⟨he, createdAt, (Option.some.inj hfind).symm⟩
      · simp at hfind
  | sendMarker epoch hproducer => exact h
  | removeSink caller sinkId hcall hsink =>
      intro e state hfind hopen hminted
      exact Or.inr ⟨caller, Function.update_self _ _ _⟩
  | finalizeReady caller snapshot hcall => exact h.finalizeReady hcall
  | broadcastReady caller epochs hcall next hnext finalizers =>
      intro e state hfind hopen hminted
      rcases h e state hfind hopen hminted with hawaits | ⟨c, hc⟩
      · exact Or.inl hawaits
      · right
        refine ⟨c, ?_⟩
        have hne : c ≠ caller := by
          rintro rfl
          rw [hcall] at hc
          simp at hc
        simpa [hne] using hc
  | startTerminal => exact h
  | joinTerminal existing hcalls hterminal => exact h
  | beginTerminal hcalls hterminal =>
      apply h.mint hledger
      refine ⟨?_, rfl, rfl, rfl, rfl, rfl, rfl, rfl, rfl⟩
      intro e state hfind
      rw [OrderedMap.find?_insert] at hfind
      split at hfind
      next he => exact Or.inl ⟨he, s.now, (Option.some.inj hfind).symm⟩
      · exact Or.inr hfind
  | readTerminal hsweep => exact h
  | removeTimedOut terminal readAt hsweep =>
      intro e state hfind hopen hminted
      exact h e state (OrderedMap.find?_retain_eq_some_iff.mp hfind).1 hopen
        hminted

theorem pursued_run
    {timeout : ℕ} {sinks : List String} {sections : List Section}
    (h : Transition.run step (start timeout sinks) sections = some s) :
    s.Pursued := by
  have hstep (s : Coordination) (sec : Section) (s' : Coordination)
      (hs : s.Pursued ∧ s.Safe sinks.toFinset)
      (hsec : s.step sec = some s') :
      s'.Pursued ∧ s'.Safe sinks.toFinset :=
    ⟨hs.1.step hs.2.ledger (stepped_of_step hsec), hs.2.step hsec⟩
  exact (Transition.run_invariant hstep ⟨pursued_start timeout sinks,
    coverage_start timeout sinks, ledger_start timeout sinks⟩ h).1

end Coordination

open Coordination in
/-- In every interleaving: if no call of `sink_completed` is between its
removal and its finalize step, an epoch that is in the map, was minted while a
sink was expected and is not finalized awaits a sink that is still expected.
An accepted acknowledgement that has not been counted makes no difference. -/
theorem coordinator_finalization_complete
    {timeout : ℕ} {sinks : List String} {sections : List Section}
    {s : Coordination}
    (h : Transition.run step (start timeout sinks) sections = some s)
    (hidle : ∀ caller snapshot,
      s.completions caller ≠ .finalizing snapshot)
    {e : CheckpointEpoch} {state : EpochState}
    (hfind : s.epochs.find? e = some state) (hopen : state ≠ .finalized)
    (hminted : ∃ m ∈ s.minted, m.epoch = e ∧ m.expected ≠ ∅) :
    ∃ k ∈ s.expectedSinks, k ∉ state.ackedSinks := by
  rcases pursued_run h e state hfind hopen hminted with
    hawaits | ⟨caller, hcall⟩
  · exact hawaits
  · exact absurd hcall (hidle caller _)

open Coordination in
/-- Three sinks, of which two complete at once, the first of them with a
stale snapshot. -/
theorem coordinator_finalization_complete_three_sinks :
    ∃ s, Transition.run step (start 300 ["a", "b", "c"])
        [.wakeProducer, .checkLastEpoch, .mintEpoch, .sendMarker,
          .removeSink 0 "a", .removeSink 1 "b", .finalizeReady 1,
          .finalizeReady 0, .broadcastReady 1, .broadcastReady 0] =
        some s ∧
      s.epochs.find? 1 = some (.started 0) ∧
      ∃ k ∈ s.expectedSinks, k ∉ (EpochState.started 0).ackedSinks := by
  refine Exists.imp (fun s (h : _ ∧ s.epochs.find? 1 = some (.started 0) ∧
    s.minted = [⟨1, {"a", "b", "c"}⟩] ∧ s.completions 0 = .idle ∧
    s.completions 1 = .idle) => ⟨h.1, h.2.1, ?_⟩)
    (Transition.exists_run_of_decide (by decide))
  obtain ⟨hrun, hfind, hminted, hzero, hone⟩ := h
  refine coordinator_finalization_complete hrun ?_ hfind (by simp)
    (by simp [hminted])
  intro caller snapshot hcall
  by_cases hcaller : caller = 0 ∨ caller = 1
  · rcases hcaller with rfl | rfl
    · simp [hzero] at hcall
    · simp [hone] at hcall
  · have hother := completions_run hrun caller (by
      simp [Section.caller?]
      omega)
    simp [hother, start] at hcall

end Streamling
