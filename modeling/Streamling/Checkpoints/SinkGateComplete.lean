import Mathlib
import Streamling.Checkpoints.SinkGate

/-!
# What the gate has released at the end

The gate of a sink never sees a finalizer, so it forgets no epoch: once every
stream of the sink is done, the epochs released are exactly the epochs that
some stream reported.
-/

namespace Streamling

open MarkerAligner SinkAckGates

namespace GateRun

variable {N : ℕ} {sink : String}

/-- The gate knows every epoch that a stream reported, and when all streams
are done it has released all that it knows. -/
structure Remembers (sink : String) (g : GateRun N) : Prop where
  known : ∀ a, g.gates sink = some a → ∀ i, ∀ e ∈ g.delivered i,
    ∃ st, a.epochs.find? e = some st
  released : ∀ a, g.gates sink = some a →
    a.inputs ≤ a.finished.length →
      ∀ e st, a.epochs.find? e = some st → st.released = true

theorem find?_observeMessage_marker
    (a : MarkerAligner) (epoch : CheckpointEpoch) (nowMs : ℕ)
    {e : CheckpointEpoch}
    (h : e = epoch ∨ ∃ st, a.epochs.find? e = some st) :
    ∃ st, (a.observeMessage (.marker epoch nowMs)).1.epochs.find? e =
      some st := by
  by_cases hreleased : ((a.epochs.find? epoch).getD {}).released = true
  · have hsame : (a.observeMessage (.marker epoch nowMs)).1 = a := by
      simp only [observeMessage, if_pos hreleased]
    rw [hsame]
    rcases h with rfl | hst
    · cases hfind : a.epochs.find? e with
      | none => simp [hfind] at hreleased
      | some st => exact ⟨st, rfl⟩
    · exact hst
  · rw [observeMessage_marker_of_not_released _ _ _
      (Bool.eq_false_iff.mpr hreleased)]
    simp only [OrderedMap.find?_insert]
    by_cases he : e = epoch
    · exact ⟨_, if_pos he⟩
    · rw [if_neg he]
      exact h.resolve_left he

theorem Remembers.report
    {g g' : GateRun N} {i : Fin N} {epoch : CheckpointEpoch} {nowMs : ℕ}
    (hg : Remembers sink g) (hsim : Simulated sink g)
    (h : report sink g i epoch nowMs = some g') : Remembers sink g' := by
  obtain ⟨calls, r, hr, hr'⟩ := hsim
  have hinv := AlignerRun.inv_run hr
  simp only [GateRun.report, afterReport] at h
  split at h
  next hguard =>
    obtain rfl := Option.some.inj h
    have hgate : (reportMarkerAtSink g.gates sink epoch nowMs).1 sink =
        some (r.aligner.observeMessage (.marker epoch nowMs)).1 := by
      simp [reportMarkerAtSink, hr'.gate, observe_cons]
    constructor
    · intro a ha j e he
      obtain rfl := Option.some.inj (hgate.symm.trans ha)
      apply find?_observeMessage_marker
      rcases AlignerRun.mem_deliverEpoch.mp he with he | ⟨-, he⟩
      · exact Or.inr (hg.known _ hr'.gate j e he)
      · exact Or.inl he
    · intro a ha hall
      obtain rfl := Option.some.inj (hgate.symm.trans ha)
      obtain ⟨hinputs, hfinished⟩ :=
        observeMessage_inputs_finished r.aligner (.marker epoch nowMs)
      rw [hinputs, hfinished, hinv.inputs, hinv.finished_length,
        ← hr'.finished] at hall
      have huniv : g.finished = Finset.univ := by
        apply Finset.eq_univ_of_card
        apply le_antisymm
        · simpa using Finset.card_le_univ g.finished
        · simpa using hall
      exact absurd (huniv ▸ Finset.mem_univ i) hguard.1
  · cases h

theorem Remembers.done
    {g g' : GateRun N} {i : Fin N} {last : Option CheckpointEpoch}
    {nowMs : ℕ} (hg : Remembers sink g) (hsim : Simulated sink g)
    (h : done sink g i last nowMs = some g') : Remembers sink g' := by
  obtain ⟨calls, r, -, hr'⟩ := hsim
  simp only [GateRun.done, afterDone] at h
  split at h
  · obtain rfl := Option.some.inj h
    have hgate : (sinkStreamDone g.gates sink last nowMs).1 sink =
        some (r.aligner.inputDone last nowMs).1 := by
      simp [sinkStreamDone, hr'.gate]
    constructor
    · intro a ha j e he
      obtain rfl := Option.some.inj (hgate.symm.trans ha)
      obtain ⟨st, hst⟩ := hg.known _ hr'.gate j e he
      simp only [inputDone, OrderedMap.find?_mapValues, hst]
      exact ⟨_, rfl⟩
    · intro a ha hall e st hst
      obtain rfl := Option.some.inj (hgate.symm.trans ha)
      have hlength :
          r.aligner.inputs ≤ (r.aligner.finished ++ [last]).length := hall
      simp only [inputDone, OrderedMap.find?_mapValues] at hst
      obtain ⟨old, -, rfl⟩ := Option.map_eq_some_iff.mp hst
      by_cases hold : old.released = true
      · simp [readyWhenDone, hold]
      · have hready : readyWhenDone r.aligner.inputs
            (r.aligner.finished ++ [last]) e old = true := by
          simp only [readyWhenDone, decide_eq_true hlength, hold,
            Bool.not_false, Bool.true_or, Bool.and_self]
        simp [hready]
  · cases h

theorem Remembers.step
    {g g' : GateRun N} {call : GateCall N}
    (hg : Remembers sink g) (hsim : Simulated sink g)
    (h : step sink g call = some g') : Remembers sink g' := by
  rcases step_other h with ⟨i, epoch, nowMs, rfl⟩ |
    ⟨i, last, nowMs, rfl⟩ | ⟨hgate, hdel, -, -⟩
  · exact hg.report hsim h
  · exact hg.done hsim h
  · constructor
    · intro a ha i e he
      rw [hdel] at he
      exact hg.known a (hgate ▸ ha) i e he
    · intro a ha
      exact hg.released a (hgate ▸ ha)

theorem remembers_run
    {gates : SinkAckGates} {calls : List (GateCall N)} {g : GateRun N}
    (hN : 1 < N)
    (h : Transition.run (step sink)
      (start N (registerSinkStreams gates sink N)) calls = some g) :
    Simulated sink g ∧ Remembers sink g := by
  have hstep (s : GateRun N) (call : GateCall N) (s' : GateRun N)
      (hs : Simulated sink s ∧ Remembers sink s)
      (hs' : step sink s call = some s') :
      Simulated sink s' ∧ Remembers sink s' :=
    ⟨hs.1.step hs', hs.2.step hs.1 hs'⟩
  have hnone : Transition.run (step sink)
      (start N (registerSinkStreams gates sink N)) [] =
        some (start N (registerSinkStreams gates sink N)) := rfl
  refine Transition.run_invariant hstep
    ⟨simulated_run hN hnone, ?_, ?_⟩ h
  · intro a _ i e he
    simp [start] at he
  · intro a ha hall
    have hnew : a = MarkerAligner.new N := by
      simpa [start, registerSinkStreams, not_le.mpr hN] using ha.symm
    rw [hnew] at hall
    simp only [MarkerAligner.new, List.length_nil] at hall
    omega

/-! ## Releases are reports -/

theorem releases_of_no_streams
    {gates : SinkAckGates} {calls : List (GateCall 0)} {g : GateRun 0}
    (h : Transition.run (step sink) (start 0 gates) calls = some g) :
    g.releases = [] := by
  have hstep (s : GateRun 0) (call : GateCall 0) (s' : GateRun 0)
      (hs : s.releases = []) (hs' : step sink s call = some s') :
      s'.releases = [] := by
    rcases step_other hs' with ⟨i, -⟩ | ⟨i, -⟩ | ⟨-, -, -, hrel⟩
    · exact i.elim0
    · exact i.elim0
    · exact hrel.trans hs
  exact Transition.run_invariant hstep rfl h

/-- When every stream is done, the epochs released are the ones reported. -/
theorem mem_releasedEpochs_of_finished
    {gates : SinkAckGates} {calls : List (GateCall N)} {g : GateRun N}
    (hgates : gates sink = none)
    (h : Transition.run (step sink)
      (start N (registerSinkStreams gates sink N)) calls = some g)
    (hfinished : ∀ i, i ∈ g.finished) (e : CheckpointEpoch) :
    e ∈ g.releasedEpochs ↔ ∃ i, e ∈ g.delivered i := by
  rcases Nat.lt_or_ge 1 N with hN | hN
  · obtain ⟨⟨alignerCalls, r, hr, hsim⟩, hg⟩ := remembers_run hN h
    have hinv := AlignerRun.inv_run hr
    have hepochs : g.releasedEpochs = r.releasedEpochs := by
      rw [releasedEpochs, hsim.releases, AlignerRun.releasedEpochs]
    constructor
    · intro he
      rw [hepochs] at he
      rw [hsim.delivered]
      exact hinv.delivered_of_released e he
    · rintro ⟨i, he⟩
      obtain ⟨st, hst⟩ := hg.known _ hsim.gate i e he
      rw [hepochs]
      refine hinv.recorded e st hst (hg.released _ hsim.gate ?_ e st hst)
      have huniv : g.finished = Finset.univ :=
        Finset.eq_univ_iff_forall.mpr hfinished
      rw [hinv.inputs, hinv.finished_length, ← hsim.finished, huniv]
      simp
  · have hun := ungated_run hN hgates h
    rcases Nat.eq_zero_or_pos N with rfl | hpos
    · have hnone : g.releasedEpochs = [] := by
        simp [releasedEpochs, releases_of_no_streams h]
      rw [hnone]
      constructor
      · intro he
        cases he
      · rintro ⟨i, -⟩
        exact i.elim0
    · constructor
      · intro he
        exact ⟨⟨0, hpos⟩, hun.released ⟨0, hpos⟩ ▸ he⟩
      · rintro ⟨i, he⟩
        rw [hun.released i]
        exact he

end GateRun

end Streamling
