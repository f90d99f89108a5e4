import Streamling.Checkpoints.AlignerBarrier

/-!
# The sink acknowledgement gate

A sink written by several partition streams acknowledges an epoch only after
every stream flushed it.  The gate is a process-wide table of marker aligners
indexed by sink name; a sink that registers at most one stream has no entry
and is not gated.  A run of the gate for one sink, whatever other sinks do to
the table meanwhile, is a run of that sink's aligner.
-/

namespace Streamling

open MarkerAligner

/-- The table of gates, by sink name. -/
abbrev SinkAckGates := String → Option MarkerAligner

namespace SinkAckGates

/-- Declare that `sinkId` is written by `streams` concurrent streams. -/
def registerSinkStreams (gates : SinkAckGates) (sinkId : String)
    (streams : ℕ) : SinkAckGates :=
  if streams ≤ 1 then gates
  else Function.update gates sinkId (some (MarkerAligner.new streams))

/-- Report that one write stream of `sinkId` has flushed `epoch`.  The flag
says whether the acknowledgement should be sent. -/
def reportMarkerAtSink (gates : SinkAckGates) (sinkId : String)
    (epoch : CheckpointEpoch) (nowMs : ℕ) : SinkAckGates × Bool :=
  match gates sinkId with
  | none => (gates, true)
  | some gate =>
      let result := gate.observe [.marker epoch nowMs]
      (Function.update gates sinkId (some result.1), !result.2.isEmpty)

/-- Report that one write stream of `sinkId` has finished after flushing
every epoch up to `lastFlushed`, returning the epochs that may be
acknowledged because of it. -/
def sinkStreamDone (gates : SinkAckGates) (sinkId : String)
    (lastFlushed : Option CheckpointEpoch) (nowMs : ℕ) :
    SinkAckGates × List CheckpointEpoch :=
  match gates sinkId with
  | none => (gates, [])
  | some gate =>
      let result := gate.inputDone lastFlushed nowMs
      (Function.update gates sinkId (some result.1), markerEpochs result.2)

end SinkAckGates

open SinkAckGates

/-- The gate table with the history of the `N` streams of one sink. -/
structure GateRun (N : ℕ) where
  gates : SinkAckGates
  delivered : Fin N → List CheckpointEpoch
  finished : Finset (Fin N)
  releases : List (Release N)

/-- A call on the gate table: by stream `i` of the sink under study, or on
behalf of another sink. -/
inductive GateCall (N : ℕ) where
  | report (i : Fin N) (epoch : CheckpointEpoch) (nowMs : ℕ)
  | done (i : Fin N) (lastFlushed : Option CheckpointEpoch) (nowMs : ℕ)
  | registerOther (sinkId : String) (streams : ℕ)
  | reportOther (sinkId : String) (epoch : CheckpointEpoch) (nowMs : ℕ)
  | doneOther (sinkId : String) (lastFlushed : Option CheckpointEpoch)
      (nowMs : ℕ)

namespace GateRun

variable {N : ℕ} {sink : String}

/-- The run that starts with the given table. -/
def start (N : ℕ) (gates : SinkAckGates) : GateRun N where
  gates := gates
  delivered := fun _ => []
  finished := ∅
  releases := []

/-- The epochs released for the sink so far, in order. -/
def releasedEpochs (g : GateRun N) : List CheckpointEpoch :=
  g.releases.map Release.epoch

/-- What a report of stream `i` changes. -/
def afterReport (sink : String) (g : GateRun N) (i : Fin N)
    (epoch : CheckpointEpoch) (nowMs : ℕ) : GateRun N :=
  let result := reportMarkerAtSink g.gates sink epoch nowMs
  let delivered := AlignerRun.deliverEpoch g.delivered i epoch
  { gates := result.1
    delivered := delivered
    finished := g.finished
    releases := g.releases ++
      if result.2 then [⟨epoch, delivered, g.finished⟩] else [] }

/-- Stream `i` reports an epoch. -/
def report (sink : String) (g : GateRun N) (i : Fin N)
    (epoch : CheckpointEpoch) (nowMs : ℕ) : Option (GateRun N) :=
  if i ∉ g.finished ∧ ∀ d ∈ g.delivered i, d < epoch then
    some (afterReport sink g i epoch nowMs)
  else none

/-- What the end of stream `i` changes. -/
def afterDone (sink : String) (g : GateRun N) (i : Fin N)
    (lastFlushed : Option CheckpointEpoch) (nowMs : ℕ) : GateRun N :=
  let result := sinkStreamDone g.gates sink lastFlushed nowMs
  let finished := insert i g.finished
  { gates := result.1
    delivered := g.delivered
    finished := finished
    releases := g.releases ++
      result.2.map fun epoch => ⟨epoch, g.delivered, finished⟩ }

/-- Stream `i` finishes. -/
def done (sink : String) (g : GateRun N) (i : Fin N)
    (lastFlushed : Option CheckpointEpoch) (nowMs : ℕ) :
    Option (GateRun N) :=
  if i ∉ g.finished ∧ lastFlushed = (g.delivered i).max? then
    some (afterDone sink g i lastFlushed nowMs)
  else none

/-- One call on the gate table.  The sink under study registers once, before
the run; other sinks are free to register at any time. -/
def step (sink : String) (g : GateRun N) :
    GateCall N → Option (GateRun N)
  | .report i epoch nowMs => report sink g i epoch nowMs
  | .done i lastFlushed nowMs => done sink g i lastFlushed nowMs
  | .registerOther other streams =>
      if other = sink then none
      else some { g with gates := registerSinkStreams g.gates other streams }
  | .reportOther other epoch nowMs =>
      if other = sink then none
      else some
        { g with gates := (reportMarkerAtSink g.gates other epoch nowMs).1 }
  | .doneOther other lastFlushed nowMs =>
      if other = sink then none
      else some
        { g with
          gates := (sinkStreamDone g.gates other lastFlushed nowMs).1 }

/-! ## Calls for one sink leave the other gates alone -/

theorem registerSinkStreams_of_ne
    (gates : SinkAckGates) {other : String} (streams : ℕ)
    (h : other ≠ sink) :
    registerSinkStreams gates other streams sink = gates sink := by
  simp only [registerSinkStreams]
  split
  · rfl
  · exact Function.update_of_ne h.symm _ _

theorem reportMarkerAtSink_of_ne
    (gates : SinkAckGates) {other : String} (epoch : CheckpointEpoch)
    (nowMs : ℕ) (h : other ≠ sink) :
    (reportMarkerAtSink gates other epoch nowMs).1 sink = gates sink := by
  simp only [reportMarkerAtSink]
  split
  · rfl
  · exact Function.update_of_ne h.symm _ _

theorem sinkStreamDone_of_ne
    (gates : SinkAckGates) {other : String}
    (last : Option CheckpointEpoch) (nowMs : ℕ) (h : other ≠ sink) :
    (sinkStreamDone gates other last nowMs).1 sink = gates sink := by
  simp only [sinkStreamDone]
  split
  · rfl
  · exact Function.update_of_ne h.symm _ _

/-- A call for another sink changes nothing the sink's own calls read. -/
theorem step_other
    {g g' : GateRun N} {call : GateCall N}
    (h : step sink g call = some g') :
    (∃ i epoch nowMs, call = .report i epoch nowMs) ∨
      (∃ i last nowMs, call = .done i last nowMs) ∨
      (g'.gates sink = g.gates sink ∧ g'.delivered = g.delivered ∧
        g'.finished = g.finished ∧ g'.releases = g.releases) := by
  cases call with
  | report i epoch nowMs => exact Or.inl ⟨i, epoch, nowMs, rfl⟩
  | done i last nowMs => exact Or.inr (Or.inl ⟨i, last, nowMs, rfl⟩)
  | registerOther other streams =>
      simp only [step] at h
      split at h
      · simp at h
      next hne =>
        obtain rfl := Option.some.inj h
        exact Or.inr (Or.inr
          ⟨registerSinkStreams_of_ne _ _ hne, rfl, rfl, rfl⟩)
  | reportOther other epoch nowMs =>
      simp only [step] at h
      split at h
      · simp at h
      next hne =>
        obtain rfl := Option.some.inj h
        exact Or.inr (Or.inr
          ⟨reportMarkerAtSink_of_ne _ _ _ hne, rfl, rfl, rfl⟩)
  | doneOther other last nowMs =>
      simp only [step] at h
      split at h
      · simp at h
      next hne =>
        obtain rfl := Option.some.inj h
        exact Or.inr (Or.inr
          ⟨sinkStreamDone_of_ne _ _ _ hne, rfl, rfl, rfl⟩)

/-! ## A gated sink runs its aligner -/

/-- The run of the sink's aligner that a run of the gate stands for. -/
structure Simulates (sink : String) (g : GateRun N) (r : AlignerRun N) :
    Prop where
  gate : g.gates sink = some r.aligner
  delivered : g.delivered = r.delivered
  finished : g.finished = r.finished
  releases : g.releases = r.releases

theorem observeMessage_marker_output
    (a : MarkerAligner) (epoch : CheckpointEpoch) (nowMs : ℕ) :
    (a.observeMessage (.marker epoch nowMs)).2 = [] ∨
      (a.observeMessage (.marker epoch nowMs)).2 =
        [.marker epoch nowMs] := by
  simp only [observeMessage]
  split
  · exact Or.inl rfl
  · split
    · exact Or.inr rfl
    · exact Or.inl rfl

/-- A report through the gate is a marker delivered to the aligner. -/
theorem Simulates.report
    {g g' : GateRun N} {r : AlignerRun N} {i : Fin N}
    {epoch : CheckpointEpoch} {nowMs : ℕ}
    (hsim : Simulates sink g r)
    (h : report sink g i epoch nowMs = some g') :
    ∃ r', r.step (.observe i [.marker epoch nowMs]) = some r' ∧
      Simulates sink g' r' := by
  simp only [GateRun.report, afterReport] at h
  split at h
  next hguard =>
    obtain rfl := Option.some.inj h
    have hmay : r.mayDeliver i (.marker epoch nowMs) = true := by
      rw [hsim.finished, hsim.delivered] at hguard
      simpa [AlignerRun.mayDeliver, hguard.1] using hguard.2
    refine ⟨_, Transition.run_cons_eq_some.mpr ⟨_, if_pos hmay, rfl⟩,
      ?_, ?_, hsim.finished, ?_⟩
    · simp [reportMarkerAtSink, hsim.gate, observe_cons]
    · simp [AlignerRun.deliveredAfter, AlignerRun.deliverEpoch,
        hsim.delivered, CheckpointMessage.markerEpoch?]
    · simp only [reportMarkerAtSink, hsim.gate, observe_cons,
        observe_nil, List.append_nil, hsim.releases, hsim.delivered,
        hsim.finished]
      rcases observeMessage_marker_output r.aligner epoch nowMs with
        hnone | hsome
      · simp [hnone]
      · simp [hsome, markerEpochs, CheckpointMessage.markerEpoch?,
          AlignerRun.deliveredAfter, AlignerRun.deliverEpoch]
  · simp at h

/-- A finished stream is an input of the aligner that ends. -/
theorem Simulates.done
    {g g' : GateRun N} {r : AlignerRun N} {i : Fin N}
    {last : Option CheckpointEpoch} {nowMs : ℕ}
    (hsim : Simulates sink g r)
    (h : done sink g i last nowMs = some g') :
    ∃ r', r.step (.inputDone i last nowMs) = some r' ∧
      Simulates sink g' r' := by
  simp only [GateRun.done, afterDone] at h
  split at h
  next hguard =>
    obtain rfl := Option.some.inj h
    rw [hsim.finished, hsim.delivered] at hguard
    refine ⟨_, if_pos hguard, ?_, hsim.delivered, ?_, ?_⟩
    · simp [sinkStreamDone, hsim.gate]
    · simp [hsim.finished]
    · simp [sinkStreamDone, hsim.gate, hsim.releases, hsim.delivered,
        hsim.finished]
  · simp at h

/-- Every call on the gate table is matched by at most one call on the
aligner. -/
theorem Simulates.step
    {g g' : GateRun N} {r : AlignerRun N} {call : GateCall N}
    (hsim : Simulates sink g r) (h : step sink g call = some g') :
    ∃ calls r', Transition.run AlignerRun.step r calls = some r' ∧
      Simulates sink g' r' := by
  rcases step_other h with ⟨i, epoch, nowMs, rfl⟩ |
    ⟨i, last, nowMs, rfl⟩ | ⟨hgate, hdel, hfin, hrel⟩
  · obtain ⟨r', hr', hsim'⟩ := hsim.report h
    exact ⟨[.observe i [.marker epoch nowMs]], r',
      Transition.run_cons_eq_some.mpr ⟨r', hr', rfl⟩, hsim'⟩
  · obtain ⟨r', hr', hsim'⟩ := hsim.done h
    exact ⟨[.inputDone i last nowMs], r',
      Transition.run_cons_eq_some.mpr ⟨r', hr', rfl⟩, hsim'⟩
  · exact ⟨[], r, rfl, hgate.trans hsim.gate, hdel.trans hsim.delivered,
      hfin.trans hsim.finished, hrel.trans hsim.releases⟩

/-- The gate stands for a state that a run of the aligner reaches. -/
def Simulated (sink : String) (g : GateRun N) : Prop :=
  ∃ alignerCalls r,
    Transition.run AlignerRun.step (AlignerRun.start N) alignerCalls =
      some r ∧ Simulates sink g r

theorem Simulated.step
    {g g' : GateRun N} {call : GateCall N} (hg : Simulated sink g)
    (h : step sink g call = some g') : Simulated sink g' := by
  obtain ⟨front, r, hr, hsim⟩ := hg
  obtain ⟨back, r', hr', hsim'⟩ := hsim.step h
  exact ⟨front ++ back, r',
    Transition.run_append_eq_some.mpr ⟨r, hr, hr'⟩, hsim'⟩

/-- A run of the gate for a sink of several streams is a run of an aligner
with that many inputs. -/
theorem simulated_run
    {gates : SinkAckGates} {calls : List (GateCall N)} {g : GateRun N}
    (hN : 1 < N)
    (h : Transition.run (step sink)
      (start N (registerSinkStreams gates sink N)) calls = some g) :
    Simulated sink g := by
  have hstart : Simulates sink
      (start N (registerSinkStreams gates sink N)) (AlignerRun.start N) := by
    refine ⟨?_, rfl, rfl, rfl⟩
    simp [start, registerSinkStreams, AlignerRun.start, not_le.mpr hN]
  exact Transition.run_invariant (fun _ _ _ hs h => Simulated.step hs h)
    ⟨[], _, rfl, hstart⟩ h

/-! ## An ungated sink -/

/-- What holds of a sink without a gate: it has at most one stream, and
everything that stream delivered was released at once. -/
structure Ungated (sink : String) (g : GateRun N) : Prop where
  gate : g.gates sink = none
  increasing : ∀ i, (g.delivered i).Pairwise (· < ·)
  released : ∀ i, g.releasedEpochs = g.delivered i
  at_release : ∀ rel ∈ g.releases,
    Settled rel.delivered rel.finished rel.epoch

theorem Ungated.step
    {g g' : GateRun N} {call : GateCall N} (hN : N ≤ 1)
    (hg : Ungated sink g) (h : step sink g call = some g') :
    Ungated sink g' := by
  have honly : ∀ i j : Fin N, i = j := by
    intro i j
    apply Fin.ext
    omega
  rcases step_other h with ⟨i, epoch, nowMs, rfl⟩ |
    ⟨i, last, nowMs, rfl⟩ | ⟨hgate, hdel, hfin, hrel⟩
  · simp only [GateRun.step, GateRun.report, afterReport] at h
    split at h
    next hguard =>
      obtain rfl := Option.some.inj h
      have hself : ∀ j, AlignerRun.deliverEpoch g.delivered i epoch j =
          g.delivered i ++ [epoch] := by
        intro j
        rw [honly j i]
        simp [AlignerRun.deliverEpoch]
      refine ⟨?_, ?_, ?_, ?_⟩
      · simp [reportMarkerAtSink, hg.gate]
      · intro j
        simp only [hself, List.pairwise_append, List.pairwise_singleton,
          true_and, List.mem_singleton, forall_eq]
        exact ⟨hg.increasing i, hguard.2⟩
      · intro j
        have := hg.released i
        simp only [releasedEpochs] at this
        simp [reportMarkerAtSink, hg.gate, releasedEpochs, hself, this]
      · intro rel hrel
        simp only [reportMarkerAtSink, hg.gate, if_true, List.mem_append,
          List.mem_singleton] at hrel
        rcases hrel with hrel | rfl
        · exact hg.at_release rel hrel
        · right
          intro j
          left
          simp [hself]
    · simp at h
  · simp only [GateRun.step, GateRun.done, afterDone] at h
    split at h
    · obtain rfl := Option.some.inj h
      refine ⟨?_, hg.increasing, ?_, ?_⟩
      · simp [sinkStreamDone, hg.gate]
      · intro j
        simpa [sinkStreamDone, hg.gate, releasedEpochs] using hg.released j
      · intro rel hrel
        refine hg.at_release rel ?_
        simpa [sinkStreamDone, hg.gate] using hrel
    · simp at h
  · refine ⟨hgate.trans hg.gate, by rw [hdel]; exact hg.increasing, ?_, ?_⟩
    · simp only [releasedEpochs, hrel, hdel]
      exact hg.released
    · rw [hrel]
      exact hg.at_release

theorem ungated_run
    {gates : SinkAckGates} {calls : List (GateCall N)} {g : GateRun N}
    (hN : N ≤ 1) (hgates : gates sink = none)
    (h : Transition.run (step sink)
      (start N (registerSinkStreams gates sink N)) calls = some g) :
    Ungated sink g := by
  refine Transition.run_invariant
    (fun _ _ _ hs h => Ungated.step hN hs h) ?_ h
  refine ⟨?_, by simp [start], by simp [start, releasedEpochs],
    by simp [start]⟩
  simpa [start, registerSinkStreams, hN] using hgates

/-! ## Releases keep -/

/-- What was delivered and finished at a release still is. -/
def Kept (g : GateRun N) : Prop :=
  ∀ rel ∈ g.releases, (∀ i, rel.delivered i ⊆ g.delivered i) ∧
    rel.finished ⊆ g.finished

theorem Kept.step
    {g g' : GateRun N} {call : GateCall N} (hg : Kept g)
    (h : step sink g call = some g') : Kept g' := by
  rcases step_other h with ⟨i, epoch, nowMs, rfl⟩ |
    ⟨i, last, nowMs, rfl⟩ | ⟨-, hdel, hfin, hrel⟩
  · simp only [GateRun.step, GateRun.report, afterReport] at h
    split at h
    · obtain rfl := Option.some.inj h
      intro rel hrel
      rcases List.mem_append.mp hrel with hrel | hrel
      · exact ⟨fun j e hmem => AlignerRun.mem_deliverEpoch.mpr
          (Or.inl ((hg rel hrel).1 j hmem)), (hg rel hrel).2⟩
      · split at hrel
        · obtain rfl := List.mem_singleton.mp hrel
          exact ⟨fun _ => List.Subset.refl _, Finset.Subset.refl _⟩
        · simp at hrel
    · simp at h
  · simp only [GateRun.step, GateRun.done, afterDone] at h
    split at h
    · obtain rfl := Option.some.inj h
      intro rel hrel
      rcases List.mem_append.mp hrel with hrel | hrel
      · exact ⟨(hg rel hrel).1,
          (hg rel hrel).2.trans (Finset.subset_insert _ _)⟩
      · obtain ⟨epoch, -, rfl⟩ := List.mem_map.mp hrel
        exact ⟨fun _ => List.Subset.refl _, Finset.Subset.refl _⟩
    · simp at h
  · rw [Kept, hrel, hdel, hfin]
    exact hg

/-! ## The barrier through the gate -/

/-- Every epoch is released for a sink at most once, and only when it is
settled, however many streams write it. -/
theorem release_barrier
    {gates : SinkAckGates} {calls : List (GateCall N)} {g : GateRun N}
    (hgates : gates sink = none)
    (h : Transition.run (step sink)
      (start N (registerSinkStreams gates sink N)) calls = some g) :
    g.releasedEpochs.Nodup ∧
      ∀ rel ∈ g.releases, Settled rel.delivered rel.finished rel.epoch := by
  rcases Nat.lt_or_ge 1 N with hN | hN
  · obtain ⟨alignerCalls, r, hr, hsim⟩ := simulated_run hN h
    have hinv := AlignerRun.inv_run hr
    rw [releasedEpochs, hsim.releases]
    exact ⟨hinv.nodup, hinv.at_release⟩
  · have hun := ungated_run hN hgates h
    refine ⟨?_, hun.at_release⟩
    rcases Nat.eq_zero_or_pos N with rfl | hpos
    · have hstep (s : GateRun 0) (call : GateCall 0) (s' : GateRun 0)
          (hs : s.releases = []) (hs' : step sink s call = some s') :
          s'.releases = [] := by
        rcases step_other hs' with ⟨i, -⟩ | ⟨i, -⟩ | ⟨-, -, -, hrel⟩
        · exact i.elim0
        · exact i.elim0
        · rw [hrel, hs]
      have hempty : g.releases = [] := Transition.run_invariant hstep rfl h
      simp [releasedEpochs, hempty]
    · rw [hun.released ⟨0, hpos⟩]
      exact (hun.increasing _).imp fun h => ne_of_lt h

end GateRun

/-- In every run of an aligner, and in every run of the gate of a sink with
any number of streams, each epoch is released at most once; when it is, every
input has finished, or each has delivered its own copy or finished below the
epoch.  The count of an epoch not yet released is the number of inputs that
delivered it. -/
theorem marker_alignment_barrier (N : ℕ) :
    (∀ (calls : List (AlignerCall N)) (r : AlignerRun N),
      Transition.run AlignerRun.step (AlignerRun.start N) calls = some r →
        r.releasedEpochs.Nodup ∧
        (∀ rel ∈ r.releases,
          Settled rel.delivered rel.finished rel.epoch) ∧
        ∀ e st, r.aligner.epochs.find? e = some st →
          st.released = false → st.copies = (r.deliverers e).card) ∧
    ∀ (sink : String) (gates : SinkAckGates) (calls : List (GateCall N))
      (g : GateRun N), gates sink = none →
      Transition.run (GateRun.step sink)
        (GateRun.start N (registerSinkStreams gates sink N)) calls =
          some g →
        g.releasedEpochs.Nodup ∧
        ∀ rel ∈ g.releases,
          Settled rel.delivered rel.finished rel.epoch := by
  constructor
  · intro calls r h
    have hinv := AlignerRun.inv_run h
    exact ⟨hinv.nodup, hinv.at_release,
      fun e st hfind hst => (hinv.pending e st hfind hst).1⟩
  · intro sink gates calls g hgates h
    exact GateRun.release_barrier hgates h

theorem marker_alignment_barrier_two_inputs :
    (∃ r, Transition.run AlignerRun.step (AlignerRun.start 2)
        [.observe 0 [.marker 1 10], .observe 1 [.marker 1 11],
          .observe 0 [.finalizer 1], .inputDone 0 (some 1) 12,
          .observe 1 [.marker 2 13]] = some r ∧
      r.releasedEpochs = [1, 2] ∧
      ∀ rel ∈ r.releases, Settled rel.delivered rel.finished rel.epoch) ∧
    ∃ g, Transition.run (GateRun.step "sink")
        (GateRun.start 2 (registerSinkStreams (fun _ => none) "sink" 2))
        [.report 0 1 10, .registerOther "other" 3, .reportOther "other" 1 11,
          .done 1 none 12] = some g ∧
      g.releasedEpochs = [1] ∧
      ∀ rel ∈ g.releases, Settled rel.delivered rel.finished rel.epoch := by
  constructor
  · obtain ⟨r, hr, hrel⟩ := Option.map_eq_some_iff.mp
      (show (Transition.run AlignerRun.step (AlignerRun.start 2)
        [.observe 0 [.marker 1 10], .observe 1 [.marker 1 11],
          .observe 0 [.finalizer 1], .inputDone 0 (some 1) 12,
          .observe 1 [.marker 2 13]]).map AlignerRun.releasedEpochs =
        some [1, 2] by decide)
    exact ⟨r, hr, hrel, ((marker_alignment_barrier 2).1 _ _ hr).2.1⟩
  · obtain ⟨g, hg, hrel⟩ := Option.map_eq_some_iff.mp
      (show (Transition.run (GateRun.step "sink")
        (GateRun.start 2 (registerSinkStreams (fun _ => none) "sink" 2))
        [.report 0 1 10, .registerOther "other" 3, .reportOther "other" 1 11,
          .done 1 none 12]).map GateRun.releasedEpochs =
        some [1] by decide)
    exact ⟨g, hg, hrel, ((marker_alignment_barrier 2).2 _ _ _ _ rfl hg).2⟩

end Streamling
