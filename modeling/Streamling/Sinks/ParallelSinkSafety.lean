import Mathlib
import Streamling.Checkpoints.SinkGateComplete
import Streamling.Sinks.ParallelSinkStreams

/-!
# The acknowledgements of a parallel sink

A run of the executor is a run of the sink's marker gate: a stream reports an
epoch after the write of the batch that carried it, and its end with the last
marker it was handed, which it has flushed.  The barrier of the gate then says
what has been written when an epoch is acknowledged.
-/

namespace Streamling

namespace ParallelSink

open SinkAckGates
open PluginSink (streamEpochs)
open WriteStream (Streaming Prefetched)

variable {ρ : Type} {N : ℕ}

namespace SinkExec

/-! ## What a step does -/

/-- The steps of a stream that leave the executor alone. -/
inductive Local [DecidableEq ρ] (settings : SinkSettings ρ)
    (x x' : WriteStream ρ) : Prop where
  | prefetched (h : Prefetched x x')
  | took (h : x.take settings = some x')
  | ended (h : x.ends = some x')
  | aborted (rows : List ρ) (h : x.abort settings rows = some x')

/-- The ways in which the executor takes a step. -/
inductive Stepped [DecidableEq ρ] (settings : SinkSettings ρ)
    (s : SinkExec ρ N) : SinkExec ρ N → Prop where
  | stream (i : Fin N) (x' : WriteStream ρ)
      (hlocal : Local settings (s.streams i) x') :
      Stepped settings s (s.withStream i x')
  | wrote (i : Fin N) (stream : List (RecordBatch ρ)) (receipt : Receipt ρ)
      (hphase : (s.streams i).phase = .reading)
      (hready : (s.streams i).ready = stream.map Except.ok)
      (hreceipt : Accounts settings.destination (rowsOf stream) receipt)
      (total : ℕ) (htotal : total =
        settings.receivedAtWrite s.received (rowsOf stream).length) :
      Stepped settings s
        { s.withStream i ((s.streams i).wrote stream receipt total) with
          received := total }
  | writeFailed (i : Fin N) (rows : List ρ) (counted : ℕ)
      (x' : WriteStream ρ)
      (hfails : (s.streams i).fails settings rows = some x') :
      Stepped settings s
        { s.withStream i x' with received := s.received + counted }
  | skipped (i : Fin N) (message : CheckpointMessage)
      (rest : List CheckpointMessage) (rows total : ℕ)
      (hphase : (s.streams i).phase = .acking (message :: rest) rows total)
      (hmessage : message.markerEpoch? = none) :
      Stepped settings s
        (s.withStream i
          { s.streams i with phase := .acking rest rows total })
  | reported (i : Fin N) (epoch : CheckpointEpoch) (createdAtMs nowMs : ℕ)
      (rest : List CheckpointMessage) (rows total : ℕ)
      (hphase : (s.streams i).phase =
        .acking (.marker epoch createdAtMs :: rest) rows total) :
      Stepped settings s
        { s.withStream i
            { s.streams i with phase := .acking rest rows total } with
          gates :=
            (reportMarkerAtSink s.gates settings.sinkId epoch nowMs).1
          acks := s.acks ++
            if (reportMarkerAtSink s.gates settings.sinkId epoch nowMs).2
            then [epoch] else [] }
  | proceeded (i : Fin N) (rows total : ℕ)
      (hphase : (s.streams i).phase = .acking [] rows total) :
      Stepped settings s
        { s.withStream i
            { s.streams i with
              phase :=
                if (settings.afterAcks s.received rows total).2 then
                  .returned
                else .reading } with
          received := (settings.afterAcks s.received rows total).1 }
  | joined (i : Fin N) (nowMs : ℕ) (houtcome : s.outcome = none)
      (hphase : (s.streams i).phase = .returned) :
      Stepped settings s
        { s.withStream i { s.streams i with phase := .joined } with
          gates := (sinkStreamDone s.gates settings.sinkId
            (s.streams i).lastMarker nowMs).1
          acks := s.acks ++ (sinkStreamDone s.gates settings.sinkId
            (s.streams i).lastMarker nowMs).2
          totalCount := s.totalCount + (s.streams i).rowCount }
  | failed (houtcome : s.outcome = none) :
      Stepped settings s { s with outcome := some (.error ()) }
  | completed (houtcome : s.outcome = none)
      (hjoined : ∀ i, (s.streams i).phase = .joined) :
      Stepped settings s { s with outcome := some (.ok s.totalCount) }
  | other (call : GateCall N) (gates : SinkAckGates)
      (hcall : ∀ g : GateRun N, g.gates = s.gates →
        GateRun.step settings.sinkId g call =
          some { g with gates := gates }) :
      Stepped settings s { s with gates := gates }

theorem stepped_of_stream
    [DecidableEq ρ] {settings : SinkSettings ρ} {s s' : SinkExec ρ N}
    {i : Fin N} {result : Option (WriteStream ρ)}
    (hlocal : ∀ x', result = some x' → Local settings (s.streams i) x')
    (h : result.map (s.withStream i) = some s') : Stepped settings s s' := by
  obtain ⟨x', hx', rfl⟩ := Option.map_eq_some_iff.mp h
  exact .stream i x' (hlocal x' hx')

theorem stepped_of_write
    [DecidableEq ρ] {settings : SinkSettings ρ} {s s' : SinkExec ρ N}
    {i : Fin N} {sent : List (Sent ρ)}
    (h : s.write settings i sent = some s') : Stepped settings s s' := by
  simp only [write] at h
  split at h
  next stream hphase hready =>
    split at h
    · cases h
    · split at h
      next receipt hreceipt =>
        obtain rfl := Option.some.inj h
        exact .wrote i stream receipt hphase (eq_map_ok_of_mapM hready)
          (Destination.accounts_of_receipt hreceipt) _ rfl
      · cases h
  · cases h

theorem stepped_of_fails
    [DecidableEq ρ] {settings : SinkSettings ρ} {s s' : SinkExec ρ N}
    {i : Fin N} {rows : List ρ} {front : ℕ}
    (h : s.fails settings i rows front = some s') :
    Stepped settings s s' := by
  obtain ⟨x', hx', rfl⟩ := Option.map_eq_some_iff.mp h
  exact .writeFailed i rows _ x' hx'

theorem stepped_of_processCheckpointAck
    [DecidableEq ρ] {settings : SinkSettings ρ} {s s' : SinkExec ρ N}
    {i : Fin N} {nowMs : ℕ}
    (h : s.processCheckpointAck settings i nowMs = some s') :
    Stepped settings s s' := by
  simp only [processCheckpointAck] at h
  split at h
  next message rest rows total hphase =>
    cases message with
    | marker epoch createdAtMs =>
        obtain rfl := Option.some.inj h
        exact .reported i epoch createdAtMs nowMs rest rows total hphase
    | ack | finalizer | sourceComplete =>
        obtain rfl := Option.some.inj h
        exact .skipped i _ rest rows total hphase rfl
  · cases h

theorem stepped_of_joinNext
    [DecidableEq ρ] {settings : SinkSettings ρ} {s s' : SinkExec ρ N}
    {i : Fin N} {nowMs : ℕ} (h : s.joinNext settings i nowMs = some s') :
    Stepped settings s s' := by
  simp only [joinNext] at h
  split at h
  next houtcome hphase =>
    obtain rfl := Option.some.inj h
    exact .joined i nowMs houtcome hphase
  next houtcome hphase =>
    obtain rfl := Option.some.inj h
    exact .failed houtcome
  · cases h

theorem stepped_of_other
    [DecidableEq ρ] {settings : SinkSettings ρ} {s s' : SinkExec ρ N}
    {sinkId : String} {gates : SinkAckGates} (call : GateCall N)
    (hcall : ∀ g : GateRun N, sinkId ≠ settings.sinkId →
      g.gates = s.gates →
        GateRun.step settings.sinkId g call =
          some { g with gates := gates })
    (h : s.other settings sinkId gates = some s') :
    Stepped settings s s' := by
  simp only [other] at h
  split at h
  · cases h
  next hne =>
    obtain rfl := Option.some.inj h
    exact .other call gates fun g hg => hcall g hne hg

theorem stepped_of_step
    [DecidableEq ρ] {settings : SinkSettings ρ} {s s' : SinkExec ρ N}
    {action : Action ρ N} (h : s.step settings action = some s') :
    Stepped settings s s' := by
  cases action with
  | read i =>
      exact stepped_of_stream
        (fun _ hx => .prefetched (WriteStream.prefetched_of_read hx)) h
  | forward i =>
      exact stepped_of_stream
        (fun _ hx => .prefetched (WriteStream.prefetched_of_forward hx)) h
  | take i => exact stepped_of_stream (fun _ hx => .took hx) h
  | write i sent => exact stepped_of_write h
  | fails i rows front => exact stepped_of_fails h
  | ends i => exact stepped_of_stream (fun _ hx => .ended hx) h
  | processCheckpointAck i nowMs =>
      exact stepped_of_processCheckpointAck h
  | proceed i =>
      simp only [step, proceed] at h
      split at h
      next rows total hphase =>
        obtain rfl := Option.some.inj h
        exact .proceeded i rows total hphase
      · cases h
  | joinNext i nowMs => exact stepped_of_joinNext h
  | abort i rows =>
      simp only [step, abort] at h
      split at h
      · exact stepped_of_stream (fun _ hx => .aborted rows hx) h
      · cases h
  | complete =>
      simp only [step, complete] at h
      split at h
      next hcomplete =>
        obtain rfl := Option.some.inj h
        exact .completed (Option.isNone_iff_eq_none.mp hcomplete.1)
          hcomplete.2
      · cases h
  | registerOther sinkId streams =>
      refine stepped_of_other (.registerOther sinkId streams) ?_ h
      intro g hne hg
      simp [GateRun.step, hne, hg]
  | reportOther sinkId epoch nowMs =>
      refine stepped_of_other (.reportOther sinkId epoch nowMs) ?_ h
      intro g hne hg
      simp [GateRun.step, hne, hg]
  | doneOther sinkId last nowMs =>
      refine stepped_of_other (.doneOther sinkId last nowMs) ?_ h
      intro g hne hg
      simp [GateRun.step, hne, hg]

/-! ## A run of the executor is a run of the gate -/

/-- The run of the gate that a run of the executor stands for. -/
structure Simulates (settings : SinkSettings ρ)
    (inputs : Fin N → List (Item ρ)) (s : SinkExec ρ N) (g : GateRun N) :
    Prop where
  gates : g.gates = s.gates
  acks : g.releasedEpochs = s.acks
  streaming : ∀ i,
    Streaming settings.destination (inputs i) (s.streams i)
  delivered : ∀ i, (s.streams i).phase ≠ .aborted →
    g.delivered i ++ markerEpochs (s.streams i).phase.unreported =
      streamEpochs (s.streams i).flushed
  flushed : ∀ i, g.delivered i <+: streamEpochs (s.streams i).flushed
  finished : ∀ i, i ∈ g.finished ↔ (s.streams i).phase = .joined

@[simp] theorem withStream_self
    (s : SinkExec ρ N) (i : Fin N) (x : WriteStream ρ) :
    (s.withStream i x).streams i = x := by
  simp [withStream]

theorem withStream_of_ne
    (s : SinkExec ρ N) {i j : Fin N} (x : WriteStream ρ) (h : j ≠ i) :
    (s.withStream i x).streams j = s.streams j := by
  simp [withStream, h]

/-- What holds of a stream for the epochs reported for it. -/
structure Reported (destination : Destination ρ) (input : List (Item ρ))
    (x : WriteStream ρ) (reported : List CheckpointEpoch) (finished : Prop) :
    Prop where
  streaming : Streaming destination input x
  delivered : x.phase ≠ .aborted →
    reported ++ markerEpochs x.phase.unreported = streamEpochs x.flushed
  flushed : reported <+: streamEpochs x.flushed
  finished : finished ↔ x.phase = .joined

section Simulation

variable {destination : Destination ρ} {settings : SinkSettings ρ}
  {inputs : Fin N → List (Item ρ)} {s : SinkExec ρ N} {g : GateRun N}

theorem Simulates.reported (h : Simulates settings inputs s g) (i : Fin N) :
    Reported settings.destination (inputs i) (s.streams i) (g.delivered i)
      (i ∈ g.finished) :=
  ⟨h.streaming i, h.delivered i, h.flushed i, h.finished i⟩

theorem simulates_of_reported
    (hgates : g.gates = s.gates) (hacks : g.releasedEpochs = s.acks)
    (h : ∀ i, Reported settings.destination (inputs i) (s.streams i)
      (g.delivered i) (i ∈ g.finished)) :
    Simulates settings inputs s g :=
  ⟨hgates, hacks, fun i => (h i).streaming, fun i => (h i).delivered,
    fun i => (h i).flushed, fun i => (h i).finished⟩

/-- A step that only replaces stream `i` is matched by no call. -/
theorem Simulates.withStream
    (h : Simulates settings inputs s g) {i : Fin N} {x' : WriteStream ρ}
    (hx : Reported settings.destination (inputs i) x' (g.delivered i)
      (i ∈ g.finished))
    (received : ℕ) :
    Simulates settings inputs
      { s.withStream i x' with received := received } g := by
  refine simulates_of_reported h.gates h.acks ?_
  intro j
  by_cases hj : j = i
  · subst hj
    simpa using hx
  · simpa [withStream_of_ne s x' hj] using h.reported j

/-- A step in a phase without messages keeps what was reported. -/
theorem Reported.of_eq
    {input : List (Item ρ)} {x x' : WriteStream ρ}
    {reported : List CheckpointEpoch} {finished : Prop}
    (h : Reported destination input x reported finished)
    (hstreaming : Streaming destination input x')
    (hflushed : x'.flushed = x.flushed)
    (hwas : x.phase ≠ .aborted) (hunreported : x'.phase ≠ .aborted →
      x'.phase.unreported = x.phase.unreported)
    (hjoined : x'.phase = .joined ↔ x.phase = .joined) :
    Reported destination input x' reported finished where
  streaming := hstreaming
  delivered := by
    intro hphase
    rw [hflushed, hunreported hphase]
    exact h.delivered hwas
  flushed := by
    rw [hflushed]
    exact h.flushed
  finished := h.finished.trans hjoined.symm

theorem Reported.step_local
    [DecidableEq ρ] {input : List (Item ρ)} {x x' : WriteStream ρ}
    {reported : List CheckpointEpoch} {finished : Prop}
    (h : Reported settings.destination input x reported finished)
    (hlocal : Local settings x x') :
    Reported settings.destination input x' reported finished := by
  cases hlocal with
  | prefetched hx =>
      refine ⟨h.streaming.prefetch hx, ?_, ?_, ?_⟩
      · rw [hx.phase, hx.flushed]
        exact h.delivered
      · rw [hx.flushed]
        exact h.flushed
      · rw [hx.phase]
        exact h.finished
  | took hx =>
      obtain ⟨hphase, item, rest, -, hx'⟩ := WriteStream.of_take hx
      refine h.of_eq (h.streaming.take hx) (by rw [hx'])
        (by simp [hphase]) (fun _ => by rw [hx']) (by rw [hx'])
  | ended hx =>
      obtain ⟨hphase, hready, -, -, -, rfl⟩ := WriteStream.of_ends hx
      exact h.of_eq (h.streaming.of_phase fun _ _ _ => hready) rfl
        (by simp [hphase])
        (fun _ => by simp [hphase, Phase.unreported]) (by simp [hphase])
  | aborted rows hx =>
      obtain ⟨hphase, hleaves, rfl⟩ := WriteStream.of_abort hx
      have hwas : x.phase ≠ .aborted ∧ x.phase ≠ .joined := by
        rcases hphase with hphase | ⟨messages, rows, total, hphase⟩
        · simp [hphase]
        · simp [hphase]
      exact h.of_eq (h.streaming.unfinished hleaves (Or.inr rfl)) rfl
        hwas.1 (fun hphase => absurd rfl hphase)
        (by simp [WriteStream.unfinished, hwas.2])

/-- A write that fails reports nothing more. -/
theorem Reported.fails
    [DecidableEq ρ] {input : List (Item ρ)} {x x' : WriteStream ρ}
    {reported : List CheckpointEpoch} {finished : Prop} {rows : List ρ}
    (h : Reported settings.destination input x reported finished)
    (hfails : x.fails settings rows = some x') :
    Reported settings.destination input x' reported finished := by
  obtain ⟨hphase, hleaves, rfl⟩ := WriteStream.of_fails hfails
  exact h.of_eq (h.streaming.unfinished hleaves (Or.inl rfl)) rfl
    (by simp [hphase])
    (fun _ => by simp [WriteStream.unfinished, hphase, Phase.unreported])
    (by simp [WriteStream.unfinished, hphase])

/-- A write puts the messages of its batches up for report. -/
theorem Reported.wrote
    {input : List (Item ρ)} {x : WriteStream ρ}
    {reported : List CheckpointEpoch} {finished : Prop}
    {stream : List (RecordBatch ρ)} {receipt : Receipt ρ}
    (h : Reported destination input x reported finished)
    (hphase : x.phase = .reading)
    (hready : x.ready = stream.map Except.ok)
    (hreceipt : Accounts destination (rowsOf stream) receipt) (total : ℕ) :
    Reported destination input (x.wrote stream receipt total) reported
      finished := by
  have hreported : reported = streamEpochs x.flushed := by
    have hdelivered := h.delivered (by simp [hphase])
    simpa [hphase, Phase.unreported] using hdelivered
  refine ⟨h.streaming.wrote hready hreceipt total, ?_, ?_, ?_⟩
  · intro _
    simp [WriteStream.wrote, Phase.unreported, markerEpochs_flatMap,
      hreported]
  · simp [WriteStream.wrote, hreported]
  · simpa [WriteStream.wrote, hphase] using h.finished

/-- The phase of a stream that looked at a message without an epoch. -/
theorem Reported.acking
    {input : List (Item ρ)} {x : WriteStream ρ}
    {reported : List CheckpointEpoch} {finished : Prop}
    {message : CheckpointMessage} {rest : List CheckpointMessage}
    {rows total : ℕ} (h : Reported destination input x reported finished)
    (hphase : x.phase = .acking (message :: rest) rows total) :
    Reported destination input { x with phase := .acking rest rows total }
      (reported ++ message.markerEpoch?.toList) finished := by
  have hdelivered := h.delivered (by simp [hphase])
  have hready := h.streaming.ready_nil (by simp [hphase])
    (by simp [hphase]) (by simp [hphase])
  have hall : reported ++ message.markerEpoch?.toList ++
      markerEpochs rest = streamEpochs x.flushed := by
    rw [← hdelivered, hphase, List.append_assoc]
    exact congrArg _ (markerEpochs_cons message rest).symm
  refine ⟨h.streaming.of_phase fun _ _ _ => hready,
    fun _ => hall, ⟨_, hall⟩, ?_⟩
  simpa [hphase] using h.finished

theorem Reported.of_acked
    {input : List (Item ρ)} {x : WriteStream ρ}
    {reported : List CheckpointEpoch} {finished : Prop} {rows total : ℕ}
    (h : Reported destination input x reported finished)
    (hphase : x.phase = .acking [] rows total) {phase : Phase}
    (hnext : phase = .returned ∨ phase = .reading) :
    Reported destination input { x with phase := phase } reported
      finished := by
  have hready := h.streaming.ready_nil (by simp [hphase])
    (by simp [hphase]) (by simp [hphase])
  refine h.of_eq (h.streaming.of_phase fun _ _ _ => hready) rfl
    (by simp [hphase]) ?_ ?_
  · intro _
    rcases hnext with rfl | rfl
    · simp [hphase, Phase.unreported]
    · simp [hphase, Phase.unreported]
  · rcases hnext with rfl | rfl
    · simp [hphase]
    · simp [hphase]

/-- What the flushed batches of a stream carry increases with its input. -/
theorem pairwise_flushed
    {input : List (Item ρ)} {x : WriteStream ρ}
    (hx : Streaming destination input x)
    (hinput : (streamEpochs (batches input)).Pairwise (· < ·)) :
    (streamEpochs x.flushed).Pairwise (· < ·) := by
  rw [← hx.taken] at hinput
  simp only [batches_append, batches_map_ok, streamEpochs_append,
    List.append_assoc] at hinput
  exact (List.pairwise_append.mp hinput).1

/-- A stream reports an epoch at the gate. -/
theorem Simulates.report
    (h : Simulates settings inputs s g)
    (hinputs : ∀ i, (streamEpochs (batches (inputs i))).Pairwise (· < ·))
    {i : Fin N} {epoch : CheckpointEpoch} {createdAtMs : ℕ} (nowMs : ℕ)
    {rest : List CheckpointMessage} {rows total : ℕ}
    (hphase : (s.streams i).phase =
      .acking (.marker epoch createdAtMs :: rest) rows total) :
    ∃ g', GateRun.step settings.sinkId g (.report i epoch nowMs) =
        some g' ∧
      Simulates settings inputs
        { s.withStream i
            { s.streams i with phase := .acking rest rows total } with
          gates :=
            (reportMarkerAtSink s.gates settings.sinkId epoch nowMs).1
          acks := s.acks ++
            if (reportMarkerAtSink s.gates settings.sinkId epoch nowMs).2
            then [epoch] else [] } g' := by
  have hacked := (h.reported i).acking hphase
  have hguard : i ∉ g.finished ∧ ∀ d ∈ g.delivered i, d < epoch := by
    refine ⟨?_, ?_⟩
    · rw [h.finished i]
      simp [hphase]
    · have hsorted := (pairwise_flushed (h.streaming i) (hinputs i)).sublist
        hacked.flushed.sublist
      intro d hd
      exact (List.pairwise_append.mp hsorted).2.2 d hd epoch (by
        simp [CheckpointMessage.markerEpoch?])
  refine ⟨GateRun.afterReport settings.sinkId g i epoch nowMs,
    if_pos hguard, ?_⟩
  refine simulates_of_reported ?_ ?_ ?_
  · simp [GateRun.afterReport, h.gates]
  · have hacks := h.acks
    simp only [GateRun.releasedEpochs, GateRun.afterReport,
      List.map_append, h.gates] at hacks ⊢
    rw [hacks]
    split
    · rfl
    · rfl
  · intro j
    by_cases hj : j = i
    · subst hj
      simpa [GateRun.afterReport, AlignerRun.deliverEpoch,
        CheckpointMessage.markerEpoch?] using hacked
    · simpa [GateRun.afterReport, AlignerRun.deliverEpoch, hj,
        withStream_of_ne s _ hj] using h.reported j

/-- A joined write releases the share of its stream. -/
theorem Simulates.join
    (h : Simulates settings inputs s g) {i : Fin N} (nowMs : ℕ)
    (hphase : (s.streams i).phase = .returned) :
    ∃ g', GateRun.step settings.sinkId g
        (.done i (s.streams i).lastMarker nowMs) = some g' ∧
      Simulates settings inputs
        { s.withStream i { s.streams i with phase := .joined } with
          gates := (sinkStreamDone s.gates settings.sinkId
            (s.streams i).lastMarker nowMs).1
          acks := s.acks ++ (sinkStreamDone s.gates settings.sinkId
            (s.streams i).lastMarker nowMs).2
          totalCount := s.totalCount + (s.streams i).rowCount } g' := by
  have hstream := h.reported i
  have hready := hstream.streaming.ready_nil (by simp [hphase])
    (by simp [hphase]) (by simp [hphase])
  have hreported : g.delivered i = streamEpochs (s.streams i).flushed := by
    have hdelivered := hstream.delivered (by simp [hphase])
    simpa [hphase, Phase.unreported] using hdelivered
  have hlast : (s.streams i).lastMarker = (g.delivered i).max? := by
    rw [hstream.streaming.lastMarker, hready, hreported]
    simp [batches]
  have hguard : i ∉ g.finished ∧
      (s.streams i).lastMarker = (g.delivered i).max? := by
    refine ⟨?_, hlast⟩
    rw [h.finished i]
    simp [hphase]
  refine ⟨GateRun.afterDone settings.sinkId g i (s.streams i).lastMarker
    nowMs, if_pos hguard, ?_⟩
  refine simulates_of_reported ?_ ?_ ?_
  · simp [GateRun.afterDone, h.gates]
  · have hacks := h.acks
    simp only [GateRun.releasedEpochs, GateRun.afterDone,
      List.map_append, h.gates, List.map_map] at hacks ⊢
    rw [hacks]
    simp [Function.comp_def]
  · intro j
    by_cases hj : j = i
    · subst hj
      simp only [withStream_self, GateRun.afterDone,
        Finset.mem_insert_self]
      refine ⟨hstream.streaming.of_phase fun _ _ _ => hready, ?_,
        hstream.flushed, by simp⟩
      intro _
      simp [Phase.unreported, hreported]
    · simpa [GateRun.afterDone, hj, withStream_of_ne s _ hj] using
        h.reported j

/-- Every step of the executor is matched by at most one call on the
gate. -/
theorem Simulates.step
    [DecidableEq ρ] {s' : SinkExec ρ N}
    (h : Simulates settings inputs s g)
    (hinputs : ∀ i, (streamEpochs (batches (inputs i))).Pairwise (· < ·))
    (hstep : Stepped settings s s') :
    ∃ calls g', Transition.run (GateRun.step settings.sinkId) g calls =
        some g' ∧ Simulates settings inputs s' g' := by
  cases hstep with
  | stream i x' hlocal =>
      exact ⟨[], g, rfl,
        h.withStream ((h.reported i).step_local hlocal) s.received⟩
  | wrote i stream receipt hphase hready hreceipt total htotal =>
      exact ⟨[], g, rfl, h.withStream
        ((h.reported i).wrote hphase hready hreceipt total) total⟩
  | writeFailed i rows counted x' hfails =>
      exact ⟨[], g, rfl,
        h.withStream ((h.reported i).fails hfails) (s.received + counted)⟩
  | skipped i message rest rows total hphase hmessage =>
      have hacked := (h.reported i).acking hphase
      rw [hmessage, Option.toList_none, List.append_nil] at hacked
      exact ⟨[], g, rfl, h.withStream hacked s.received⟩
  | reported i epoch createdAtMs nowMs rest rows total hphase =>
      obtain ⟨g', hg', hsim⟩ := h.report hinputs nowMs hphase
      exact ⟨[.report i epoch nowMs], g',
        Transition.run_cons_eq_some.mpr ⟨g', hg', rfl⟩, hsim⟩
  | proceeded i rows total hphase =>
      refine ⟨[], g, rfl,
        h.withStream ((h.reported i).of_acked hphase ?_) _⟩
      split
      · exact Or.inl rfl
      · exact Or.inr rfl
  | joined i nowMs houtcome hphase =>
      obtain ⟨g', hg', hsim⟩ := h.join nowMs hphase
      exact ⟨[.done i (s.streams i).lastMarker nowMs], g',
        Transition.run_cons_eq_some.mpr ⟨g', hg', rfl⟩, hsim⟩
  | failed houtcome =>
      exact ⟨[], g, rfl, simulates_of_reported h.gates h.acks h.reported⟩
  | completed houtcome hjoined =>
      exact ⟨[], g, rfl, simulates_of_reported h.gates h.acks h.reported⟩
  | other call gates hcall =>
      exact ⟨[call], { g with gates := gates },
        Transition.run_cons_eq_some.mpr ⟨_, hcall g h.gates, rfl⟩,
        simulates_of_reported rfl h.acks h.reported⟩

end Simulation

end SinkExec

end ParallelSink

end Streamling
