import Mathlib
import Streamling.Sinks.ParallelSinkSafety

/-!
# What an acknowledged epoch stands for

An epoch acknowledged for a sink has been flushed by every write stream: each
has written its batches up to the marker of the epoch, or its write succeeded
and nothing of its input was left over.  Only the record limit, at which a
sink stops early, leaves rows behind.  An executor that ends without an error
has acknowledged every epoch that any stream carried.

A row that was written has been taken in at least once, by the blackhole and
memory sinks exactly once, or it is counted as skipped.  Only the HTTP sink
that is told to skip and the ClickHouse sink without keys skip rows.
-/

namespace Streamling

namespace ParallelSink

open SinkAckGates
open PluginSink (streamEpochs)
open WriteStream (Streaming Prefetched)

variable {ρ : Type} {N : ℕ}

/-- Everything of the input up to the batch that carries the marker of the
epoch is written or skipped. -/
def FlushedThrough (input : List (Item ρ)) (x : WriteStream ρ)
    (epoch : CheckpointEpoch) : Prop :=
  ∃ front batch back,
    input = front.map Except.ok ++ Except.ok batch :: back ∧
      batch.carries epoch = true ∧
      (rowsOf (front ++ [batch]) : Multiset ρ) ≤ x.written + x.skipped

/-- The input is free of errors and written or skipped. -/
def FlushedAll (input : List (Item ρ)) (x : WriteStream ρ) : Prop :=
  input = (batches input).map Except.ok ∧
    (rowsOf (batches input) : Multiset ρ) ≤ x.written + x.skipped

/-- Nothing is written or skipped but rows of the input; a row is skipped only
by a sink that may, and never twice; and only a sink outside the process may
take in a row twice. -/
structure Accounted (settings : SinkSettings ρ) (input : List (Item ρ))
    (x : WriteStream ρ) : Prop where
  of_input : ∀ row ∈ x.written, row ∈ rowsOf (batches input)
  skipped_le : x.skipped ≤ rowsOf (batches input)
  skipped_eq_zero : settings.destination.skips = false → x.skipped = 0
  once : settings.destination.remote = false →
    x.written ≤ rowsOf (batches input)

/-- The sink has received as many records as it is to stop at. -/
def SinkExec.LimitReached (settings : SinkSettings ρ) (s : SinkExec ρ N) :
    Prop :=
  ∃ limit, settings.numRecordsBeforeStop = some limit ∧ limit ≤ s.received

theorem flushedThrough_of_mem
    {destination : Destination ρ} {input : List (Item ρ)}
    {x : WriteStream ρ} {epoch : CheckpointEpoch}
    (hx : Streaming destination input x) (h : epoch ∈ streamEpochs x.flushed) :
    FlushedThrough input x epoch := by
  obtain ⟨batch, hmem, hcarries⟩ := mem_streamEpochs.mp h
  obtain ⟨front, back, hflushed⟩ := List.append_of_mem hmem
  refine ⟨front, batch, back.map Except.ok ++ (x.ready ++ (x.channel ++
    (x.forwarding.toList ++ x.upstream))), ?_, hcarries, ?_⟩
  · rw [← hx.taken, hflushed]
    simp only [List.map_append, List.map_cons, List.append_assoc,
      List.cons_append]
  · refine le_trans ?_ hx.complete
    rw [hflushed, Multiset.coe_le]
    have hsplit : rowsOf (front ++ batch :: back) =
        rowsOf (front ++ [batch]) ++ rowsOf back := by
      rw [← rowsOf_append, List.append_assoc, List.singleton_append]
    rw [hsplit]
    exact (List.sublist_append_left _ _).subperm

theorem flushedAll_of_eq
    {destination : Destination ρ} {input : List (Item ρ)}
    {x : WriteStream ρ} (hx : Streaming destination input x)
    (h : x.flushed.map Except.ok = input) : FlushedAll input x := by
  have hbatches : batches input = x.flushed := by
    rw [← h, batches_map_ok]
  refine ⟨?_, ?_⟩
  · rw [hbatches, h]
  · rw [hbatches]
    exact hx.complete

theorem accounted_of_streaming
    {settings : SinkSettings ρ} {input : List (Item ρ)}
    {x : WriteStream ρ} (hx : Streaming settings.destination input x) :
    Accounted settings input x := by
  have hflushed : (rowsOf x.flushed : Multiset ρ) ≤
      rowsOf (batches input) := by
    obtain ⟨rest, hrest⟩ := hx.rowsOf_input
    rw [hrest, List.append_assoc, Multiset.coe_le]
    exact (List.sublist_append_left _ _).subperm
  exact ⟨hx.of_input, hx.skipped_le.trans hflushed, hx.skipped_eq_zero,
    fun hremote => (le_of_eq (hx.once hremote)).trans hflushed⟩

namespace SinkExec

/-! ## Counts -/

/-- What the executor and the sink have counted. -/
structure Counting (settings : SinkSettings ρ)
    (inputs : Fin N → List (Item ρ)) (s : SinkExec ρ N) : Prop where
  total_le : ∀ i messages rows total,
    (s.streams i).phase = .acking messages rows total → total ≤ s.received
  ended : ∀ i, (s.streams i).phase = .returned ∨
    (s.streams i).phase = .joined →
      (s.streams i).flushed.map Except.ok = inputs i ∨
        s.LimitReached settings
  totalCount : s.totalCount =
    ∑ i, if (s.streams i).phase = .joined then (s.streams i).rowCount else 0
  outcome : ∀ n, s.outcome = some (.ok n) →
    n = s.totalCount ∧ ∀ i, (s.streams i).phase = .joined

theorem counting_start
    (settings : SinkSettings ρ) (gates : SinkAckGates)
    (inputs : Fin N → List (Item ρ)) :
    Counting settings inputs (start settings gates inputs) where
  total_le := by
    intro i messages rows total h
    cases h
  ended := by
    rintro i (h | h)
    · cases h
    · cases h
  totalCount := by
    simp [start, WriteStream.start]
  outcome := by
    intro n h
    cases h

section Counting

variable {settings : SinkSettings ρ} {inputs : Fin N → List (Item ρ)}
  {s : SinkExec ρ N}

theorem LimitReached.mono
    {s' : SinkExec ρ N} (h : s.LimitReached settings)
    (hle : s.received ≤ s'.received) : s'.LimitReached settings := by
  obtain ⟨limit, hlimit, hreached⟩ := h
  exact ⟨limit, hlimit, hreached.trans hle⟩

/-- The new stream of a step keeps the counts if it is not joined by it. -/
theorem Counting.withStream
    (hs : Counting settings inputs s) {i : Fin N} {x' : WriteStream ρ}
    {received : ℕ} (hreceived : s.received ≤ received)
    (htotal : ∀ messages rows total,
      x'.phase = .acking messages rows total → total ≤ received)
    (hended : x'.phase = .returned ∨ x'.phase = .joined →
      x'.flushed.map Except.ok = inputs i ∨
        ∃ limit, settings.numRecordsBeforeStop = some limit ∧
          limit ≤ received)
    (hjoined : x'.phase = .joined ↔ (s.streams i).phase = .joined)
    (hcount : x'.phase = .joined →
      x'.rowCount = (s.streams i).rowCount) :
    Counting settings inputs
      { s.withStream i x' with received := received } where
  total_le := by
    intro j messages rows total h
    by_cases hj : j = i
    · subst hj
      exact htotal messages rows total (by simpa using h)
    · rw [withStream_of_ne s x' hj] at h
      exact (hs.total_le j messages rows total h).trans hreceived
  ended := by
    intro j h
    by_cases hj : j = i
    · subst hj
      simp only [withStream_self] at h ⊢
      exact hended h
    · rw [withStream_of_ne s x' hj] at h ⊢
      rcases hs.ended j h with hall | hlimit
      · exact Or.inl hall
      · exact Or.inr (hlimit.mono hreceived)
  totalCount := by
    change s.totalCount = _
    rw [hs.totalCount]
    refine Finset.sum_congr rfl fun j _ => ?_
    by_cases hj : j = i
    · subst hj
      simp only [withStream_self]
      by_cases hphase : (s.streams j).phase = .joined
      · rw [if_pos hphase, if_pos (hjoined.mpr hphase),
          hcount (hjoined.mpr hphase)]
      · rw [if_neg hphase, if_neg fun h => hphase (hjoined.mp h)]
    · rw [withStream_of_ne s x' hj]
  outcome := by
    intro n hn
    obtain ⟨hcountn, hall⟩ := hs.outcome n hn
    refine ⟨hcountn, ?_⟩
    intro j
    by_cases hj : j = i
    · subst hj
      simpa using hjoined.mpr (hall j)
    · rw [withStream_of_ne s x' hj]
      exact hall j

/-- A step that ends in another phase than one that counts. -/
theorem Counting.of_phase
    (hs : Counting settings inputs s) {i : Fin N} {x' : WriteStream ρ}
    (hphase : x'.phase = .reading ∨ x'.phase = .failed ∨
      x'.phase = .aborted)
    (hjoined : (s.streams i).phase ≠ .joined) (counted : ℕ) :
    Counting settings inputs
      { s.withStream i x' with received := s.received + counted } := by
  have hnot : (∀ messages rows total,
      x'.phase ≠ .acking messages rows total) ∧
      x'.phase ≠ .returned ∧ x'.phase ≠ .joined := by
    rcases hphase with hphase | hphase | hphase
    · simp [hphase]
    · simp [hphase]
    · simp [hphase]
  obtain ⟨hacking, hreturned, hnotJoined⟩ := hnot
  refine hs.withStream (Nat.le_add_right _ _) ?_ ?_ ?_ ?_
  · intro messages rows total h
    exact absurd h (hacking messages rows total)
  · rintro (h | h)
    · exact absurd h hreturned
    · exact absurd h hnotJoined
  · exact iff_of_false hnotJoined hjoined
  · exact fun h => absurd h hnotJoined

/-- A message is looked at. -/
theorem Counting.acking
    (hs : Counting settings inputs s) {i : Fin N}
    {messages : List CheckpointMessage}
    (rest : List CheckpointMessage) {rows total : ℕ}
    (hphase : (s.streams i).phase = .acking messages rows total) :
    Counting settings inputs
      (s.withStream i
        { s.streams i with phase := .acking rest rows total }) := by
  refine hs.withStream (le_refl _) ?_ ?_ ?_ ?_
  · intro messages' rows' total' h
    obtain ⟨-, -, rfl⟩ : _ ∧ _ ∧ total = total' := by simpa using h
    exact hs.total_le i _ _ _ hphase
  · intro h
    simp at h
  · simp [hphase]
  · intro h
    simp at h

theorem Counting.step_local
    [DecidableEq ρ] (hs : Counting settings inputs s) {i : Fin N}
    (hstream : Streaming settings.destination (inputs i) (s.streams i))
    {x' : WriteStream ρ}
    (hlocal : Local settings (s.streams i) x') :
    Counting settings inputs (s.withStream i x') := by
  cases hlocal with
  | prefetched hx =>
      refine hs.withStream (le_refl _) ?_ ?_ ?_ ?_
      · rw [hx.phase]
        exact hs.total_le i
      · rw [hx.phase, hx.flushed]
        exact hs.ended i
      · rw [hx.phase]
      · exact fun _ => hx.rowCount
  | took hx =>
      obtain ⟨hphase, item, rest, -, hx'⟩ := WriteStream.of_take hx
      refine hs.of_phase ?_ (by simp [hphase]) 0
      rw [hx']
      exact Or.inl hphase
  | ended hx =>
      obtain ⟨hphase, hready, hchannel, hforwarding, hupstream, rfl⟩ :=
        WriteStream.of_ends hx
      refine hs.withStream (le_refl _) ?_ ?_ ?_ ?_
      · intro messages rows total h
        cases h
      · intro _
        have htaken := hstream.taken
        rw [hready, hchannel, hforwarding, hupstream] at htaken
        exact Or.inl (by simpa using htaken)
      · simp [hphase]
      · intro h
        cases h
  | aborted rows hx =>
      obtain ⟨hphase, -, rfl⟩ := WriteStream.of_abort hx
      refine hs.of_phase (Or.inr (Or.inr rfl)) ?_ 0
      rcases hphase with hphase | ⟨messages, rows, total, hphase⟩
      · simp [hphase]
      · simp [hphase]

/-- A sink that stops has reached its limit. -/
theorem reached_afterAcks
    {received rows total : ℕ} (htotal : total ≤ received)
    (h : (settings.afterAcks received rows total).2 = true) :
    ∃ limit, settings.numRecordsBeforeStop = some limit ∧
      limit ≤ (settings.afterAcks received rows total).1 := by
  unfold SinkSettings.afterAcks at h ⊢
  cases hlimit : settings.numRecordsBeforeStop with
  | none =>
      cases hcheck : settings.destination.stopCheck with
      | countedAtWrite => simp [hcheck, SinkSettings.reached, hlimit] at h
      | loadedAfterAcks => simp [hcheck, SinkSettings.reached, hlimit] at h
      | countedAfterAcks => simp [hcheck, hlimit] at h
  | some limit =>
      refine ⟨limit, rfl, ?_⟩
      cases hcheck : settings.destination.stopCheck with
      | countedAtWrite =>
          simp only [hcheck, SinkSettings.reached, hlimit,
            Bool.and_eq_true, decide_eq_true_eq] at h
          exact h.1.trans htotal
      | loadedAfterAcks =>
          simp only [hcheck, SinkSettings.reached, hlimit,
            Bool.and_eq_true, decide_eq_true_eq] at h
          exact h.1
      | countedAfterAcks =>
          simp only [hcheck, hlimit] at h ⊢
          by_cases hrows : rows = 0
          · simp [hrows] at h
          · simpa [hrows] using h

theorem le_afterAcks (received rows total : ℕ) :
    received ≤ (settings.afterAcks received rows total).1 := by
  unfold SinkSettings.afterAcks
  split
  · exact le_refl _
  · exact le_refl _
  · split
    · split
      · exact le_refl _
      · exact Nat.le_add_right _ _
    · exact le_refl _

theorem le_receivedAtWrite (received rows : ℕ) :
    received ≤ settings.receivedAtWrite received rows := by
  unfold SinkSettings.receivedAtWrite
  split
  · exact le_refl _
  · exact Nat.le_add_right _ _

theorem Counting.join
    (hs : Counting settings inputs s) {i : Fin N} (nowMs : ℕ)
    (houtcome : s.outcome = none)
    (hphase : (s.streams i).phase = .returned) :
    Counting settings inputs
      { s.withStream i { s.streams i with phase := .joined } with
        gates := (sinkStreamDone s.gates settings.sinkId
          (s.streams i).lastMarker nowMs).1
        acks := s.acks ++ (sinkStreamDone s.gates settings.sinkId
          (s.streams i).lastMarker nowMs).2
        totalCount := s.totalCount + (s.streams i).rowCount } where
  total_le := by
    intro j messages rows total h
    by_cases hj : j = i
    · subst hj
      simp at h
    · rw [withStream_of_ne s _ hj] at h
      exact hs.total_le j messages rows total h
  ended := by
    intro j h
    by_cases hj : j = i
    · subst hj
      simp only [withStream_self]
      rcases hs.ended j (Or.inl hphase) with hall | hlimit
      · exact Or.inl hall
      · exact Or.inr (hlimit.mono (le_refl _))
    · rw [withStream_of_ne s _ hj] at h ⊢
      rcases hs.ended j h with hall | hlimit
      · exact Or.inl hall
      · exact Or.inr (hlimit.mono (le_refl _))
  totalCount := by
    change s.totalCount + (s.streams i).rowCount = _
    rw [hs.totalCount, ← Finset.add_sum_erase _ _ (Finset.mem_univ i),
      ← Finset.add_sum_erase Finset.univ
        (fun j => if ((s.withStream i
          { s.streams i with phase := .joined }).streams j).phase = .joined
          then ((s.withStream i
            { s.streams i with phase := .joined }).streams j).rowCount
          else 0) (Finset.mem_univ i)]
    have hrest : ∀ j ∈ Finset.univ.erase i,
        (if (s.streams j).phase = .joined then (s.streams j).rowCount
          else 0) =
        if ((s.withStream i
          { s.streams i with phase := .joined }).streams j).phase = .joined
          then ((s.withStream i
            { s.streams i with phase := .joined }).streams j).rowCount
          else 0 := by
      intro j hj
      rw [withStream_of_ne s _ (Finset.ne_of_mem_erase hj)]
    rw [Finset.sum_congr rfl hrest]
    simp [hphase]
    omega
  outcome := by
    intro n hn
    cases houtcome.symm.trans hn

theorem Counting.step
    [DecidableEq ρ] {s' : SinkExec ρ N} {g : GateRun N}
    (hs : Counting settings inputs s)
    (hsim : Simulates settings inputs s g)
    (hstep : Stepped settings s s') : Counting settings inputs s' := by
  cases hstep with
  | stream i x' hlocal => exact hs.step_local (hsim.streaming i) hlocal
  | wrote i stream receipt hphase hready hreceipt total htotal =>
      refine hs.withStream ?_ ?_ ?_ ?_ ?_
      · rw [htotal]
        exact le_receivedAtWrite _ _
      · intro messages rows total' h
        obtain ⟨-, -, htotal'⟩ : _ ∧ _ ∧ total = total' := by
          simpa [WriteStream.wrote] using h
        exact le_of_eq htotal'.symm
      · intro h
        simp [WriteStream.wrote] at h
      · simp [WriteStream.wrote, hphase]
      · intro h
        simp [WriteStream.wrote] at h
  | writeFailed i rows counted x' hfails =>
      obtain ⟨hphase, -, rfl⟩ := WriteStream.of_fails hfails
      exact hs.of_phase (Or.inr (Or.inl rfl)) (by simp [hphase]) counted
  | skipped i message rest rows total hphase hmessage =>
      exact hs.acking rest hphase
  | reported i epoch createdAtMs nowMs rest rows total hphase =>
      have hstream := hs.acking rest hphase
      exact ⟨hstream.total_le, hstream.ended, hstream.totalCount,
        hstream.outcome⟩
  | proceeded i rows total hphase =>
      refine hs.withStream (le_afterAcks _ _ _) ?_ ?_ ?_ ?_
      · intro messages rows' total' h
        split at h
        · cases h
        · cases h
      · intro h
        right
        apply reached_afterAcks (hs.total_le i _ _ _ hphase)
        by_contra hnot
        simp [hnot] at h
      · split
        · simp [hphase]
        · simp [hphase]
      · exact fun _ => rfl
  | joined i nowMs houtcome hphase => exact hs.join nowMs houtcome hphase
  | failed houtcome =>
      refine ⟨hs.total_le, hs.ended, hs.totalCount, ?_⟩
      intro n hn
      cases hn
  | completed houtcome hjoined =>
      refine ⟨hs.total_le, hs.ended, hs.totalCount, ?_⟩
      intro n hn
      obtain rfl := Except.ok.inj (Option.some.inj hn)
      exact ⟨rfl, hjoined⟩
  | other call gates hcall =>
      exact ⟨hs.total_le, hs.ended, hs.totalCount, hs.outcome⟩

end Counting

/-! ## Whole runs -/

/-- A state of the executor is matched by a run of the gate. -/
def Matched (settings : SinkSettings ρ) (gates : SinkAckGates)
    (inputs : Fin N → List (Item ρ)) (s : SinkExec ρ N) : Prop :=
  ∃ calls g, Transition.run (GateRun.step settings.sinkId)
      (GateRun.start N (registerSinkStreams gates settings.sinkId N)) calls =
      some g ∧
    Simulates settings inputs s g

theorem matched_start
    (settings : SinkSettings ρ) (gates : SinkAckGates)
    (inputs : Fin N → List (Item ρ)) :
    Matched settings gates inputs (start settings gates inputs) := by
  refine ⟨[], _, rfl, simulates_of_reported rfl rfl ?_⟩
  intro i
  refine ⟨WriteStream.streaming_start _ (inputs i), fun _ => rfl,
    List.nil_prefix, ?_⟩
  simp [GateRun.start, start, WriteStream.start]

theorem matched_run
    [DecidableEq ρ] {settings : SinkSettings ρ} {gates : SinkAckGates}
    {inputs : Fin N → List (Item ρ)} {actions : List (Action ρ N)}
    {s : SinkExec ρ N}
    (hinputs : ∀ i, (streamEpochs (batches (inputs i))).Pairwise (· < ·))
    (h : Transition.run (step settings) (start settings gates inputs)
      actions = some s) :
    Matched settings gates inputs s ∧ Counting settings inputs s := by
  have hstep (s : SinkExec ρ N) (action : Action ρ N) (s' : SinkExec ρ N)
      (hs : Matched settings gates inputs s ∧ Counting settings inputs s)
      (hs' : step settings s action = some s') :
      Matched settings gates inputs s' ∧
        Counting settings inputs s' := by
    obtain ⟨⟨front, g, hg, hsim⟩, hcounting⟩ := hs
    have hstepped := stepped_of_step hs'
    obtain ⟨back, g', hg', hsim'⟩ := hsim.step hinputs hstepped
    exact ⟨⟨front ++ back, g',
      Transition.run_append_eq_some.mpr ⟨g, hg, hg'⟩, hsim'⟩,
      hcounting.step hsim hstepped⟩
  exact Transition.run_invariant hstep
    ⟨matched_start settings gates inputs,
      counting_start settings gates inputs⟩ h

end SinkExec

open SinkExec

/-- Whatever the order of steps, whichever requests are repeated or refused
and whichever writes fail: an epoch is acknowledged for the sink at most once;
when it is, every stream has written or skipped its input up to the marker of
the epoch, or its write has succeeded with the whole input written or skipped,
or at the record limit; and an executor without a limit that ends without an
error has written or skipped every input, counted every row, and acknowledged
exactly the epochs of its inputs.  The blackhole and memory sinks have then
written every row exactly once. -/
theorem parallel_sink_acks_flushed
    [DecidableEq ρ] (settings : SinkSettings ρ) (gates : SinkAckGates)
    (inputs : Fin N → List (Item ρ)) (actions : List (Action ρ N))
    (s : SinkExec ρ N) (hgates : gates settings.sinkId = none)
    (hinputs : ∀ i, (streamEpochs (batches (inputs i))).Pairwise (· < ·))
    (hrun : Transition.run (step settings) (start settings gates inputs)
      actions = some s) :
    s.acks.Nodup ∧
    (∀ i, Accounted settings (inputs i) (s.streams i)) ∧
    (∀ e ∈ s.acks, ∀ i,
      FlushedThrough (inputs i) (s.streams i) e ∨
        ((s.streams i).phase = .joined ∧
          (FlushedAll (inputs i) (s.streams i) ∨
            s.LimitReached settings))) ∧
    ∀ n, s.outcome = some (.ok n) →
      settings.numRecordsBeforeStop = none →
        (∀ i, FlushedAll (inputs i) (s.streams i)) ∧
        (settings.destination.remote = false → ∀ i,
          (s.streams i).written = rowsOf (batches (inputs i))) ∧
        n = ∑ i, (rowsOf (batches (inputs i))).length ∧
        ∀ e, e ∈ s.acks ↔ ∃ i, e ∈ streamEpochs (batches (inputs i)) := by
  obtain ⟨⟨calls, g, hg, hsim⟩, hs⟩ := matched_run hinputs hrun
  obtain ⟨hnodup, hsettled⟩ := GateRun.release_barrier hgates hg
  have hkept : GateRun.Kept g :=
    Transition.run_invariant (fun _ _ _ hk h => hk.step h)
      (by simp [GateRun.Kept, GateRun.start]) hg
  rw [← hsim.acks]
  refine ⟨hnodup, fun i => accounted_of_streaming (hsim.streaming i),
    ?_, ?_⟩
  · intro e he i
    obtain ⟨rel, hrel, rfl⟩ := List.mem_map.mp he
    obtain ⟨hdelivered, hfinished⟩ := hkept rel hrel
    have hjoined : i ∈ rel.finished →
        (s.streams i).phase = .joined ∧
          (FlushedAll (inputs i) (s.streams i) ∨
            s.LimitReached settings) := by
      intro hi
      have hphase := (hsim.finished i).mp (hfinished hi)
      refine ⟨hphase, ?_⟩
      rcases hs.ended i (Or.inr hphase) with hall | hlimit
      · exact Or.inl (flushedAll_of_eq (hsim.streaming i) hall)
      · exact Or.inr hlimit
    rcases hsettled rel hrel with hall | heach
    · exact Or.inr (hjoined (hall i))
    · rcases heach i with hmem | ⟨hi, -⟩
      · exact Or.inl (flushedThrough_of_mem (hsim.streaming i)
          ((hsim.flushed i).subset (hdelivered i hmem)))
      · exact Or.inr (hjoined hi)
  · intro n hn hlimit
    obtain ⟨hcount, hjoined⟩ := hs.outcome n hn
    have hall : ∀ i, (s.streams i).flushed.map Except.ok = inputs i := by
      intro i
      refine (hs.ended i (Or.inr (hjoined i))).resolve_right ?_
      rintro ⟨limit, hsome, -⟩
      cases hlimit.symm.trans hsome
    have hflushed : ∀ i, batches (inputs i) = (s.streams i).flushed := by
      intro i
      rw [← hall i, batches_map_ok]
    refine ⟨fun i => flushedAll_of_eq (hsim.streaming i) (hall i), ?_, ?_,
      ?_⟩
    · intro hremote i
      rw [hflushed, (hsim.streaming i).once hremote]
    · rw [hcount, hs.totalCount]
      refine Finset.sum_congr rfl fun i _ => ?_
      rw [if_pos (hjoined i), (hsim.streaming i).rowCount, hflushed]
    · intro e
      rw [GateRun.mem_releasedEpochs_of_finished hgates hg
        fun i => (hsim.finished i).mpr (hjoined i)]
      refine exists_congr fun i => ?_
      have hdelivered := hsim.delivered i (by simp [hjoined i])
      rw [hflushed, ← hdelivered, hjoined i]
      simp [Phase.unreported]

/-- An HTTP sink that posts row by row and skips what is refused. -/
def webhookSettings : SinkSettings ℕ where
  sinkId := "sink"
  numRecordsBeforeStop := none
  destination := .http ⟨true, 100, true, 1⟩

/-- Two streams that carry one marker each. -/
def markedInputs : Fin 2 → List (Item ℕ) :=
  ![[.ok ⟨[1, 2], [.marker 1 10]⟩], [.ok ⟨[3], [.marker 1 10]⟩]]

/-- Row 1 arrives twice and row 2 is refused.  The first stream ends before
the second one writes. -/
def markedActions : List (Action ℕ 2) :=
  [.read 0, .forward 0, .take 0, .read 1, .write 0 [⟨[1], false⟩, ⟨[], true⟩],
    .processCheckpointAck 0 20, .forward 1, .take 1, .proceed 0,
    .ends 0, .joinNext 0 21, .write 1 [⟨[], false⟩],
    .processCheckpointAck 1 22, .proceed 1, .ends 1, .joinNext 1 23,
    .complete]

theorem parallel_sink_acks_flushed_two_streams :
    ∃ s : SinkExec ℕ 2,
      Transition.run (step webhookSettings)
        (start webhookSettings (fun _ => none) markedInputs)
        markedActions = some s ∧
      (s.acks = [1] ∧ s.outcome.bind Except.toOption = some 3 ∧
        (s.streams 0).written = {1, 1} ∧ (s.streams 0).skipped = {2}) ∧
      ∀ e ∈ s.acks, ∀ i,
        FlushedThrough (markedInputs i) (s.streams i) e ∨
          ((s.streams i).phase = .joined ∧
            (FlushedAll (markedInputs i) (s.streams i) ∨
              s.LimitReached webhookSettings)) := by
  have hend : (Transition.run (step webhookSettings)
      (start webhookSettings (fun _ => none) markedInputs)
      markedActions).map (fun s => decide (s.acks = [1] ∧
        s.outcome.bind Except.toOption = some 3 ∧
        (s.streams 0).written = {1, 1} ∧
        (s.streams 0).skipped = {2})) = some true := by
    decide
  obtain ⟨s, hs, hend⟩ := Transition.exists_run_of_decide hend
  exact ⟨s, hs, hend, (parallel_sink_acks_flushed webhookSettings
    (fun _ => none) markedInputs markedActions s rfl (by decide) hs).2.2.1⟩

end ParallelSink

end Streamling
