import Streamling.Sources.KafkaCommit
import Streamling.Sources.Hybrid

/-!
# The checkpoint cut of the hybrid source

A sink acknowledges an epoch at the first marker it receives, which may be
the hybrid source's copy, while the position committed for the epoch belongs
to the copy of the inner source.  The cut survives exactly as long as no rows
lie between the two.
-/

namespace Streamling

namespace Kafka

namespace SourceRun

/-! ## What the inner source adds -/

theorem Stepped.built_isPrefix
    {s s' : SourceRun} (h : Stepped s s') : s.built <+: s'.built := by
  cases h with
  | closes | flushes => exact List.prefix_append _ _
  | marks batch epoch createdAtMs rest positionOk =>
      cases positionOk <;> exact List.prefix_refl _
  | terminates terminal createdAtMs positionOk =>
      cases positionOk <;> exact List.prefix_refl _
  | _ => exact List.prefix_refl _

theorem Stepped.sent_isPrefix
    {s s' : SourceRun} (h : Stepped s s') : s.sent <+: s'.sent := by
  cases h with
  | sends => exact List.prefix_append _ _
  | flushes =>
      simp only
      split
      · exact List.prefix_refl _
      · exact List.prefix_append _ _
  | marks batch epoch createdAtMs rest positionOk =>
      cases positionOk <;> exact List.prefix_refl _
  | terminates terminal createdAtMs positionOk =>
      cases positionOk <;> exact List.prefix_refl _
  | _ => exact List.prefix_refl _

/-- A step records at most one position, after all batches closed so far. -/
theorem mem_recordings_of_step
    {s s' : SourceRun} {action : Action} (h : s.step action = some s')
    {recording : Recording} (hmem : recording ∈ s'.recordings) :
    recording ∈ s.recordings ∨
      s.records action = some recording.epoch ∧
        recording.closed = s.built.length := by
  cases offsetsStep_of_step h with
  | keeps hfinalizes hoffsets hrecordings =>
      exact .inl (hrecordings ▸ hmem)
  | finalizes epoch outcome hfinalizes hoffsets hrecordings =>
      exact .inl (hrecordings ▸ hmem)
  | records epoch hfinalizes hoffsets hrecords hrecordings =>
      rw [hrecordings] at hmem
      rcases List.mem_append.mp hmem with hmem | hmem
      · exact .inl hmem
      · obtain rfl := List.mem_singleton.mp hmem
        exact .inr ⟨hrecords, rfl⟩

/-- A recorded position covers only messages of the batches closed before. -/
theorem Inv.mem_of_covers
    {s : SourceRun} (hs : Inv s) {recording : Recording}
    (hrecording : recording ∈ s.recordings) {message : Message}
    (hmessage : message ∈ s.consumed)
    (hcovers : covers recording.position message) :
    message ∈ batchRows (s.built.take recording.closed) := by
  rw [(hs.recorded.position recording hrecording).2] at hcovers
  obtain ⟨back, hback⟩ :
      batchRows (s.built.take recording.closed) <+: s.consumed := by
    refine List.IsPrefix.trans ?_ hs.batched.rows
    nth_rewrite 2 [← List.take_append_drop recording.closed s.built]
    rw [batchRows_append]
    exact List.prefix_append _ _
  have hdelivered := hs.consuming.delivered
  have hassigned := hs.consuming.assigned
  rw [← hback] at hmessage hdelivered hassigned
  exact (covers_positionAfter_iff hdelivered hassigned hmessage).mp hcovers

end SourceRun

end Kafka

namespace Hybrid

open Kafka (Message batchRows covers)

/-! ## Merging -/

theorem dedup_sublist
    (seenMarker seenFinalizer : List CheckpointEpoch)
    (messages : List CheckpointMessage) :
    (dedup seenMarker seenFinalizer messages).Sublist messages := by
  induction messages generalizing seenMarker seenFinalizer with
  | nil => exact List.Sublist.refl _
  | cons message rest ih =>
      cases message with
      | marker epoch createdAtMs =>
          simp only [dedup]
          split
          · exact (ih _ _).cons _
          · exact (ih _ _).cons_cons _
      | finalizer epoch =>
          simp only [dedup]
          split
          · exact (ih _ _).cons _
          · exact (ih _ _).cons_cons _
      | ack | sourceComplete => exact (ih _ _).cons_cons _

theorem mem_markerEpochs_of_dedup
    {seenMarker seenFinalizer : List CheckpointEpoch}
    {messages : List CheckpointMessage} {epoch : CheckpointEpoch}
    (h : epoch ∈
      markerEpochs (dedup seenMarker seenFinalizer messages)) :
    epoch ∈ markerEpochs messages :=
  ((dedup_sublist _ _ _).filterMap _).subset h

@[simp] theorem rows_mergePendingMarkers
    (batch : RecordBatch Message) (drained : List CheckpointMessage) :
    (mergePendingMarkers batch drained).rows = batch.rows := by
  simp only [mergePendingMarkers]
  split <;> rfl

/-- The markers of a merged batch are those of the inner source and those of
the buffer. -/
theorem mem_markerEpochs_of_merge
    {batch : RecordBatch Message} {drained : List CheckpointMessage}
    {epoch : CheckpointEpoch}
    (h : epoch ∈
      markerEpochs (mergePendingMarkers batch drained).messages) :
    epoch ∈ markerEpochs batch.messages ∨ epoch ∈ markerEpochs drained := by
  simp only [mergePendingMarkers] at h
  split at h
  · exact .inl h
  · simpa [markerEpochs_append] using mem_markerEpochs_of_dedup h

theorem eq_of_synthBatch
    {drained : List CheckpointMessage} {batch : RecordBatch Message}
    (h : synthBatch drained = some batch) :
    batch = ⟨[], dedup [] [] drained⟩ := by
  simp only [synthBatch] at h
  split at h
  · exact absurd h (by simp)
  · exact (Option.some.inj h).symm

theorem take_eq_of_isPrefix
    {α : Type*} {xs ys : List α} {n : ℕ} (h : xs <+: ys)
    (hn : n ≤ xs.length) : ys.take n = xs.take n := by
  obtain ⟨zs, rfl⟩ := h
  exact List.take_append_of_le_length hn

theorem getElem?_of_isPrefix
    {α : Type*} {xs ys : List α} {n : ℕ} {x : α} (h : xs <+: ys)
    (hx : xs[n]? = some x) : ys[n]? = some x := by
  obtain ⟨zs, rfl⟩ := h
  obtain ⟨hn, -⟩ := List.getElem?_eq_some_iff.mp hx
  rw [List.getElem?_append_left hn]
  exact hx

namespace SourceRun

/-! ## The invariant -/

/-- The batches emitted, and the one on its way. -/
def out (s : SourceRun) : List (RecordBatch Message) :=
  s.emitted ++ s.outgoing.toList

structure Inv (s : SourceRun) : Prop where
  kafka : s.kafka.Inv
  committing : s.kafka.Committing
  forwarded : s.forwarded ≤ s.kafka.sent.length
  merging : ∀ batch ∈ s.merging, s.stage = .streaming ∧
    s.outgoing = none ∧ s.kafka.sent[s.forwarded]? = some batch
  rows : s.stage ≠ .done →
    batchRows s.out = batchRows (s.kafka.built.take s.forwarded)
  /-- The first copy of a marker goes out with the rows of the inner batches
  merged when it was attached. -/
  attached : ∀ epoch front batch rest, s.out = front ++ batch :: rest →
    batch.carries epoch = true → ¬ RecordBatch.Carried epoch front →
      ∃ merged, (epoch, merged) ∈ s.attachedAt ∧
        merged ≤ s.kafka.built.length ∧
        batchRows (front ++ [batch]) =
          batchRows (s.kafka.built.take merged)
  ahead : ∀ attached ∈ s.attachedAt, s.NoRowsAhead attached.1 attached.2

theorem inv_start (config : SourceConfig) : Inv (start config) where
  kafka := Kafka.SourceRun.inv_start _
  committing := Kafka.SourceRun.committing_start _
  forwarded := le_rfl
  merging := by simp [start]
  rows := fun _ => rfl
  attached := by simp [start, out]
  ahead := by simp [start]

/-- Steps of the main task that put no batch on its way. -/
theorem Inv.of_eq
    {s s' : SourceRun} (hs : Inv s) (hkafka : s'.kafka = s.kafka)
    (hforwarded : s'.forwarded = s.forwarded)
    (hmerging : ∀ batch ∈ s'.merging, s'.stage = .streaming ∧
      s'.outgoing = none ∧ s.kafka.sent[s.forwarded]? = some batch)
    (hstage : s'.stage ≠ .done → s.stage ≠ .done) (hout : s'.out = s.out)
    (hattached : s'.attachedAt = s.attachedAt) : Inv s' where
  kafka := hkafka ▸ hs.kafka
  committing := hkafka ▸ hs.committing
  forwarded := by
    rw [hkafka, hforwarded]
    exact hs.forwarded
  merging := by
    rw [hkafka, hforwarded]
    exact hmerging
  rows := by
    rw [hkafka, hforwarded, hout]
    exact fun h => hs.rows (hstage h)
  attached := by
    rw [hkafka, hout, hattached]
    exact hs.attached
  ahead := by
    simp only [NoRowsAhead, hkafka, hattached]
    exact hs.ahead

/-- The inner source takes a step. -/
theorem Inv.inner
    {s s' : SourceRun} (hs : Inv s) {action : Kafka.SourceRun.Action}
    (hstep : s.kafka.step action = some s'.kafka)
    (hbetween : ∀ epoch ∈ s.kafka.records action,
      ∀ attached ∈ s.attachedAt, attached.1 = epoch →
        batchRows (s.kafka.built.drop attached.2) = [])
    (hforwarded : s'.forwarded = s.forwarded)
    (hmerging : s'.merging = s.merging) (hstage : s'.stage = s.stage)
    (hemitted : s'.emitted = s.emitted) (hout : s'.outgoing = s.outgoing)
    (hattached : s'.attachedAt = s.attachedAt) : Inv s' := by
  have hstepped := Kafka.SourceRun.stepped_of_step hstep
  have hbuilt := hstepped.built_isPrefix
  have hsent := hstepped.sent_isPrefix
  have hmore := hs.kafka.batched.sent.length_le
  have hforwardedLe := hs.forwarded
  refine ⟨Kafka.SourceRun.inv_step _ _ _ hs.kafka hstep,
    hs.committing.step hs.kafka.consuming hstep, ?_, ?_, ?_, ?_, ?_⟩
  · rw [hforwarded]
    exact le_trans hs.forwarded hsent.length_le
  · intro batch hbatch
    rw [hmerging] at hbatch
    obtain ⟨hstreaming, hnone, hget⟩ := hs.merging batch hbatch
    rw [hstage, hout, hforwarded]
    exact ⟨hstreaming, hnone, getElem?_of_isPrefix hsent hget⟩
  · rw [hstage, out, hemitted, hout, hforwarded,
      take_eq_of_isPrefix hbuilt (by omega)]
    exact hs.rows
  · rw [out, hemitted, hout, hattached]
    intro epoch front batch rest hsplit hcarries hfirst
    obtain ⟨merged, hmem, hle, hrows⟩ :=
      hs.attached epoch front batch rest hsplit hcarries hfirst
    refine ⟨merged, hmem, le_trans hle hbuilt.length_le, ?_⟩
    rw [take_eq_of_isPrefix hbuilt hle]
    exact hrows
  · rw [hattached]
    intro attached hmem recording hrecording hepoch
    rcases Kafka.SourceRun.mem_recordings_of_step hstep hrecording with
      hold | ⟨hrecords, hclosed⟩
    · rw [take_eq_of_isPrefix hbuilt (hs.kafka.recorded.position _ hold).1]
      exact hs.ahead attached hmem recording hold hepoch
    · rw [hclosed, take_eq_of_isPrefix hbuilt le_rfl, List.take_length]
      exact hbetween recording.epoch hrecords attached hmem hepoch.symm

/-- A batch is put on its way. -/
theorem Inv.put
    {s s' : SourceRun} (hs : Inv s) (hnone : s.outgoing = none)
    (hstage : s.stage ≠ .done) {batch : RecordBatch Message} {merged : ℕ}
    (hmerged : merged ≤ s.kafka.sent.length)
    (hrows : batchRows (s.kafka.built.take merged) =
      batchRows (s.kafka.built.take s.forwarded) ++ batch.rows)
    (hahead : ∀ epoch ∈ markerEpochs batch.messages,
      ¬ RecordBatch.Carried epoch s.emitted → s.NoRowsAhead epoch merged)
    (hkafka : s'.kafka = s.kafka) (hforwarded : s'.forwarded = merged)
    (hmerging : s'.merging = none) (hemitted : s'.emitted = s.emitted)
    (hout : s'.outgoing = some batch)
    (hattached : s'.attachedAt = s.attachedAt ++
      ((markerEpochs batch.messages).filter fun epoch =>
        !decide (RecordBatch.Carried epoch s.emitted)).map
          fun epoch => (epoch, merged)) : Inv s' := by
  have hold : s.out = s.emitted := by simp [out, hnone]
  have hnew : s'.out = s.emitted ++ [batch] := by simp [out, hemitted, hout]
  have hrowsOut := hs.rows hstage
  rw [hold] at hrowsOut
  have hmore := hs.kafka.batched.sent.length_le
  refine ⟨hkafka ▸ hs.kafka, hkafka ▸ hs.committing, ?_, by simp [hmerging],
    fun _ => ?_, ?_, ?_⟩
  · rw [hkafka, hforwarded]
    exact hmerged
  · rw [hnew, hkafka, hforwarded, hrows, ← hrowsOut]
    simp
  · rw [hnew, hkafka, hattached]
    intro epoch front b rest hsplit hcarries hfirst
    rcases append_singleton_eq_append_cons hsplit with
      ⟨rfl, rfl, -⟩ | ⟨rest', -, hbefore⟩
    · refine ⟨merged, List.mem_append_right _ ?_, by omega, ?_⟩
      · refine List.mem_map.mpr ⟨epoch, List.mem_filter.mpr ⟨?_, ?_⟩, rfl⟩
        · simpa [RecordBatch.carries] using hcarries
        · simpa using hfirst
      · rw [hrows, ← hrowsOut]
        simp
    · obtain ⟨k, hmem, hk, hrows⟩ := hs.attached epoch front b rest'
        (hold.trans hbefore) hcarries hfirst
      exact ⟨k, List.mem_append_left _ hmem, hk, hrows⟩
  · rw [hattached]
    intro attached hmem
    rw [NoRowsAhead, hkafka]
    rcases List.mem_append.mp hmem with hmem | hmem
    · exact hs.ahead attached hmem
    · obtain ⟨epoch, hepoch, rfl⟩ := List.mem_map.mp hmem
      obtain ⟨hcarried, hfirst⟩ := List.mem_filter.mp hepoch
      exact hahead epoch hcarried (by simpa using hfirst)

/-- The inner source's own copy of a marker is not ahead of anything. -/
theorem Inv.noRowsAhead_of_inner
    {s : SourceRun} (hs : Inv s) {batch : RecordBatch Message}
    (hget : s.kafka.sent[s.forwarded]? = some batch)
    {epoch : CheckpointEpoch} (hepoch : epoch ∈ markerEpochs batch.messages) :
    s.NoRowsAhead epoch (s.forwarded + 1) := by
  intro recording hrecording hsame
  have hbuilt := getElem?_of_isPrefix hs.kafka.batched.sent hget
  obtain ⟨hlt, hbatch⟩ := List.getElem?_eq_some_iff.mp hbuilt
  have hsplit : s.kafka.built = s.kafka.built.take s.forwarded ++
      batch :: s.kafka.built.drop (s.forwarded + 1) := by
    rw [← hbatch, ← List.drop_eq_getElem_cons hlt, List.take_append_drop]
  have hclosed := hs.kafka.recorded.carried recording hrecording _ batch _
    hsplit (by simpa [RecordBatch.carries, hsame] using hepoch)
  rw [List.length_take, min_eq_left hlt.le] at hclosed
  rw [List.drop_eq_nil_of_le (by simp [hclosed]), Kafka.batchRows_nil]

theorem Inv.merge
    {s s' : SourceRun} {succeeds : Bool} (hs : Inv s)
    (hbetween : s.NoRowsBetween (.merge succeeds))
    (h : s.merge succeeds = some s') : Inv s' := by
  simp only [SourceRun.merge] at h
  split at h
  case h_1 batch hmerging hnone =>
      obtain ⟨hstage, -, hget⟩ := hs.merging batch hmerging
      have hstage : s.stage ≠ .done := by simp [hstage]
      obtain ⟨hlt, -⟩ := List.getElem?_eq_some_iff.mp hget
      have hrows : batchRows (s.kafka.built.take (s.forwarded + 1)) =
          batchRows (s.kafka.built.take s.forwarded) ++ batch.rows := by
        rw [List.take_add_one,
          getElem?_of_isPrefix hs.kafka.batched.sent hget]
        simp
      split at h
      case isTrue hsucceeds =>
          subst hsucceeds
          obtain rfl := Option.some.inj h
          refine hs.put hnone hstage hlt (by simpa using hrows) ?_ rfl rfl rfl
            rfl rfl rfl
          intro epoch hepoch hfirst
          rcases mem_markerEpochs_of_merge hepoch with hinner | hpending
          · exact hs.noRowsAhead_of_inner hget hinner
          · exact hbetween epoch hpending hfirst
      case isFalse =>
          obtain rfl := Option.some.inj h
          exact hs.put hnone hstage hlt hrows
            (fun epoch hepoch _ => hs.noRowsAhead_of_inner hget hepoch) rfl
            rfl rfl rfl rfl rfl
  case h_2 => exact absurd h (by simp)

theorem Inv.flush
    {s s' : SourceRun} (hs : Inv s) (hbetween : s.NoRowsBetween .flush)
    (h : s.flush = some s') : Inv s' := by
  simp only [SourceRun.flush] at h
  split at h
  case h_1 stage hnone hafter =>
      have hstage : s.stage ≠ .streaming ∧ s.stage ≠ .done := by
        constructor <;> intro heq <;> simp [afterFlush, heq] at hafter
      have hmerging : s.merging = none := by
        refine Option.eq_none_iff_forall_ne_some.mpr fun batch heq => ?_
        exact hstage.1 (hs.merging batch heq).1
      split at h
      case h_1 =>
          obtain rfl := Option.some.inj h
          exact hs.of_eq rfl rfl (by simp [hmerging]) (fun _ => hstage.2) rfl
            rfl
      case h_2 batch hsynth =>
          obtain rfl := Option.some.inj h
          obtain rfl := eq_of_synthBatch hsynth
          refine hs.put hnone hstage.2 hs.forwarded (by simp) ?_ rfl rfl
            hmerging rfl rfl rfl
          exact fun epoch hepoch =>
            hbetween epoch (mem_markerEpochs_of_dedup hepoch)
  case h_2 => exact absurd h (by simp)

theorem Inv.emit
    {s s' : SourceRun} {received : Bool} (hs : Inv s)
    (h : s.emit received = some s') : Inv s' := by
  simp only [SourceRun.emit] at h
  split at h
  case h_1 batch hout =>
      have hmerging : s.merging = none := by
        refine Option.eq_none_iff_forall_ne_some.mpr fun batch heq => ?_
        have := (hs.merging batch heq).2.1
        simp [hout] at this
      split at h
      · obtain rfl := Option.some.inj h
        exact hs.of_eq rfl rfl (by simp [hmerging]) id (by simp [out, hout])
          rfl
      · obtain rfl := Option.some.inj h
        refine
          { hs with
            merging := by simp [hmerging]
            rows := by simp
            attached := ?_ }
        intro epoch front b rest hsplit
        refine hs.attached epoch front b (rest ++ [batch]) ?_
        simp only [out, Option.toList_none, List.append_nil] at hsplit
        simp [out, hout, hsplit]
  case h_2 => exact absurd h (by simp)

/-- Every step that satisfies the condition preserves the invariant. -/
theorem Inv.step
    {s s' : SourceRun} {action : Action} (hs : Inv s)
    (hbetween : s.NoRowsBetween action) (h : s.step action = some s') :
    Inv s' := by
  cases action with
  | broadcast message =>
      simp only [SourceRun.step, SourceRun.broadcast] at h
      split at h
      · exact absurd h (by simp)
      · obtain ⟨kafka, hkafka, rfl⟩ := Option.map_eq_some_iff.mp h
        exact hs.inner hkafka (by simp [Kafka.SourceRun.records]) rfl rfl rfl
          rfl rfl rfl
  | inner action =>
      simp only [SourceRun.step, innerStep] at h
      split at h
      · obtain ⟨kafka, hkafka, rfl⟩ := Option.map_eq_some_iff.mp h
        exact hs.inner hkafka hbetween rfl rfl rfl rfl rfl rfl
      · exact absurd h (by simp)
  | forward =>
      simp only [SourceRun.step, forward] at h
      split at h
      · exact absurd h (by simp)
      · obtain rfl := Option.some.inj h
        exact hs.of_eq rfl rfl hs.merging id rfl rfl
  | takeBatch =>
      simp only [SourceRun.step, takeBatch] at h
      split at h
      case h_1 batch hstage hmerging hout hget =>
          obtain rfl := Option.some.inj h
          refine hs.of_eq rfl rfl ?_ id rfl rfl
          simpa [hstage, hout] using hget
      case h_2 => exact absurd h (by simp)
  | normalizeFails =>
      simp only [SourceRun.step, normalizeFails] at h
      split at h
      case h_1 batch hmerging =>
          obtain rfl := Option.some.inj h
          have hstage := (hs.merging batch hmerging).1
          exact hs.of_eq rfl rfl (by simp) (by simp [hstage]) rfl rfl
      case h_2 => exact absurd h (by simp)
  | merge succeeds => exact hs.merge hbetween h
  | emit received => exact hs.emit h
  | innerEnds =>
      simp only [SourceRun.step, innerEnds] at h
      split at h
      case h_1 hstage hmerging hout hget =>
          split at h
          · obtain rfl := Option.some.inj h
            exact hs.of_eq rfl rfl (by simp [hmerging]) (by simp [hstage])
              rfl rfl
          · obtain rfl := Option.some.inj h
            exact hs.of_eq rfl rfl (by simp [hmerging]) (by simp [hstage])
              rfl rfl
          · exact absurd h (by simp)
      case h_2 => exact absurd h (by simp)
  | flush => exact hs.flush hbetween h
  | beginTerminal terminal createdAtMs =>
      simp only [SourceRun.step, beginTerminal] at h
      split at h
      case h_1 hstage hout =>
          split at h
          · exact absurd h (by simp)
          · obtain rfl := Option.some.inj h
            refine hs.of_eq rfl rfl (fun batch hbatch => ?_) (by simp [hstage])
              rfl rfl
            exact absurd (hs.merging batch hbatch).1 (by simp [hstage])
      case h_2 => exact absurd h (by simp)
  | terminalEnds finalized =>
      simp only [SourceRun.step, terminalEnds] at h
      split at h
      case h_1 terminal hstage hout =>
          have hmerging (batch : RecordBatch Message)
              (hbatch : batch ∈ s.merging) : False := by
            simpa [hstage] using (hs.merging batch hbatch).1
          split at h
          · obtain rfl := Option.some.inj h
            exact hs.of_eq rfl rfl (fun b hb => (hmerging b hb).elim)
              (by simp [hstage]) rfl rfl
          · obtain rfl := Option.some.inj h
            exact hs.of_eq rfl rfl (fun b hb => (hmerging b hb).elim)
              (by simp [hstage]) rfl rfl
      case h_2 => exact absurd h (by simp)

/-! ## The cut -/

theorem Inv.receivedBefore
    {s : SourceRun} (hs : Inv s) {epoch : CheckpointEpoch}
    {position : Kafka.TopicPartitionList}
    (hmem : (epoch, position) ∈ s.kafka.recorded) :
    s.ReceivedBefore epoch (covers position) := by
  intro front batch rest hsplit hcarries hfirst message hmessage hcovers
  obtain ⟨recording, hrecording, heq⟩ := List.mem_map.mp hmem
  obtain ⟨rfl, rfl⟩ := Prod.mk.inj heq
  have hclosed := hs.kafka.mem_of_covers hrecording hmessage hcovers
  obtain ⟨merged, hattached, -, hrows⟩ := hs.attached recording.epoch front
    batch (rest ++ s.outgoing.toList) (by simp [out, hsplit]) hcarries hfirst
  have hahead := hs.ahead _ hattached recording hrecording rfl
  rw [← List.take_append_drop merged (List.take _ _), Kafka.batchRows_append,
    hahead, List.append_nil, List.take_take, min_comm, ← List.take_take]
    at hclosed
  rw [hrows]
  obtain ⟨b, hb, hrow⟩ := List.mem_flatMap.mp hclosed
  exact List.mem_flatMap.mpr ⟨b, List.mem_of_mem_take hb, hrow⟩

theorem ReceivedBefore.mono
    {s : SourceRun} {epoch : CheckpointEpoch} {p q : Message → Prop}
    (h : s.ReceivedBefore epoch p) (hpq : ∀ message, q message → p message) :
    s.ReceivedBefore epoch q :=
  fun front batch rest hsplit hcarries hfirst message hmessage hq =>
    h front batch rest hsplit hcarries hfirst message hmessage
      (hpq message hq)

theorem Inv.cutHolds {s : SourceRun} (hs : Inv s) : s.CutHolds := by
  have hcommitted (epoch : CheckpointEpoch) (entries : List (ℕ × ℕ))
      (hmem : (epoch, entries) ∈ s.kafka.offsets.brokerCommits) :
      s.ReceivedBefore epoch fun message =>
        ∃ next, (message.partition, next) ∈ entries ∧
          message.offset < next := by
    obtain ⟨-, position, hposition, rfl⟩ :=
      hs.committing.recorded.commits epoch entries hmem
    refine (hs.receivedBefore hposition).mono ?_
    rintro message ⟨next, hnext, hlt⟩
    exact ⟨next, Kafka.mem_validOffsets.mp hnext, hlt⟩
  refine ⟨fun epoch position => hs.receivedBefore, hcommitted, ?_⟩
  intro epoch partition next hmem
  obtain ⟨entries, hentries, hentry⟩ :=
    hs.committing.recorded.puts epoch _ hmem
  refine (hcommitted epoch entries hentries).mono ?_
  rintro message ⟨rfl, hlt⟩
  exact ⟨next, hentry, hlt⟩

end SourceRun

open SourceRun

/-- The checkpoint cut of the hybrid source over its Kafka phase.  In every
run in which no rows come between the hybrid source's copy of a marker and the
position recorded for it, the position recorded for an epoch, and what is
committed and persisted for it, covers only messages emitted before or with
the first marker of the epoch. -/
theorem hybrid_cut_of_no_rows_between
    {config : SourceConfig} {actions : List Action} {s : SourceRun}
    (hbetween : Transition.AllSteps step NoRowsBetween (start config) actions)
    (hrun : Transition.run step (start config) actions = some s) :
    s.CutHolds :=
  (Transition.run_invariant_of_allSteps
    (fun _ _ _ hs hP hstep => Inv.step hs hP hstep)
    (inv_start config) hbetween hrun).cutHolds

/-- One partition read from its beginning, over a channel of capacity two. -/
def onePartition : SourceConfig where
  kafka :=
    { assigned := [0]
      assigned_nodup := by decide
      batchSizeLimit := 10
      startOffset := fun _ => 0
      broker := fun _ => none
      persisted := fun _ => none
      seek := by simp
      checkpointControl := false }
  capacity := 2
  checkpointControl := true

/-- The position is recorded after the first batch, onto which the hybrid
source's copy is merged; the copy of the inner source follows on the next
one. -/
theorem hybrid_cut_of_no_rows_between_two_copies :
    ∃ s, Transition.run step (start onePartition)
        [.inner (.enterIteration false), .inner (.consume ⟨0, 0⟩),
          .inner (.closeBatch false), .broadcast (.marker 1 5),
          .inner .receive, .inner .receive,
          .inner (.processMessage true ⟨true, []⟩),
          .inner (.processMessage true ⟨true, []⟩), .inner .send, .forward,
          .takeBatch, .merge true, .emit true,
          .inner (.enterIteration false), .inner (.consume ⟨0, 1⟩),
          .inner (.closeBatch false), .broadcast (.finalizer 1),
          .inner .receive, .inner .receive,
          .inner (.processMessage true ⟨true, [⟨1, true⟩]⟩),
          .inner (.processMessage true ⟨true, []⟩), .inner .send,
          .takeBatch, .merge true, .emit true] = some s ∧
      (s.emitted = [⟨[⟨0, 0⟩], [.marker 1 5]⟩, ⟨[⟨0, 1⟩], [.marker 1 5]⟩] ∧
        s.kafka.offsets.brokerCommits = [(1, [(0, 1)])]) ∧
      s.CutHolds := by
  refine Exists.imp (fun s (h : _ ∧ _) => ⟨h.1, h.2,
    hybrid_cut_of_no_rows_between ?_ h.1⟩) (Transition.exists_run_of_decide ?_)
  · decide +kernel
  · decide +kernel

/-- The inner source has sent a batch, closed a second one and recorded the
position of the epoch after it, when the hybrid source merges its copy onto
the first: the position committed for the epoch covers the message of the
second batch, which was not emitted. -/
theorem hybrid_cut_misses_batch_in_flight :
    ∃ s, Transition.run step (start onePartition)
        [.inner (.enterIteration false), .inner (.consume ⟨0, 0⟩),
          .inner (.closeBatch false), .inner .receive,
          .inner (.processMessage true ⟨true, []⟩), .inner .send,
          .inner (.enterIteration false), .inner (.consume ⟨0, 1⟩),
          .inner (.closeBatch false), .broadcast (.marker 1 5),
          .inner .receive, .inner .receive,
          .inner (.processMessage true ⟨true, []⟩),
          .inner (.processMessage true ⟨true, []⟩), .inner .send, .forward,
          .takeBatch, .merge true, .emit true, .broadcast (.finalizer 1),
          .inner (.enterIteration false), .inner (.closeBatch false),
          .inner .receive, .inner .receive,
          .inner (.processMessage true ⟨true, [⟨1, true⟩]⟩)] = some s ∧
      s.kafka.offsets.brokerCommits = [(1, [(0, 2)])] ∧ ¬ s.CutHolds := by
  refine Exists.imp
    (fun s (h : _ ∧ s.emitted = [⟨[⟨0, 0⟩], [.marker 1 5]⟩] ∧
      (1, [(0, some 2)]) ∈ s.kafka.recorded ∧
      (⟨0, 1⟩ : Message) ∈ s.kafka.consumed ∧
      s.kafka.offsets.brokerCommits = [(1, [(0, 2)])]) =>
        ⟨h.1, h.2.2.2.2, fun hcut => ?_⟩)
    (Transition.exists_run_of_decide ?_)
  · obtain ⟨-, hemitted, hrecorded, hconsumed, -⟩ := h
    have hreceived := hcut.recorded 1 _ hrecorded [] _ [] hemitted (by decide)
      (by decide) ⟨0, 1⟩ hconsumed ⟨2, by simp, by decide⟩
    exact absurd hreceived (by decide)
  · decide +kernel

end Hybrid

end Streamling
