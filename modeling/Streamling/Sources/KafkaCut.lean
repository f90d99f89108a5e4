import Mathlib.Data.List.Induction
import Streamling.Support.Tokens
import Streamling.Sources.Kafka

/-!
# The checkpoint cut of the Kafka source

A marker is drained after a batch was closed and before it is sent, so the
position recorded for it is the position after that batch; and it rides the
next batch or the final flush.  The position therefore covers exactly the
batches sent before the one that carries the marker.
-/

namespace Streamling

namespace Kafka

/-! ## Positions -/

/-- Messages in the order in which a consumer delivers them: the offsets of
one partition increase. -/
def Delivered (messages : List Message) : Prop :=
  messages.Pairwise fun a b =>
    a.partition = b.partition → a.offset < b.offset

theorem nextOffset_append_singleton
    (messages : List Message) (m : Message) (partition : ℕ) :
    nextOffset (messages ++ [m]) partition =
      if m.partition = partition then some (m.offset + 1)
      else nextOffset messages partition := by
  by_cases h : m.partition = partition <;>
    simp [nextOffset, List.filter_append, h]

/-- The next offset is the one after the last message of the partition. -/
theorem exists_of_nextOffset
    {messages : List Message} {partition next : ℕ}
    (h : nextOffset messages partition = some next) :
    ∃ m ∈ messages, m.partition = partition ∧ next = m.offset + 1 := by
  obtain ⟨m, hlast, hnext⟩ := Option.map_eq_some_iff.mp h
  have hmem := List.mem_filter.mp (List.mem_of_getLast? hlast)
  exact ⟨m, hmem.1, by simpa using hmem.2, hnext.symm⟩

theorem Delivered.lt_nextOffset
    {messages : List Message} (hmessages : Delivered messages)
    {m : Message} (hm : m ∈ messages) :
    ∃ next, nextOffset messages m.partition = some next ∧
      m.offset < next := by
  induction messages using List.reverseRecOn with
  | nil => simp at hm
  | append_singleton messages last ih =>
      rw [nextOffset_append_singleton]
      obtain ⟨hfront, -, hlast⟩ := List.pairwise_append.mp hmessages
      rcases List.mem_append.mp hm with hm | hm
      · by_cases hpartition : last.partition = m.partition
        · have hlt := hlast m hm last (by simp) hpartition.symm
          exact ⟨last.offset + 1, by simp [hpartition], by omega⟩
        · simpa [hpartition] using ih hfront hm
      · obtain rfl := List.mem_singleton.mp hm
        exact ⟨m.offset + 1, by simp, by omega⟩

/-- The position after the first messages covers them and no later one. -/
theorem covers_positionAfter_iff
    {assigned : List ℕ} {front back : List Message}
    (hmessages : Delivered (front ++ back))
    (hassigned : ∀ m ∈ front ++ back, m.partition ∈ assigned)
    {m : Message} (hm : m ∈ front ++ back) :
    covers (positionAfter assigned front) m ↔ m ∈ front := by
  obtain ⟨hfront, -, hcross⟩ := List.pairwise_append.mp hmessages
  constructor
  · rintro ⟨next, hnext, hlt⟩
    obtain ⟨partition, -, hpartition⟩ := List.mem_map.mp hnext
    obtain ⟨rfl, hoffset⟩ := Prod.mk.inj hpartition
    obtain ⟨last, hlast, hsame, rfl⟩ := exists_of_nextOffset hoffset
    refine (List.mem_append.mp hm).resolve_right fun hback => ?_
    have := hcross last hlast m hback hsame
    omega
  · intro hmem
    obtain ⟨next, hnext, hlt⟩ := Delivered.lt_nextOffset hfront hmem
    refine ⟨next, List.mem_map.mpr ⟨m.partition, hassigned m hm, ?_⟩, hlt⟩
    rw [hnext]

theorem Delivered.nodup
    {messages : List Message} (h : Delivered messages) : messages.Nodup := by
  refine h.imp ?_
  rintro a b hlt rfl
  exact Nat.lt_irrefl _ (hlt rfl)

@[simp] theorem batchRows_nil : batchRows [] = [] := rfl

@[simp] theorem batchRows_append (xs ys : List (RecordBatch Message)) :
    batchRows (xs ++ ys) = batchRows xs ++ batchRows ys :=
  List.flatMap_append

@[simp] theorem batchRows_singleton (batch : RecordBatch Message) :
    batchRows [batch] = batch.rows := by
  simp [batchRows]

namespace SourceRun

/-! ## Consuming -/

/-- What was consumed, and where the consumer stands. -/
structure Consuming (s : SourceRun) : Prop where
  delivered : Delivered s.consumed
  assigned : ∀ m ∈ s.consumed, m.partition ∈ s.config.assigned
  fromStart : ∀ m ∈ s.consumed, s.config.startOffset m.partition ≤ m.offset
  position : s.position = nextOffset s.consumed

theorem consuming_start (config : SourceConfig) :
    Consuming (start config) where
  delivered := List.Pairwise.nil
  assigned := by simp [start]
  fromStart := by simp [start]
  position := rfl

theorem Consuming.of_eq
    {s s' : SourceRun} (hs : Consuming s) (hconfig : s'.config = s.config)
    (hposition : s'.position = s.position)
    (hconsumed : s'.consumed = s.consumed) : Consuming s' where
  delivered := by rw [hconsumed]; exact hs.delivered
  assigned := by rw [hconsumed, hconfig]; exact hs.assigned
  fromStart := by rw [hconsumed, hconfig]; exact hs.fromStart
  position := by rw [hconsumed, hposition]; exact hs.position

theorem Consuming.fetch
    {s s' : SourceRun} (hs : Consuming s) {m : Message}
    (hfetch : s.canFetch m = true) (hconfig : s'.config = s.config)
    (hposition : s'.position = (s.fetch m).position)
    (hconsumed : s'.consumed = (s.fetch m).consumed) : Consuming s' := by
  obtain ⟨hmem, hnext⟩ : m.partition ∈ s.config.assigned ∧
      (s.position m.partition).getD (s.config.startOffset m.partition) ≤
        m.offset := by
    simpa [canFetch] using hfetch
  rw [hs.position] at hnext
  refine ⟨?_, ?_, ?_, ?_⟩
  · rw [hconsumed]
    refine List.pairwise_append.mpr ⟨hs.delivered, by simp, ?_⟩
    intro a ha b hb hsame
    obtain rfl := List.mem_singleton.mp hb
    obtain ⟨next, hoffset, hlt⟩ := hs.delivered.lt_nextOffset ha
    rw [hsame] at hoffset
    simp only [hoffset, Option.getD_some] at hnext
    omega
  · rw [hconsumed, hconfig]
    intro a ha
    rcases List.mem_append.mp ha with ha | ha
    · exact hs.assigned a ha
    · obtain rfl := List.mem_singleton.mp ha
      exact hmem
  · rw [hconsumed, hconfig]
    intro a ha
    rcases List.mem_append.mp ha with ha | ha
    · exact hs.fromStart a ha
    · obtain rfl := List.mem_singleton.mp ha
      cases hoffset : nextOffset s.consumed a.partition with
      | none => simpa [hoffset] using hnext
      | some next =>
          obtain ⟨last, hlast, hsame, rfl⟩ := exists_of_nextOffset hoffset
          have hstart := hs.fromStart last hlast
          rw [hsame] at hstart
          simp only [hoffset, Option.getD_some] at hnext
          omega
  · rw [hposition, hconsumed]
    funext partition
    simp only [SourceRun.fetch, nextOffset_append_singleton, hs.position]
    by_cases h : partition = m.partition
    · simp [h]
    · simp [h, Ne.symm h]

/-! ## What a step does -/

/-- The ways in which a step changes the batches and checkpoint messages.
What becomes of the offsets is a matter of its own. -/
inductive Stepped (s : SourceRun) : SourceRun → Prop where
  | broadcasts (message : CheckpointMessage)
      (hfresh : ∀ epoch ∈ message.markerEpoch?, epoch ∉ s.minted) :
      Stepped s
        { s with
          subscription := s.subscription ++ [message]
          minted := s.minted ++ message.markerEpoch?.toList }
  | drops : Stepped s { s with receiverGone := true }
  | advances (phase : Phase) (offsets : OffsetStore)
      (hs : s.phase ≠ .failed) (hunsent : phase.unsent = s.phase.unsent)
      (hdrained : phase.drained = s.phase.drained)
      (hdecoded : phase.decoded = s.phase.decoded) :
      Stepped s { s with phase := phase, offsets := offsets }
  | consumes (rows : List Message) (message : Message)
      (hs : s.phase = .building rows) (hfetch : s.canFetch message = true) :
      Stepped s { s.fetch message with phase := .building (rows ++ [message]) }
  | failsDecoding (rows : List Message) (message : Message)
      (hs : s.phase = .building rows) (hfetch : s.canFetch message = true) :
      Stepped s { s.fetch message with phase := .failed }
  | failsConverting (rows : List Message) (hs : s.phase = .building rows) :
      Stepped s { s with phase := .failed }
  | closes (rows : List Message) (shutdown : Bool)
      (hs : s.phase = .building rows) :
      Stepped s
        { s with
          phase := .draining ⟨rows, s.checkpointMessagesBuffer⟩ []
          checkpointMessagesBuffer := []
          drainAndStop := s.drainAndStop || shutdown
          built := s.built ++ [⟨rows, s.checkpointMessagesBuffer⟩] }
  | receives (batch : RecordBatch Message)
      (messages : List CheckpointMessage) (message : CheckpointMessage)
      (rest : List CheckpointMessage) (hs : s.phase = .draining batch messages)
      (hsubscription : s.subscription = message :: rest) :
      Stepped s
        { s with
          subscription := rest
          phase := .draining batch (messages ++ [message]) }
  | processes (batch : RecordBatch Message) (message : CheckpointMessage)
      (rest : List CheckpointMessage) (offsets : OffsetStore) (failed : Bool)
      (hs : s.phase = .processing batch (message :: rest))
      (hmessage : message.markerEpoch? = none) :
      Stepped s
        { s with
          checkpointMessagesBuffer := s.checkpointMessagesBuffer ++ [message]
          offsets := offsets
          phase := if failed then .failed else .processing batch rest }
  | marks (batch : RecordBatch Message) (epoch : CheckpointEpoch)
      (createdAtMs : ℕ) (rest : List CheckpointMessage) (positionOk : Bool)
      (hs : s.phase =
        .processing batch (.marker epoch createdAtMs :: rest)) :
      Stepped s
        (recordPosition
          { s with
            checkpointMessagesBuffer := s.checkpointMessagesBuffer ++
              [.marker epoch createdAtMs]
            phase := .processing batch rest }
          epoch positionOk)
  | sends (batch : RecordBatch Message) (hs : s.phase = .sending batch)
      (hreceiver : s.receiverGone = false) :
      Stepped s { s with sent := s.sent ++ [batch], phase := .top }
  | abandons (batch : RecordBatch Message) (hs : s.phase = .sending batch)
      (hreceiver : s.receiverGone = true) :
      Stepped s { s with phase := .exited false }
  | terminates (terminal : CheckpointEpoch) (createdAtMs : ℕ)
      (positionOk : Bool) (hs : s.phase = .exited true)
      (hfresh : terminal ∉ s.minted) :
      Stepped s
        { recordPosition { s with minted := s.minted ++ [terminal] } terminal
            positionOk with
          checkpointMessagesBuffer := s.checkpointMessagesBuffer ++
            [.marker terminal createdAtMs]
          phase := .flushing (some terminal) }
  | flushes (terminal : Option CheckpointEpoch) (phase : Phase)
      (hs : s.phase = .flushing terminal)
      (hphase : phase = terminal.elim .done .awaiting) :
      Stepped s
        { s with
          checkpointMessagesBuffer := []
          built := s.built ++ [⟨[], s.checkpointMessagesBuffer⟩]
          sent := if s.receiverGone then s.sent
            else s.sent ++ [⟨[], s.checkpointMessagesBuffer⟩]
          phase := phase }

theorem eq_of_broadcast
    {s s' : SourceRun} {message : CheckpointMessage}
    (h : s.broadcast message = some s') :
    (∀ epoch ∈ message.markerEpoch?, epoch ∉ s.minted) ∧
      s' =
        { s with
          subscription := s.subscription ++ [message]
          minted := s.minted ++ message.markerEpoch?.toList } := by
  cases message with
  | marker epoch createdAtMs =>
      simp only [broadcast] at h
      split at h
      case isTrue => exact absurd h (by simp)
      case isFalse hfresh =>
          obtain rfl := Option.some.inj h
          simpa [CheckpointMessage.markerEpoch?] using hfresh
  | ack | finalizer | sourceComplete =>
      obtain rfl := Option.some.inj h
      simp [CheckpointMessage.markerEpoch?]

theorem stepped_of_processMessage
    {s s' : SourceRun} {positionOk : Bool} {outcome : CommitOutcome}
    (h : s.processMessage positionOk outcome = some s') : Stepped s s' := by
  unfold processMessage at h
  split at h
  case h_1 batch message rest hs =>
      cases message with
      | marker epoch createdAtMs =>
          obtain rfl := Option.some.inj h
          exact .marks batch epoch createdAtMs rest positionOk hs
      | finalizer epoch =>
          simp only at h
          split at h
          case h_1 offsets _ =>
              obtain rfl := Option.some.inj h
              exact .processes batch _ rest offsets true hs rfl
          case h_2 offsets _ _ _ =>
              obtain rfl := Option.some.inj h
              exact .processes batch _ rest offsets false hs rfl
      | ack | sourceComplete =>
          obtain rfl := Option.some.inj h
          exact .processes batch _ rest s.offsets false hs rfl
  case h_2 batch hs =>
      obtain rfl := Option.some.inj h
      exact .advances (.sending batch) s.offsets (by simp [hs])
        (by simp [hs, Phase.unsent]) (by simp [hs, Phase.drained])
        (by simp [hs, Phase.decoded])
  case h_3 => exact absurd h (by simp)

theorem stepped_of_enterIteration
    {s s' : SourceRun} {shutdown : Bool}
    (h : s.enterIteration shutdown = some s') : Stepped s s' := by
  unfold enterIteration at h
  split at h
  case h_1 hs =>
      obtain rfl := Option.some.inj h
      refine .advances _ s.offsets (by simp [hs]) ?_ ?_ ?_ <;>
        split <;> simp [hs, Phase.unsent, Phase.drained, Phase.decoded]
  case h_2 => exact absurd h (by simp)

theorem stepped_of_consume
    {s s' : SourceRun} {message : Message}
    (h : s.consume message = some s') : Stepped s s' := by
  unfold consume at h
  split at h
  case h_1 rows hs =>
      split at h
      case isTrue hfetch =>
          obtain rfl := Option.some.inj h
          exact .consumes rows message hs hfetch.1
      case isFalse => exact absurd h (by simp)
  case h_2 => exact absurd h (by simp)

theorem stepped_of_decodeError
    {s s' : SourceRun} {message : Message}
    (h : s.decodeError message = some s') : Stepped s s' := by
  unfold decodeError at h
  split at h
  case h_1 rows hs =>
      split at h
      case isTrue hfetch =>
          obtain rfl := Option.some.inj h
          exact .failsDecoding rows message hs hfetch
      case isFalse => exact absurd h (by simp)
  case h_2 => exact absurd h (by simp)

theorem stepped_of_convertError
    {s s' : SourceRun} (h : s.step .convertError = some s') : Stepped s s' := by
  simp only [step] at h
  split at h
  case h_1 rows hs =>
      obtain rfl := Option.some.inj h
      exact .failsConverting rows hs
  case h_2 => exact absurd h (by simp)

theorem stepped_of_closeBatch
    {s s' : SourceRun} {shutdown : Bool}
    (h : s.closeBatch shutdown = some s') : Stepped s s' := by
  unfold closeBatch at h
  split at h
  case h_1 rows hs =>
      obtain rfl := Option.some.inj h
      exact .closes rows shutdown hs
  case h_2 => exact absurd h (by simp)

theorem stepped_of_receive
    {s s' : SourceRun} (h : s.receive = some s') : Stepped s s' := by
  unfold receive at h
  split at h
  case h_1 batch messages hs =>
      split at h
      case h_1 message rest hsubscription =>
          obtain rfl := Option.some.inj h
          exact .receives batch messages message rest hs hsubscription
      case h_2 =>
          obtain rfl := Option.some.inj h
          exact .advances (.processing batch messages) s.offsets
            (by simp [hs]) (by simp [hs, Phase.unsent])
            (by simp [hs, Phase.drained]) (by simp [hs, Phase.decoded])
  case h_2 => exact absurd h (by simp)

theorem stepped_of_send
    {s s' : SourceRun} (h : s.send = some s') : Stepped s s' := by
  unfold send at h
  split at h
  case h_1 batch hs =>
      split at h
      case isTrue hreceiver =>
          obtain rfl := Option.some.inj h
          exact .abandons batch hs hreceiver
      case isFalse hreceiver =>
          obtain rfl := Option.some.inj h
          exact .sends batch hs (by simpa using hreceiver)
  case h_2 => exact absurd h (by simp)

theorem stepped_of_beginTerminal
    {s s' : SourceRun} {terminal : CheckpointEpoch} {createdAtMs : ℕ}
    {positionOk : Bool}
    (h : s.beginTerminal terminal createdAtMs positionOk = some s') :
    Stepped s s' := by
  unfold beginTerminal at h
  split at h
  case h_1 graceful hs =>
      split at h
      case isTrue hgraceful =>
          split at h
          · exact absurd h (by simp)
          case isFalse hfresh =>
              obtain rfl := Option.some.inj h
              have hgraceful : graceful = true := by simp_all
              exact .terminates terminal createdAtMs positionOk
                (hgraceful ▸ hs) hfresh
      case isFalse =>
          obtain rfl := Option.some.inj h
          exact .advances (.flushing none) s.offsets (by simp [hs])
            (by simp [hs, Phase.unsent]) (by simp [hs, Phase.drained])
            (by simp [hs, Phase.decoded])
  case h_2 => exact absurd h (by simp)

theorem stepped_of_flush
    {s s' : SourceRun} (h : s.flush = some s') : Stepped s s' := by
  unfold flush at h
  split at h
  case h_1 terminal hs =>
      split at h
      case isTrue =>
          obtain rfl := Option.some.inj h
          refine .advances _ s.offsets (by simp [hs]) ?_ ?_ ?_ <;>
            cases terminal <;>
            simp [hs, Phase.unsent, Phase.drained, Phase.decoded]
      case isFalse =>
          obtain rfl := Option.some.inj h
          exact .flushes terminal _ hs rfl
  case h_2 => exact absurd h (by simp)

theorem stepped_of_terminalFinalized
    {s s' : SourceRun} {outcome : CommitOutcome}
    (h : s.terminalFinalized outcome = some s') : Stepped s s' := by
  unfold terminalFinalized at h
  split at h
  case h_1 terminal hs =>
      obtain rfl := Option.some.inj h
      exact .advances .done _ (by simp [hs]) (by simp [hs, Phase.unsent])
        (by simp [hs, Phase.drained]) (by simp [hs, Phase.decoded])
  case h_2 => exact absurd h (by simp)

theorem stepped_of_terminalTimeout
    {s s' : SourceRun} (h : s.step .terminalTimeout = some s') :
    Stepped s s' := by
  simp only [step] at h
  split at h
  case h_1 terminal hs =>
      obtain rfl := Option.some.inj h
      exact .advances .done s.offsets (by simp [hs])
        (by simp [hs, Phase.unsent]) (by simp [hs, Phase.drained])
        (by simp [hs, Phase.decoded])
  case h_2 => exact absurd h (by simp)

theorem stepped_of_step
    {s s' : SourceRun} {action : Action} (h : s.step action = some s') :
    Stepped s s' := by
  cases action with
  | broadcast message =>
      obtain ⟨hfresh, rfl⟩ := eq_of_broadcast h
      exact .broadcasts message hfresh
  | dropReceiver =>
      obtain rfl := Option.some.inj h
      exact .drops
  | enterIteration shutdown => exact stepped_of_enterIteration h
  | consume message => exact stepped_of_consume h
  | decodeError message => exact stepped_of_decodeError h
  | convertError => exact stepped_of_convertError h
  | closeBatch shutdown => exact stepped_of_closeBatch h
  | receive => exact stepped_of_receive h
  | processMessage positionOk outcome => exact stepped_of_processMessage h
  | send => exact stepped_of_send h
  | beginTerminal terminal createdAtMs positionOk =>
      exact stepped_of_beginTerminal h
  | flush => exact stepped_of_flush h
  | terminalFinalized outcome => exact stepped_of_terminalFinalized h
  | terminalTimeout => exact stepped_of_terminalTimeout h

/-! ## Batches -/

/-- Where the consumed messages are, and which batches were sent. -/
structure Batched (s : SourceRun) : Prop where
  rows : batchRows s.built <+: s.consumed
  complete : s.phase ≠ .failed →
    batchRows s.built ++ s.phase.decoded = s.consumed
  sent : s.sent <+: s.built
  unsent : s.phase ≠ .failed → s.receiverGone = false →
    s.built = s.sent ++ s.phase.unsent

theorem batched_start (config : SourceConfig) : Batched (start config) where
  rows := List.prefix_refl _
  complete := fun _ => rfl
  sent := List.prefix_refl _
  unsent := fun _ _ => rfl

theorem Batched.of_eq
    {s s' : SourceRun} (hs : Batched s) (hbuilt : s'.built = s.built)
    (hconsumed : s'.consumed = s.consumed) (hsent : s'.sent = s.sent)
    (hphase : s'.phase ≠ .failed → s.phase ≠ .failed ∧
      s'.phase.decoded = s.phase.decoded)
    (hunsent : s'.phase ≠ .failed → s'.receiverGone = false →
      s.receiverGone = false ∧ s'.phase.unsent = s.phase.unsent) :
    Batched s' where
  rows := by
    rw [hbuilt, hconsumed]
    exact hs.rows
  complete := by
    intro h
    rw [hbuilt, hconsumed, (hphase h).2]
    exact hs.complete (hphase h).1
  sent := by
    rw [hbuilt, hsent]
    exact hs.sent
  unsent := by
    intro h hreceiver
    rw [hbuilt, hsent, (hunsent h hreceiver).2]
    exact hs.unsent (hphase h).1 (hunsent h hreceiver).1

theorem batched_step
    (s : SourceRun) (s' : SourceRun) (hs : Batched s) (h : Stepped s s') :
    Batched s' := by
  cases h with
  | broadcasts message =>
      exact hs.of_eq rfl rfl rfl (fun h => ⟨h, rfl⟩) fun _ h => ⟨h, rfl⟩
  | drops =>
      exact hs.of_eq rfl rfl rfl (fun h => ⟨h, rfl⟩) (by simp)
  | advances phase offsets hphase hunsent hdrained hdecoded =>
      exact hs.of_eq rfl rfl rfl (fun _ => ⟨hphase, hdecoded⟩)
        fun _ h => ⟨h, hunsent⟩
  | consumes rows message hphase =>
      have hcomplete := hs.complete (by simp [hphase])
      refine ⟨hs.rows.trans (List.prefix_append _ _), fun _ => ?_, hs.sent,
        fun _ hreceiver => ?_⟩
      · simp only [hphase, Phase.decoded] at hcomplete
        simp [Phase.decoded, fetch, ← hcomplete]
      · simpa [hphase, Phase.unsent, fetch] using
          hs.unsent (by simp [hphase]) hreceiver
  | failsDecoding rows message =>
      exact ⟨hs.rows.trans (List.prefix_append _ _), by simp, hs.sent,
        by simp⟩
  | failsConverting rows => exact hs.of_eq rfl rfl rfl (by simp) (by simp)
  | closes rows shutdown hphase =>
      have hcomplete := hs.complete (by simp [hphase])
      simp only [hphase, Phase.decoded] at hcomplete
      refine ⟨?_, fun _ => ?_, hs.sent.trans (List.prefix_append _ _),
        fun _ hreceiver => ?_⟩
      · simp [← hcomplete]
      · simpa [Phase.decoded] using hcomplete
      · have hunsent := hs.unsent (by simp [hphase]) hreceiver
        simpa [hphase, Phase.unsent] using hunsent
  | receives batch messages message rest hphase =>
      exact hs.of_eq rfl rfl rfl
        (fun _ => ⟨by simp [hphase], by simp [hphase, Phase.decoded]⟩)
        fun _ h => ⟨h, by simp [hphase, Phase.unsent]⟩
  | processes batch message rest offsets failed hphase =>
      cases failed
      · exact hs.of_eq rfl rfl rfl
          (fun _ => ⟨by simp [hphase], by simp [hphase, Phase.decoded]⟩)
          fun _ h => ⟨h, by simp [hphase, Phase.unsent]⟩
      · exact hs.of_eq rfl rfl rfl (by simp) (by simp)
  | marks batch epoch createdAtMs rest positionOk hphase =>
      cases positionOk <;>
        exact hs.of_eq rfl rfl rfl
          (fun _ => ⟨by simp [hphase],
            by simp [recordPosition, hphase, Phase.decoded]⟩)
          fun _ h => ⟨h, by simp [recordPosition, hphase, Phase.unsent]⟩
  | sends batch hphase hreceiver =>
      have hcomplete := hs.complete (by simp [hphase])
      have hunsent := hs.unsent (by simp [hphase]) hreceiver
      simp only [hphase, Phase.unsent, Phase.decoded] at hcomplete hunsent
      refine ⟨hs.rows, fun _ => hcomplete, ?_, fun _ _ => ?_⟩
      · simp [hunsent]
      · simpa [Phase.unsent] using hunsent
  | abandons batch hphase hreceiver =>
      exact hs.of_eq rfl rfl rfl
        (fun _ => ⟨by simp [hphase], by simp [hphase, Phase.decoded]⟩)
        (by simp [hreceiver])
  | terminates terminal createdAtMs positionOk hphase =>
      cases positionOk <;>
        exact hs.of_eq rfl rfl rfl
          (fun _ => ⟨by simp [hphase], by simp [hphase, Phase.decoded]⟩)
          fun _ h => ⟨h, by simp [hphase, Phase.unsent]⟩
  | flushes terminal phase hphase hnext =>
      have hcomplete := hs.complete (by simp [hphase])
      simp only [hphase, Phase.decoded] at hcomplete
      have hrest : phase.decoded = [] ∧ phase.unsent = [] := by
        subst hnext
        cases terminal <;> simp [Phase.decoded, Phase.unsent]
      refine ⟨by simpa using hs.rows, fun _ => ?_, ?_, fun _ hreceiver => ?_⟩
      · simpa [hrest] using hcomplete
      · by_cases hreceiver : s.receiverGone = true
        · simpa [hreceiver] using hs.sent.trans (List.prefix_append _ _)
        · have hunsent := hs.unsent (by simp [hphase])
            (by simpa using hreceiver)
          simp only [hphase, Phase.unsent, List.append_nil] at hunsent
          simp [hreceiver, hunsent]
      · have hunsent := hs.unsent (by simp [hphase]) hreceiver
        simp only [hphase, Phase.unsent, List.append_nil] at hunsent
        simp only at hreceiver
        simp [hreceiver, hunsent, hrest]

/-! ## Markers -/

/-- The checkpoint messages put on batches or buffered for the next one. -/
def placed (s : SourceRun) : List CheckpointMessage :=
  s.built.flatMap RecordBatch.messages ++ s.checkpointMessagesBuffer

/-- The marker epochs of an instance, wherever they are. -/
def epochs (s : SourceRun) : List CheckpointEpoch :=
  markerEpochs s.subscription ++ markerEpochs s.phase.drained ++
    markerEpochs s.placed

/-- A marker is in one place at a time. -/
def Distinct (s : SourceRun) : Prop :=
  Tokens.Once s.minted s.epochs

theorem distinct_start (config : SourceConfig) : Distinct (start config) :=
  Tokens.once_nil _

theorem distinct_step
    (s : SourceRun) (s' : SourceRun) (hs : Distinct s) (h : Stepped s s') :
    Distinct s' := by
  cases h with
  | broadcasts message hfresh =>
      refine hs.mint message.markerEpoch? hfresh ?_
      simp only [epochs, placed, markerEpochs_append, markerEpochs_cons,
        markerEpochs_nil, List.append_nil, List.append_assoc]
      exact List.perm_append_comm_assoc _ _ _
  | drops => exact hs
  | advances phase offsets hphase hunsent hdrained =>
      exact hs.of_count_le (fun _ => by simp [epochs, placed, hdrained])
  | consumes rows message hphase =>
      exact hs.of_count_le
        (fun _ => by simp [epochs, placed, hphase, Phase.drained, fetch])
  | failsDecoding rows message hphase =>
      exact hs.of_count_le
        (fun _ => by simp [epochs, placed, hphase, Phase.drained, fetch])
  | failsConverting rows hphase =>
      exact hs.of_count_le
        (fun _ => by simp [epochs, placed, hphase, Phase.drained])
  | closes rows shutdown hphase =>
      exact hs.of_count_le
        (fun _ => by simp [epochs, placed, hphase, Phase.drained])
  | receives batch messages message rest hphase hsubscription =>
      refine hs.of_count_le fun _ => ?_
      simp [epochs, placed, hphase, hsubscription, Phase.drained,
        markerEpochs_cons, markerEpochs_append]
      omega
  | processes batch message rest offsets failed hphase hmessage =>
      refine hs.of_count_le fun _ => ?_
      cases failed <;>
        simp [epochs, placed, hphase, Phase.drained, markerEpochs_cons,
          markerEpochs_append, hmessage]
  | marks batch epoch createdAtMs rest positionOk hphase =>
      cases positionOk <;>
        · refine hs.of_count_le fun _ => ?_
          simp [epochs, placed, recordPosition, hphase, Phase.drained,
            markerEpochs_cons, markerEpochs_append]
          omega
  | sends batch hphase =>
      exact hs.of_count_le
        (fun _ => by simp [epochs, placed, hphase, Phase.drained])
  | abandons batch hphase =>
      exact hs.of_count_le
        (fun _ => by simp [epochs, placed, hphase, Phase.drained])
  | terminates terminal createdAtMs positionOk hphase hfresh =>
      have hperm : (s.epochs ++ [terminal]).Perm ([terminal] ++ s.epochs) :=
        List.perm_append_comm
      cases positionOk <;>
        · refine hs.mint (some terminal) (by simpa using hfresh) ?_
          simpa [epochs, placed, recordPosition, hphase, Phase.drained,
            markerEpochs_append, markerEpochs_cons,
            CheckpointMessage.markerEpoch?] using hperm
  | flushes terminal phase hphase hnext =>
      refine hs.of_count_le fun _ => ?_
      subst hnext
      cases terminal <;> simp [epochs, placed, hphase, Phase.drained]

/-! ## Recorded positions -/

theorem Consuming.consumerPosition_eq
    {s : SourceRun} (hs : Consuming s) :
    s.consumerPosition = positionAfter s.config.assigned s.consumed := by
  rw [consumerPosition, hs.position, positionAfter]

/-- What is known of the recorded positions. -/
structure Recorded (s : SourceRun) : Prop where
  placed : ∀ recording ∈ s.recordings,
    recording.epoch ∈ markerEpochs s.placed
  position : ∀ recording ∈ s.recordings, recording.closed ≤ s.built.length ∧
    recording.position = positionAfter s.config.assigned
      (batchRows (s.built.take recording.closed))
  /-- No batch was closed since the marker of an epoch was buffered. -/
  buffered : ∀ recording ∈ s.recordings,
    recording.epoch ∈ markerEpochs s.checkpointMessagesBuffer →
      recording.closed = s.built.length
  /-- The batch that carries the marker was the next one closed. -/
  carried : ∀ recording ∈ s.recordings,
    ∀ front batch rest, s.built = front ++ batch :: rest →
      batch.carries recording.epoch = true →
        recording.closed = front.length

theorem recorded_start (config : SourceConfig) : Recorded (start config) where
  placed := by simp [start]
  position := by simp [start]
  buffered := by simp [start]
  carried := by simp [start]

/-- Steps that record nothing and buffer no marker. -/
theorem Recorded.of_eq
    {s s' : SourceRun} (hs : Recorded s) (hconfig : s'.config = s.config)
    (hrecordings : s'.recordings = s.recordings)
    (hbuilt : s'.built = s.built)
    (hbuffer : markerEpochs s'.checkpointMessagesBuffer =
      markerEpochs s.checkpointMessagesBuffer) : Recorded s' where
  placed := by
    rw [hrecordings, SourceRun.placed, markerEpochs_append, hbuilt, hbuffer,
      ← markerEpochs_append]
    exact hs.placed
  position := by
    rw [hrecordings, hbuilt, hconfig]
    exact hs.position
  buffered := by
    rw [hrecordings, hbuilt, hbuffer]
    exact hs.buffered
  carried := by
    rw [hrecordings, hbuilt]
    exact hs.carried

/-- The buffer is put on a new batch. -/
theorem Recorded.attach
    {s s' : SourceRun} (hs : Recorded s) {rows : List Message}
    (hconfig : s'.config = s.config)
    (hrecordings : s'.recordings = s.recordings)
    (hbuilt : s'.built = s.built ++ [⟨rows, s.checkpointMessagesBuffer⟩])
    (hbuffer : s'.checkpointMessagesBuffer = []) : Recorded s' where
  placed := by
    intro recording hmem
    have hplaced := hs.placed recording (hrecordings ▸ hmem)
    simpa [SourceRun.placed, hbuilt, hbuffer] using hplaced
  position := by
    intro recording hmem
    obtain ⟨hle, hposition⟩ := hs.position recording (hrecordings ▸ hmem)
    rw [hbuilt, hconfig, List.take_append_of_le_length hle]
    exact ⟨by simp only [List.length_append]; omega, hposition⟩
  buffered := by simp [hbuffer]
  carried := by
    rw [hrecordings, hbuilt]
    intro recording hmem front batch rest hsplit hcarries
    rcases append_singleton_eq_append_cons hsplit with
      ⟨rfl, rfl, -⟩ | ⟨rest', -, hbefore⟩
    · exact hs.buffered recording hmem
        (by simpa [RecordBatch.carries] using hcarries)
    · exact hs.carried recording hmem front batch rest' hbefore hcarries

/-- A new marker is buffered, and the position recorded for it. -/
theorem Recorded.mark
    {s s' : SourceRun} (hs : Recorded s)
    {epoch : CheckpointEpoch} {createdAtMs : ℕ} (positionOk : Bool)
    (hnew : epoch ∉ markerEpochs s.placed)
    (hposition : s.consumerPosition =
      positionAfter s.config.assigned (batchRows s.built))
    (hconfig : s'.config = s.config) (hbuilt : s'.built = s.built)
    (hbuffer : s'.checkpointMessagesBuffer =
      s.checkpointMessagesBuffer ++ [.marker epoch createdAtMs])
    (hrecordings : s'.recordings = s.recordings ++
      if positionOk then [⟨epoch, s.consumerPosition, s.built.length⟩]
      else []) :
    Recorded s' := by
  have hsplit (recording : Recording) (hmem : recording ∈ s'.recordings) :
      recording ∈ s.recordings ∧ recording.epoch ≠ epoch ∨
        recording = ⟨epoch, s.consumerPosition, s.built.length⟩ := by
    rw [hrecordings] at hmem
    rcases List.mem_append.mp hmem with hold | hnow
    · refine .inl ⟨hold, ?_⟩
      rintro rfl
      exact hnew (hs.placed recording hold)
    · cases positionOk <;> simp_all
  have hbuiltNew : ∀ batch ∈ s.built, batch.carries epoch = false := by
    intro batch hbatch
    refine decide_eq_false fun hmem => hnew ?_
    rw [SourceRun.placed, markerEpochs_append]
    refine List.mem_append_left _ ?_
    obtain ⟨createdAtMs, hmessage⟩ := mem_markerEpochs.mp hmem
    exact mem_markerEpochs.mpr ⟨createdAtMs,
      List.mem_flatMap.mpr ⟨batch, hbatch, hmessage⟩⟩
  refine ⟨?_, ?_, ?_, ?_⟩
  · intro recording hmem
    rw [SourceRun.placed, hbuilt, hbuffer, ← List.append_assoc,
      markerEpochs_append]
    rcases hsplit recording hmem with ⟨hmem, -⟩ | rfl
    · exact List.mem_append_left _ (hs.placed recording hmem)
    · exact List.mem_append_right _ (by simp [markerEpochs_cons,
        CheckpointMessage.markerEpoch?])
  · intro recording hmem
    rw [hbuilt, hconfig]
    rcases hsplit recording hmem with ⟨hmem, -⟩ | rfl
    · exact hs.position recording hmem
    · exact ⟨le_rfl, by simpa using hposition⟩
  · intro recording hmem hbuffered
    rw [hbuilt]
    rcases hsplit recording hmem with ⟨hmem, hne⟩ | rfl
    · refine hs.buffered recording hmem ?_
      simpa [hbuffer, markerEpochs_append, markerEpochs_cons,
        CheckpointMessage.markerEpoch?, hne] using hbuffered
    · rfl
  · intro recording hmem front batch rest hfront hcarries
    rw [hbuilt] at hfront
    rcases hsplit recording hmem with ⟨hmem, -⟩ | rfl
    · exact hs.carried recording hmem front batch rest hfront hcarries
    · have := hbuiltNew batch (by simp [hfront])
      simp [hcarries] at this

/-- The invariants of the loop. -/
structure Inv (s : SourceRun) : Prop where
  consuming : Consuming s
  batched : Batched s
  distinct : Distinct s
  recorded : Recorded s

theorem inv_start (config : SourceConfig) : Inv (start config) :=
  ⟨consuming_start config, batched_start config, distinct_start config,
    recorded_start config⟩

theorem consuming_step
    (s : SourceRun) (s' : SourceRun) (hs : Consuming s) (h : Stepped s s') :
    Consuming s' := by
  cases h with
  | consumes rows message hphase hfetch => exact hs.fetch hfetch rfl rfl rfl
  | failsDecoding rows message hphase hfetch =>
      exact hs.fetch hfetch rfl rfl rfl
  | marks batch epoch createdAtMs rest positionOk =>
      cases positionOk <;> exact hs.of_eq rfl rfl rfl
  | terminates terminal createdAtMs positionOk =>
      cases positionOk <;> exact hs.of_eq rfl rfl rfl
  | _ => exact hs.of_eq rfl rfl rfl

/-- Outside the construction of a batch everything consumed is in a batch. -/
theorem Inv.consumerPosition_eq
    {s : SourceRun} (hs : Inv s) (hfailed : s.phase ≠ .failed)
    (hdecoded : s.phase.decoded = []) :
    s.consumerPosition =
      positionAfter s.config.assigned (batchRows s.built) := by
  have hcomplete := hs.batched.complete hfailed
  rw [hdecoded, List.append_nil] at hcomplete
  rw [hs.consuming.consumerPosition_eq, hcomplete]

theorem Inv.recorded_stepped
    {s s' : SourceRun} (hs : Inv s) (h : Stepped s s') : Recorded s' := by
  cases h with
  | closes rows shutdown => exact hs.recorded.attach rfl rfl rfl rfl
  | flushes terminal phase => exact hs.recorded.attach rfl rfl rfl rfl
  | processes batch message rest offsets failed hphase hmessage =>
      exact hs.recorded.of_eq rfl rfl rfl
        (by simp [markerEpochs_append, markerEpochs_cons, hmessage])
  | marks batch epoch createdAtMs rest positionOk hphase =>
      have hnew : epoch ∉ markerEpochs s.placed := by
        have hmem : epoch ∈ [epoch] := by simp
        refine hs.distinct.not_mem_of_mem (fun _ => ?_) hmem
        simp only [epochs, hphase, Phase.drained, markerEpochs_cons,
          CheckpointMessage.markerEpoch?, Option.toList_some,
          List.count_append]
        omega
      have hposition := hs.consumerPosition_eq (by simp [hphase])
        (by simp [hphase, Phase.decoded])
      cases positionOk with
      | false =>
          exact hs.recorded.mark false hnew hposition rfl rfl rfl
            (by simp [recordPosition])
      | true =>
          exact hs.recorded.mark true hnew hposition rfl rfl rfl rfl
  | terminates terminal createdAtMs positionOk hphase hfresh =>
      have hnew : terminal ∉ markerEpochs s.placed := by
        intro hmem
        refine hfresh (hs.distinct.subset terminal ?_)
        exact List.mem_append_right _ hmem
      have hposition := hs.consumerPosition_eq (by simp [hphase])
        (by simp [hphase, Phase.decoded])
      cases positionOk with
      | false =>
          exact hs.recorded.mark false hnew hposition rfl rfl rfl
            (by simp [recordPosition])
      | true =>
          exact hs.recorded.mark true hnew hposition rfl rfl rfl rfl
  | _ => exact hs.recorded.of_eq rfl rfl rfl rfl

theorem inv_step
    (s : SourceRun) (action : Action) (s' : SourceRun) (hs : Inv s)
    (h : s.step action = some s') : Inv s' := by
  have hstepped := stepped_of_step h
  exact ⟨consuming_step s s' hs.consuming hstepped,
    batched_step s s' hs.batched hstepped,
    distinct_step s s' hs.distinct hstepped, hs.recorded_stepped hstepped⟩

/-! ## The cut -/

theorem Inv.cutHolds {s : SourceRun} (hs : Inv s) : s.CutHolds := by
  intro epoch position hmem front batch rest hsent hcarries
  obtain ⟨recording, hrecording, heq⟩ := List.mem_map.mp hmem
  obtain ⟨rfl, rfl⟩ := Prod.mk.inj heq
  obtain ⟨unsent, hbuilt⟩ := hs.batched.sent
  have hsplit : s.built = front ++ batch :: (rest ++ unsent) := by
    simp [← hbuilt, hsent]
  have hposition := (hs.recorded.position recording hrecording).2
  rw [hs.recorded.carried recording hrecording front batch _ hsplit hcarries,
    hsplit, List.take_left] at hposition
  rw [hposition]
  refine ⟨rfl, fun message hmessage => ?_⟩
  obtain ⟨back, hback⟩ : batchRows front <+: s.consumed := by
    refine List.IsPrefix.trans ?_ hs.batched.rows
    simp [← hbuilt, hsent, List.append_assoc]
  rw [← hback] at hmessage
  have hdelivered := hs.consuming.delivered
  have hassigned := hs.consuming.assigned
  rw [← hback] at hdelivered hassigned
  exact covers_positionAfter_iff hdelivered hassigned hmessage

theorem Inv.inOneBatch {s : SourceRun} (hs : Inv s) : s.InOneBatch := by
  refine ⟨hs.consuming.delivered.nodup, fun hleft => ?_, hs.batched.sent⟩
  have hphase : s.phase ≠ .failed ∧ s.phase.decoded = [] := by
    revert hleft
    rw [leftLoop]
    cases s.phase <;> simp [Phase.decoded]
  simpa [hphase.2] using hs.batched.complete hphase.1

end SourceRun

end Kafka

end Streamling
