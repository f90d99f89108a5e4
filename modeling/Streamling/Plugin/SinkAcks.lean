import Streamling.Support.Tokens
import Streamling.Plugin.Sink

/-!
# The acknowledgements of a plugin sink

An epoch is acknowledged for the sink when the gate releases it.  The channels
of an instance are queues, so an acknowledgement reported at the gate was sent
by the plugin after its hooks had returned for everything before the marker;
and a write that has succeeded has reported all of its markers.  What the
batches behind the last marker become is not waited for.
-/

namespace Streamling

namespace PluginSink

open SinkAckGates

variable {ρ : Type} {N : ℕ}

/-! ## Messages -/

@[simp] theorem sentEpochs_nil :
    sentEpochs ([] : List (PluginMsg ρ)) = [] := rfl

@[simp] theorem sentEpochs_append (xs ys : List (PluginMsg ρ)) :
    sentEpochs (xs ++ ys) = sentEpochs xs ++ sentEpochs ys :=
  List.filterMap_append

@[simp] theorem sentEpochs_singleton (message : PluginMsg ρ) :
    sentEpochs [message] = message.markerEpoch?.toList := by
  cases message <;> rfl

theorem mem_sentEpochs
    {messages : List (PluginMsg ρ)} {epoch : CheckpointEpoch} :
    epoch ∈ sentEpochs messages ↔
      .checkpointMarker epoch ∈ messages := by
  simp only [sentEpochs, List.mem_filterMap]
  constructor
  · rintro ⟨message, hmem, hepoch⟩
    cases message with
    | checkpointMarker e =>
        obtain rfl : e = epoch := by
          simpa [PluginMsg.markerEpoch?] using hepoch
        exact hmem
    | init | nextBatch | checkpointFinalizer =>
        simp [PluginMsg.markerEpoch?] at hepoch
  · exact fun hmem => ⟨_, hmem, rfl⟩

theorem sentEpochs_controls (messages : List CheckpointMessage) :
    sentEpochs (controls messages : List (PluginMsg ρ)) =
      markerEpochs messages := by
  induction messages with
  | nil => rfl
  | cons message rest ih =>
      cases message <;>
        simpa [sentEpochs, controls, controlOf?, List.filterMap_cons,
          markerEpochs_cons, CheckpointMessage.markerEpoch?,
          PluginMsg.markerEpoch?] using ih

theorem sentEpochs_messagesOf (batch : RecordBatch ρ) :
    sentEpochs (messagesOf batch) = markerEpochs batch.messages :=
  sentEpochs_controls batch.messages

@[simp] theorem sentEpochs_written (stream : List (RecordBatch ρ)) :
    sentEpochs (written stream) = streamEpochs stream := by
  have h : sentEpochs (stream.flatMap messagesOf) = streamEpochs stream := by
    induction stream with
    | nil => rfl
    | cons batch rest ih =>
        simpa [streamEpochs, sentEpochs_messagesOf] using ih
  exact h

theorem written_append_singleton
    (stream : List (RecordBatch ρ)) (batch : RecordBatch ρ) :
    written (stream ++ [batch]) = written stream ++ messagesOf batch := by
  simp [written]

@[simp] theorem batchesOf_append (xs ys : List (PluginMsg ρ)) :
    batchesOf (xs ++ ys) = batchesOf xs ++ batchesOf ys :=
  List.filterMap_append

@[simp] theorem batchesOf_controls (messages : List CheckpointMessage) :
    batchesOf (controls messages : List (PluginMsg ρ)) = [] := by
  refine List.filterMap_eq_nil_iff.mpr fun message hmem => ?_
  obtain ⟨m, -, hm⟩ := List.mem_filterMap.mp hmem
  cases m <;> simp [controlOf?] at hm <;> subst hm <;> rfl

@[simp] theorem batchesOf_messagesOf (batch : RecordBatch ρ) :
    batchesOf (messagesOf batch) = [batch] :=
  congrArg (batch :: ·) (batchesOf_controls batch.messages)

@[simp] theorem batchesOf_written (stream : List (RecordBatch ρ)) :
    batchesOf (written stream) = stream := by
  have h : batchesOf (stream.flatMap messagesOf) = stream := by
    induction stream with
    | nil => rfl
    | cons batch rest ih =>
        rw [List.flatMap_cons, batchesOf_append, ih, batchesOf_messagesOf]
        rfl
  exact h

@[simp] theorem ackEpochs_nil : ackEpochs [] = [] := rfl

@[simp] theorem ackEpochs_cons_checkpointAck
    (epoch : CheckpointEpoch) (rest : List OutputMsg) :
    ackEpochs (.checkpointAck epoch :: rest) = epoch :: ackEpochs rest := rfl

@[simp] theorem ackEpochs_cons_error (rest : List OutputMsg) :
    ackEpochs (.error :: rest) = ackEpochs rest := rfl

@[simp] theorem ackEpochs_append (xs ys : List OutputMsg) :
    ackEpochs (xs ++ ys) = ackEpochs xs ++ ackEpochs ys :=
  List.filterMap_append

namespace Instance

/-! ## One instance -/

/-- What `write_all` has done, when `reported` are the epochs reported for the
instance at the gate. -/
structure Writing (x : Instance ρ) (reported : List CheckpointEpoch) :
    Prop where
  increasing : (streamEpochs x.stream).Pairwise (· < ·)
  sent : x.sent ++ x.writer.queue <+: written x.stream
  complete : x.writer.complete = true →
    x.sent ++ x.writer.queue = written x.stream
  unacked : ∀ epoch ∈ sentEpochs x.sent,
    epoch ∈ x.unacked ∨ epoch ∈ reported
  returned : x.writer = .returned true →
    ∀ epoch ∈ sentEpochs x.sent, epoch ∈ reported

/-- What the dispatcher has done. -/
structure Handling (x : Instance ρ) : Prop where
  handled : x.handled <+: x.sent
  running : x.dispatcher.running = true →
    x.handled ++ x.dispatcher.inHand ++ x.input = x.sent
  acked : x.acked <+: sentEpochs x.handled
  acking : x.dispatcher.running = true →
    x.acked ++ x.dispatcher.unsentAck = sentEpochs x.handled

/-- What the ack forwarder has done. -/
structure Forwarding (x : Instance ρ) (reported : List CheckpointEpoch) :
    Prop where
  output : reported ++ ackEpochs x.output = x.acked
  reported : ∀ epoch release, x.forwarder = .reported epoch release →
    epoch ∈ reported

/-- The invariants of an instance. -/
structure Inv (x : Instance ρ) (reported : List CheckpointEpoch) : Prop where
  writing : x.Writing reported
  handling : x.Handling
  forwarding : x.Forwarding reported

theorem inv_start : Inv (start : Instance ρ) [] where
  writing := by constructor <;> simp [start, Writer.queue, written,
    streamEpochs]
  handling := by constructor <;> simp [start, Dispatcher.inHand,
    Dispatcher.unsentAck]
  forwarding := by constructor <;> simp [start]

variable {config : SinkConfig} {x x' : Instance ρ}
  {reported : List CheckpointEpoch}

/-- The write ends with an error. -/
theorem Writing.giveUp
    (hx : x.Writing reported) (hstream : x'.stream = x.stream)
    (hsent : x'.sent = x.sent) (hqueue : x'.writer.queue = [])
    (hincomplete : x'.writer.complete = false)
    (hunacked : x.unacked ⊆ x'.unacked) : x'.Writing reported where
  increasing := hstream ▸ hx.increasing
  sent := by
    rw [hstream, hsent, hqueue, List.append_nil]
    exact (List.prefix_append _ _).trans hx.sent
  complete := by simp [hincomplete]
  unacked := by
    rw [hsent]
    exact fun epoch hmem =>
      (hx.unacked epoch hmem).imp (fun h => hunacked h) id
  returned := by
    intro hreturned
    simp [hreturned, Writer.complete] at hincomplete

/-- The dispatcher stops calling hooks. -/
theorem Handling.stop
    (hx : x.Handling) (hsent : x'.sent = x.sent)
    (hhandled : x'.handled = x.handled) (hacked : x'.acked = x.acked)
    (hstopped : x'.dispatcher.running = false) : x'.Handling where
  handled := by
    rw [hhandled, hsent]
    exact hx.handled
  running := by simp [hstopped]
  acked := by
    rw [hacked, hhandled]
    exact hx.acked
  acking := by simp [hstopped]

theorem subset_announce (x : Instance ρ) (message : PluginMsg ρ) :
    x.unacked ⊆ x.announce message := by
  cases message <;> simp [announce, PluginMsg.markerEpoch?]

theorem Inv.read
    (hx : x.Inv reported) {batch : RecordBatch ρ}
    (h : x.read batch = some x') : x'.Inv reported := by
  simp only [Instance.read] at h
  split at h
  case h_1 hwriter =>
      split at h
      case isTrue hincreasing =>
          obtain rfl := Option.some.inj h
          have hcomplete := hx.writing.complete (by simp [hwriter,
            Writer.complete])
          have hall : x.sent ++ messagesOf batch =
              written (x.stream ++ [batch]) := by
            rw [written_append_singleton, ← hcomplete, hwriter]
            simp [Writer.queue]
          refine ⟨⟨hincreasing, ?_, fun _ => hall, hx.writing.unacked,
            by simp⟩, { hx.handling with }, { hx.forwarding with }⟩
          simp only [Writer.queue, hall]
          exact List.prefix_refl _
      case isFalse => exact absurd h (by simp)
  case h_2 => exact absurd h (by simp)

theorem Inv.send
    (hx : x.Inv reported) (h : x.send config = some x') :
    x'.Inv reported := by
  simp only [Instance.send] at h
  split at h
  case h_1 message rest hwriter =>
      split at h
      case isTrue =>
          obtain rfl := Option.some.inj h
          have hqueue : (if rest = [] then Writer.waiting false
              else Writer.sending rest).queue = rest := by
            split <;> simp_all [Writer.queue]
          have hsent := hx.writing.sent
          have hcomplete := hx.writing.complete (by simp [hwriter,
            Writer.complete])
          simp only [hwriter, Writer.queue] at hsent hcomplete
          refine ⟨⟨hx.writing.increasing, ?_, ?_, ?_, ?_⟩, ?_,
            { hx.forwarding with }⟩
          · simpa [hqueue] using hsent
          · intro _
            simpa [hqueue] using hcomplete
          · intro epoch hmem
            simp only [sentEpochs_append, sentEpochs_singleton,
              List.mem_append] at hmem
            rcases hmem with hmem | hmem
            · exact (hx.writing.unacked epoch hmem).imp
                (fun h => x.subset_announce message h) id
            · left
              have hepoch : message.markerEpoch? = some epoch := by
                simpa using hmem
              simp [announce, hepoch]
          · intro hreturned
            split at hreturned <;> simp at hreturned
          · refine ⟨hx.handling.handled.trans (List.prefix_append _ _),
              fun hrunning => ?_, hx.handling.acked, hx.handling.acking⟩
            have := hx.handling.running hrunning
            simp only [← this, List.append_assoc]
      case isFalse => exact absurd h (by simp)
  case h_2 => exact absurd h (by simp)

theorem Inv.returnOk
    (hx : x.Inv reported) (h : x.returnOk = some x') :
    x'.Inv reported := by
  simp only [Instance.returnOk] at h
  split at h
  case h_1 hwriter =>
      split at h
      case isTrue hdone =>
          obtain rfl := Option.some.inj h
          have hsent := hx.writing.sent
          have hcomplete := hx.writing.complete (by simp [hwriter,
            Writer.complete])
          rw [hwriter] at hsent hcomplete
          refine ⟨⟨hx.writing.increasing, hsent, fun _ => hcomplete,
            hx.writing.unacked, fun _ epoch hmem => ?_⟩,
            { hx.handling with }, { hx.forwarding with }⟩
          exact (hx.writing.unacked epoch hmem).resolve_left
            (by simp [hdone.2])
      case isFalse => exact absurd h (by simp)
  case h_2 => exact absurd h (by simp)

theorem Inv.hook
    (hx : x.Inv reported) {ok : Bool} (h : x.hook ok = some x') :
    x'.Inv reported := by
  simp only [Instance.hook] at h
  split at h
  case h_1 message hdispatcher =>
      split at h
      case isTrue =>
          obtain rfl := Option.some.inj h
          have hrunning := hx.handling.running (by simp [hdispatcher,
            Dispatcher.running])
          have hacking := hx.handling.acking (by simp [hdispatcher,
            Dispatcher.running])
          simp only [hdispatcher, Dispatcher.inHand, Dispatcher.unsentAck,
            List.append_nil] at hrunning hacking
          refine ⟨{ hx.writing with }, ⟨?_, fun _ => ?_, ?_, fun _ => ?_⟩,
            { hx.forwarding with }⟩
          · simp only [← hrunning]
            exact List.prefix_append _ _
          · cases message <;>
              simpa [PluginMsg.markerEpoch?, Dispatcher.inHand]
                using hrunning
          · simp only [sentEpochs_append, ← hacking]
            exact List.prefix_append _ _
          · cases message <;>
              simp [PluginMsg.markerEpoch?, Dispatcher.unsentAck, hacking]
      case isFalse =>
          obtain rfl := Option.some.inj h
          exact ⟨{ hx.writing with }, hx.handling.stop rfl rfl rfl rfl,
            { hx.forwarding with }⟩
  case h_2 => exact absurd h (by simp)

theorem Inv.ack
    (hx : x.Inv reported) (h : x.ack config = some x') :
    x'.Inv reported := by
  simp only [Instance.ack] at h
  split at h
  case h_1 epoch hdispatcher =>
      split at h
      case isTrue =>
          obtain rfl := Option.some.inj h
          have hrunning := hx.handling.running (by simp [hdispatcher,
            Dispatcher.running])
          have hacking := hx.handling.acking (by simp [hdispatcher,
            Dispatcher.running])
          simp only [hdispatcher, Dispatcher.inHand, Dispatcher.unsentAck]
            at hrunning hacking
          refine ⟨{ hx.writing with }, ⟨hx.handling.handled,
            fun _ => hrunning, ?_, fun _ => ?_⟩,
            { hx.forwarding with output := ?_ }⟩
          · rw [hacking]
          · simpa [Dispatcher.unsentAck] using hacking
          · simp [← hx.forwarding.output]
      case isFalse => exact absurd h (by simp)
  case h_2 => exact absurd h (by simp)

theorem Inv.clearUnacked
    (hx : x.Inv reported) (h : x.clearUnacked = some x') :
    x'.Inv reported := by
  simp only [Instance.clearUnacked] at h
  split at h
  case h_1 epoch release hforwarder =>
      obtain rfl := Option.some.inj h
      have hreported := hx.forwarding.reported epoch release hforwarder
      refine ⟨{ hx.writing with unacked := ?_ }, { hx.handling with },
        { hx.forwarding with reported := ?_ }⟩
      · intro e hmem
        by_cases heq : e = epoch
        · exact .inr (heq ▸ hreported)
        · exact (hx.writing.unacked e hmem).imp
            (fun h => Finset.mem_erase.mpr ⟨heq, h⟩) id
      · intro e r heq
        split at heq <;> simp at heq
  case h_2 => exact absurd h (by simp)

/-- The forwarder goes on to something else than clearing an epoch. -/
theorem Inv.setForwarder
    (hx : x.Inv reported) (forwarder : Forwarder) (failure : Bool)
    (hforwarder : ∀ epoch release, forwarder ≠ .reported epoch release) :
    Inv { x with forwarder := forwarder, failure := failure } reported :=
  ⟨{ hx.writing with }, { hx.handling with },
    { hx.forwarding with
      reported := fun epoch release h =>
        absurd h (hforwarder epoch release) }⟩

/-- Every step of an instance preserves its invariants. -/
theorem Inv.step
    (hx : x.Inv reported) {action : Action ρ}
    (h : x.step config action = some x') : x'.Inv reported := by
  cases action with
  | read batch => exact hx.read h
  | send => exact hx.send h
  | sendFails =>
      simp only [Instance.step, sendFails] at h
      split at h
      case h_1 message rest hwriter =>
          split at h
          · exact absurd h (by simp)
          · obtain rfl := Option.some.inj h
            exact ⟨hx.writing.giveUp rfl rfl rfl rfl
              (x.subset_announce message), { hx.handling with },
              { hx.forwarding with }⟩
      case h_2 => exact absurd h (by simp)
  | endInput =>
      simp only [Instance.step, endInput] at h
      split at h
      case h_1 hwriter =>
          obtain rfl := Option.some.inj h
          have hsent := hx.writing.sent
          have hcomplete := hx.writing.complete
          rw [hwriter] at hsent hcomplete
          exact ⟨⟨hx.writing.increasing, hsent, hcomplete,
            hx.writing.unacked, by simp⟩, { hx.handling with },
            { hx.forwarding with }⟩
      case h_2 => exact absurd h (by simp)
  | streamFails =>
      simp only [Instance.step, streamFails] at h
      split at h
      case h_1 =>
          obtain rfl := Option.some.inj h
          exact ⟨hx.writing.giveUp rfl rfl rfl rfl (Finset.Subset.refl _),
            { hx.handling with }, { hx.forwarding with }⟩
      case h_2 => exact absurd h (by simp)
  | fail =>
      simp only [Instance.step, fail] at h
      split at h
      case h_1 =>
          split at h
          · obtain rfl := Option.some.inj h
            exact ⟨hx.writing.giveUp rfl rfl rfl rfl
              (Finset.Subset.refl _), { hx.handling with },
              { hx.forwarding with }⟩
          · exact absurd h (by simp)
      case h_2 => exact absurd h (by simp)
  | returnOk => exact hx.returnOk h
  | take =>
      simp only [Instance.step, take] at h
      split at h
      case h_1 message rest hdispatcher hinput =>
          obtain rfl := Option.some.inj h
          have hrunning := hx.handling.running (by simp [hdispatcher,
            Dispatcher.running])
          have hacking := hx.handling.acking (by simp [hdispatcher,
            Dispatcher.running])
          simp only [hdispatcher, hinput] at hrunning hacking
          refine ⟨{ hx.writing with }, ⟨hx.handling.handled, fun _ => ?_,
            hx.handling.acked, fun _ => hacking⟩, { hx.forwarding with }⟩
          simpa [Dispatcher.inHand] using hrunning
      case h_2 => exact absurd h (by simp)
  | hook ok => exact hx.hook h
  | ack => exact hx.ack h
  | report =>
      simp only [Instance.step, Instance.report] at h
      split at h
      case h_1 =>
          split at h
          · obtain rfl := Option.some.inj h
            refine ⟨{ hx.writing with }, hx.handling.stop rfl rfl rfl rfl,
              { hx.forwarding with output := ?_ }⟩
            simpa using hx.forwarding.output
          · exact absurd h (by simp)
      case h_2 => exact absurd h (by simp)
  | discard =>
      simp only [Instance.step, discard] at h
      split at h
      case h_1 unsentReport message rest hdispatcher hinput =>
          obtain rfl := Option.some.inj h
          exact ⟨{ hx.writing with },
            hx.handling.stop rfl rfl rfl
              (by simp [hdispatcher, Dispatcher.running]),
            { hx.forwarding with }⟩
      case h_2 => exact absurd h (by simp)
  | exit =>
      simp only [Instance.step, Instance.exit] at h
      split at h
      · exact absurd h (by simp)
      · obtain rfl := Option.some.inj h
        exact ⟨{ hx.writing with }, hx.handling.stop rfl rfl rfl rfl,
          { hx.forwarding with }⟩
  | clearUnacked => exact hx.clearUnacked h
  | receiveError =>
      simp only [Instance.step, receiveError] at h
      split at h
      case h_1 rest hforwarder houtput =>
          obtain rfl := Option.some.inj h
          refine ⟨{ hx.writing with }, { hx.handling with },
            { hx.forwarding with output := ?_ }⟩
          simpa [houtput] using hx.forwarding.output
      case h_2 => exact absurd h (by simp)
  | stopForwarder =>
      simp only [Instance.step, stopForwarder] at h
      split at h
      case h_1 =>
          obtain rfl := Option.some.inj h
          exact hx.setForwarder .stopped x.failure (by simp)
      case h_2 => exact absurd h (by simp)

/-! ## What is reported -/

theorem Inv.reported_append_isPrefix (hx : x.Inv reported) :
    reported ++ ackEpochs x.output <+: streamEpochs x.stream := by
  rw [hx.forwarding.output, ← sentEpochs_written]
  refine hx.handling.acked.trans ?_
  refine (hx.handling.handled.filterMap _).trans ?_
  exact ((List.prefix_append _ _).trans hx.writing.sent).filterMap _

/-- A write that succeeded has reported the epochs of its stream, and the
plugin has nothing more to acknowledge. -/
theorem Inv.of_returned
    (hx : x.Inv reported) (hreturned : x.writer = .returned true) :
    reported = streamEpochs x.stream ∧ ackEpochs x.output = [] := by
  have hsent := hx.writing.complete (by simp [hreturned, Writer.complete])
  have hall := hx.writing.returned hreturned
  simp only [hreturned, Writer.queue, List.append_nil] at hsent
  rw [hsent, sentEpochs_written] at hall
  obtain ⟨rest, hrest⟩ := hx.reported_append_isPrefix
  have hnodup : (streamEpochs x.stream).Nodup :=
    hx.writing.increasing.imp fun h => ne_of_lt h
  have hempty : ackEpochs x.output ++ rest = [] := by
    refine List.eq_nil_iff_forall_not_mem.mpr fun epoch hmem => ?_
    rw [← hrest, List.append_assoc] at hnodup
    have hreported := hall epoch (by
      rw [← hrest, List.append_assoc]
      exact List.mem_append_right _ hmem)
    exact (List.nodup_append.mp hnodup).2.2 epoch hreported epoch hmem rfl
  obtain ⟨houtput, rfl⟩ := List.append_eq_nil_iff.mp hempty
  exact ⟨by simpa [houtput] using hrest, houtput⟩

/-- An epoch about to be reported is above those reported before. -/
theorem Inv.lt_of_output
    (hx : x.Inv reported) {epoch : CheckpointEpoch} {rest : List OutputMsg}
    (houtput : x.output = .checkpointAck epoch :: rest) :
    ∀ d ∈ reported, d < epoch := by
  have hincreasing := hx.writing.increasing.sublist
    hx.reported_append_isPrefix.sublist
  rw [houtput, ackEpochs_cons_checkpointAck] at hincreasing
  exact fun d hd => (List.pairwise_append.mp hincreasing).2.2 d hd epoch
    (by simp)

/-- An acknowledgement of the plugin was sent after its hooks returned for the
batches up to the one that carries the marker. -/
theorem Inv.flushed
    (hx : x.Inv reported) {epoch : CheckpointEpoch} (hacked : epoch ∈ x.acked) :
    SinkRun.Flushed x epoch := by
  intro front batch rest hstream hcarries
  have hmem : PluginMsg.checkpointMarker epoch ∈ x.handled :=
    mem_sentEpochs.mp (hx.handling.acked.subset hacked)
  obtain ⟨before, after, hhandled⟩ := List.append_of_mem hmem
  refine ⟨before, after, hhandled, ?_⟩
  obtain ⟨unhandled, hwritten⟩ := hx.handling.handled.trans
    ((List.prefix_append _ _).trans hx.writing.sent)
  rw [hhandled, List.append_assoc, List.cons_append] at hwritten
  have hcontrols : PluginMsg.checkpointMarker epoch ∈
      (controls batch.messages : List (PluginMsg ρ)) := by
    rw [← mem_sentEpochs, sentEpochs_controls]
    simpa [RecordBatch.carries] using hcarries
  obtain ⟨c, c', hc⟩ := List.append_of_mem hcontrols
  have hsplit : written x.stream =
      (written front ++ .nextBatch batch :: c) ++
        .checkpointMarker epoch :: (c' ++ rest.flatMap messagesOf) := by
    simp [hstream, written, messagesOf, hc]
  -- the marker occurs once, so both splits are at the same place
  have honce {xs ys : List (PluginMsg ρ)}
      (h : written x.stream = xs ++ .checkpointMarker epoch :: ys) :
      .checkpointMarker epoch ∉ xs ∧ .checkpointMarker epoch ∉ ys := by
    have hnodup := hx.writing.increasing.imp fun h => ne_of_lt h
    rw [← sentEpochs_written, h, sentEpochs_append] at hnodup
    obtain ⟨-, htail, hcross⟩ := List.nodup_append.mp hnodup
    constructor
    · intro hxs
      exact hcross epoch (mem_sentEpochs.mpr hxs) epoch
        (mem_sentEpochs.mpr (by simp)) rfl
    · intro hys
      exact (List.nodup_cons.mp htail).1 (mem_sentEpochs.mpr hys)
  obtain ⟨hbefore, -, -⟩ := (List.append_cons_inj_of_notMem
    (honce hwritten.symm).1 (honce hwritten.symm).2).mp
      (hwritten.trans hsplit)
  have hnone : batchesOf c = [] := by
    have hcontrols : batchesOf (controls batch.messages : List (PluginMsg ρ)) =
        [] := batchesOf_controls batch.messages
    rw [hc, batchesOf_append] at hcontrols
    exact (List.append_eq_nil_iff.mp hcontrols).1
  rw [hbefore, batchesOf_append, batchesOf_written]
  exact congrArg (front ++ batch :: ·) hnone

/-! ## What a step leaves alone -/

theorem returned_step
    {action : Action ρ} (h : x.step config action = some x')
    (hreturned : x.writer = .returned true) :
    x'.writer = .returned true := by
  cases action <;>
    simp only [step, Instance.read, Instance.send, sendFails, endInput,
      streamFails, fail, Instance.returnOk, take, Instance.hook, Instance.ack,
      Instance.report, discard, Instance.exit, Instance.clearUnacked,
      receiveError, stopForwarder, hreturned] at h <;>
    repeat' split at h
  all_goals
    first
      | obtain rfl := Option.some.inj h
        rfl
      | simp at h

/-- Only `returnOk` makes a write succeed. -/
theorem writer_step
    {action : Action ρ} (h : x.step config action = some x')
    (haction : action ≠ .returnOk) (hreturned : x'.writer = .returned true) :
    x.writer = .returned true := by
  cases action with
  | returnOk => exact absurd rfl haction
  | _ =>
      simp only [step, Instance.read, Instance.send, sendFails, endInput,
        streamFails, fail, take, Instance.hook, Instance.ack, Instance.report,
        discard, Instance.exit, Instance.clearUnacked, receiveError,
        stopForwarder] at h
      repeat' split at h
      all_goals
        first
          | obtain rfl := Option.some.inj h
            first
              | exact hreturned
              | simp at hreturned
          | simp at h

theorem release?_step
    {action : Action ρ} (h : x.step config action = some x') :
    x'.forwarder.release? = x.forwarder.release? := by
  cases action with
  | clearUnacked =>
      simp only [step, Instance.clearUnacked] at h
      split at h
      case h_1 epoch release hforwarder =>
          obtain rfl := Option.some.inj h
          cases release <;> simp [hforwarder, Forwarder.release?]
      case h_2 => exact absurd h (by simp)
  | stopForwarder =>
      simp only [step, stopForwarder] at h
      split at h
      case h_1 hforwarder =>
          obtain rfl := Option.some.inj h
          simp [hforwarder, Forwarder.release?]
      case h_2 => exact absurd h (by simp)
  | _ =>
      simp only [step, Instance.read, Instance.send, sendFails, endInput,
        streamFails, fail, Instance.returnOk, take, Instance.hook,
        Instance.ack, Instance.report, discard, Instance.exit,
        receiveError] at h
      repeat' split at h
      all_goals
        first
          | obtain rfl := Option.some.inj h
            rfl
          | simp at h

end Instance

namespace SinkRun

/-! ## The gate -/

/-- The gate is in a state that calls of the `N` streams lead to. -/
def GateReached (config : SinkConfig) (gate : GateRun N) : Prop :=
  gate.Kept ∧ ∃ calls, Transition.run (GateRun.step config.sinkId)
    (GateRun.start N (registerSinkStreams config.gates config.sinkId N))
      calls = some gate

theorem gateReached_start (config : SinkConfig) :
    GateReached config (start ρ N config).gate :=
  ⟨by simp [start, GateRun.start, GateRun.Kept], [], rfl⟩

theorem GateReached.step
    {config : SinkConfig} {gate gate' : GateRun N}
    (h : GateReached config gate) (call : GateCall N)
    (hstep : GateRun.step config.sinkId gate call = some gate') :
    GateReached config gate' := by
  obtain ⟨hkept, calls, hcalls⟩ := h
  refine ⟨hkept.step hstep, calls ++ [call],
    Transition.run_append_eq_some.mpr ⟨gate, hcalls, ?_⟩⟩
  exact Transition.run_cons_eq_some.mpr ⟨gate', hstep, rfl⟩

theorem GateReached.nodup
    {config : SinkConfig} {gate : GateRun N} (h : GateReached config gate) :
    gate.releasedEpochs.Nodup := by
  obtain ⟨-, calls, hcalls⟩ := h
  exact (GateRun.release_barrier config.unregistered hcalls).1

/-- A released epoch was delivered by every stream that has not finished. -/
theorem GateReached.delivered_or_finished
    {config : SinkConfig} {gate : GateRun N} (h : GateReached config gate)
    {epoch : CheckpointEpoch} (hepoch : epoch ∈ gate.releasedEpochs)
    (i : Fin N) : epoch ∈ gate.delivered i ∨ i ∈ gate.finished := by
  obtain ⟨hkept, calls, hcalls⟩ := h
  obtain ⟨rel, hrel, rfl⟩ := List.mem_map.mp hepoch
  obtain ⟨hdelivered, hfinished⟩ := hkept rel hrel
  rcases (GateRun.release_barrier config.unregistered hcalls).2 rel hrel with
    hall | hsettled
  · exact .inr (hfinished (hall i))
  · exact (hsettled i).imp (fun h => hdelivered i h) fun h => hfinished h.1

theorem releasedEpochs_afterReport
    (sink : String) (gate : GateRun N) (i : Fin N) (epoch : CheckpointEpoch)
    (nowMs : ℕ) :
    (gate.afterReport sink i epoch nowMs).releasedEpochs =
      gate.releasedEpochs ++
        if (reportMarkerAtSink gate.gates sink epoch nowMs).2 then [epoch]
        else [] := by
  simp only [GateRun.afterReport, GateRun.releasedEpochs, List.map_append]
  split <;> rfl

theorem releasedEpochs_afterDone
    (sink : String) (gate : GateRun N) (i : Fin N)
    (last : Option CheckpointEpoch) (nowMs : ℕ) :
    (gate.afterDone sink i last nowMs).releasedEpochs =
      gate.releasedEpochs ++ (sinkStreamDone gate.gates sink last nowMs).2 := by
  simp [GateRun.afterDone, GateRun.releasedEpochs, Function.comp_def]

/-! ## The invariant -/

/-- The released epochs not yet acknowledged: by the executor, or by the ack
forwarder of an instance. -/
def held (s : SinkRun ρ N) : Option (Fin N) → List CheckpointEpoch
  | none => s.joinAcks
  | some i => (s.instances i).forwarder.release?.toList

/-- The invariants of a sink. -/
structure Inv (s : SinkRun ρ N) : Prop where
  gate : GateReached s.config s.gate
  instances : ∀ i, (s.instances i).Inv (s.gate.delivered i)
  finished : ∀ i ∈ s.gate.finished,
    (s.instances i).writer = .returned true
  owned : Tokens.Owned s.gate.releasedEpochs s.acks s.held

theorem inv_start (config : SinkConfig) : Inv (start ρ N config) where
  gate := gateReached_start config
  instances := fun _ => Instance.inv_start
  finished := by simp [start, GateRun.start]
  owned := by
    have hheld : (start ρ N config).held = fun _ => [] := by
      funext owner
      cases owner <;> rfl
    rw [hheld]
    exact Tokens.owned_nil

/-- What is left to show when one instance changes. -/
theorem Inv.put
    {s s' : SinkRun ρ N} (hs : Inv s) (i : Fin N) {x : Instance ρ}
    (hx : x.Inv (s.gate.delivered i))
    (hreturned : (s.instances i).writer = .returned true →
      x.writer = .returned true)
    (hconfig : s'.config = s.config)
    (hinstances : s'.instances = Function.update s.instances i x)
    (hgate : s'.gate = s.gate)
    (howned : Tokens.Owned s.gate.releasedEpochs s'.acks s'.held) :
    Inv s' where
  gate := by
    rw [hconfig, hgate]
    exact hs.gate
  instances := by
    intro j
    rw [hinstances, hgate, Function.update_apply]
    split
    next heq => exact heq ▸ hx
    · exact hs.instances j
  finished := by
    intro j hj
    rw [hgate] at hj
    rw [hinstances, Function.update_apply]
    split
    next heq => exact hreturned (heq ▸ hs.finished j hj)
    · exact hs.finished j hj
  owned := by
    rw [hgate]
    exact howned

theorem held_put_of_ne
    (s : SinkRun ρ N) {i : Fin N} (x : Instance ρ) {owner : Option (Fin N)}
    (howner : owner ≠ some i) : (s.put i x).held owner = s.held owner := by
  cases owner with
  | none => rfl
  | some j =>
      have hne : j ≠ i := fun heq => howner (heq ▸ rfl)
      simp [held, SinkRun.put, hne]

@[simp] theorem held_put_self
    (s : SinkRun ρ N) (i : Fin N) (x : Instance ρ) :
    (s.put i x).held (some i) = x.forwarder.release?.toList := by
  simp [held, SinkRun.put]

/-- An instance that does not gain an epoch to acknowledge. -/
theorem Inv.owned_put
    {s : SinkRun ρ N} (hs : Inv s) (i : Fin N) {x : Instance ρ}
    (hrelease : x.forwarder.release?.toList.Sublist
      (s.instances i).forwarder.release?.toList) :
    Tokens.Owned s.gate.releasedEpochs s.acks (s.put i x).held := by
  refine hs.owned.lose fun owner => ?_
  by_cases howner : owner = some i
  · subst howner
    rw [held_put_self]
    exact hrelease
  · rw [held_put_of_ne s x howner]

theorem Inv.instanceStep
    {s s' : SinkRun ρ N} (hs : Inv s) {i : Fin N}
    {action : Instance.Action ρ} (h : s.instanceStep i action = some s') :
    Inv s' := by
  obtain ⟨x, hx, rfl⟩ := Option.map_eq_some_iff.mp h
  refine hs.put i ((hs.instances i).step hx) (Instance.returned_step hx) rfl
    rfl rfl (hs.owned_put i ?_)
  rw [Instance.release?_step hx]

theorem Inv.forward
    {s s' : SinkRun ρ N} (hs : Inv s) {i : Fin N} {nowMs : ℕ}
    (h : s.forward i nowMs = some s') : Inv s' := by
  simp only [SinkRun.forward] at h
  split at h
  case h_1 epoch rest hforwarder houtput =>
      obtain rfl := Option.some.inj h
      have hx := hs.instances i
      have hunfinished : i ∉ s.gate.finished := by
        intro hmem
        have := (hx.of_returned (hs.finished i hmem)).2
        simp [houtput] at this
      have hreached := hs.gate.step (.report i epoch nowMs)
        (if_pos ⟨hunfinished, hx.lt_of_output houtput⟩)
      refine ⟨hreached, ?_, ?_, ?_⟩
      · intro j
        by_cases heq : j = i
        · subst heq
          have hmore (e : CheckpointEpoch) (he : e ∈ s.gate.delivered j) :
              e ∈ s.gate.delivered j ++ [epoch] := List.mem_append_left _ he
          have hout := hx.forwarding.output
          rw [houtput, ackEpochs_cons_checkpointAck] at hout
          simp only [SinkRun.put, GateRun.afterReport,
            AlignerRun.deliverEpoch, Function.update_self]
          exact
            ⟨{ hx.writing with
                unacked := fun e he =>
                  (hx.writing.unacked e he).imp id (hmore e)
                returned := fun h e he =>
                  hmore e (hx.writing.returned h e he) },
              { hx.handling with },
              ⟨by simpa using hout, by simp⟩⟩
        · simp only [SinkRun.put, GateRun.afterReport,
            AlignerRun.deliverEpoch, Function.update_of_ne heq]
          exact hs.instances j
      · intro j hj
        have hne : j ≠ i := fun heq => hunfinished (heq ▸ hj)
        simp only [SinkRun.put, Function.update_of_ne hne]
        exact hs.finished j hj
      · have hnodup := hreached.nodup
        rw [releasedEpochs_afterReport] at hnodup ⊢
        refine hs.owned.mint (some i) hnodup ?_ fun owner =>
          held_put_of_ne s _
        refine (held_put_self s i _).trans ?_
        simp only [Forwarder.release?]
        split <;> rfl
  case h_2 => exact absurd h (by simp)

theorem Inv.sendAck
    {s s' : SinkRun ρ N} (hs : Inv s) {i : Fin N} {accepted : Bool}
    (h : s.sendAck i accepted = some s') : Inv s' := by
  simp only [SinkRun.sendAck] at h
  split at h
  case h_1 epoch hforwarder =>
      have hx := hs.instances i
      have hidle := hx.setForwarder .idle (s.instances i).failure (by simp)
      have hstopped := hx.setForwarder .stopped true (by simp)
      split at h
      · obtain rfl := Option.some.inj h
        refine hs.put i hidle id rfl rfl rfl ?_
        refine hs.owned.spend (some i) ?_ fun owner => held_put_of_ne s _
        refine Eq.trans ?_ (congrArg (epoch :: ·) (held_put_self s i _).symm)
        simp [held, hforwarder, Forwarder.release?]
      · obtain rfl := Option.some.inj h
        exact hs.put i hstopped id rfl rfl rfl
          (hs.owned_put i (by simp [Forwarder.release?]))
  case h_2 => exact absurd h (by simp)

theorem Inv.join
    {s s' : SinkRun ρ N} (hs : Inv s) {i : Fin N} {nowMs : ℕ}
    (h : s.join i nowMs = some s') : Inv s' := by
  simp only [SinkRun.join] at h
  split at h
  case isTrue hjoin =>
      split at h
      case h_1 hreturned =>
          obtain rfl := Option.some.inj h
          have hreported := ((hs.instances i).of_returned hreturned).1
          have hreached := hs.gate.step
            (.done i (streamEpochs (s.instances i).stream).max? nowMs)
            (if_pos ⟨hjoin.2.2, by rw [hreported]⟩)
          have hnodup := hreached.nodup
          rw [releasedEpochs_afterDone] at hnodup
          refine ⟨hreached, hs.instances, ?_, ?_⟩
          · intro j hj
            rcases Finset.mem_insert.mp hj with rfl | hj
            · exact hreturned
            · exact hs.finished j hj
          · rw [releasedEpochs_afterDone]
            refine hs.owned.mint none hnodup rfl fun owner howner => ?_
            cases owner with
            | none => exact absurd rfl howner
            | some j => rfl
      case h_2 =>
          obtain rfl := Option.some.inj h
          exact { hs with }
      case h_3 => exact absurd h (by simp)
  case isFalse => exact absurd h (by simp)

theorem Inv.sendJoinAck
    {s s' : SinkRun ρ N} (hs : Inv s) {accepted : Bool}
    (h : s.sendJoinAck accepted = some s') : Inv s' := by
  simp only [SinkRun.sendJoinAck] at h
  split at h
  case h_1 => exact absurd h (by simp)
  case h_2 epoch rest hjoin =>
      obtain rfl := Option.some.inj h
      refine ⟨hs.gate, hs.instances, hs.finished, ?_⟩
      cases accepted with
      | true =>
          refine hs.owned.spend none hjoin fun owner howner => ?_
          cases owner with
          | none => exact absurd rfl howner
          | some j => rfl
      | false =>
          refine hs.owned.lose fun owner => ?_
          cases owner with
          | none =>
              simp only [held, hjoin]
              exact List.sublist_cons_self _ _
          | some j => exact List.Sublist.refl _

theorem Inv.otherSink
    {s s' : SinkRun ρ N} (hs : Inv s) {call : GateCall N}
    (h : s.otherSink call = some s') : Inv s' := by
  simp only [SinkRun.otherSink] at h
  split at h
  case h_1 => exact absurd h (by simp)
  case h_2 => exact absurd h (by simp)
  case h_3 hreport hdone =>
      obtain ⟨gate, hgate, rfl⟩ := Option.map_eq_some_iff.mp h
      have hreached := hs.gate.step call hgate
      rcases GateRun.step_other hgate with ⟨i, epoch, nowMs, rfl⟩ |
        ⟨i, last, nowMs, rfl⟩ | ⟨-, hdelivered, hfinished, hreleases⟩
      · exact absurd rfl (hreport i epoch nowMs)
      · exact absurd rfl (hdone i last nowMs)
      · refine ⟨hreached, ?_, ?_, ?_⟩
        · rw [hdelivered]
          exact hs.instances
        · rw [hfinished]
          exact hs.finished
        · rw [GateRun.releasedEpochs, hreleases]
          exact hs.owned

theorem Inv.step
    {s s' : SinkRun ρ N} (hs : Inv s) {action : Action ρ N}
    (h : s.step action = some s') : Inv s' := by
  cases action with
  | on i action => exact hs.instanceStep h
  | forward i nowMs => exact hs.forward h
  | sendAck i accepted => exact hs.sendAck h
  | join i nowMs => exact hs.join h
  | sendJoinAck accepted => exact hs.sendJoinAck h
  | cancel =>
      obtain rfl := Option.some.inj h
      exact { hs with }
  | abort i =>
      simp only [SinkRun.step, abort] at h
      split at h
      · exact absurd h (by simp)
      · split at h
        · exact absurd h (by simp)
        case h_2 hwriter =>
            obtain rfl := Option.some.inj h
            have hx := hs.instances i
            have haborted : Instance.Inv
                { s.instances i with writer := .aborted }
                (s.gate.delivered i) :=
              ⟨hx.writing.giveUp rfl rfl rfl rfl (Finset.Subset.refl _),
                { hx.handling with }, { hx.forwarding with }⟩
            exact hs.put i haborted
              (fun hreturned => absurd hreturned (hwriter true)) rfl rfl rfl
              (hs.owned_put i (List.Sublist.refl _))
  | otherSink call => exact hs.otherSink h

/-! ## What an acknowledgement stands for -/

theorem Inv.reported_or_returned
    {s : SinkRun ρ N} (hs : Inv s) {epoch : CheckpointEpoch}
    (hepoch : epoch ∈ s.acks) (i : Fin N) :
    epoch ∈ s.gate.delivered i ∨
      (s.instances i).writer = .returned true :=
  (hs.gate.delivered_or_finished (hs.owned.spent_minted epoch hepoch) i).imp
    id (hs.finished i)

theorem Inv.acked_of_reported
    {s : SinkRun ρ N} (hs : Inv s) {epoch : CheckpointEpoch} {i : Fin N}
    (hepoch : epoch ∈ s.gate.delivered i) :
    epoch ∈ (s.instances i).acked := by
  rw [← (hs.instances i).forwarding.output]
  exact List.mem_append_left _ hepoch

theorem Inv.ackedFlushed {s : SinkRun ρ N} (hs : Inv s) :
    s.AckedFlushed := by
  intro epoch hepoch i
  have hx := hs.instances i
  rcases hs.reported_or_returned hepoch i with hreported | hreturned
  · refine ⟨hx.flushed (hs.acked_of_reported hreported), fun hnot => ?_⟩
    exact absurd (hx.reported_append_isPrefix.subset
      (List.mem_append_left _ hreported)) hnot
  · refine ⟨?_, fun _ => hreturned⟩
    intro front batch rest hstream hcarries
    have hmem : epoch ∈ streamEpochs (s.instances i).stream := by
      rw [hstream]
      refine List.mem_flatMap.mpr ⟨batch, by simp, ?_⟩
      simpa [RecordBatch.carries] using hcarries
    rw [← (hx.of_returned hreturned).1] at hmem
    exact hx.flushed (hs.acked_of_reported hmem) front batch rest hstream
      hcarries

theorem Inv.okAcked {s : SinkRun ρ N} (hs : Inv s) : s.OkAcked := by
  intro i hreturned epoch hepoch
  exact hs.acked_of_reported
    ((hs.instances i).writing.returned hreturned epoch hepoch)

/-! ## Failures -/

/-- The write of an instance that failed has not succeeded. -/
def FailedUnreturned (s : SinkRun ρ N) : Prop :=
  ∀ i, s.failedAt i ≠ none → (s.instances i).writer ≠ .returned true

theorem FailedUnreturned.of_writers
    {s s' : SinkRun ρ N} (hs : s.FailedUnreturned)
    (hfailed : s'.failedAt = s.failedAt)
    (hwriters : ∀ i, (s'.instances i).writer = .returned true →
      (s.instances i).writer = .returned true) : s'.FailedUnreturned := by
  intro i hi hreturned
  rw [hfailed] at hi
  exact hs i hi (hwriters i hreturned)

/-- Replacing an instance by one whose write has succeeded only if it had. -/
theorem writer_put
    {s : SinkRun ρ N} {i : Fin N} {x : Instance ρ}
    (hx : x.writer = .returned true →
      (s.instances i).writer = .returned true)
    (j : Fin N) (h : ((s.put i x).instances j).writer = .returned true) :
    (s.instances j).writer = .returned true := by
  simp only [SinkRun.put, Function.update_apply] at h
  split at h
  next heq => exact heq ▸ hx h
  · exact h

theorem FailedUnreturned.instanceStep
    {s s' : SinkRun ρ N} (hs : s.FailedUnreturned) {i : Fin N}
    {action : Instance.Action ρ} (hcond : s.NoFailedSuccess (.on i action))
    (h : s.instanceStep i action = some s') : s'.FailedUnreturned := by
  obtain ⟨x, hx, rfl⟩ := Option.map_eq_some_iff.mp h
  intro j hj hreturned
  by_cases hok : action = .returnOk
  · -- the step that returns leaves the other writes alone
    subst hok
    refine hs j hj ?_
    by_cases heq : j = i
    · exact absurd (heq ▸ hcond) hj
    · simpa [SinkRun.put, heq] using hreturned
  · have hbefore := writer_put
      (fun hreturned => Instance.writer_step hx hok hreturned) j hreturned
    by_cases hold : s.failedAt j = none
    · -- the instance fails in this step
      have hfails : action = .hook false ∧ j = i := by
        by_contra hnot
        refine hj ?_
        simp only
        split
        · have hne : j ≠ i := fun heq => hnot ⟨rfl, heq⟩
          simp [hne, hold]
        · exact hold
      obtain ⟨rfl, rfl⟩ := hfails
      exact hcond hbefore
    · exact hs j hold hbefore

theorem FailedUnreturned.step
    {s s' : SinkRun ρ N} (hs : s.FailedUnreturned) {action : Action ρ N}
    (hcond : s.NoFailedSuccess action) (h : s.step action = some s') :
    s'.FailedUnreturned := by
  cases action with
  | on i action => exact hs.instanceStep hcond h
  | forward i nowMs =>
      simp only [SinkRun.step, SinkRun.forward] at h
      split at h
      · obtain rfl := Option.some.inj h
        exact hs.of_writers rfl (writer_put id)
      · exact absurd h (by simp)
  | sendAck i accepted =>
      simp only [SinkRun.step, SinkRun.sendAck] at h
      split at h
      · split at h
        · obtain rfl := Option.some.inj h
          exact hs.of_writers rfl (writer_put id)
        · obtain rfl := Option.some.inj h
          exact hs.of_writers rfl (writer_put id)
      · exact absurd h (by simp)
  | join i nowMs =>
      simp only [SinkRun.step, SinkRun.join] at h
      repeat' split at h
      · obtain rfl := Option.some.inj h
        exact hs.of_writers rfl fun _ => id
      · obtain rfl := Option.some.inj h
        exact hs.of_writers rfl fun _ => id
      · exact absurd h (by simp)
      · exact absurd h (by simp)
  | sendJoinAck accepted =>
      simp only [SinkRun.step, SinkRun.sendJoinAck] at h
      split at h
      · exact absurd h (by simp)
      · obtain rfl := Option.some.inj h
        exact hs.of_writers rfl fun _ => id
  | cancel =>
      obtain rfl := Option.some.inj h
      exact hs.of_writers rfl fun _ => id
  | abort i =>
      simp only [SinkRun.step, abort] at h
      repeat' split at h
      · exact absurd h (by simp)
      · exact absurd h (by simp)
      · obtain rfl := Option.some.inj h
        exact hs.of_writers rfl (writer_put (by simp))
  | otherSink call =>
      simp only [SinkRun.step, SinkRun.otherSink] at h
      split at h
      · exact absurd h (by simp)
      · exact absurd h (by simp)
      · obtain ⟨gate, -, rfl⟩ := Option.map_eq_some_iff.mp h
        exact hs.of_writers rfl fun _ => id

theorem Inv.failureBlocks
    {s : SinkRun ρ N} (hs : Inv s) (hfailed : s.FailedUnreturned) :
    s.FailureBlocks := by
  intro i count hcount epoch hepoch
  have hmem := List.mem_of_mem_drop hepoch
  rcases hs.reported_or_returned hmem i with hreported | hreturned
  · exact hs.acked_of_reported hreported
  · refine absurd hreturned (hfailed i ?_)
    rw [Option.mem_def.mp hcount]
    simp

end SinkRun

open SinkRun

/-- The acknowledgements of a plugin sink.  In every state of every run, an
epoch is acknowledged for the sink at most once; it was then flushed by every
instance whose stream delivered it, and the write of every other instance has
succeeded; and a write succeeds only if all its markers are acked.  If no
instance fails whose write succeeds, a failed instance blocks every epoch that
it had not acknowledged. -/
theorem plugin_sink_acks_flushed
    (config : SinkConfig) (actions : List (Action ρ N)) (s : SinkRun ρ N)
    (hrun : Transition.run step (start ρ N config) actions = some s) :
    s.acks.Nodup ∧ s.AckedFlushed ∧ s.OkAcked ∧
      (Transition.AllSteps step NoFailedSuccess (start ρ N config) actions →
        s.FailureBlocks) := by
  have hinv : s.Inv := Transition.run_invariant
    (fun _ _ _ hs h => Inv.step hs h) (inv_start config) hrun
  refine ⟨hinv.owned.spent_nodup, hinv.ackedFlushed, hinv.okAcked,
    fun hcond => hinv.failureBlocks ?_⟩
  exact Transition.run_invariant_of_allSteps
    (fun _ _ _ hs hP h => FailedUnreturned.step hs hP h)
    (by simp [start, FailedUnreturned]) hcond hrun

/-- A sink whose channels hold four messages. -/
def fourMessages : SinkConfig where
  sinkId := "sink"
  gates := fun _ => none
  unregistered := rfl
  inputCapacity := 4
  outputCapacity := 4

/-- The first epoch is flushed by both instances; then one of them fails on a
batch, and the second epoch, flushed by the other, is not acknowledged. -/
theorem plugin_sink_acks_flushed_two_epochs :
    ∃ s, Transition.run step (start ℕ 2 fourMessages)
        [.on 0 .send, .on 0 (.read ⟨[5], [.marker 1 3]⟩), .on 0 .send,
          .on 0 .send, .on 0 .take, .on 0 (.hook true), .on 0 .take,
          .on 0 (.hook true), .on 0 .take, .on 0 (.hook true), .on 0 .ack,
          .on 1 .send, .on 1 (.read ⟨[7], [.marker 1 3]⟩), .on 1 .send,
          .on 1 .send, .on 1 .take, .on 1 (.hook true), .on 1 .take,
          .on 1 (.hook true), .on 1 .take, .on 1 (.hook true), .on 1 .ack,
          .forward 0 8, .on 0 .clearUnacked, .forward 1 9,
          .on 1 .clearUnacked, .sendAck 1 true,
          .on 1 (.read ⟨[8], [.marker 2 4]⟩), .on 1 .send, .on 1 .take,
          .on 1 (.hook false), .on 1 .report, .on 1 .receiveError,
          .on 1 .send, .on 1 .fail, .join 1 10,
          .on 0 (.read ⟨[6], [.marker 2 4]⟩), .on 0 .send, .on 0 .send,
          .on 0 .take, .on 0 (.hook true), .on 0 .take, .on 0 (.hook true),
          .on 0 .ack, .forward 0 11, .on 0 .clearUnacked] = some s ∧
      (s.acks = [1] ∧ s.gate.delivered 0 = [1, 2] ∧
        s.failedAt 1 = some 1) ∧
      s.acks.Nodup ∧ s.AckedFlushed ∧ s.OkAcked ∧ s.FailureBlocks := by
  refine Exists.imp (fun s (h : _ ∧ _) => ⟨h.1, h.2, ?_⟩)
    (Transition.exists_run_of_decide ?_)
  · obtain ⟨honce, hflushed, hok, hblocks⟩ :=
      plugin_sink_acks_flushed _ _ s h.1
    exact ⟨honce, hflushed, hok, hblocks (by decide +kernel)⟩
  · decide +kernel

/-- The write of an instance succeeds while a batch behind its last marker is
in the channel.  The hook fails on the batch, and an epoch that the instance
has not acknowledged is acknowledged for the sink afterwards. -/
theorem plugin_sink_acks_after_failure :
    ∃ s, Transition.run step (start ℕ 2 fourMessages)
        [.on 1 .send, .on 1 (.read ⟨[7], []⟩), .on 1 .send, .on 1 .endInput,
          .on 1 .returnOk, .join 1 8, .on 1 .take, .on 1 (.hook true),
          .on 1 .take, .on 1 (.hook false), .on 0 .send,
          .on 0 (.read ⟨[5], [.marker 1 3]⟩), .on 0 .send, .on 0 .send,
          .on 0 .take, .on 0 (.hook true), .on 0 .take, .on 0 (.hook true),
          .on 0 .take, .on 0 (.hook true), .on 0 .ack, .forward 0 9,
          .on 0 .clearUnacked, .sendAck 0 true] = some s ∧
      s.acks = [1] ∧ ¬ s.FailureBlocks :=
  Transition.exists_run_of_decide (by decide +kernel)

end PluginSink

end Streamling
