import Streamling.Sources.Kafka

/-!
# The hybrid source in its Kafka phase

The hybrid source runs an inner source and forwards its batches.  A forwarder
task buffers the markers and finalizers of a subscription of its own; the main
task merges the buffer onto the next batch of the inner stream, or flushes it
on a synthetic batch when the inner stream has ended.  A marker therefore
reaches the stream twice: once through the buffer of the hybrid source and
once through the inner source.

The three tasks are interleaved freely.  The inner stream is a channel of
bounded capacity, of which the Kafka run knows the sending end.
-/

namespace Streamling

namespace Hybrid

open Kafka (Message batchRows covers)

/-! ## Merging checkpoint messages -/

/-- Keep the first marker and the first finalizer of every epoch that is not
among those seen already. -/
def dedup (seenMarker seenFinalizer : List CheckpointEpoch) :
    List CheckpointMessage → List CheckpointMessage
  | [] => []
  | .marker epoch createdAtMs :: rest =>
      if epoch ∈ seenMarker then dedup seenMarker seenFinalizer rest
      else
        .marker epoch createdAtMs ::
          dedup (epoch :: seenMarker) seenFinalizer rest
  | .finalizer epoch :: rest =>
      if epoch ∈ seenFinalizer then dedup seenMarker seenFinalizer rest
      else
        .finalizer epoch :: dedup seenMarker (epoch :: seenFinalizer) rest
  | message :: rest => message :: dedup seenMarker seenFinalizer rest

/-- Put the drained messages on a batch, after those it carries.  The batch
is left alone when there is nothing to merge. -/
def mergePendingMarkers (batch : RecordBatch Message)
    (drained : List CheckpointMessage) : RecordBatch Message :=
  if drained = [] then batch
  else ⟨batch.rows, dedup [] [] (batch.messages ++ drained)⟩

/-- The synthetic batch the drained messages are flushed on. -/
def synthBatch (drained : List CheckpointMessage) :
    Option (RecordBatch Message) :=
  if drained = [] then none else some ⟨[], dedup [] [] drained⟩

/-! ## State -/

/-- Where the main task stands. -/
inductive Stage where
  | streaming
  | draining
  | terminal
  | marking (terminal : CheckpointEpoch)
  | awaiting (terminal : CheckpointEpoch)
  | finalizing
  | closing
  | done
  deriving DecidableEq

structure SourceConfig where
  /-- The inner source is not wired to terminal checkpoints. -/
  kafka : Kafka.SourceConfig
  /-- The capacity of the inner stream. -/
  capacity : ℕ
  checkpointControl : Bool

/-- A run of the hybrid source over its Kafka phase. -/
structure SourceRun where
  capacity : ℕ
  checkpointControl : Bool
  kafka : Kafka.SourceRun
  subscription : List CheckpointMessage
  pending : List CheckpointMessage
  stage : Stage
  /-- The batch taken from the inner stream and not yet merged. -/
  merging : Option (RecordBatch Message)
  /-- The batch that waits for room downstream. -/
  outgoing : Option (RecordBatch Message)
  emitted : List (RecordBatch Message)
  /-- The number of inner batches merged. -/
  forwarded : ℕ
  /-- The terminal epoch, once begun. -/
  terminalEpoch : Option CheckpointEpoch
  /-- For the first copy of a marker, the number of inner batches merged
  when it was attached, its own included. -/
  attachedAt : List (CheckpointEpoch × ℕ)

namespace SourceRun

def start (config : SourceConfig) : SourceRun where
  capacity := config.capacity
  checkpointControl := config.checkpointControl
  kafka := .start { config.kafka with checkpointControl := false }
  subscription := []
  pending := []
  stage := .streaming
  merging := none
  outgoing := none
  emitted := []
  forwarded := 0
  terminalEpoch := none
  attachedAt := []

/-! ## The coordinator and the inner source -/

/-- A broadcast reaches both subscriptions.  The terminal epoch has no
broadcast marker. -/
def broadcast (s : SourceRun) (message : CheckpointMessage) :
    Option SourceRun :=
  if message.markerEpoch? ≠ none ∧ message.markerEpoch? = s.terminalEpoch then
    none
  else
    (s.kafka.step (.broadcast message)).map fun kafka =>
      { s with
        kafka := kafka
        subscription := s.subscription ++ [message] }

/-- The inner stream has no room for another batch. -/
def full (s : SourceRun) : Bool :=
  !s.kafka.receiverGone &&
    decide (s.forwarded + s.merging.toList.length + s.capacity ≤
      s.kafka.sent.length)

/-- The inner source can take this step on its own: it waits for room before
it sends, and its receiver is dropped when the main task has left the inner
stream. -/
def enabled (s : SourceRun) : Kafka.SourceRun.Action → Bool
  | .broadcast _ => false
  | .dropReceiver => decide (s.stage ≠ .streaming)
  | .send => !s.full
  | .flush => decide (s.kafka.checkpointMessagesBuffer = []) || !s.full
  | _ => true

/-- A step of the inner source. -/
def innerStep (s : SourceRun) (action : Kafka.SourceRun.Action) :
    Option SourceRun :=
  if s.enabled action then
    (s.kafka.step action).map fun kafka => { s with kafka := kafka }
  else none

/-- The forwarder takes a message and buffers markers and finalizers. -/
def forward (s : SourceRun) : Option SourceRun :=
  match s.subscription with
  | [] => none
  | message :: rest =>
      let pending :=
        match message with
        | .marker _ _ | .finalizer _ => s.pending ++ [message]
        | _ => s.pending
      some { s with subscription := rest, pending := pending }

/-! ## The main task -/

/-- Take the next batch of the inner stream. -/
def takeBatch (s : SourceRun) : Option SourceRun :=
  match s.stage, s.merging, s.outgoing, s.kafka.sent[s.forwarded]? with
  | .streaming, none, none, some batch => some { s with merging := some batch }
  | _, _, _, _ => none

/-- A batch that cannot be aligned to the schema ends the stream with an
error. -/
def normalizeFails (s : SourceRun) : Option SourceRun :=
  match s.merging with
  | some _ => some { s with merging := none, stage := .closing }
  | none => none

/-- Attach the markers of a batch that no emitted batch carries. -/
def attach (s : SourceRun) (batch : RecordBatch Message) :
    List (CheckpointEpoch × ℕ) :=
  s.attachedAt ++
    ((markerEpochs batch.messages).filter fun epoch =>
      !decide (RecordBatch.Carried epoch s.emitted)).map
        fun epoch => (epoch, s.forwarded)

/-- Put a batch on its way downstream. -/
def put (s : SourceRun) (batch : RecordBatch Message) : SourceRun :=
  { s with outgoing := some batch, attachedAt := s.attach batch }

/-- Merge the buffer onto the batch taken.  If the batch cannot be rebuilt, it
goes out as it is and the messages are queued again. -/
def merge (s : SourceRun) (succeeds : Bool) : Option SourceRun :=
  match s.merging, s.outgoing with
  | some batch, none =>
      let taken := { s with merging := none, forwarded := s.forwarded + 1 }
      if succeeds then
        some
          { taken.put (mergePendingMarkers batch s.pending) with
            pending := [] }
      else some (taken.put batch)
  | _, _ => none

/-- The batch is received downstream, or the receiver is gone and nothing is
emitted any more. -/
def emit (s : SourceRun) (received : Bool) : Option SourceRun :=
  match s.outgoing with
  | some batch =>
      if received then
        some { s with emitted := s.emitted ++ [batch], outgoing := none }
      else some { s with stage := .done, outgoing := none }
  | none => none

/-- The inner stream ended, with an error if the inner source failed. -/
def innerEnds (s : SourceRun) : Option SourceRun :=
  match s.stage, s.merging, s.outgoing, s.kafka.sent[s.forwarded]? with
  | .streaming, none, none, none =>
      match s.kafka.phase with
      | .done => some { s with stage := .draining }
      | .failed => some { s with stage := .closing }
      | _ => none
  | _, _, _, _ => none

/-- What follows a flush. -/
def afterFlush (s : SourceRun) : Option Stage :=
  match s.stage with
  | .draining => some (if s.checkpointControl then .terminal else .closing)
  | .marking terminal => some (.awaiting terminal)
  | .finalizing => some .closing
  | .closing => some .done
  | _ => none

/-- Flush the buffer on a synthetic batch. -/
def flush (s : SourceRun) : Option SourceRun :=
  match s.outgoing, s.afterFlush with
  | none, some stage =>
      match synthBatch s.pending with
      | none => some { s with stage := stage }
      | some batch => some { s.put batch with pending := [], stage := stage }
  | _, _ => none

/-- Begin the terminal checkpoint: its marker is buffered for a flush. -/
def beginTerminal (s : SourceRun) (terminal : CheckpointEpoch)
    (createdAtMs : ℕ) : Option SourceRun :=
  match s.stage, s.outgoing with
  | .terminal, none =>
      if terminal ∈ s.kafka.minted then none
      else
        some
          { s with
            stage := .marking terminal
            terminalEpoch := some terminal
            pending := s.pending ++ [.marker terminal createdAtMs] }
  | _, _ => none

/-- The wait for the terminal epoch ends; the finalizer is only emitted if the
epoch was finalized in time. -/
def terminalEnds (s : SourceRun) (finalized : Bool) : Option SourceRun :=
  match s.stage, s.outgoing with
  | .awaiting terminal, none =>
      if finalized then
        some
          { s with
            stage := .finalizing
            pending := s.pending ++ [.finalizer terminal] }
      else some { s with stage := .closing }
  | _, _ => none

/-! ## Runs -/

/-- The steps a run is made of. -/
inductive Action where
  | broadcast (message : CheckpointMessage)
  | inner (action : Kafka.SourceRun.Action)
  | forward
  | takeBatch
  | normalizeFails
  | merge (succeeds : Bool)
  | emit (received : Bool)
  | innerEnds
  | flush
  | beginTerminal (terminal : CheckpointEpoch) (createdAtMs : ℕ)
  | terminalEnds (finalized : Bool)

def step (s : SourceRun) : Action → Option SourceRun
  | .broadcast message => s.broadcast message
  | .inner action => s.innerStep action
  | .forward => s.forward
  | .takeBatch => s.takeBatch
  | .normalizeFails => s.normalizeFails
  | .merge succeeds => s.merge succeeds
  | .emit received => s.emit received
  | .innerEnds => s.innerEnds
  | .flush => s.flush
  | .beginTerminal terminal createdAtMs => s.beginTerminal terminal createdAtMs
  | .terminalEnds finalized => s.terminalEnds finalized

/-! ## The checkpoint cut -/

/-- The emitted batches up to the first one that carries the marker of an
epoch hold every message that `covered` says is covered. -/
def ReceivedBefore (s : SourceRun) (epoch : CheckpointEpoch)
    (covered : Message → Prop) : Prop :=
  ∀ front batch rest, s.emitted = front ++ batch :: rest →
    batch.carries epoch = true → ¬ RecordBatch.Carried epoch front →
      ∀ message ∈ s.kafka.consumed, covered message →
        message ∈ batchRows (front ++ [batch])

/-- The position recorded for an epoch covers only messages that were emitted
before, or with, the first marker of the epoch; and so do the offsets
committed to the broker and put in the state backend for it. -/
structure CutHolds (s : SourceRun) : Prop where
  recorded : ∀ epoch position, (epoch, position) ∈ s.kafka.recorded →
    s.ReceivedBefore epoch (covers position)
  committed : ∀ epoch entries,
    (epoch, entries) ∈ s.kafka.offsets.brokerCommits →
      s.ReceivedBefore epoch fun message =>
        ∃ next, (message.partition, next) ∈ entries ∧ message.offset < next
  persisted : ∀ epoch partition next,
    (epoch, partition, next) ∈ s.kafka.offsets.puts →
      s.ReceivedBefore epoch fun message =>
        message.partition = partition ∧ message.offset < next

/-- No batch with rows that was closed before the position of the epoch was
recorded lies behind the first `merged` inner batches. -/
def NoRowsAhead (s : SourceRun) (epoch : CheckpointEpoch) (merged : ℕ) :
    Prop :=
  ∀ recording ∈ s.kafka.recordings, recording.epoch = epoch →
    batchRows ((s.kafka.built.take recording.closed).drop merged) = []

/-- The step does not put rows between the hybrid source's copy of a marker
and the position the inner source records for it: when the copy is attached,
no such batch is ahead of it; and when the position is recorded after that,
no batch with rows was closed in between. -/
def NoRowsBetween (s : SourceRun) : Action → Prop
  | .merge true => ∀ epoch ∈ markerEpochs s.pending,
      ¬ RecordBatch.Carried epoch s.emitted →
        s.NoRowsAhead epoch (s.forwarded + 1)
  | .flush => ∀ epoch ∈ markerEpochs s.pending,
      ¬ RecordBatch.Carried epoch s.emitted →
        s.NoRowsAhead epoch s.forwarded
  | .inner action => ∀ epoch ∈ s.kafka.records action,
      ∀ attached ∈ s.attachedAt, attached.1 = epoch →
        batchRows (s.kafka.built.drop attached.2) = []
  | _ => True

instance (s : SourceRun) (epoch : CheckpointEpoch) (merged : ℕ) :
    Decidable (s.NoRowsAhead epoch merged) :=
  inferInstanceAs (Decidable (∀ recording ∈ s.kafka.recordings, _))

instance (s : SourceRun) : ∀ action, Decidable (s.NoRowsBetween action)
  | .merge true => inferInstanceAs (Decidable (∀ epoch ∈ _, _))
  | .flush => inferInstanceAs (Decidable (∀ epoch ∈ _, _))
  | .inner action =>
      inferInstanceAs (Decidable (∀ epoch ∈ s.kafka.records action, _))
  | .merge false | .broadcast _ | .forward | .takeBatch | .normalizeFails
  | .emit _ | .innerEnds | .beginTerminal _ _ | .terminalEnds _ =>
      inferInstanceAs (Decidable True)

end SourceRun

end Hybrid

end Streamling
