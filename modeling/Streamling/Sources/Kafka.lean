import Mathlib.Algebra.Order.Group.Nat
import Mathlib.Logic.Function.Basic
import Streamling.Support.Run
import Streamling.Support.OrderedMap
import Streamling.Checkpoints.RecordBatch

/-!
# The Kafka source

One instance of the source consumes the partitions assigned to it.  Each turn
of its loop builds a batch, drains the coordinator's messages, records the
consumer's position for every marker, commits on every finalizer and then
sends the batch; the messages drained ride the next batch or the final flush.

A message is represented by its partition and offset.  What the broker, the
state backend and the clock decide is left to the run: when a batch is
closed, whether a position can be read, whether a commit is accepted, how
many entries each attempt of `put_many` writes, whether its answer arrives and
when the retries end.
The fields below the batches sent record what happened and are read by no
step.
-/

namespace Streamling

namespace Kafka

/-! ## Partitions and offsets -/

structure Message where
  partition : ℕ
  offset : ℕ
  deriving DecidableEq

/-- A partition list of the consumer, in which `none` is an invalid
offset. -/
abbrev TopicPartitionList := List (ℕ × Option ℕ)

/-- Equality of partition lists: the same number of elements, and every
element of the one is found in the other. -/
def sameOffsets (xs ys : TopicPartitionList) : Bool :=
  decide (xs.length = ys.length) &&
    xs.all fun x => decide (ys.find? (fun y => y.1 = x.1) = some x)

/-- The elements with a valid offset. -/
def validOffsets (position : TopicPartitionList) : List (ℕ × ℕ) :=
  position.filterMap fun x => x.2.map fun offset => (x.1, offset)

/-- Overwrite the offsets of the partitions in `entries`. -/
def setOffsets (offsets : ℕ → Option ℕ) (entries : List (ℕ × ℕ)) :
    ℕ → Option ℕ :=
  entries.foldl (fun f entry => Function.update f entry.1 (some entry.2))
    offsets

/-- The position covers the message: a restart from it does not read the
message again. -/
def covers (position : TopicPartitionList) (message : Message) : Prop :=
  ∃ next, (message.partition, some next) ∈ position ∧ message.offset < next

/-- The offset after the last message of a partition. -/
def nextOffset (messages : List Message) (partition : ℕ) : Option ℕ :=
  ((messages.filter fun m => m.partition = partition).getLast?).map
    fun m => m.offset + 1

/-- The position of a consumer that has consumed exactly `messages`. -/
def positionAfter (assigned : List ℕ) (messages : List Message) :
    TopicPartitionList :=
  assigned.map fun partition => (partition, nextOffset messages partition)

/-- The messages of a list of batches, in order. -/
def batchRows (batches : List (RecordBatch Message)) : List Message :=
  batches.flatMap RecordBatch.rows

/-! ## State -/

/-- Where the consume loop stands. -/
inductive Phase where
  | top
  | building (rows : List Message)
  | draining (batch : RecordBatch Message)
      (messages : List CheckpointMessage)
  | processing (batch : RecordBatch Message)
      (messages : List CheckpointMessage)
  | sending (batch : RecordBatch Message)
  | exited (graceful : Bool)
  | flushing (terminal : Option CheckpointEpoch)
  | awaiting (terminal : CheckpointEpoch)
  | done
  | failed
  deriving DecidableEq

/-- The batch built and not yet sent. -/
def Phase.unsent : Phase → List (RecordBatch Message)
  | .draining batch _ => [batch]
  | .processing batch _ => [batch]
  | .sending batch => [batch]
  | _ => []

/-- The coordinator messages drained and not yet processed. -/
def Phase.drained : Phase → List CheckpointMessage
  | .draining _ messages => messages
  | .processing _ messages => messages
  | _ => []

/-- The messages decoded for the batch under construction. -/
def Phase.decoded : Phase → List Message
  | .building rows => rows
  | _ => []

/-- What an instance is started with, after the startup seek. -/
structure SourceConfig where
  assigned : List ℕ
  assigned_nodup : assigned.Nodup
  batchSizeLimit : ℕ
  /-- The first offset fetched from a partition. -/
  startOffset : ℕ → ℕ
  broker : ℕ → Option ℕ
  persisted : ℕ → Option ℕ
  /-- Partitions with a persisted offset were sought to it. -/
  seek : ∀ partition ∈ assigned, ∀ offset ∈ persisted partition,
    startOffset partition = offset
  /-- The instance takes part in terminal checkpoints. -/
  checkpointControl : Bool

/-- The offsets found in the state backend on startup. -/
def SourceConfig.sought (config : SourceConfig) : TopicPartitionList :=
  config.assigned.filterMap fun partition =>
    (config.persisted partition).map fun offset => (partition, some offset)

/-! ## Committing a finalized epoch -/

/-- The offsets an instance keeps, and those held for it by the broker and
the state backend. -/
structure OffsetStore where
  /-- The positions recorded and not yet committed. -/
  consumerOffsets : OrderedMap CheckpointEpoch TopicPartitionList
  committedOffsets : Option TopicPartitionList
  broker : ℕ → Option ℕ
  persisted : ℕ → Option ℕ
  /-- The epochs whose finalizer was received, and the terminal epoch once
  it was reported final. -/
  finalized : List CheckpointEpoch
  brokerCommits : List (CheckpointEpoch × List (ℕ × ℕ))
  puts : List (CheckpointEpoch × ℕ × ℕ)

/-- One attempt of `put_many`: how many entries it writes, and whether its
answer arrives in time. -/
structure PutAttempt where
  written : ℕ
  answered : Bool
  deriving DecidableEq

/-- The attempt wrote all entries, and the source is told so. -/
def PutAttempt.succeeds (attempt : PutAttempt) (entries : List (ℕ × ℕ)) :
    Bool :=
  attempt.answered && decide (entries.length ≤ attempt.written)

/-- What the broker and the state backend do on one commit. -/
structure CommitOutcome where
  brokerAccepts : Bool
  attempts : List PutAttempt
  deriving DecidableEq

/-- The entry is put in one of the attempts. -/
def CommitOutcome.Puts (outcome : CommitOutcome) (entries : List (ℕ × ℕ))
    (entry : ℕ × ℕ) : Prop :=
  ∃ attempt ∈ outcome.attempts, entry ∈ entries.take attempt.written

/-- How a commit ends: `Ok(true)`, `Ok(false)` or an error. -/
inductive CommitResult where
  | covered
  | notCommitted
  | error
  deriving DecidableEq

namespace OffsetStore

/-- The offsets sought on startup are taken to be committed. -/
def start (config : SourceConfig) : OffsetStore where
  consumerOffsets := ∅
  committedOffsets :=
    if config.sought = [] then none else some config.sought
  broker := config.broker
  persisted := config.persisted
  finalized := []
  brokerCommits := []
  puts := []

/-- The state backend writes entries of a position. -/
def put (o : OffsetStore) (epoch : CheckpointEpoch)
    (entries : List (ℕ × ℕ)) : OffsetStore :=
  { o with
    persisted := setOffsets o.persisted entries
    puts := o.puts ++ entries.map fun entry => (epoch, entry) }

/-- Save a position, with retries.  An attempt writes its entries one after
the other, or all or none of them.  What a failed attempt wrote stays, and one
that wrote everything fails too if it is not answered in time. -/
def putMany (o : OffsetStore) (epoch : CheckpointEpoch)
    (entries : List (ℕ × ℕ)) : List PutAttempt → OffsetStore × Bool
  | [] => (o, false)
  | attempt :: attempts =>
      let o' := o.put epoch (entries.take attempt.written)
      if attempt.succeeds entries then (o', true)
      else putMany o' epoch entries attempts

/-- The position of an epoch is no longer needed. -/
def forget (o : OffsetStore) (epoch : CheckpointEpoch) : OffsetStore :=
  { o with consumerOffsets := o.consumerOffsets.remove epoch }

/-- Commit the valid offsets of a position to the broker and save them. -/
def commitPosition (o : OffsetStore) (epoch : CheckpointEpoch)
    (entries : List (ℕ × ℕ)) (outcome : CommitOutcome) :
    OffsetStore × CommitResult :=
  if outcome.brokerAccepts then
    let committed :=
      { o with
        broker := setOffsets o.broker entries
        brokerCommits := o.brokerCommits ++ [(epoch, entries)] }
    match committed.putMany epoch entries outcome.attempts with
    | (saved, true) =>
        (forget
          { saved with
            committedOffsets :=
              some (entries.map fun entry => (entry.1, some entry.2)) }
          epoch,
          .covered)
    | (saved, false) => (saved, .error)
  else (o.forget epoch, .notCommitted)

/-- Commit the position recorded for a finalized epoch. -/
def commitOffsetsForFinalizedEpoch (o : OffsetStore)
    (epoch : CheckpointEpoch) (outcome : CommitOutcome) :
    OffsetStore × CommitResult :=
  match o.consumerOffsets.find? epoch with
  | none => (o, .covered)
  | some position =>
      if o.committedOffsets.any (sameOffsets position) then
        (o.forget epoch, .covered)
      else if validOffsets position = [] then (o.forget epoch, .covered)
      else o.commitPosition epoch (validOffsets position) outcome

/-- The commit of the epoch gets to saving this position: the broker accepted
it, and it has valid offsets and is not the one last committed. -/
structure Saves (o : OffsetStore) (epoch : CheckpointEpoch)
    (outcome : CommitOutcome) (position : TopicPartitionList) : Prop where
  recorded : o.consumerOffsets.find? epoch = some position
  different : o.committedOffsets.any (sameOffsets position) = false
  valid : validOffsets position ≠ []
  accepted : outcome.brokerAccepts = true

/-- Commit an epoch whose finalizer arrived. -/
def finalize (o : OffsetStore) (epoch : CheckpointEpoch)
    (outcome : CommitOutcome) : OffsetStore × CommitResult :=
  commitOffsetsForFinalizedEpoch
    { o with finalized := o.finalized ++ [epoch] } epoch outcome

/-- Keep the position recorded for an epoch. -/
def record (o : OffsetStore) (epoch : CheckpointEpoch)
    (position : TopicPartitionList) : OffsetStore :=
  { o with consumerOffsets := o.consumerOffsets.insert epoch position }

end OffsetStore

/-- A position recorded for an epoch. -/
structure Recording where
  epoch : CheckpointEpoch
  position : TopicPartitionList
  /-- The number of batches closed before. -/
  closed : ℕ
  deriving DecidableEq

/-- A run of a source instance. -/
structure SourceRun where
  config : SourceConfig
  position : ℕ → Option ℕ
  subscription : List CheckpointMessage
  checkpointMessagesBuffer : List CheckpointMessage
  offsets : OffsetStore
  phase : Phase
  drainAndStop : Bool
  receiverGone : Bool
  sent : List (RecordBatch Message)
  consumed : List Message
  built : List (RecordBatch Message)
  /-- The epochs of the markers broadcast, and the terminal epoch. -/
  minted : List CheckpointEpoch
  recordings : List Recording

namespace SourceRun

def start (config : SourceConfig) : SourceRun where
  config := config
  position := fun _ => none
  subscription := []
  checkpointMessagesBuffer := []
  offsets := OffsetStore.start config
  phase := .top
  drainAndStop := false
  receiverGone := false
  sent := []
  consumed := []
  built := []
  minted := []
  recordings := []

/-- The recorded positions by epoch. -/
def recorded (s : SourceRun) : List (CheckpointEpoch × TopicPartitionList) :=
  s.recordings.map fun recording => (recording.epoch, recording.position)

/-- `consumer.position()`: per assigned partition the offset after the last
message consumed, invalid where none was. -/
def consumerPosition (s : SourceRun) : TopicPartitionList :=
  s.config.assigned.map fun partition => (partition, s.position partition)

/-! ## The consume loop -/

/-- Start a turn of the loop, or leave it when a shutdown was requested. -/
def enterIteration (s : SourceRun) (shutdown : Bool) : Option SourceRun :=
  match s.phase with
  | .top =>
      some
        { s with
          phase :=
            if s.drainAndStop || shutdown then .exited true
            else .building [] }
  | _ => none

/-- The consumer can deliver this message next. -/
def canFetch (s : SourceRun) (message : Message) : Bool :=
  decide (message.partition ∈ s.config.assigned) &&
    decide ((s.position message.partition).getD
      (s.config.startOffset message.partition) ≤ message.offset)

/-- Take a message off the consumer. -/
def fetch (s : SourceRun) (message : Message) : SourceRun :=
  { s with
    position :=
      Function.update s.position message.partition (some (message.offset + 1))
    consumed := s.consumed ++ [message] }

/-- Consume a message and buffer its row.  The batch is closed once it has
reached its size limit. -/
def consume (s : SourceRun) (message : Message) : Option SourceRun :=
  match s.phase with
  | .building rows =>
      if s.canFetch message = true ∧
          (rows = [] ∨ rows.length < s.config.batchSizeLimit) then
        some { s.fetch message with phase := .building (rows ++ [message]) }
      else none
  | _ => none

/-- A message that cannot be decoded ends the stream with an error. -/
def decodeError (s : SourceRun) (message : Message) : Option SourceRun :=
  match s.phase with
  | .building _ =>
      if s.canFetch message then
        some { s.fetch message with phase := .failed }
      else none
  | _ => none

/-- The batch is complete: its size or its deadline is reached, or a shutdown
was requested.  The buffered checkpoint messages are put on it. -/
def closeBatch (s : SourceRun) (shutdown : Bool) : Option SourceRun :=
  match s.phase with
  | .building rows =>
      some
        { s with
          phase := .draining ⟨rows, s.checkpointMessagesBuffer⟩ []
          checkpointMessagesBuffer := []
          drainAndStop := s.drainAndStop || shutdown
          built := s.built ++ [⟨rows, s.checkpointMessagesBuffer⟩] }
  | _ => none

/-- Drain one coordinator message, or go on when there is none. -/
def receive (s : SourceRun) : Option SourceRun :=
  match s.phase with
  | .draining batch messages =>
      match s.subscription with
      | message :: rest =>
          some
            { s with
              subscription := rest
              phase := .draining batch (messages ++ [message]) }
      | [] => some { s with phase := .processing batch messages }
  | _ => none

/-- Record the position for an epoch, if it can be read. -/
def recordPosition (s : SourceRun) (epoch : CheckpointEpoch)
    (positionOk : Bool) : SourceRun :=
  if positionOk then
    { s with
      offsets := s.offsets.record epoch s.consumerPosition
      recordings := s.recordings ++
        [⟨epoch, s.consumerPosition, s.built.length⟩] }
  else s

/-- Process one drained message, or go on to send the batch. -/
def processMessage (s : SourceRun) (positionOk : Bool)
    (outcome : CommitOutcome) : Option SourceRun :=
  match s.phase with
  | .processing batch (message :: rest) =>
      let buffered :=
        { s with
          checkpointMessagesBuffer := s.checkpointMessagesBuffer ++ [message]
          phase := .processing batch rest }
      match message with
      | .marker epoch _ => some (buffered.recordPosition epoch positionOk)
      | .finalizer epoch =>
          -- only an error of the commit ends the stream
          match s.offsets.finalize epoch outcome with
          | (offsets, .error) =>
              some { buffered with offsets := offsets, phase := .failed }
          | (offsets, _) => some { buffered with offsets := offsets }
      | _ => some buffered
  | .processing batch [] => some { s with phase := .sending batch }
  | _ => none

/-- Send the batch downstream; the loop is left if the receiver is gone. -/
def send (s : SourceRun) : Option SourceRun :=
  match s.phase with
  | .sending batch =>
      if s.receiverGone then some { s with phase := .exited false }
      else some { s with sent := s.sent ++ [batch], phase := .top }
  | _ => none

/-! ## The terminal checkpoint -/

/-- After a graceful exit the terminal epoch is minted or reused, the
position recorded for it, and its marker buffered.  The coordinator broadcasts
no marker for it. -/
def beginTerminal (s : SourceRun) (terminal : CheckpointEpoch)
    (createdAtMs : ℕ) (positionOk : Bool) : Option SourceRun :=
  match s.phase with
  | .exited graceful =>
      if graceful && s.config.checkpointControl then
        if terminal ∈ s.minted then none
        else
          let recorded :=
            recordPosition
              { s with minted := s.minted ++ [terminal] } terminal positionOk
          some
            { recorded with
              checkpointMessagesBuffer := s.checkpointMessagesBuffer ++
                [.marker terminal createdAtMs]
              phase := .flushing (some terminal) }
      else some { s with phase := .flushing none }
  | _ => none

/-- Flush the buffered messages on a final batch. -/
def flush (s : SourceRun) : Option SourceRun :=
  match s.phase with
  | .flushing terminal =>
      let next := terminal.elim Phase.done Phase.awaiting
      if s.checkpointMessagesBuffer = [] then some { s with phase := next }
      else
        let batch : RecordBatch Message := ⟨[], s.checkpointMessagesBuffer⟩
        some
          { s with
            checkpointMessagesBuffer := []
            built := s.built ++ [batch]
            sent := if s.receiverGone then s.sent else s.sent ++ [batch]
            phase := next }
  | _ => none

/-- The terminal epoch finalized in time: commit it.  An error is only
logged. -/
def terminalFinalized (s : SourceRun) (outcome : CommitOutcome) :
    Option SourceRun :=
  match s.phase with
  | .awaiting terminal =>
      some
        { s with
          offsets := (s.offsets.finalize terminal outcome).1
          phase := .done }
  | _ => none

/-! ## Runs -/

/-- A broadcast of the coordinator, which sends the marker of an epoch
once. -/
def broadcast (s : SourceRun) (message : CheckpointMessage) :
    Option SourceRun :=
  match message with
  | .marker epoch _ =>
      if epoch ∈ s.minted then none
      else
        some
          { s with
            subscription := s.subscription ++ [message]
            minted := s.minted ++ [epoch] }
  | _ => some { s with subscription := s.subscription ++ [message] }

/-- The steps a run is made of. -/
inductive Action where
  | broadcast (message : CheckpointMessage)
  | dropReceiver
  | enterIteration (shutdown : Bool)
  | consume (message : Message)
  | decodeError (message : Message)
  | convertError
  | closeBatch (shutdown : Bool)
  | receive
  | processMessage (positionOk : Bool) (outcome : CommitOutcome)
  | send
  | beginTerminal (terminal : CheckpointEpoch) (createdAtMs : ℕ)
      (positionOk : Bool)
  | flush
  | terminalFinalized (outcome : CommitOutcome)
  | terminalTimeout

def step (s : SourceRun) : Action → Option SourceRun
  | .broadcast message => s.broadcast message
  | .dropReceiver => some { s with receiverGone := true }
  | .enterIteration shutdown => s.enterIteration shutdown
  | .consume message => s.consume message
  | .decodeError message => s.decodeError message
  | .convertError =>
      match s.phase with
      | .building _ => some { s with phase := .failed }
      | _ => none
  | .closeBatch shutdown => s.closeBatch shutdown
  | .receive => s.receive
  | .processMessage positionOk outcome => s.processMessage positionOk outcome
  | .send => s.send
  | .beginTerminal terminal createdAtMs positionOk =>
      s.beginTerminal terminal createdAtMs positionOk
  | .flush => s.flush
  | .terminalFinalized outcome => s.terminalFinalized outcome
  | .terminalTimeout =>
      match s.phase with
      | .awaiting _ => some { s with phase := .done }
      | _ => none

/-- The consume loop was left, in either of its two ways. -/
def leftLoop (s : SourceRun) : Bool :=
  match s.phase with
  | .exited _ | .flushing _ | .awaiting _ | .done => true
  | _ => false

/-- The epoch for which the step records the position. -/
def records (s : SourceRun) : Action → Option CheckpointEpoch
  | .processMessage true _ =>
      match s.phase with
      | .processing _ (.marker epoch _ :: _) => some epoch
      | _ => none
  | .beginTerminal terminal _ true =>
      match s.phase with
      | .exited true =>
          if s.config.checkpointControl then some terminal else none
      | _ => none
  | _ => none

/-- The epoch whose commit the step decides, with what the broker and the
state backend answer. -/
def finalizes (s : SourceRun) :
    Action → Option (CheckpointEpoch × CommitOutcome)
  | .processMessage _ outcome =>
      match s.phase with
      | .processing _ (.finalizer epoch :: _) => some (epoch, outcome)
      | _ => none
  | .terminalFinalized outcome =>
      match s.phase with
      | .awaiting terminal => some (terminal, outcome)
      | _ => none
  | _ => none

/-! ## The checkpoint cut -/

/-- The position recorded for an epoch is the one after exactly the messages
of the batches sent before the batch that carries its marker, and covers no
other message ever consumed. -/
def CutHolds (s : SourceRun) : Prop :=
  ∀ epoch position, (epoch, position) ∈ s.recorded →
    ∀ front batch rest, s.sent = front ++ batch :: rest →
      batch.carries epoch = true →
        position = positionAfter s.config.assigned (batchRows front) ∧
          ∀ message ∈ s.consumed,
            covers position message ↔ message ∈ batchRows front

/-- No message is consumed twice; the batches built hold the messages
consumed, in order, when the loop is left; and the batches sent are the
first of them. -/
def InOneBatch (s : SourceRun) : Prop :=
  s.consumed.Nodup ∧
    (s.leftLoop = true → batchRows s.built = s.consumed) ∧
    s.sent <+: s.built

/-- Offsets are committed for finalized epochs only, and they are those of
the recorded position; the broker and the state backend hold what was last
committed and written. -/
structure CommitsRecorded (s : SourceRun) : Prop where
  commits : ∀ epoch entries, (epoch, entries) ∈ s.offsets.brokerCommits →
    epoch ∈ s.offsets.finalized ∧
      ∃ position, (epoch, position) ∈ s.recorded ∧
        entries = validOffsets position
  puts : ∀ epoch entry, (epoch, entry) ∈ s.offsets.puts →
    ∃ entries, (epoch, entries) ∈ s.offsets.brokerCommits ∧ entry ∈ entries
  broker : s.offsets.broker =
    setOffsets s.config.broker (s.offsets.brokerCommits.flatMap Prod.snd)
  persisted : s.offsets.persisted =
    setOffsets s.config.persisted (s.offsets.puts.map Prod.snd)

/-- What a step does to the broker and the state backend. -/
structure CommitStep (s : SourceRun) (action : Action) (s' : SourceRun) :
    Prop where
  /-- Without a finalizer nothing changes. -/
  unchanged : s.finalizes action = none →
    s'.offsets.broker = s.offsets.broker ∧
      s'.offsets.persisted = s.offsets.persisted
  /-- A commit reported as covered leaves the recorded position at the broker
  and in the state backend. -/
  covered : ∀ epoch outcome, s.finalizes action = some (epoch, outcome) →
    ∀ position, s.offsets.consumerOffsets.find? epoch = some position →
      (s.offsets.finalize epoch outcome).2 = .covered →
        ∀ entry ∈ validOffsets position,
          s'.offsets.broker entry.1 = some entry.2 ∧
            s'.offsets.persisted entry.1 = some entry.2
  /-- A refused broker commit changes neither. -/
  refused : ∀ epoch outcome, s.finalizes action = some (epoch, outcome) →
    outcome.brokerAccepts = false →
      s'.offsets.broker = s.offsets.broker ∧
        s'.offsets.persisted = s.offsets.persisted
  /-- A commit that does not get to saving a position changes no persisted
  offset. -/
  unsaved : ∀ epoch outcome, s.finalizes action = some (epoch, outcome) →
    (∀ position, ¬ s.offsets.Saves epoch outcome position) →
      s'.offsets.persisted = s.offsets.persisted
  /-- One that does fails exactly if no attempt succeeds. -/
  fails : ∀ epoch outcome, s.finalizes action = some (epoch, outcome) →
    ∀ position, s.offsets.Saves epoch outcome position →
      ((s.offsets.finalize epoch outcome).2 = .error ↔
        ∀ attempt ∈ outcome.attempts,
          attempt.succeeds (validOffsets position) = false)
  /-- Whether it fails or not, a partition has the recorded offset if that
  was put in one of the attempts, and else keeps its own. -/
  perPartition : ∀ epoch outcome,
    s.finalizes action = some (epoch, outcome) →
      ∀ position, s.offsets.Saves epoch outcome position →
        ∀ partition,
          (∀ next, (partition, next) ∈ validOffsets position →
            outcome.Puts (validOffsets position) (partition, next) →
              s'.offsets.persisted partition = some next) ∧
          ((∀ next, (partition, next) ∈ validOffsets position →
            ¬ outcome.Puts (validOffsets position) (partition, next)) →
              s'.offsets.persisted partition =
                s.offsets.persisted partition)

end SourceRun

end Kafka

end Streamling
