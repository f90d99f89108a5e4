import Streamling.Support.Run
import Streamling.Checkpoints.RecordBatch
import Streamling.Checkpoints.SinkGate

/-!
# The partitioned plugin sink

A partitioned plugin sink is written by one plugin instance per stream.  For
each instance three tasks share two bounded channels: `write_all` sends the
batches and checkpoint messages of the stream to the plugin; the dispatcher
calls the plugin's hooks and acknowledges markers; and the ack forwarder
reports the acknowledgements to the marker gate of the sink.  The executor
joins the writes and releases the share of a finished stream.

When a hook fails, when an instance exits and when a send gives up on a full
channel is left to the run.  The fields below the acknowledgements sent record
what happened and are read by no step.
-/

namespace Streamling

namespace PluginSink

open SinkAckGates

variable {ρ : Type} {N : ℕ}

/-! ## Messages between host and plugin -/

/-- The messages `write_all` sends to the plugin. -/
inductive PluginMsg (ρ : Type) where
  | init
  | nextBatch (batch : RecordBatch ρ)
  | checkpointMarker (epoch : CheckpointEpoch)
  | checkpointFinalizer (epoch : CheckpointEpoch)
  deriving DecidableEq

/-- The messages a sink dispatcher puts on its output channel. -/
inductive OutputMsg where
  | checkpointAck (epoch : CheckpointEpoch)
  | error
  deriving DecidableEq

/-- What of a checkpoint message is sent to the plugin. -/
def controlOf? : CheckpointMessage → Option (PluginMsg ρ)
  | .marker epoch _ => some (.checkpointMarker epoch)
  | .finalizer epoch => some (.checkpointFinalizer epoch)
  | _ => none

/-- The markers and finalizers among checkpoint messages. -/
def controls (messages : List CheckpointMessage) : List (PluginMsg ρ) :=
  messages.filterMap controlOf?

/-- What is sent to the plugin for a batch. -/
def messagesOf (batch : RecordBatch ρ) : List (PluginMsg ρ) :=
  .nextBatch batch :: controls batch.messages

/-- What is sent to the plugin for a stream. -/
def written (stream : List (RecordBatch ρ)) : List (PluginMsg ρ) :=
  .init :: stream.flatMap messagesOf

/-- The epoch of a marker. -/
def PluginMsg.markerEpoch? : PluginMsg ρ → Option CheckpointEpoch
  | .checkpointMarker epoch => some epoch
  | _ => none

/-- The batch in a message. -/
def PluginMsg.batch? : PluginMsg ρ → Option (RecordBatch ρ)
  | .nextBatch batch => some batch
  | _ => none

/-- The marker epochs among messages to the plugin, in order. -/
def sentEpochs (messages : List (PluginMsg ρ)) : List CheckpointEpoch :=
  messages.filterMap PluginMsg.markerEpoch?

/-- The batches among messages to the plugin, in order. -/
def batchesOf (messages : List (PluginMsg ρ)) : List (RecordBatch ρ) :=
  messages.filterMap PluginMsg.batch?

/-- The epoch of an acknowledgement. -/
def OutputMsg.ackEpoch? : OutputMsg → Option CheckpointEpoch
  | .checkpointAck epoch => some epoch
  | .error => none

/-- The epochs acknowledged by output messages, in order. -/
def ackEpochs (messages : List OutputMsg) : List CheckpointEpoch :=
  messages.filterMap OutputMsg.ackEpoch?

/-- The marker epochs of a stream, in order. -/
def streamEpochs (stream : List (RecordBatch ρ)) : List CheckpointEpoch :=
  stream.flatMap fun batch => markerEpochs batch.messages

/-! ## The tasks of an instance -/

/-- Where `write_all` stands. -/
inductive Writer (ρ : Type) where
  | sending (queue : List (PluginMsg ρ))
  | waiting (inputEnded : Bool)
  | returned (ok : Bool)
  | aborted
  deriving DecidableEq

/-- The messages of the current batch that are not sent yet. -/
def Writer.queue : Writer ρ → List (PluginMsg ρ)
  | .sending queue => queue
  | _ => []

/-- Nothing of the stream was given up. -/
def Writer.complete : Writer ρ → Bool
  | .sending _ => true
  | .waiting _ => true
  | .returned ok => ok
  | .aborted => false

/-- Where the dispatcher stands.  A failed one drains its input. -/
inductive Dispatcher (ρ : Type) where
  | waiting
  | processing (message : PluginMsg ρ)
  | acking (epoch : CheckpointEpoch)
  | draining (unsentReport : Bool)
  | exited
  deriving DecidableEq

/-- The dispatcher calls hooks. -/
def Dispatcher.running : Dispatcher ρ → Bool
  | .waiting => true
  | .processing _ => true
  | .acking _ => true
  | _ => false

/-- The dispatcher has ended. -/
def Dispatcher.hasExited : Dispatcher ρ → Bool
  | .exited => true
  | _ => false

/-- The message whose hook has been called and has not returned. -/
def Dispatcher.inHand : Dispatcher ρ → List (PluginMsg ρ)
  | .processing message => [message]
  | _ => []

/-- The acknowledgement that waits for room. -/
def Dispatcher.unsentAck : Dispatcher ρ → List CheckpointEpoch
  | .acking epoch => [epoch]
  | _ => []

/-- Where the ack forwarder stands. -/
inductive Forwarder where
  | idle
  | reported (epoch : CheckpointEpoch) (release : Bool)
  | releasing (epoch : CheckpointEpoch)
  | stopped
  deriving DecidableEq

/-- The epoch the forwarder is about to acknowledge for the sink. -/
def Forwarder.release? : Forwarder → Option CheckpointEpoch
  | .reported epoch release => if release then some epoch else none
  | .releasing epoch => some epoch
  | _ => none

/-- A plugin instance with the tasks that serve it. -/
structure Instance (ρ : Type) where
  writer : Writer ρ
  input : List (PluginMsg ρ)
  dispatcher : Dispatcher ρ
  output : List OutputMsg
  forwarder : Forwarder
  /-- The epochs whose marker was sent to the instance and not yet acked. -/
  unacked : Finset CheckpointEpoch
  /-- The instance reported a failure. -/
  failure : Bool
  /-- The batches read from the stream. -/
  stream : List (RecordBatch ρ)
  sent : List (PluginMsg ρ)
  /-- The messages whose hook returned without an error, in order. -/
  handled : List (PluginMsg ρ)
  /-- The epochs acknowledged by the plugin. -/
  acked : List CheckpointEpoch

/-- What a sink is started with. -/
structure SinkConfig where
  sinkId : String
  gates : SinkAckGates
  unregistered : gates sinkId = none
  inputCapacity : ℕ
  outputCapacity : ℕ

namespace Instance

/-- `write_all` begins with the plugin's initialization. -/
def start : Instance ρ where
  writer := .sending [.init]
  input := []
  dispatcher := .waiting
  output := []
  forwarder := .idle
  unacked := ∅
  failure := false
  stream := []
  sent := []
  handled := []
  acked := []

/-! ## `write_all` -/

/-- Read the next batch of the stream, whose markers increase. -/
def read (x : Instance ρ) (batch : RecordBatch ρ) : Option (Instance ρ) :=
  match x.writer with
  | .waiting false =>
      if (streamEpochs (x.stream ++ [batch])).Pairwise (· < ·) then
        some
          { x with
            stream := x.stream ++ [batch]
            writer := .sending (messagesOf batch) }
      else none
  | _ => none

/-- An epoch is unacked before its marker is sent. -/
def announce (x : Instance ρ) (message : PluginMsg ρ) :
    Finset CheckpointEpoch :=
  message.markerEpoch?.elim x.unacked fun epoch => insert epoch x.unacked

/-- Send a message to the plugin, once there is room. -/
def send (config : SinkConfig) (x : Instance ρ) : Option (Instance ρ) :=
  match x.writer with
  | .sending (message :: rest) =>
      if x.input.length < config.inputCapacity then
        some
          { x with
            unacked := x.announce message
            input := x.input ++ [message]
            sent := x.sent ++ [message]
            writer := if rest = [] then .waiting false else .sending rest }
      else none
  | _ => none

/-- Give up on a channel that stays full. -/
def sendFails (config : SinkConfig) (x : Instance ρ) : Option (Instance ρ) :=
  match x.writer with
  | .sending (message :: _) =>
      if x.input.length < config.inputCapacity then none
      else
        some
          { x with
            unacked := x.announce message
            writer := .returned false }
  | _ => none

/-- The stream ended, or the record limit is reached. -/
def endInput (x : Instance ρ) : Option (Instance ρ) :=
  match x.writer with
  | .waiting false => some { x with writer := .waiting true }
  | _ => none

/-- The stream ended with an error. -/
def streamFails (x : Instance ρ) : Option (Instance ρ) :=
  match x.writer with
  | .waiting false => some { x with writer := .returned false }
  | _ => none

/-- The write fails: the instance reported a failure or exited. -/
def fail (x : Instance ρ) : Option (Instance ρ) :=
  match x.writer with
  | .waiting _ =>
      if x.failure || x.dispatcher.hasExited then
        some { x with writer := .returned false }
      else none
  | _ => none

/-- The write succeeds: the input has ended and every marker is acked. -/
def returnOk (x : Instance ρ) : Option (Instance ρ) :=
  match x.writer with
  | .waiting true =>
      if x.failure = false ∧ x.unacked = ∅ then
        some { x with writer := .returned true }
      else none
  | _ => none

/-! ## The dispatcher -/

/-- Take a message off the input channel and call its hook. -/
def take (x : Instance ρ) : Option (Instance ρ) :=
  match x.dispatcher, x.input with
  | .waiting, message :: rest =>
      some { x with input := rest, dispatcher := .processing message }
  | _, _ => none

/-- The hook returns.  A marker is acknowledged; after an error the input is
drained. -/
def hook (x : Instance ρ) (ok : Bool) : Option (Instance ρ) :=
  match x.dispatcher with
  | .processing message =>
      if ok then
        some
          { x with
            handled := x.handled ++ [message]
            dispatcher := message.markerEpoch?.elim .waiting .acking }
      else some { x with dispatcher := .draining true }
  | _ => none

/-- Send the acknowledgement of a marker, once there is room. -/
def ack (config : SinkConfig) (x : Instance ρ) : Option (Instance ρ) :=
  match x.dispatcher with
  | .acking epoch =>
      if x.output.length < config.outputCapacity then
        some
          { x with
            output := x.output ++ [.checkpointAck epoch]
            acked := x.acked ++ [epoch]
            dispatcher := .waiting }
      else none
  | _ => none

/-- Report the failure, if there is room. -/
def report (config : SinkConfig) (x : Instance ρ) : Option (Instance ρ) :=
  match x.dispatcher with
  | .draining true =>
      if x.output.length < config.outputCapacity then
        some
          { x with
            output := x.output ++ [.error]
            dispatcher := .draining false }
      else none
  | _ => none

/-- Discard a message after a failure. -/
def discard (x : Instance ρ) : Option (Instance ρ) :=
  match x.dispatcher, x.input with
  | .draining _, _ :: rest => some { x with input := rest }
  | _, _ => none

/-- The dispatcher ends: the plugin stopped running, was terminated or
panicked, or an acknowledgement was given up. -/
def exit (x : Instance ρ) : Option (Instance ρ) :=
  if x.dispatcher.hasExited then none
  else some { x with dispatcher := .exited }

/-! ## The ack forwarder -/

/-- The reported epoch is acked. -/
def clearUnacked (x : Instance ρ) : Option (Instance ρ) :=
  match x.forwarder with
  | .reported epoch release =>
      some
        { x with
          unacked := x.unacked.erase epoch
          forwarder := if release then .releasing epoch else .idle }
  | _ => none

/-- The forwarder takes the plugin's failure report. -/
def receiveError (x : Instance ρ) : Option (Instance ρ) :=
  match x.forwarder, x.output with
  | .idle, .error :: rest => some { x with output := rest, failure := true }
  | _, _ => none

/-- The forwarder is cancelled. -/
def stopForwarder (x : Instance ρ) : Option (Instance ρ) :=
  match x.forwarder with
  | .idle => some { x with forwarder := .stopped }
  | _ => none

/-- The steps of an instance that leave the gate alone. -/
inductive Action (ρ : Type) where
  | read (batch : RecordBatch ρ)
  | send
  | sendFails
  | endInput
  | streamFails
  | fail
  | returnOk
  | take
  | hook (ok : Bool)
  | ack
  | report
  | discard
  | exit
  | clearUnacked
  | receiveError
  | stopForwarder
  deriving DecidableEq

def step (config : SinkConfig) (x : Instance ρ) :
    Action ρ → Option (Instance ρ)
  | .read batch => x.read batch
  | .send => x.send config
  | .sendFails => x.sendFails config
  | .endInput => x.endInput
  | .streamFails => x.streamFails
  | .fail => x.fail
  | .returnOk => x.returnOk
  | .take => x.take
  | .hook ok => x.hook ok
  | .ack => x.ack config
  | .report => x.report config
  | .discard => x.discard
  | .exit => x.exit
  | .clearUnacked => x.clearUnacked
  | .receiveError => x.receiveError
  | .stopForwarder => x.stopForwarder

end Instance

/-! ## The sink -/

/-- A run of the `N` instances of a sink. -/
structure SinkRun (ρ : Type) (N : ℕ) where
  config : SinkConfig
  instances : Fin N → Instance ρ
  /-- The gate, with the epochs reported by each instance and the streams
  whose write was joined. -/
  gate : GateRun N
  joining : Bool
  /-- The epochs the executor is about to acknowledge for the sink. -/
  joinAcks : List CheckpointEpoch
  /-- The acknowledgements sent for the sink. -/
  acks : List CheckpointEpoch
  /-- How many of them were sent when a hook of the instance failed. -/
  failedAt : Fin N → Option ℕ

namespace SinkRun

def start (ρ : Type) (N : ℕ) (config : SinkConfig) : SinkRun ρ N where
  config := config
  instances := fun _ => .start
  gate := .start N (registerSinkStreams config.gates config.sinkId N)
  joining := true
  joinAcks := []
  acks := []
  failedAt := fun _ => none

/-- Replace an instance. -/
def put (s : SinkRun ρ N) (i : Fin N) (x : Instance ρ) : SinkRun ρ N :=
  { s with instances := Function.update s.instances i x }

/-- A step of one instance. -/
def instanceStep (s : SinkRun ρ N) (i : Fin N)
    (action : Instance.Action ρ) : Option (SinkRun ρ N) :=
  ((s.instances i).step s.config action).map fun x =>
    { s.put i x with
      failedAt :=
        match action with
        | .hook false => Function.update s.failedAt i (some s.acks.length)
        | _ => s.failedAt }

/-- The ack forwarder of an instance takes an acknowledgement and reports it
at the gate. -/
def forward (s : SinkRun ρ N) (i : Fin N) (nowMs : ℕ) :
    Option (SinkRun ρ N) :=
  match (s.instances i).forwarder, (s.instances i).output with
  | .idle, .checkpointAck epoch :: rest =>
      let release :=
        (reportMarkerAtSink s.gate.gates s.config.sinkId epoch nowMs).2
      some
        { s.put i
            { s.instances i with
              output := rest
              forwarder := .reported epoch release } with
          gate := s.gate.afterReport s.config.sinkId i epoch nowMs }
  | _, _ => none

/-- The ack forwarder sends an acknowledgement for the sink.  It stops if the
coordinator's channel rejects it. -/
def sendAck (s : SinkRun ρ N) (i : Fin N) (accepted : Bool) :
    Option (SinkRun ρ N) :=
  match (s.instances i).forwarder with
  | .releasing epoch =>
      if accepted then
        some
          { s.put i { s.instances i with forwarder := .idle } with
            acks := s.acks ++ [epoch] }
      else
        some
          (s.put i
            { s.instances i with
              failure := true
              forwarder := .stopped })
  | _ => none

/-- The executor joins the write of an instance: a successful one releases its
share of the gate, and the first error ends the join. -/
def join (s : SinkRun ρ N) (i : Fin N) (nowMs : ℕ) : Option (SinkRun ρ N) :=
  if s.joining = true ∧ s.joinAcks = [] ∧ i ∉ s.gate.finished then
    match (s.instances i).writer with
    | .returned true =>
        let lastMarker := (streamEpochs (s.instances i).stream).max?
        some
          { s with
            gate := s.gate.afterDone s.config.sinkId i lastMarker nowMs
            joinAcks :=
              (sinkStreamDone s.gate.gates s.config.sinkId lastMarker
                nowMs).2 }
    | .returned false => some { s with joining := false }
    | _ => none
  else none

/-- The executor sends an acknowledgement for the sink.  A rejected one is
only logged. -/
def sendJoinAck (s : SinkRun ρ N) (accepted : Bool) :
    Option (SinkRun ρ N) :=
  match s.joinAcks with
  | [] => none
  | epoch :: rest =>
      some
        { s with
          joinAcks := rest
          acks := if accepted then s.acks ++ [epoch] else s.acks }

/-- The writes left are aborted when the join has ended. -/
def abort (s : SinkRun ρ N) (i : Fin N) : Option (SinkRun ρ N) :=
  if s.joining then none
  else
    match (s.instances i).writer with
    | .returned _ => none
    | _ => some (s.put i { s.instances i with writer := .aborted })

/-- Another sink uses the table of gates. -/
def otherSink (s : SinkRun ρ N) (call : GateCall N) :
    Option (SinkRun ρ N) :=
  match call with
  | .report _ _ _ | .done _ _ _ => none
  | _ =>
      (GateRun.step s.config.sinkId s.gate call).map fun gate =>
        { s with gate := gate }

/-- The steps a run is made of. -/
inductive Action (ρ : Type) (N : ℕ) where
  | on (i : Fin N) (action : Instance.Action ρ)
  | forward (i : Fin N) (nowMs : ℕ)
  | sendAck (i : Fin N) (accepted : Bool)
  | join (i : Fin N) (nowMs : ℕ)
  | sendJoinAck (accepted : Bool)
  | cancel
  | abort (i : Fin N)
  | otherSink (call : GateCall N)

def step (s : SinkRun ρ N) : Action ρ N → Option (SinkRun ρ N)
  | .on i action => s.instanceStep i action
  | .forward i nowMs => s.forward i nowMs
  | .sendAck i accepted => s.sendAck i accepted
  | .join i nowMs => s.join i nowMs
  | .sendJoinAck accepted => s.sendJoinAck accepted
  | .cancel => some { s with joining := false }
  | .abort i => s.abort i
  | .otherSink call => s.otherSink call

/-! ## What an acknowledgement stands for -/

/-- The hooks of an instance returned without an error for every batch of its
stream up to the one that carries the epoch, and then for its marker. -/
def Flushed (x : Instance ρ) (epoch : CheckpointEpoch) : Prop :=
  ∀ front batch rest, x.stream = front ++ batch :: rest →
    batch.carries epoch = true →
      ∃ before after,
        x.handled = before ++ .checkpointMarker epoch :: after ∧
          batchesOf before = front ++ [batch]

/-- An acknowledged epoch was flushed by every instance whose stream delivered
it, and the write of every other instance has succeeded. -/
def AckedFlushed (s : SinkRun ρ N) : Prop :=
  ∀ epoch ∈ s.acks, ∀ i,
    Flushed (s.instances i) epoch ∧
      (epoch ∉ streamEpochs (s.instances i).stream →
        (s.instances i).writer = .returned true)

/-- A write succeeds only if the plugin acknowledged every marker sent. -/
def OkAcked (s : SinkRun ρ N) : Prop :=
  ∀ i, (s.instances i).writer = .returned true →
    ∀ epoch ∈ sentEpochs (s.instances i).sent,
      epoch ∈ (s.instances i).acked

/-- Once a hook of an instance failed, only epochs that the instance
acknowledged are acknowledged for the sink. -/
def FailureBlocks (s : SinkRun ρ N) : Prop :=
  ∀ i, ∀ count ∈ s.failedAt i, ∀ epoch ∈ s.acks.drop count,
    epoch ∈ (s.instances i).acked

instance (s : SinkRun ρ N) : Decidable s.FailureBlocks :=
  inferInstanceAs (Decidable (∀ i, ∀ count ∈ s.failedAt i, _))

/-- No instance fails after its write has succeeded, and no write succeeds
after its instance has failed. -/
def NoFailedSuccess (s : SinkRun ρ N) : Action ρ N → Prop
  | .on i (.hook false) => (s.instances i).writer ≠ .returned true
  | .on i .returnOk => s.failedAt i = none
  | _ => True

instance [DecidableEq ρ] (s : SinkRun ρ N) :
    ∀ action, Decidable (s.NoFailedSuccess action)
  | .on i (.hook false) =>
      inferInstanceAs (Decidable ((s.instances i).writer ≠ .returned true))
  | .on i .returnOk => inferInstanceAs (Decidable (s.failedAt i = none))
  | .on _ (.hook true) | .on _ (.read _) | .on _ .send | .on _ .sendFails
  | .on _ .endInput | .on _ .streamFails | .on _ .fail | .on _ .take
  | .on _ .ack | .on _ .report | .on _ .discard | .on _ .exit
  | .on _ .clearUnacked | .on _ .receiveError | .on _ .stopForwarder
  | .forward _ _ | .sendAck _ _ | .join _ _ | .sendJoinAck _ | .cancel
  | .abort _ | .otherSink _ => inferInstanceAs (Decidable True)

end SinkRun

end PluginSink

end Streamling
