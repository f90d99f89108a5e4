import Streamling.Support.Run
import Streamling.Checkpoints.RecordBatch

/-!
# The plugin source

A plugin source is run by two parties that share two bounded channels.  The
dispatcher lives on the plugin's side: it generates batches, sends them on
the output channel and, between two batches or while the channel is full,
handles the checkpoint messages of the input channel.  The host forwards the
coordinator's messages into the input channel and turns the output channel
into a stream of record batches.

A generated batch is represented by its number, in the place of its rows.
The fields below the stream record what happened and are read by no step.
-/

namespace Streamling

namespace PluginSource

/-! ## Messages between host and plugin -/

/-- The checkpoint messages that cross the channels in either direction. -/
inductive ControlMsg where
  | checkpointMarker (epoch : CheckpointEpoch)
  | checkpointFinalizer (epoch : CheckpointEpoch)
  deriving DecidableEq

/-- The messages a source dispatcher puts on its output channel. -/
inductive OutputMsg where
  | nextBatch (batch : ℕ)
  | control (message : ControlMsg)
  | terminate
  | error
  deriving DecidableEq

/-- The epoch of a marker. -/
def ControlMsg.markerEpoch? : ControlMsg → Option CheckpointEpoch
  | .checkpointMarker epoch => some epoch
  | .checkpointFinalizer _ => none

/-- What of a coordinator message is forwarded to the plugin. -/
def controlOf? : CheckpointMessage → Option ControlMsg
  | .marker epoch _ => some (.checkpointMarker epoch)
  | .finalizer epoch => some (.checkpointFinalizer epoch)
  | _ => none

/-- The markers and finalizers among checkpoint messages. -/
def controls (messages : List CheckpointMessage) : List ControlMsg :=
  messages.filterMap controlOf?

/-- The generated batch in an output message. -/
def OutputMsg.batch? : OutputMsg → Option ℕ
  | .nextBatch batch => some batch
  | _ => none

/-- The checkpoint message in an output message. -/
def OutputMsg.control? : OutputMsg → Option ControlMsg
  | .control message => some message
  | _ => none

/-- The batches among output messages, in order. -/
def batchesOf (messages : List OutputMsg) : List ℕ :=
  messages.filterMap OutputMsg.batch?

/-- The checkpoint messages among output messages, in order. -/
def controlsOf (messages : List OutputMsg) : List ControlMsg :=
  messages.filterMap OutputMsg.control?

/-! ## The two parties -/

/-- Where the dispatcher stands.  `waiting` is the batch whose send found the
output full: the control messages are then handled by its retry callback. -/
inductive Dispatcher where
  | top
  | generating
  | sending (batch : ℕ)
  | handling (waiting : Option ℕ)
  | forwarding (waiting : Option ℕ) (message : ControlMsg)
  | consulting (batch : ℕ)
  | failing (unsentReport : Bool)
  | completing
  | exited
  deriving DecidableEq

/-- The generated batch the dispatcher has not sent yet. -/
def Dispatcher.held? : Dispatcher → Option ℕ
  | .sending batch => some batch
  | .handling waiting => waiting
  | .forwarding waiting _ => waiting
  | .consulting batch => some batch
  | _ => none

/-- The checkpoint message whose hook returned and which is not sent yet. -/
def Dispatcher.forwarded? : Dispatcher → Option ControlMsg
  | .forwarding _ message => some message
  | _ => none

/-- The retry callback is about to ask whether the plugin is running. -/
def Dispatcher.consults : Dispatcher → Bool
  | .consulting _ => true
  | _ => false

/-- Where the host's loop stands. -/
inductive Host where
  | polling
  | looking (dispatcherExited : Bool)
  | emitting (batch : RecordBatch ℕ) (final : Bool)
  | turning
  | forwarding (message : ControlMsg)
  | finishing
  | unsubscribing
  | done
  | failed
  deriving DecidableEq

/-- The batch the host is sending downstream. -/
def Host.inHand : Host → List (RecordBatch ℕ)
  | .emitting batch _ => [batch]
  | _ => []

/-- The message the host is sending to the plugin. -/
def Host.toPlugin : Host → List ControlMsg
  | .forwarding message => [message]
  | _ => []

/-- The host has left its loop because the plugin completed. -/
def Host.leftLoop : Host → Bool
  | .emitting _ final => final
  | .finishing => true
  | .unsubscribing => true
  | .done => true
  | _ => false

/-- The host has taken its last look at the subscription. -/
def Host.flushed : Host → Bool
  | .emitting _ final => final
  | .unsubscribing => true
  | .done => true
  | _ => false

/-- The host stands between two transfers of its loop. -/
def Host.between : Host → Bool
  | .polling | .looking _ | .turning | .forwarding _ | .failed => true
  | _ => false

/-- The host still holds its subscription. -/
def Host.subscribed : Host → Bool
  | .done => false
  | .failed => false
  | _ => true

/-- A call of the plugin's `process_checkpoint_marker`. -/
structure HookCall where
  epoch : CheckpointEpoch
  /-- The number of `generate_batch` calls that had returned a batch. -/
  generated : ℕ
  /-- The batch in whose retry callback the hook was called. -/
  waiting : Option ℕ
  deriving DecidableEq

/-- A run of a plugin source instance. -/
structure SourceRun where
  inputCapacity : ℕ
  outputCapacity : ℕ
  isRunning : Bool
  /-- The host's subscription to the coordinator's channel. -/
  subscription : List CheckpointMessage
  input : List ControlMsg
  output : List OutputMsg
  dispatcher : Dispatcher
  host : Host
  checkpointBuffer : List CheckpointMessage
  epochCreatedAt : CheckpointEpoch → Option ℕ
  stream : List (RecordBatch ℕ)
  /-- The number of batches generated. -/
  generated : ℕ
  hooks : List HookCall
  /-- The batches whose send was given up. -/
  dropped : List ℕ
  sent : List OutputMsg
  received : List OutputMsg
  /-- The markers the coordinator has broadcast. -/
  broadcasts : List CheckpointEpoch
  /-- The messages read off the subscription after the loop. -/
  drained : List CheckpointMessage

/-- The capacities of the two channels. -/
structure Capacities where
  input : ℕ
  output : ℕ
  input_pos : 0 < input
  output_pos : 0 < output

namespace SourceRun

/-- The instance after its initialization. -/
def start (capacities : Capacities) : SourceRun where
  inputCapacity := capacities.input
  outputCapacity := capacities.output
  isRunning := true
  subscription := []
  input := []
  output := []
  dispatcher := .top
  host := .polling
  checkpointBuffer := []
  epochCreatedAt := fun _ => none
  stream := []
  generated := 0
  hooks := []
  dropped := []
  sent := []
  received := []
  broadcasts := []
  drained := []

/-! ## The dispatcher -/

/-- Put a message on the output channel if it has room. -/
def trySend (s : SourceRun) (message : OutputMsg) (next : Dispatcher) :
    Option SourceRun :=
  if s.output.length < s.outputCapacity then
    some
      { s with
        output := s.output ++ [message]
        sent := s.sent ++ [message]
        dispatcher := next }
  else none

/-- `generate_batch` returns a batch or an error, which is only logged. -/
def generateBatch (s : SourceRun) (succeeds : Bool) : SourceRun :=
  if succeeds then
    { s with
      dispatcher := .sending s.generated
      generated := s.generated + 1 }
  else { s with dispatcher := .handling none }

/-- One attempt of `send_with_retry_callback` to send a batch.  A full
channel runs the retry callback. -/
def sendBatch (s : SourceRun) (batch : ℕ) : SourceRun :=
  (s.trySend (.nextBatch batch) (.handling none)).getD
    { s with dispatcher := .handling (some batch) }

/-- Call the hook of a message taken from the input channel.  Its error is
ignored in a retry callback and fails the dispatcher elsewhere. -/
def callHook (s : SourceRun) (waiting : Option ℕ) (message : ControlMsg)
    (succeeds : Bool) : SourceRun :=
  { s with
    hooks :=
      match message with
      | .checkpointMarker epoch =>
          s.hooks ++ [⟨epoch, s.generated, waiting⟩]
      | .checkpointFinalizer _ => s.hooks
    dispatcher :=
      if succeeds then .forwarding waiting message
      else
        match waiting with
        | some batch => .consulting batch
        | none => .failing true }

/-- One turn of `handle_control_messages`. -/
def handleControlMessages (s : SourceRun) (waiting : Option ℕ)
    (succeeds : Bool) : SourceRun :=
  match s.input with
  | message :: rest =>
      callHook { s with input := rest } waiting message succeeds
  | [] =>
      { s with
        dispatcher :=
          match waiting with
          | some batch => .consulting batch
          | none => .top }

/-- The retry callback asks whether the plugin is still running: if it is
not, the send returns an error that is ignored. -/
def consultRunning (s : SourceRun) (batch : ℕ) : SourceRun :=
  if s.isRunning then { s with dispatcher := .sending batch }
  else
    { s with
      dispatcher := .handling none
      dropped := s.dropped ++ [batch] }

/-- One turn of the loop that runs after a failed hook: `report` tries to
send the unsent error, otherwise a message of the input is discarded. -/
def drainDiscardAfterFailure (s : SourceRun) (unsentReport report : Bool) :
    Option SourceRun :=
  if report then
    if unsentReport then s.trySend .error (.failing false) else none
  else some { s with input := s.input.tail }

/-- A step of the dispatcher.  `outcome` is the result of the plugin's code
where the step calls it. -/
def dispatch (s : SourceRun) (outcome : Bool) : Option SourceRun :=
  match s.dispatcher with
  | .top =>
      some
        { s with
          dispatcher := if s.isRunning then .generating else .completing }
  | .generating => some (s.generateBatch outcome)
  | .sending batch => some (s.sendBatch batch)
  | .handling waiting => some (s.handleControlMessages waiting outcome)
  | .forwarding waiting message =>
      s.trySend (.control message) (.handling waiting)
  | .consulting batch => some (s.consultRunning batch)
  | .failing unsentReport => s.drainDiscardAfterFailure unsentReport outcome
  | .completing => s.trySend .terminate .exited
  | .exited => none

/-! ## The host -/

/-- Buffer a checkpoint message that came back from the plugin.  A marker
keeps the creation time stored when it was forwarded. -/
def bufferControl (s : SourceRun) (message : ControlMsg) (nowMs : ℕ) :
    SourceRun :=
  match message with
  | .checkpointMarker epoch =>
      { s with
        checkpointBuffer := s.checkpointBuffer ++
          [.marker epoch ((s.epochCreatedAt epoch).getD nowMs)]
        epochCreatedAt := Function.update s.epochCreatedAt epoch none
        host := .turning }
  | .checkpointFinalizer epoch =>
      { s with
        checkpointBuffer := s.checkpointBuffer ++ [.finalizer epoch]
        host := .turning }

/-- Put the buffered messages on a batch about to be sent downstream. -/
def attachBuffer (s : SourceRun) (rows : List ℕ) (final : Bool) :
    SourceRun :=
  { s with
    checkpointBuffer := []
    host := .emitting ⟨rows, s.checkpointBuffer⟩ final }

/-- Handle a message received from the plugin. -/
def receiveOutput (s : SourceRun) (message : OutputMsg) (nowMs : ℕ) :
    SourceRun :=
  match message with
  | .nextBatch batch => s.attachBuffer [batch] false
  | .control message => s.bufferControl message nowMs
  | .terminate => { s with host := .finishing }
  | .error => { s with host := .failed }

/-- Look at the output channel.  When it is empty the buffered messages are
flushed on a synthetic empty batch. -/
def lookAtOutput (s : SourceRun) (dispatcherExited : Bool) (nowMs : ℕ) :
    SourceRun :=
  match s.output with
  | message :: rest =>
      receiveOutput
        { s with output := rest, received := s.received ++ [message] }
        message nowMs
  | [] =>
      if dispatcherExited then { s with host := .failed }
      else if s.checkpointBuffer = [] then { s with host := .turning }
      else s.attachBuffer [] false

/-- Take the next message of the coordinator, if there is one, and start
forwarding it to the plugin. -/
def receiveCoordinator (s : SourceRun) : SourceRun :=
  match s.subscription with
  | [] => { s with host := .polling }
  | message :: rest =>
      { s with
        subscription := rest
        epochCreatedAt :=
          match message with
          | .marker epoch createdAtMs =>
              Function.update s.epochCreatedAt epoch (some createdAtMs)
          | _ => s.epochCreatedAt
        host :=
          match controlOf? message with
          | some message => .forwarding message
          | none => .polling }

/-- `send_to_plugin`: wait for room, unless the dispatcher has exited. -/
def sendToPlugin (s : SourceRun) (message : ControlMsg) :
    Option SourceRun :=
  if s.input.length < s.inputCapacity then
    some { s with input := s.input ++ [message], host := .polling }
  else if s.dispatcher = .exited then some { s with host := .failed }
  else none

/-- Fold one message still queued on the subscription into the buffer, or
start the final flush when there is none. -/
def finish (s : SourceRun) : SourceRun :=
  match s.subscription with
  | message :: rest =>
      { s with
        subscription := rest
        drained := s.drained ++ [message]
        checkpointBuffer := s.checkpointBuffer ++
          (if (controlOf? message).isSome then [message] else []) }
  | [] =>
      if s.checkpointBuffer = [] then { s with host := .unsubscribing }
      else s.attachBuffer [] true

/-- A step of the host. -/
def poll (s : SourceRun) (nowMs : ℕ) : Option SourceRun :=
  match s.host with
  | .polling =>
      some { s with host := .looking (decide (s.dispatcher = .exited)) }
  | .looking dispatcherExited => some (s.lookAtOutput dispatcherExited nowMs)
  | .emitting batch final =>
      some
        { s with
          stream := s.stream ++ [batch]
          host := if final then .unsubscribing else .turning }
  | .turning => some s.receiveCoordinator
  | .forwarding message => s.sendToPlugin message
  | .finishing => some s.finish
  | .unsubscribing => some { s with host := .done }
  | .done => none
  | .failed => none

/-- The next step of the host puts its buffered messages on a batch. -/
def attaches (s : SourceRun) : Bool :=
  match s.host with
  | .looking dispatcherExited =>
      match s.output with
      | message :: _ => message.batch?.isSome
      | [] => !dispatcherExited
  | .finishing => s.subscription.isEmpty
  | _ => false

/-! ## Runs -/

/-- A broadcast of the coordinator, which sends the marker of an epoch
once. -/
def broadcast (s : SourceRun) (message : CheckpointMessage) :
    Option SourceRun :=
  if s.host.subscribed = false then none
  else
    match message with
    | .marker epoch _ =>
        if epoch ∈ s.broadcasts then none
        else
          some
            { s with
              subscription := s.subscription ++ [message]
              broadcasts := s.broadcasts ++ [epoch] }
    | _ => some { s with subscription := s.subscription ++ [message] }

/-- The steps a run is made of. -/
inductive Action where
  | setRunning (isRunning : Bool)
  | broadcast (message : CheckpointMessage)
  | dispatch (outcome : Bool)
  | poll (nowMs : ℕ)

def step (s : SourceRun) : Action → Option SourceRun
  | .setRunning isRunning => some { s with isRunning := isRunning }
  | .broadcast message => s.broadcast message
  | .dispatch outcome => s.dispatch outcome
  | .poll nowMs => s.poll nowMs

/-! ## What a run is for -/

/-- The batches of a stream, in order. -/
def streamBatches (stream : List (RecordBatch ℕ)) : List ℕ :=
  stream.flatMap RecordBatch.rows

/-- The markers and finalizers of a stream, in order. -/
def streamControls (stream : List (RecordBatch ℕ)) : List ControlMsg :=
  stream.flatMap fun batch => controls batch.messages

/-- When a marker leaves the stream, every batch generated before its hook
was called has left it, in the same record batch or an earlier one. -/
def CutHolds (s : SourceRun) : Prop :=
  ∀ i < s.stream.length, ∀ batch ∈ s.stream[i]?, ∀ hook ∈ s.hooks,
    batch.carries hook.epoch = true →
      ∀ n < hook.generated, n ∈ streamBatches (s.stream.take (i + 1))

/-- The stream has emitted every generated batch once and in order, and every
checkpoint message the plugin forwarded or that was left on the subscription
once. -/
def LosesNothing (s : SourceRun) : Prop :=
  streamBatches s.stream = List.range s.generated ∧
    streamControls s.stream =
      controlsOf s.sent ++ controls (s.drained ++ s.subscription)

instance (s : SourceRun) : Decidable s.CutHolds :=
  inferInstanceAs (Decidable (∀ i < s.stream.length, _))

instance (s : SourceRun) : Decidable s.LosesNothing :=
  inferInstanceAs (Decidable (_ ∧ _))

end SourceRun

end PluginSource

end Streamling
