import Streamling.Support.Run
import Streamling.Plugin.Source

/-!
# The plugin transform

Each stream of a plugin transform is transformed by one instance.  The host
reads the stream batch by batch: it sends the batch's checkpoint messages and
then the batch to the plugin, and waits for the transformed batch, buffering
the checkpoint messages that come back before it.  The dispatcher calls the
plugin's hooks and returns each message on the output channel.  The channels
are bounded queues.  What crosses them of a batch is its rows: its schema
metadata is lost.

When a hook fails, when an instance exits and when a teardown begins is left
to the run.  The fields below the emitted batches record what happened and are
read by no step.
-/

namespace Streamling

namespace PluginTransform

open PluginSource (ControlMsg controlOf? controls)

variable {ρ τ : Type}

/-! ## Messages between host and plugin -/

/-- The messages the host sends to the plugin. -/
inductive PluginMsg (ρ : Type) where
  | init
  | nextBatch (data : List ρ)
  | control (message : ControlMsg)
  | terminate
  deriving DecidableEq

/-- The messages a transform dispatcher puts on its output channel. -/
inductive OutputMsg (τ : Type) where
  | nextBatch (data : List τ)
  | control (message : ControlMsg)
  | error
  deriving DecidableEq

/-! ## The two parties -/

/-- Where the host's loop stands. -/
inductive Host (ρ τ : Type) where
  | starting
  | reading
  | sending (messages : List CheckpointMessage) (data : List ρ)
  | polling
  | looking (dispatcherExited : Bool)
  | emitting (batch : RecordBatch τ)
  | ended (ok : Bool)
  deriving DecidableEq

/-- The stream has ended. -/
def Host.hasEnded : Host ρ τ → Bool
  | .ended _ => true
  | _ => false

/-- The plugin is not initialized yet. -/
def Host.isStarting : Host ρ τ → Bool
  | .starting => true
  | _ => false

/-- The message the host is about to send.  Other checkpoint messages than
markers and finalizers are ignored. -/
def Host.next? : Host ρ τ → Option (PluginMsg ρ)
  | .starting => some .init
  | .sending [] data => some (.nextBatch data)
  | .sending (message :: _) _ => (controlOf? message).map .control
  | _ => none

/-- Where the host stands once the message is sent. -/
def Host.afterSend : Host ρ τ → Host ρ τ
  | .starting => .reading
  | .sending [] _ => .polling
  | .sending (_ :: rest) data => .sending rest data
  | host => host

/-- Where the dispatcher stands.  A failed one drains its input. -/
inductive Dispatcher (ρ τ : Type) where
  | awaitingInit
  | initializing
  | waiting
  | processing (message : PluginMsg ρ)
  | sending (message : OutputMsg τ)
  | draining (unsentReport : Bool)
  | exited
  deriving DecidableEq

def Dispatcher.hasExited : Dispatcher ρ τ → Bool
  | .exited => true
  | _ => false

/-- What a stream of a transform is run with. -/
structure TransformConfig (ρ τ : Type) where
  /-- The batches of the input stream. -/
  batches : List (RecordBatch ρ)
  /-- The input stream ends with an error. -/
  inputFails : Bool
  processBatch : List ρ → List τ
  inputCapacity : ℕ
  outputCapacity : ℕ
  inputCapacity_pos : 0 < inputCapacity
  outputCapacity_pos : 0 < outputCapacity

/-- What a message does to the dispatcher that takes it off its input. -/
def Dispatcher.take? : Dispatcher ρ τ → PluginMsg ρ →
    Option (Dispatcher ρ τ)
  | .awaitingInit, .init => some .initializing
  | .awaitingInit, _ => some .exited
  | .waiting, .init => some .waiting
  | .waiting, message => some (.processing message)
  | .draining _, .terminate => some .exited
  | .draining unsentReport, _ => some (.draining unsentReport)
  | _, _ => none

/-- Where the dispatcher stands when the hook it has called returns. -/
def Dispatcher.hook? (config : TransformConfig ρ τ) (ok : Bool) :
    Dispatcher ρ τ → Option (Dispatcher ρ τ)
  | .initializing => some (if ok then .waiting else .draining true)
  | .processing (.nextBatch data) =>
      some
        (if ok then .sending (.nextBatch (config.processBatch data))
        else .draining true)
  | .processing (.control message) =>
      some (if ok then .sending (.control message) else .draining true)
  | .processing .terminate => some (if ok then .waiting else .exited)
  | _ => none

/-- The host and the dispatcher of an instance, and the channels between
them. -/
structure TransformRun (ρ τ : Type) where
  /-- The batches of the input stream that are not read yet. -/
  pending : List (RecordBatch ρ)
  host : Host ρ τ
  /-- When the markers in the plugin were created. -/
  epochCreatedAt : CheckpointEpoch → Option ℕ
  checkpointBuffer : List CheckpointMessage
  input : List (PluginMsg ρ)
  dispatcher : Dispatcher ρ τ
  output : List (OutputMsg τ)
  shuttingDown : Bool
  /-- The batches of the output stream. -/
  emitted : List (RecordBatch τ)
  /-- The batches read. -/
  stream : List (RecordBatch ρ)
  /-- The messages sent to the plugin. -/
  sent : List (PluginMsg ρ)
  /-- The messages received from the plugin, a failure report apart. -/
  received : List (OutputMsg τ)

namespace TransformRun

def start (config : TransformConfig ρ τ) : TransformRun ρ τ where
  pending := config.batches
  host := .starting
  epochCreatedAt := fun _ => none
  checkpointBuffer := []
  input := []
  dispatcher := .awaitingInit
  output := []
  shuttingDown := false
  emitted := []
  stream := []
  sent := []
  received := []

/-! ## The host -/

/-- Take the next batch of the input stream, or its end. -/
def read (config : TransformConfig ρ τ) (s : TransformRun ρ τ) :
    Option (TransformRun ρ τ) :=
  match s.host with
  | .reading =>
      match s.pending with
      | batch :: rest =>
          some
            { s with
              pending := rest
              stream := s.stream ++ [batch]
              host := .sending batch.messages batch.rows }
      | [] => some { s with host := .ended (!config.inputFails) }
  | _ => none

/-- Pass over a checkpoint message that the plugin does not get. -/
def skip (s : TransformRun ρ τ) : Option (TransformRun ρ τ) :=
  match s.host with
  | .sending (message :: rest) data =>
      if (controlOf? message).isSome then none
      else some { s with host := .sending rest data }
  | _ => none

/-- The creation time of a marker is kept while the plugin has it. -/
def recordCreatedAt (s : TransformRun ρ τ) :
    CheckpointEpoch → Option ℕ :=
  match s.host with
  | .sending (.marker epoch createdAtMs :: _) _ =>
      Function.update s.epochCreatedAt epoch (some createdAtMs)
  | _ => s.epochCreatedAt

/-- Send a message to the plugin, once there is room. -/
def send (config : TransformConfig ρ τ) (s : TransformRun ρ τ) :
    Option (TransformRun ρ τ) :=
  match s.host.next? with
  | some message =>
      if s.input.length < config.inputCapacity then
        some
          { s with
            epochCreatedAt := s.recordCreatedAt
            input := s.input ++ [message]
            sent := s.sent ++ [message]
            host := s.host.afterSend }
      else none
  | none => none

/-- Give up on a channel that stays full: the instance has exited, or a
teardown has begun.  The initialization is not waited for either. -/
def giveUp (config : TransformConfig ρ τ) (s : TransformRun ρ τ) :
    Option (TransformRun ρ τ) :=
  if s.host.next?.isSome ∧ config.inputCapacity ≤ s.input.length ∧
      (s.dispatcher.hasExited ∨ s.shuttingDown ∨ s.host.isStarting) then
    some { s with host := .ended false }
  else none

/-- Look whether the dispatcher has exited, before the output is read. -/
def look (s : TransformRun ρ τ) : Option (TransformRun ρ τ) :=
  match s.host with
  | .polling => some { s with host := .looking s.dispatcher.hasExited }
  | _ => none

/-- What a message from the plugin does.  A checkpoint message is buffered,
and a batch takes the buffered messages along. -/
def receiveOutput (s : TransformRun ρ τ) (nowMs : ℕ) :
    OutputMsg τ → TransformRun ρ τ
  | .nextBatch data =>
      { s with
        host := .emitting ⟨data, s.checkpointBuffer⟩
        checkpointBuffer := []
        received := s.received ++ [.nextBatch data] }
  | .control (.checkpointMarker epoch) =>
      { s with
        host := .polling
        checkpointBuffer := s.checkpointBuffer ++
          [.marker epoch ((s.epochCreatedAt epoch).getD nowMs)]
        epochCreatedAt := Function.update s.epochCreatedAt epoch none
        received := s.received ++ [.control (.checkpointMarker epoch)] }
  | .control (.checkpointFinalizer epoch) =>
      { s with
        host := .polling
        checkpointBuffer := s.checkpointBuffer ++ [.finalizer epoch]
        received := s.received ++ [.control (.checkpointFinalizer epoch)] }
  | .error => { s with host := .ended false }

/-- Take a message off the output channel. -/
def receive (s : TransformRun ρ τ) (nowMs : ℕ) :
    Option (TransformRun ρ τ) :=
  match s.host, s.output with
  | .looking _, message :: rest =>
      some (receiveOutput { s with output := rest } nowMs message)
  | _, _ => none

/-- The output is empty and the dispatcher had not exited: sleep. -/
def idle (s : TransformRun ρ τ) : Option (TransformRun ρ τ) :=
  match s.host, s.output with
  | .looking false, [] => some { s with host := .polling }
  | _, _ => none

/-- The output is empty and the dispatcher had exited: the stream ends with an
error. -/
def noticeExit (s : TransformRun ρ τ) : Option (TransformRun ρ τ) :=
  match s.host, s.output with
  | .looking true, [] => some { s with host := .ended false }
  | _, _ => none

/-- Send a transformed batch downstream. -/
def emit (s : TransformRun ρ τ) : Option (TransformRun ρ τ) :=
  match s.host with
  | .emitting batch =>
      some { s with emitted := s.emitted ++ [batch], host := .reading }
  | _ => none

/-! ## The dispatcher -/

/-- Take a message off the input channel. -/
def take (s : TransformRun ρ τ) : Option (TransformRun ρ τ) :=
  match s.input with
  | message :: rest =>
      (s.dispatcher.take? message).map fun dispatcher =>
        { s with input := rest, dispatcher := dispatcher }
  | [] => none

/-- A hook of the plugin returns. -/
def hook (config : TransformConfig ρ τ) (s : TransformRun ρ τ) (ok : Bool) :
    Option (TransformRun ρ τ) :=
  (s.dispatcher.hook? config ok).map fun dispatcher =>
    { s with dispatcher := dispatcher }

/-- Return a message to the host, once there is room. -/
def forward (config : TransformConfig ρ τ) (s : TransformRun ρ τ) :
    Option (TransformRun ρ τ) :=
  match s.dispatcher with
  | .sending message =>
      if s.output.length < config.outputCapacity then
        some { s with output := s.output ++ [message], dispatcher := .waiting }
      else none
  | _ => none

/-- Report the failure, if there is room. -/
def report (config : TransformConfig ρ τ) (s : TransformRun ρ τ) :
    Option (TransformRun ρ τ) :=
  match s.dispatcher with
  | .draining true =>
      if s.output.length < config.outputCapacity then
        some
          { s with
            output := s.output ++ [.error]
            dispatcher := .draining false }
      else none
  | _ => none

/-- The dispatcher ends: the instance stopped running, a hook panicked, or a
send was given up. -/
def exit (s : TransformRun ρ τ) : Option (TransformRun ρ τ) :=
  if s.dispatcher.hasExited then none
  else some { s with dispatcher := .exited }

/-! ## Teardown -/

/-- The host's teardown asks the plugin to terminate. -/
def terminate (config : TransformConfig ρ τ) (s : TransformRun ρ τ) :
    Option (TransformRun ρ τ) :=
  if s.shuttingDown ∧ s.input.length < config.inputCapacity then
    some { s with input := s.input ++ [.terminate] }
  else none

/-! ## Runs -/

/-- The steps a run is made of. -/
inductive Action where
  | read
  | skip
  | send
  | giveUp
  | look
  | receive (nowMs : ℕ)
  | idle
  | noticeExit
  | emit
  | take
  | hook (ok : Bool)
  | forward
  | report
  | exit
  | shutDown
  | terminate
  deriving DecidableEq

/-- The steps by which the plugin fails or the pipeline is torn down. -/
def Action.isFault : Action → Bool
  | .hook ok => !ok
  | .exit => true
  | .shutDown => true
  | .terminate => true
  | _ => false

def step (config : TransformConfig ρ τ) (s : TransformRun ρ τ) :
    Action → Option (TransformRun ρ τ)
  | .read => s.read config
  | .skip => s.skip
  | .send => s.send config
  | .giveUp => s.giveUp config
  | .look => s.look
  | .receive nowMs => s.receive nowMs
  | .idle => s.idle
  | .noticeExit => s.noticeExit
  | .emit => s.emit
  | .take => s.take
  | .hook ok => s.hook config ok
  | .forward => s.forward config
  | .report => s.report config
  | .exit => s.exit
  | .shutDown => some { s with shuttingDown := true }
  | .terminate => s.terminate config

/-- The states of the runs of an instance. -/
def Reachable (config : TransformConfig ρ τ) (s : TransformRun ρ τ) : Prop :=
  ∃ actions, Transition.run (step config) (start config) actions = some s

/-! ## What the output stream has to be -/

/-- The markers and finalizers among checkpoint messages. -/
def controlMessages (messages : List CheckpointMessage) :
    List CheckpointMessage :=
  messages.filter fun message => (controlOf? message).isSome

/-- The marker epochs of the input, in order. -/
def inputEpochs (config : TransformConfig ρ τ) : List CheckpointEpoch :=
  config.batches.flatMap fun batch => markerEpochs batch.messages

/-- A message that came back is the one sent; a marker may have another
creation time if its epoch occurs more than once. -/
def Restored (epochs : List CheckpointEpoch)
    (message back : CheckpointMessage) : Prop :=
  match message with
  | .marker epoch createdAtMs =>
      ∃ backAtMs, back = .marker epoch backAtMs ∧
        (epochs.count epoch = 1 → backAtMs = createdAtMs)
  | _ => back = message

/-- An output batch is an input batch with its rows processed and its markers
and finalizers restored. -/
def Transformed (config : TransformConfig ρ τ) (batch : RecordBatch ρ)
    (out : RecordBatch τ) : Prop :=
  out.rows = config.processBatch batch.rows ∧
    List.Forall₂ (Restored (inputEpochs config))
      (controlMessages batch.messages) out.messages

/-- The output is a prefix of the input, batch by batch, and all of it if the
stream ended without an error. -/
structure Faithful (config : TransformConfig ρ τ) (s : TransformRun ρ τ) :
    Prop where
  transformed : ∃ front, front <+: config.batches ∧
    List.Forall₂ (Transformed config) front s.emitted
  whole : s.host = .ended true →
    s.emitted.length = config.batches.length ∧ config.inputFails = false

/-- The stream has ended, or it can end without a fault. -/
def CanEnd (config : TransformConfig ρ τ) (s : TransformRun ρ τ) : Prop :=
  ∃ actions t, (∀ a ∈ actions, a.isFault = false) ∧
    Transition.run (step config) s actions = some t ∧
      t.host.hasEnded = true

/-- In every state of every run the output is faithful, and the stream can
still end: unless all of the input was emitted, with an error. -/
def KeepsMarkers (config : TransformConfig ρ τ) : Prop :=
  ∀ s, Reachable config s → Faithful config s ∧ CanEnd config s

/-- The checkpoint messages of every batch fit into the two channels. -/
def FitsChannels (config : TransformConfig ρ τ) : Prop :=
  ∀ batch ∈ config.batches,
    (controls batch.messages).length ≤
      config.inputCapacity + config.outputCapacity

end TransformRun

end PluginTransform

end Streamling
