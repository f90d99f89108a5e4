import Mathlib.Data.Finset.Basic
import Streamling.Support.Run
import Streamling.Support.OrderedMap
import Streamling.Checkpoints.Message

/-!
# The checkpoint coordinator

The coordinator mints epochs on a timer, collects the acknowledgements of the
expected sinks and broadcasts a finalizer once all of them arrived.  Its state
is shared by the subscriber task, the producer task, the timeout sweep and any
number of control handles, each taking one lock at a time.  A step of the
model is one critical section, so a run is an interleaving of the tasks.

The state carries a history of what the tasks did: the epochs minted, the
acknowledgements counted, the sinks removed and the finalizers broadcast.  No
step reads it.
-/

namespace Streamling

/-- Tracking state of an epoch.  Times are those of the coordinator's clock. -/
inductive EpochState where
  | started (createdAt : ℕ)
  | inProgress (ackedSinks : Finset String) (createdAt : ℕ)
  | finalized
  deriving DecidableEq

/-- The epochs the coordinator tracks. -/
abbrev EpochMap := OrderedMap CheckpointEpoch EpochState

/-! ## The critical sections -/

/-- Whether the sinks of `expected` have all acknowledged an epoch that is
not finalized yet. -/
def EpochState.isComplete (expected : Finset String) : EpochState → Bool
  | .started _ => decide (expected = ∅)
  | .inProgress ackedSinks _ => decide (expected ⊆ ackedSinks)
  | .finalized => false

/-- Transition every epoch that `expected` has fully acknowledged to
`finalized`, returning the epochs that newly finalized. -/
def finalizeReadyEpochs (epochs : EpochMap) (expected : Finset String) :
    EpochMap × List CheckpointEpoch :=
  (epochs.mapValues fun _ state =>
      if state.isComplete expected then .finalized else state,
    (epochs.entries.filter fun q => q.2.isComplete expected).map Prod.fst)

/-- Whether a sweep at time `now` removes the epoch. -/
def timedOut (timeout now : ℕ) (terminal : Option CheckpointEpoch)
    (epoch : CheckpointEpoch) : EpochState → Bool
  | .started createdAt | .inProgress _ createdAt =>
      decide (timeout < now - createdAt) && decide (some epoch ≠ terminal)
  | .finalized => false

/-- The epochs a timeout sweep removes. -/
def timedOutEpochsToRemove (epochs : EpochMap) (timeout now : ℕ)
    (terminal : Option CheckpointEpoch) : List CheckpointEpoch :=
  (epochs.entries.filter fun q => timedOut timeout now terminal q.1 q.2).map
    Prod.fst

/-- What the epochs-locked part of the acknowledgement arm did: an
acknowledgement of an unknown or finalized epoch is ignored. -/
inductive AckOutcome where
  | ignored
  | counted
  | finalized
  deriving DecidableEq

/-- The epochs-locked part of the acknowledgement arm. -/
def recordAck (epochs : EpochMap) (epoch : CheckpointEpoch)
    (sinkId : String) (expected : Finset String) : EpochMap × AckOutcome :=
  match epochs.find? epoch with
  | some (.started createdAt) =>
      if expected ⊆ {sinkId} then (epochs.insert epoch .finalized, .finalized)
      else (epochs.insert epoch (.inProgress {sinkId} createdAt), .counted)
  | some (.inProgress ackedSinks createdAt) =>
      let acked := insert sinkId ackedSinks
      if expected ⊆ acked then (epochs.insert epoch .finalized, .finalized)
      else (epochs.insert epoch (.inProgress acked createdAt), .counted)
  | some .finalized => (epochs, .ignored)
  | none => (epochs, .ignored)

/-- Whether the most recent epoch allows the producer to mint the next one. -/
def lastEpochFinalized (epochs : EpochMap) : Bool :=
  match epochs.last? with
  | some (_, state) => decide (state = .finalized)
  | none => true

/-! ## The tasks -/

/-- Where the subscriber stands: waiting for a message, past the expected-set
check of an acknowledgement (with the set it was checked against), or about to
broadcast a finalizer. -/
inductive SubscriberTask where
  | receiving
  | accepted (epoch : CheckpointEpoch) (sinkId : String)
      (expected : Finset String)
  | broadcasting (epoch : CheckpointEpoch)
  deriving DecidableEq

/-- Where the timer producer stands. -/
inductive ProducerTask where
  | sleeping
  | waiting
  | ready (createdAt : ℕ)
  | sending (epoch : CheckpointEpoch)
  | stopped
  deriving DecidableEq

/-- Where a call of `sink_completed` stands: between the removal and the
finalize step it holds the snapshot, afterwards the epochs to broadcast. -/
inductive CompletionCall where
  | idle
  | finalizing (snapshot : Finset String)
  | broadcasting (epochs : List CheckpointEpoch)
  deriving DecidableEq

/-- An acknowledgement that was counted, with the expected set it was checked
against. -/
structure CountedAck where
  epoch : CheckpointEpoch
  sinkId : String
  expected : Finset String
  deriving DecidableEq

/-- A minted epoch, with the sinks expected at that moment. -/
structure MintedEpoch where
  epoch : CheckpointEpoch
  expected : Finset String
  deriving DecidableEq

/-- The shared state of the coordinator. -/
structure CheckpointCoordinator where
  epochs : EpochMap
  nextEpoch : CheckpointEpoch
  expectedSinks : Finset String
  terminalStarted : Bool
  terminalEpoch : Option CheckpointEpoch
  timeout : ℕ

/-- The coordinator, its tasks, the calls made through control handles, and
the history of the run. -/
structure Coordination extends CheckpointCoordinator where
  now : ℕ
  subscriber : SubscriberTask
  producer : ProducerTask
  /-- The calls of `sink_completed`, one per caller. -/
  completions : ℕ → CompletionCall
  /-- Calls of `begin_terminal_checkpoint` that have set the flag but not
  taken the lock. -/
  terminalCalls : ℕ
  /-- What a sweep read as the terminal epoch, and when. -/
  sweep : Option (Option CheckpointEpoch × ℕ)
  minted : List MintedEpoch
  counted : List CountedAck
  removed : Finset String
  markers : List CheckpointEpoch
  finalizers : List CheckpointEpoch
  terminalReturns : List CheckpointEpoch

namespace Coordination

/-- The coordinator as `start` leaves it. -/
def start (timeout : ℕ) (expectedSinks : List String) : Coordination where
  epochs := ∅
  nextEpoch := 1
  expectedSinks := expectedSinks.toFinset
  terminalStarted := false
  terminalEpoch := none
  timeout := timeout
  now := 0
  subscriber := .receiving
  producer := .sleeping
  completions := fun _ => .idle
  terminalCalls := 0
  sweep := none
  minted := []
  counted := []
  removed := ∅
  markers := []
  finalizers := []
  terminalReturns := []

/-- The critical sections a run is made of. -/
inductive Section where
  | elapse (duration : ℕ)
  | receiveAck (epoch : CheckpointEpoch) (sinkId : String)
  | countAck
  | broadcastAcked
  | wakeProducer
  | checkLastEpoch
  | mintEpoch
  | sendMarker
  | removeSink (caller : ℕ) (sinkId : String)
  | finalizeReady (caller : ℕ)
  | broadcastReady (caller : ℕ)
  | startTerminal
  | beginTerminal
  | readTerminal
  | removeTimedOut

/-- The subscriber takes an acknowledgement from its channel and checks the
sink against the expected set.  Nothing is assumed of the acknowledgement. -/
def receiveAck (s : Coordination) (epoch : CheckpointEpoch)
    (sinkId : String) : Option Coordination :=
  match s.subscriber with
  | .receiving =>
      if sinkId ∈ s.expectedSinks then
        some { s with subscriber := .accepted epoch sinkId s.expectedSinks }
      else some s
  | _ => none

/-- The subscriber records an accepted acknowledgement under the epochs
lock. -/
def countAck (s : Coordination) : Option Coordination :=
  match s.subscriber with
  | .accepted epoch sinkId expected =>
      let result := recordAck s.epochs epoch sinkId s.expectedSinks
      some
        { s with
          epochs := result.1
          subscriber :=
            if result.2 = .finalized then .broadcasting epoch
            else .receiving
          counted :=
            if result.2 = .ignored then s.counted
            else s.counted ++ [⟨epoch, sinkId, expected⟩] }
  | _ => none

def broadcastAcked (s : Coordination) : Option Coordination :=
  match s.subscriber with
  | .broadcasting epoch =>
      some
        { s with
          subscriber := .receiving
          finalizers := s.finalizers ++ [epoch] }
  | _ => none

/-- The producer wakes from its interval and reads the terminal flag. -/
def wakeProducer (s : Coordination) : Option Coordination :=
  match s.producer with
  | .sleeping =>
      some
        { s with
          producer := if s.terminalStarted then .stopped else .waiting }
  | _ => none

/-- The producer looks at the last epoch; it looks again later when that
epoch is not finalized. -/
def checkLastEpoch (s : Coordination) : Option Coordination :=
  match s.producer with
  | .waiting =>
      some
        { s with
          producer :=
            if lastEpochFinalized s.epochs then .ready s.now else .waiting }
  | _ => none

/-- The producer mints an epoch under the epochs lock, unless a terminal
checkpoint has begun. -/
def mintEpoch (s : Coordination) : Option Coordination :=
  match s.producer with
  | .ready createdAt =>
      if s.terminalStarted then some { s with producer := .stopped }
      else
        some
          { s with
            epochs := (∅ : EpochMap).insert s.nextEpoch (.started createdAt)
            nextEpoch := s.nextEpoch + 1
            producer := .sending s.nextEpoch
            minted := s.minted ++ [⟨s.nextEpoch, s.expectedSinks⟩] }
  | _ => none

/-- The producer broadcasts the marker.  The broadcast reaches every live
subscriber and reports no error. -/
def sendMarker (s : Coordination) : Option Coordination :=
  match s.producer with
  | .sending epoch =>
      some
        { s with
          producer := .sleeping
          markers := s.markers ++ [epoch] }
  | _ => none

/-- `sink_completed` removes the sink and snapshots the remaining set; it
returns at once for a sink that is not expected. -/
def removeSink (s : Coordination) (caller : ℕ) (sinkId : String) :
    Option Coordination :=
  match s.completions caller with
  | .idle =>
      if sinkId ∈ s.expectedSinks then
        let remaining := s.expectedSinks.erase sinkId
        some
          { s with
            expectedSinks := remaining
            completions :=
              Function.update s.completions caller (.finalizing remaining)
            removed := insert sinkId s.removed }
      else some s
  | _ => none

/-- `sink_completed` finalizes what its snapshot has fully acknowledged. -/
def finalizeReady (s : Coordination) (caller : ℕ) : Option Coordination :=
  match s.completions caller with
  | .finalizing snapshot =>
      let result := finalizeReadyEpochs s.epochs snapshot
      some
        { s with
          epochs := result.1
          completions :=
            Function.update s.completions caller (.broadcasting result.2) }
  | _ => none

/-- `sink_completed` broadcasts the next of its finalizers, or returns. -/
def broadcastReady (s : Coordination) (caller : ℕ) : Option Coordination :=
  match s.completions caller with
  | .broadcasting [] =>
      some
        { s with completions := Function.update s.completions caller .idle }
  | .broadcasting (epoch :: rest) =>
      some
        { s with
          completions :=
            Function.update s.completions caller (.broadcasting rest)
          finalizers := s.finalizers ++ [epoch] }
  | _ => none

/-- `begin_terminal_checkpoint` sets the flag. -/
def startTerminal (s : Coordination) : Option Coordination :=
  some
    { s with
      terminalStarted := true
      terminalCalls := s.terminalCalls + 1 }

/-- `begin_terminal_checkpoint` mints the terminal epoch under the lock, or
returns the existing one. -/
def beginTerminal (s : Coordination) : Option Coordination :=
  if s.terminalCalls = 0 then none
  else
    match s.terminalEpoch with
    | some existing =>
        some
          { s with
            terminalCalls := s.terminalCalls - 1
            terminalReturns := s.terminalReturns ++ [existing] }
    | none =>
        some
          { s with
            epochs := s.epochs.insert s.nextEpoch (.started s.now)
            nextEpoch := s.nextEpoch + 1
            terminalEpoch := some s.nextEpoch
            terminalCalls := s.terminalCalls - 1
            minted := s.minted ++ [⟨s.nextEpoch, s.expectedSinks⟩]
            terminalReturns := s.terminalReturns ++ [s.nextEpoch] }

def readTerminal (s : Coordination) : Option Coordination :=
  match s.sweep with
  | none => some { s with sweep := some (s.terminalEpoch, s.now) }
  | some _ => none

/-- The sweep removes the epochs older than the timeout under the epochs
lock. -/
def removeTimedOut (s : Coordination) : Option Coordination :=
  match s.sweep with
  | some (terminal, _) =>
      let stale :=
        timedOutEpochsToRemove s.epochs s.timeout s.now terminal
      some
        { s with
          epochs := s.epochs.retain fun epoch _ => decide (epoch ∉ stale)
          sweep := none }
  | none => none

/-- One critical section. -/
def step (s : Coordination) : Section → Option Coordination
  | .elapse duration => some { s with now := s.now + duration }
  | .receiveAck epoch sinkId => s.receiveAck epoch sinkId
  | .countAck => s.countAck
  | .broadcastAcked => s.broadcastAcked
  | .wakeProducer => s.wakeProducer
  | .checkLastEpoch => s.checkLastEpoch
  | .mintEpoch => s.mintEpoch
  | .sendMarker => s.sendMarker
  | .removeSink caller sinkId => s.removeSink caller sinkId
  | .finalizeReady caller => s.finalizeReady caller
  | .broadcastReady caller => s.broadcastReady caller
  | .startTerminal => s.startTerminal
  | .beginTerminal => s.beginTerminal
  | .readTerminal => s.readTerminal
  | .removeTimedOut => s.removeTimedOut

/-- The epochs minted so far, in order. -/
def mintedEpochs (s : Coordination) : List CheckpointEpoch :=
  s.minted.map MintedEpoch.epoch

end Coordination

end Streamling
