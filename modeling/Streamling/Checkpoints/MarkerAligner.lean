import Mathlib.Data.Finset.Insert
import Streamling.Support.OrderedMap
import Streamling.Checkpoints.Message

/-!
# The marker aligner

Where several streams merge, a checkpoint marker is held back until every live
input has delivered its copy.  The aligner counts copies per epoch and keeps,
for each input that ended, the last epoch that input delivered.
-/

namespace Streamling

/-- Per-epoch bookkeeping of the aligner. -/
structure MarkerState where
  copies : ℕ := 0
  released : Bool := false
  deriving DecidableEq, Repr

/-- Aligns the markers of `inputs` concurrent streams down to one copy. -/
structure MarkerAligner where
  inputs : ℕ
  /-- The last epoch each finished input delivered. -/
  finished : List (Option CheckpointEpoch)
  /-- Released epochs stay recorded until they are finalized. -/
  epochs : OrderedMap CheckpointEpoch MarkerState
  seenFinalizers : Finset CheckpointEpoch
  seenSourceCompletions : Finset String

namespace MarkerAligner

def new (inputs : ℕ) : MarkerAligner where
  inputs := inputs
  finished := []
  epochs := ∅
  seenFinalizers := ∅
  seenSourceCompletions := ∅

/-- Whether an input whose last delivered epoch is `last` finished before
`epoch`. -/
def finishedBefore (epoch : CheckpointEpoch) :
    Option CheckpointEpoch → Bool
  | none => true
  | some last => decide (last < epoch)

/-- Copies of `epoch` needed: one per input, except the inputs that finished
before it. -/
def requiredCopies (inputs : ℕ)
    (finished : List (Option CheckpointEpoch))
    (epoch : CheckpointEpoch) : ℕ :=
  max (inputs - (finished.filter (finishedBefore epoch)).length) 1

/-- One iteration of the loop of `observe`: the aligner after the message and
the messages it lets through. -/
def observeMessage (a : MarkerAligner) :
    CheckpointMessage → MarkerAligner × List CheckpointMessage
  | .marker epoch createdAtMs =>
      let required := requiredCopies a.inputs a.finished epoch
      let state := (a.epochs.find? epoch).getD {}
      if state.released then
        (a, [])
      else
        let copies := state.copies + 1
        if required ≤ copies then
          ({ a with epochs := a.epochs.insert epoch ⟨copies, true⟩ },
            [.marker epoch createdAtMs])
        else
          ({ a with epochs := a.epochs.insert epoch ⟨copies, false⟩ }, [])
  | .finalizer epoch =>
      let pruned := a.epochs.retain fun e _ => decide (epoch < e)
      if epoch ∈ a.seenFinalizers then
        ({ a with epochs := pruned }, [])
      else
        ({ a with
            epochs := pruned
            seenFinalizers := insert epoch a.seenFinalizers },
          [.finalizer epoch])
  | .sourceComplete source =>
      if source ∈ a.seenSourceCompletions then
        (a, [])
      else
        ({ a with
            seenSourceCompletions := insert source a.seenSourceCompletions },
          [.sourceComplete source])
  | .ack epoch sinkId => (a, [.ack epoch sinkId])

/-- Feed the messages observed on one input stream, returning the messages
that may now be forwarded downstream. -/
def observe (a : MarkerAligner) :
    List CheckpointMessage → MarkerAligner × List CheckpointMessage
  | [] => (a, [])
  | message :: messages =>
      let head := a.observeMessage message
      let tail := head.1.observe messages
      (tail.1, head.2 ++ tail.2)

/-- Whether `inputDone` releases an epoch, given the inputs finished so far. -/
def readyWhenDone (inputs : ℕ) (finished : List (Option CheckpointEpoch))
    (epoch : CheckpointEpoch) (state : MarkerState) : Bool :=
  !state.released &&
    (decide (inputs ≤ finished.length) ||
      decide (requiredCopies inputs finished epoch ≤ state.copies))

/-- Record that one input stream has ended after delivering every epoch up to
`lastDelivered`.  Pending epochs after its watermark no longer wait for it. -/
def inputDone (a : MarkerAligner)
    (lastDelivered : Option CheckpointEpoch) (nowMs : ℕ) :
    MarkerAligner × List CheckpointMessage :=
  let finished := a.finished ++ [lastDelivered]
  let ready := readyWhenDone a.inputs finished
  ({ a with
      finished := finished
      epochs := a.epochs.mapValues fun epoch state =>
        if ready epoch state then { state with released := true }
        else state },
    (a.epochs.entries.filter fun q => ready q.1 q.2).map fun q =>
      .marker q.1 nowMs)

/-! ## What one message does -/

@[simp] theorem observe_nil (a : MarkerAligner) :
    a.observe [] = (a, []) := rfl

theorem observe_cons (a : MarkerAligner)
    (message : CheckpointMessage) (messages : List CheckpointMessage) :
    a.observe (message :: messages) =
      (((a.observeMessage message).1.observe messages).1,
        (a.observeMessage message).2 ++
          ((a.observeMessage message).1.observe messages).2) := rfl

/-- A message changes neither the number of inputs nor which of them
finished. -/
theorem observeMessage_inputs_finished
    (a : MarkerAligner) (message : CheckpointMessage) :
    (a.observeMessage message).1.inputs = a.inputs ∧
      (a.observeMessage message).1.finished = a.finished := by
  cases message with
  | marker epoch createdAtMs =>
      simp only [observeMessage]
      split
      · simp
      · split <;> simp
  | ack epoch sinkId => simp [observeMessage]
  | finalizer epoch =>
      simp only [observeMessage]
      split <;> simp
  | sourceComplete source =>
      simp only [observeMessage]
      split <;> simp

/-- Only a marker is ever let through as a marker, and then it is its own
epoch that is released. -/
theorem markerEpochs_observeMessage_of_not_marker
    (a : MarkerAligner) {message : CheckpointMessage}
    (h : message.markerEpoch? = none) :
    markerEpochs (a.observeMessage message).2 = [] := by
  cases message with
  | marker epoch createdAtMs => simp [CheckpointMessage.markerEpoch?] at h
  | ack epoch sinkId => rfl
  | finalizer epoch =>
      simp only [observeMessage]
      split <;> rfl
  | sourceComplete source =>
      simp only [observeMessage]
      split <;> rfl

/-- The marker branch on an epoch that has not been released: the copy is
counted, and the epoch is released exactly when the count reaches the required
number. -/
theorem observeMessage_marker_of_not_released
    (a : MarkerAligner) (epoch : CheckpointEpoch) (createdAtMs : ℕ)
    (h : ((a.epochs.find? epoch).getD {}).released = false) :
    a.observeMessage (.marker epoch createdAtMs) =
      let copies := ((a.epochs.find? epoch).getD {}).copies + 1
      let released :=
        decide (requiredCopies a.inputs a.finished epoch ≤ copies)
      ({ a with epochs := a.epochs.insert epoch ⟨copies, released⟩ },
        if released then [.marker epoch createdAtMs] else []) := by
  simp only [observeMessage, h, Bool.false_eq_true, if_false]
  split
  · simp [*]
  · simp [*]

theorem markerEpochs_inputDone
    (a : MarkerAligner) (lastDelivered : Option CheckpointEpoch)
    (nowMs : ℕ) :
    markerEpochs (a.inputDone lastDelivered nowMs).2 =
      (a.epochs.entries.filter fun q =>
        readyWhenDone a.inputs (a.finished ++ [lastDelivered]) q.1 q.2).map
        Prod.fst := by
  simp only [inputDone, markerEpochs, List.filterMap_map]
  rw [← List.filterMap_eq_map]
  rfl

end MarkerAligner

end Streamling
