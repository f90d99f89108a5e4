import Mathlib.Data.List.Basic

/-!
# Checkpoint messages

The messages exchanged on the coordinator channel and carried in the schema
metadata of record batches.  Epoch numbers are minted by one counter from `1`
upwards; the counter is a `u64`, which no run exhausts, and is modelled by a
natural number.
-/

namespace Streamling

/-- The number of a checkpoint epoch. -/
abbrev CheckpointEpoch := ℕ

/-- The messages of the checkpoint protocol. -/
inductive CheckpointMessage where
  | marker (epoch : CheckpointEpoch) (createdAtMs : ℕ)
  | ack (epoch : CheckpointEpoch) (sinkId : String)
  | finalizer (epoch : CheckpointEpoch)
  | sourceComplete (sourceName : String)
  deriving DecidableEq, Repr

/-- The epoch of a marker. -/
def CheckpointMessage.markerEpoch? :
    CheckpointMessage → Option CheckpointEpoch
  | .marker epoch _ => some epoch
  | _ => none

/-- The marker epochs among `messages`, in order. -/
def markerEpochs (messages : List CheckpointMessage) :
    List CheckpointEpoch :=
  messages.filterMap CheckpointMessage.markerEpoch?

@[simp] theorem markerEpochs_nil : markerEpochs [] = [] := rfl

theorem markerEpochs_cons
    (m : CheckpointMessage) (ms : List CheckpointMessage) :
    markerEpochs (m :: ms) = m.markerEpoch?.toList ++ markerEpochs ms := by
  cases m <;> rfl

theorem markerEpochs_append (xs ys : List CheckpointMessage) :
    markerEpochs (xs ++ ys) = markerEpochs xs ++ markerEpochs ys :=
  List.filterMap_append

theorem mem_markerEpochs
    {messages : List CheckpointMessage} {epoch : CheckpointEpoch} :
    epoch ∈ markerEpochs messages ↔
      ∃ createdAtMs, .marker epoch createdAtMs ∈ messages := by
  simp only [markerEpochs, List.mem_filterMap]
  constructor
  · rintro ⟨message, hmem, hepoch⟩
    cases message with
    | marker e createdAtMs =>
        obtain rfl : e = epoch := by
          simpa [CheckpointMessage.markerEpoch?] using hepoch
        exact ⟨createdAtMs, hmem⟩
    | ack e sinkId => simp [CheckpointMessage.markerEpoch?] at hepoch
    | finalizer e => simp [CheckpointMessage.markerEpoch?] at hepoch
    | sourceComplete name =>
        simp [CheckpointMessage.markerEpoch?] at hepoch
  · rintro ⟨createdAtMs, hmem⟩
    exact ⟨_, hmem, rfl⟩

/-- The latest epoch among the markers in `messages`. -/
def lastMarkerEpoch (messages : List CheckpointMessage) :
    Option CheckpointEpoch :=
  (markerEpochs messages).max?

end Streamling
