import Mathlib
import Streamling.Support.Run
import Streamling.Checkpoints.RecordBatch
import Streamling.Checkpoints.AlignerSafety

/-!
# The marker-aware exchange

`StreamingRepartitionExec` redistributes `N` input streams onto `M` outputs.
One router per input splits its batches by row hash or deals them out in turn,
and sends each output its share with a copy of the batch's messages.  One merge
task per input and output forwards the rows it receives, and passes the
messages through the aligner of its output before it forwards those.  Every
send into a bounded channel, every receipt and every critical section of an
aligner is a step of its own; the run decides their order.
-/

namespace Streamling

namespace Repartition

variable {ρ : Type*} {N M : ℕ}

/-! ## Splitting a batch -/

/-- How rows are placed across the output streams. -/
inductive Exchange (ρ : Type*) where
  /-- The hash of the key columns of a row. -/
  | hash (hashRow : ρ → UInt64)
  | roundRobin

/-- The row numbers pushed for one output; a row number is cast to `u32`. -/
def rowIndices (hashRow : ρ → UInt64) (outputPartitions : ℕ)
    (rows : List ρ) (output : ℕ) : List ℕ :=
  (rows.zipIdx.filter fun q =>
    (hashRow q.1).toNat % outputPartitions = output).map fun q =>
      q.2 % 2 ^ 32

/-- The gather of `safe_take_record_batch`. -/
def takeRows (rows : List ρ) (indices : List ℕ) : List ρ :=
  indices.filterMap fun k => rows[k]?

/-- Cut the gathered rows into one slice per output, at running offsets. -/
def sliceOutputs (grouped : List ρ) (messages : List CheckpointMessage) :
    ℕ → List (List ℕ) → List (Option (RecordBatch ρ))
  | _, [] => []
  | offset, rows :: indices =>
      (if rows.isEmpty then none
        else some ⟨(grouped.drop offset).take rows.length, messages⟩) ::
        sliceOutputs grouped messages (offset + rows.length) indices

/-- One sub-batch per output, `none` where an output received no rows. -/
def splitBatchByHash (hashRow : ρ → UInt64) (outputPartitions : ℕ)
    (batch : RecordBatch ρ) : List (Option (RecordBatch ρ)) :=
  let indices := (List.range outputPartitions).map
    (rowIndices hashRow outputPartitions batch.rows)
  sliceOutputs (takeRows batch.rows indices.flatten) batch.messages 0
    indices

/-- What an output is sent for its share of a batch with `messages`: every
output receives a copy of the messages. -/
def reattach (messages : List CheckpointMessage) :
    Option (RecordBatch ρ) → Option (RecordBatch ρ)
  | some batch =>
      if messages.isEmpty then some batch
      else some { batch with messages := messages }
  | none => if messages.isEmpty then none else some ⟨[], messages⟩

/-- The body of the router's loop: what each output is sent, in order, and
the next output of the round robin. -/
def routeBatch (exchange : Exchange ρ) (outputPartitions nextOutput : ℕ)
    (batch : RecordBatch ρ) : List (Option (RecordBatch ρ)) × ℕ :=
  if batch.rows.isEmpty then
    (List.replicate outputPartitions (some batch), nextOutput)
  else
    match exchange with
    | .hash hashRow =>
        ((splitBatchByHash hashRow outputPartitions batch).map
          (reattach batch.messages), nextOutput)
    | .roundRobin =>
        (((List.range outputPartitions).map fun output =>
            if output = nextOutput then some batch else none).map
          (reattach batch.messages),
          (nextOutput + 1) % outputPartitions)

/-- The sends of one batch, one output after the other. -/
def sendsOf (M : ℕ) (split : List (Option (RecordBatch ρ))) :
    List (Fin M × RecordBatch ρ) :=
  ((List.finRange M).zip split).filterMap fun q => q.2.map (Prod.mk q.1)

/-! ## The tasks -/

/-- The router of one input partition. -/
structure Router (ρ : Type*) (M : ℕ) where
  /-- The batches the input stream has still to yield. -/
  input : List (RecordBatch ρ)
  /-- The sends left for the batch in hand. -/
  sends : List (Fin M × RecordBatch ρ) := []
  nextOutput : ℕ := 0
  /-- The task has returned and dropped its senders. -/
  closed : Bool := false

/-- Where a merge task stands. -/
inductive MergeTask (ρ : Type*) where
  | receiving
  /-- Sending rows whose messages, stripped, are still to be observed. -/
  | forwarding (batch : RecordBatch ρ) (messages : List CheckpointMessage)
  | observing (messages : List CheckpointMessage)
  | releasing (messages : List CheckpointMessage)
  /-- Sending what the end of the input released. -/
  | closing (messages : List CheckpointMessage)
  | finished
  deriving DecidableEq

/-- The merge task of one input at one output. -/
structure Merge (ρ : Type*) where
  task : MergeTask ρ := .receiving
  lastDelivered : Option CheckpointEpoch := none
  /-- History: the batches received so far. -/
  received : List (RecordBatch ρ) := []

/-- The exchange at work.  An output is the sequence of batches sent into its
channel, each with the input of the task that sent it. -/
structure State (ρ : Type*) (N M : ℕ) where
  routers : Fin N → Router ρ M
  channels : Fin N × Fin M → List (RecordBatch ρ)
  merges : Fin N × Fin M → Merge ρ
  /-- The aligner of each output, with the history of its inputs. -/
  aligners : Fin M → AlignerRun N
  outputs : Fin M → List (Fin N × RecordBatch ρ)
  /-- How many batches the consumer of each output has taken. -/
  taken : Fin M → ℕ

/-- The configuration of the operator; a channel without capacity cannot be
built. -/
structure Plan (ρ : Type*) where
  exchange : Exchange ρ
  channelBufferSize : ℕ
  channelBufferSize_pos : 0 < channelBufferSize

/-- The steps of the routers, of the merge tasks and of the consumers. -/
inductive Action (N M : ℕ) where
  | read (i : Fin N)
  | send (i : Fin N)
  | close (i : Fin N)
  | receive (i : Fin N) (j : Fin M)
  | forward (i : Fin N) (j : Fin M)
  | observe (i : Fin N) (j : Fin M)
  | release (i : Fin N) (j : Fin M)
  | finish (i : Fin N) (j : Fin M) (nowMs : ℕ)
  | take (j : Fin M)

def start (M : ℕ) (inputs : Fin N → List (RecordBatch ρ)) :
    State ρ N M where
  routers := fun i => { input := inputs i }
  channels := fun _ => []
  merges := fun _ => {}
  aligners := fun _ => AlignerRun.start N
  outputs := fun _ => []
  taken := fun _ => 0

namespace State

def setRouter (s : State ρ N M) (i : Fin N) (router : Router ρ M) :
    State ρ N M :=
  { s with routers := Function.update s.routers i router }

def setChannel (s : State ρ N M) (lane : Fin N × Fin M)
    (batches : List (RecordBatch ρ)) : State ρ N M :=
  { s with channels := Function.update s.channels lane batches }

def setMerge (s : State ρ N M) (lane : Fin N × Fin M) (merge : Merge ρ) :
    State ρ N M :=
  { s with merges := Function.update s.merges lane merge }

def setAligner (s : State ρ N M) (j : Fin M) (aligner : AlignerRun N) :
    State ρ N M :=
  { s with aligners := Function.update s.aligners j aligner }

/-- A merge task of input `i` sends `batch` into the channel of output `j`. -/
def emit (s : State ρ N M) (i : Fin N) (j : Fin M)
    (batch : RecordBatch ρ) : State ρ N M :=
  { s with
    outputs := Function.update s.outputs j (s.outputs j ++ [(i, batch)]) }

/-- Whether the channel of output `j` has room. -/
def hasRoom (plan : Plan ρ) (s : State ρ N M) (j : Fin M) : Bool :=
  decide ((s.outputs j).length < s.taken j + plan.channelBufferSize)

end State

/-- The greater of two optional epochs, where `none` is least. -/
def laterEpoch : Option CheckpointEpoch → Option CheckpointEpoch →
    Option CheckpointEpoch
  | none, b => b
  | some a, none => some a
  | some a, some b => some (max a b)

/-- What a merge task does with a batch it received. -/
def taskFor (batch : RecordBatch ρ) : MergeTask ρ :=
  if batch.messages.isEmpty then .forwarding batch []
  else if batch.rows.isEmpty then .observing batch.messages
  else .forwarding { batch with messages := [] } batch.messages

/-- What a merge task does after it sent a batch of rows. -/
def taskAfterRows : List CheckpointMessage → MergeTask ρ
  | [] => .receiving
  | message :: messages => .observing (message :: messages)

/-- What a merge task does with the messages its aligner released. -/
def taskReleasing : List CheckpointMessage → MergeTask ρ
  | [] => .receiving
  | message :: messages => .releasing (message :: messages)

/-- The same after the end of its input. -/
def taskClosing : List CheckpointMessage → MergeTask ρ
  | [] => .finished
  | message :: messages => .closing (message :: messages)

/-- One step. -/
def step (plan : Plan ρ) (s : State ρ N M) :
    Action N M → Option (State ρ N M)
  | .read i =>
      let router := s.routers i
      match router.sends, router.input with
      | [], batch :: input =>
          let routed := routeBatch plan.exchange M router.nextOutput batch
          some (s.setRouter i
            { router with
              input := input
              sends := sendsOf M routed.1
              nextOutput := routed.2 })
      | _, _ => none
  | .send i =>
      let router := s.routers i
      match router.sends with
      | (j, batch) :: sends =>
          if (s.channels (i, j)).length < max plan.channelBufferSize 1 then
            some ((s.setRouter i { router with sends := sends }).setChannel
              (i, j) (s.channels (i, j) ++ [batch]))
          else none
      | [] => none
  | .close i =>
      let router := s.routers i
      match router.sends, router.input, router.closed with
      | [], [], false => some (s.setRouter i { router with closed := true })
      | _, _, _ => none
  | .receive i j =>
      let merge := s.merges (i, j)
      match merge.task, s.channels (i, j) with
      | .receiving, batch :: batches =>
          some ((s.setChannel (i, j) batches).setMerge (i, j)
            { merge with
              task := taskFor batch
              received := merge.received ++ [batch] })
      | _, _ => none
  | .forward i j =>
      let merge := s.merges (i, j)
      match merge.task with
      | .forwarding batch messages =>
          if s.hasRoom plan j then
            some ((s.emit i j batch).setMerge (i, j)
              { merge with task := taskAfterRows messages })
          else none
      | _ => none
  | .observe i j =>
      let merge := s.merges (i, j)
      match merge.task with
      | .observing messages =>
          let aligner := s.aligners j
          some ((s.setAligner j (aligner.receiveAll i messages)).setMerge
            (i, j)
            { merge with
              task := taskReleasing (aligner.aligner.observe messages).2
              lastDelivered := laterEpoch merge.lastDelivered
                (lastMarkerEpoch messages) })
      | _ => none
  | .release i j =>
      let merge := s.merges (i, j)
      match merge.task with
      | .releasing messages =>
          if s.hasRoom plan j then
            some ((s.emit i j ⟨[], messages⟩).setMerge (i, j)
              { merge with task := .receiving })
          else none
      | .closing messages =>
          if s.hasRoom plan j then
            some ((s.emit i j ⟨[], messages⟩).setMerge (i, j)
              { merge with task := .finished })
          else none
      | _ => none
  | .finish i j nowMs =>
      let merge := s.merges (i, j)
      match merge.task, s.channels (i, j), (s.routers i).closed with
      | .receiving, [], true =>
          let aligner := s.aligners j
          some ((s.setAligner j
            (aligner.endInput i merge.lastDelivered nowMs)).setMerge (i, j)
            { merge with
              task := taskClosing
                (aligner.aligner.inputDone merge.lastDelivered nowMs).2 })
      | _, _, _ => none
  | .take j =>
      if s.taken j < (s.outputs j).length then
        some { s with taken := Function.update s.taken j (s.taken j + 1) }
      else none

end Repartition

end Streamling
