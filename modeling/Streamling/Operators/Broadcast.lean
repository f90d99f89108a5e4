import Mathlib
import Streamling.Support.Run

/-!
# The broadcast of a shared source

A driver task reads one source stream and offers every item to all registered
consumers, each behind a bounded channel of its own.  A full channel is
retried; once shutdown was requested, only for a bounded time, after which the
consumer is given up.  The flag that tells the consumer so is set while the
driver still holds a sender of its channel: the channel closes when the
registered slot and the driver's own copy of it are both gone.

The consumers poll, stall and drop their receivers while the driver runs, so
every attempt to send, every report of a result and every drop of a sender is
a step of its own.
-/

namespace Streamling

namespace Broadcast

/-! ## Items -/

/-- An error of the library.  The text of an error is what it displays. -/
structure StreamlingError where
  text : String
  retriable : Bool
  internal : Bool
  backtrace : Option String
  deriving DecidableEq, Repr

/-- The flags and the text survive, the backtrace does not. -/
def StreamlingError.cloneFlagsWithMessage (e : StreamlingError) :
    StreamlingError :=
  { e with backtrace := none }

inductive DataFusionError where
  | plan (message : String)
  | notImplemented (message : String)
  | internal (message : String)
  | execution (message : String)
  | external (error : StreamlingError)
  /-- An external error that is not a `StreamlingError`. -/
  | externalOther (text : String)
  | configuration (message : String)
  | resourcesExhausted (message : String)
  | context (text : String) (inner : DataFusionError)
  /-- Every other variant. -/
  | other (text : String)
  deriving DecidableEq, Repr

def cloneDfError : DataFusionError → DataFusionError
  | .plan message => .plan message
  | .notImplemented message => .notImplemented message
  | .internal message => .internal message
  | .execution message => .execution message
  | .external error => .external error.cloneFlagsWithMessage
  | .externalOther text => .execution text
  | .configuration message => .configuration message
  | .resourcesExhausted message => .resourcesExhausted message
  | .context text inner => .context text (cloneDfError inner)
  | .other text => .execution text

abbrev DFResult (Batch : Type*) := Except DataFusionError Batch

/-- What is sent to each consumer for an item of the source. -/
def toSend {Batch : Type*} : DFResult Batch → DFResult Batch
  | .ok batch => .ok batch
  | .error e => .error (cloneDfError e)

def abandonmentError : DataFusionError :=
  .execution
    ("broadcast abandoned this consumer: it stayed stalled through the " ++
      "post-shutdown window, so at least one batch was never delivered; " ++
      "failing the stream so its epochs cannot finalize over the gap " ++
      "(the missed tail replays on restart)")

/-! ## Consumers -/

/-- A consumer with its channel.  `observed` is everything its stream
yielded, and `ended` whether it yielded the end. -/
structure Consumer (Batch : Type*) where
  queue : List (DFResult Batch)
  dropped : Bool
  abandoned : Bool
  abandonmentReported : Bool
  observed : List (DFResult Batch)
  ended : Bool

namespace Consumer

variable {Batch : Type*}

def new (Batch : Type*) : Consumer Batch where
  queue := []
  dropped := false
  abandoned := false
  abandonmentReported := false
  observed := []
  ended := false

/-- One poll of the stream; `closed` says that no sender is left. -/
def pollNext (c : Consumer Batch) (closed : Bool) : Consumer Batch :=
  match c.queue with
  | item :: queue =>
      { c with queue := queue, observed := c.observed ++ [item] }
  | [] =>
      if closed then
        if c.abandoned && !c.abandonmentReported then
          { c with
            abandonmentReported := true
            observed := c.observed ++ [.error abandonmentError] }
        else { c with ended := true }
      else c

end Consumer

inductive TrySendError where
  | full
  | closed
  deriving DecidableEq, Repr

/-- An attempt to send on a bounded channel. -/
def trySend {Batch : Type*} (capacity : ℕ) (c : Consumer Batch)
    (item : DFResult Batch) : Except TrySendError (Consumer Batch) :=
  if c.dropped then .error .closed
  else if c.queue.length < capacity then
    .ok { c with queue := c.queue ++ [item] }
  else .error .full

/-! ## The driver -/

/-- Why a send gave up. -/
inductive SendFailure where
  | closed
  | stalled
  deriving DecidableEq, Repr

/-- The future of one send: retrying since the channel was first full, or
done. -/
inductive SendState where
  | retrying (fullSince : Option ℕ)
  | done (result : Except SendFailure Unit)

def shutdownStalledConsumerWindow : ℕ := 10000

/-- One turn of the retry loop at a given time. -/
def trySendBatch {Batch : Type*} (capacity : ℕ) (shutdown : Bool) (now : ℕ)
    (item : DFResult Batch) (c : Consumer Batch) (fullSince : Option ℕ) :
    Consumer Batch × SendState :=
  match trySend capacity c (toSend item) with
  | .ok c' => (c', .done (.ok ()))
  | .error .full =>
      let since := fullSince.getD now
      if shutdown && decide (shutdownStalledConsumerWindow ≤ now - since) then
        (c, .done (.error .stalled))
      else (c, .retrying (some since))
  | .error .closed => (c, .done (.error .closed))

/-- Where the driver is in its loop.  While it sends, `sends` holds the
futures of the consumers registered when the item arrived; then their results
are reported slot by slot, the failed slots are removed, and the driver's own
senders are dropped. -/
inductive Phase (n : ℕ) (Batch : Type*) where
  | top
  | awaiting
  | sending (item : DFResult Batch) (sends : Fin n → Option SendState)
  | reporting (sends : Fin n → Option SendState) (rest : List (Fin n))
      (failed : List (Fin n))
  | releasing
  | finished

/-- The state of a broadcast to `n` consumers: the registered slots, the
slots of which the driver holds a copy, and the number of items taken from
the source. -/
structure BroadcastRun (n : ℕ) (Batch : Type*) where
  consumers : Fin n → Consumer Batch
  live : List (Fin n)
  held : List (Fin n)
  stopped : Bool
  phase : Phase n Batch
  taken : ℕ
  shutdown : Bool
  now : ℕ

namespace BroadcastRun

variable {n : ℕ} {Batch : Type*}

/-- All consumers are registered and the driver starts. -/
def start (n : ℕ) (Batch : Type*) : BroadcastRun n Batch where
  consumers := fun _ => Consumer.new Batch
  live := List.finRange n
  held := []
  stopped := false
  phase := .top
  taken := 0
  shutdown := false
  now := 0

/-- A channel closes when neither the registry nor the driver holds a sender
of it. -/
def closed (s : BroadcastRun n Batch) (i : Fin n) : Bool :=
  decide (i ∉ s.live ∧ i ∉ s.held)

inductive Action (n : ℕ) where
  /-- The driver: the top of its loop, the next item or the end of the
  source, a poll of one send, the end of all sends, the report of one result,
  the removal of the failed slots and the drop of its senders. -/
  | checkStopped
  | next
  | sourceEnds
  | pollSend (i : Fin n)
  | joined
  | report
  | removeFailed
  | release
  /-- The consumers. -/
  | poll (i : Fin n)
  | dropReceiver (i : Fin n)
  /-- The rest of the process. -/
  | requestShutdown
  | tick (ms : ℕ)
  | stop

def setConsumer (s : BroadcastRun n Batch) (i : Fin n) (c : Consumer Batch) :
    BroadcastRun n Batch :=
  { s with consumers := Function.update s.consumers i c }

/-- A poll of the send to consumer `i`. -/
def pollSend (capacity : ℕ) (s : BroadcastRun n Batch)
    (item : DFResult Batch) (sends : Fin n → Option SendState) (i : Fin n)
    (fullSince : Option ℕ) : BroadcastRun n Batch :=
  let result :=
    trySendBatch capacity s.shutdown s.now item (s.consumers i) fullSince
  { s with
    consumers := Function.update s.consumers i result.1
    phase := .sending item (Function.update sends i (some result.2)) }

/-- The report of a consumer's result. -/
def report (s : BroadcastRun n Batch) (sends : Fin n → Option SendState)
    (i : Fin n) (rest failed : List (Fin n)) : BroadcastRun n Batch :=
  match sends i with
  | some (.done (.error .closed)) =>
      { s with phase := .reporting sends rest (failed ++ [i]) }
  | some (.done (.error .stalled)) =>
      { s with
        consumers :=
          Function.update s.consumers i
            { s.consumers i with abandoned := true }
        phase := .reporting sends rest (failed ++ [i]) }
  | _ => { s with phase := .reporting sends rest failed }

/-- A send that is not done yet. -/
def isRetrying : Option SendState → Bool
  | some (.retrying _) => true
  | _ => false

def step (capacity : ℕ) (source : List (DFResult Batch))
    (s : BroadcastRun n Batch) :
    Action n → Option (BroadcastRun n Batch)
  | .checkStopped =>
      match s.phase with
      | .top =>
          if s.stopped then some { s with live := [], phase := .finished }
          else some { s with phase := .awaiting }
      | _ => none
  | .next =>
      match s.phase, source[s.taken]? with
      | .awaiting, some item =>
          some
            { s with
              held := s.live
              taken := s.taken + 1
              phase := .sending item fun i =>
                if i ∈ s.live then some (.retrying none) else none }
      | _, _ => none
  | .sourceEnds =>
      match s.phase, source[s.taken]? with
      | .awaiting, none => some { s with live := [], phase := .finished }
      | _, _ => none
  | .pollSend i =>
      match s.phase with
      | .sending item sends =>
          match sends i with
          | some (.retrying fullSince) =>
              some (s.pollSend capacity item sends i fullSince)
          | _ => none
      | _ => none
  | .joined =>
      match s.phase with
      | .sending _ sends =>
          if ∀ i, isRetrying (sends i) = false then
            some { s with phase := .reporting sends s.held [] }
          else none
      | _ => none
  | .report =>
      match s.phase with
      | .reporting sends (i :: rest) failed =>
          some (s.report sends i rest failed)
      | _ => none
  | .removeFailed =>
      match s.phase with
      | .reporting _ [] failed =>
          some
            { s with
              live := s.live.filter fun i => decide (i ∉ failed)
              phase := .releasing }
      | _ => none
  | .release =>
      match s.phase with
      | .releasing => some { s with held := [], phase := .top }
      | _ => none
  | .poll i =>
      if (s.consumers i).dropped then none
      else some (s.setConsumer i ((s.consumers i).pollNext (s.closed i)))
  | .dropReceiver i =>
      some (s.setConsumer i { s.consumers i with dropped := true })
  | .requestShutdown => some { s with shutdown := true }
  | .tick ms => some { s with now := s.now + ms }
  | .stop => some { s with stopped := true, live := [] }

end BroadcastRun

end Broadcast

end Streamling
