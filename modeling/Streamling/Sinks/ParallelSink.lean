import Mathlib
import Streamling.Operators.Repartition
import Streamling.Plugin.SinkAcks

/-!
# The parallel sink executor

The executor gives every input partition its own write stream: a prefetch task
that runs one batch ahead, the record of the last marker handed to the sink,
and a concurrent call of the sink's `write_all`.  It joins the writes in the
order in which they end; a stream that succeeded releases its share of the
sink's marker gate, and the first one that failed ends the executor with its
error.

The `write_all` of the blackhole, memory, HTTP and ClickHouse sinks have one
form.  A sink takes the batches that are ready, at most as many as it sends at
once, writes them, and reports the markers they carried; then it stops if the
records received by all its streams have reached the configured limit.

A batch is written in requests.  The HTTP and ClickHouse sinks repeat a
request until an attempt is answered with a success, and the destination may
have taken in rows of the attempts before; the HTTP sink may be told to skip
a request that is refused, and the ClickHouse sink drops deletions of a table
without keys.  Skipped and dropped rows are counted like written ones.  Which
batches are ready, what becomes of a request, when a write fails and what it
left behind is up to the run.
-/

namespace Streamling

namespace ParallelSink

open SinkAckGates
open PluginSink (streamEpochs)
open Repartition (laterEpoch)

variable {ρ : Type} {N : ℕ}

/-- How many batches each write stream may run ahead of its `write_all`. -/
def writeStreamPrefetch : ℕ := 1

/-- What a stream yields: a batch, or an error. -/
abbrev Item (ρ : Type) := Except String (RecordBatch ρ)

/-- The batches among items. -/
def batches (items : List (Item ρ)) : List (RecordBatch ρ) :=
  items.filterMap Except.toOption

/-- The rows of batches. -/
def rowsOf (stream : List (RecordBatch ρ)) : List ρ :=
  stream.flatMap RecordBatch.rows

/-! ## The destination of a sink -/

/-- How the HTTP sink posts its rows. -/
structure HttpSink where
  oneRowPerRequest : Bool
  /-- How many rows a request has otherwise. -/
  triggerMaxCount : ℕ
  skipOnError : Bool
  /-- How many ready batches are sent at once. -/
  bufferSize : ℕ

/-- Where a sink puts its rows. -/
inductive Destination (ρ : Type) where
  | blackhole
  | memory
  | http (sink : HttpSink)
  | clickHouse (appendOnlyMode : Bool) (primaryKeys : List String)
      (isDelete : ρ → Bool)

/-- What became of a request. -/
structure Sent (ρ : Type) where
  /-- The rows that the destination took in at attempts that were repeated. -/
  retried : List ρ
  /-- Whether the request was given up at its last attempt. -/
  skipped : Bool

/-- What the destination took in of a request. -/
def Sent.taken (request : List ρ) (sent : Sent ρ) : List ρ :=
  sent.retried ++ if sent.skipped then [] else request

/-- What was given up of a request. -/
def Sent.givenUp (request : List ρ) (sent : Sent ρ) : List ρ :=
  if sent.skipped then request else []

/-- What the write of some batches came to. -/
structure Receipt (ρ : Type) where
  /-- What the destination took in. -/
  taken : List ρ
  /-- The rows that were counted and not sent, or given up. -/
  skipped : List ρ

/-- How a sink counts the records that its streams received, and when it
compares the count with the limit. -/
inductive StopCheck where
  /-- The blackhole and memory sinks add at the write and compare the sum. -/
  | countedAtWrite
  /-- The HTTP sink adds at the write and reads the count after the
  acknowledgements. -/
  | loadedAfterAcks
  /-- The ClickHouse sink adds after the acknowledgements of a batch that has
  rows. -/
  | countedAfterAcks
  deriving DecidableEq

namespace Destination

/-- How many ready batches a sink sends at once. -/
def bufferSize : Destination ρ → ℕ
  | .http sink => sink.bufferSize
  | _ => 1

def stopCheck : Destination ρ → StopCheck
  | .blackhole | .memory => .countedAtWrite
  | .http _ => .loadedAfterAcks
  | .clickHouse .. => .countedAfterAcks

/-- Whether rows leave the process. -/
def remote : Destination ρ → Bool
  | .blackhole | .memory => false
  | .http _ | .clickHouse .. => true

/-- Whether rows can be counted that the destination never takes in. -/
def skips : Destination ρ → Bool
  | .blackhole | .memory => false
  | .http sink => sink.skipOnError
  | .clickHouse appendOnlyMode primaryKeys _ =>
      !appendOnlyMode && primaryKeys.isEmpty

/-- The requests that write the rows of a batch, unless forming them
panics. -/
def requests (destination : Destination ρ) (rows : List ρ) :
    Option (List (List ρ)) :=
  match destination with
  | .blackhole | .memory => some [rows]
  | .http sink =>
      if sink.oneRowPerRequest then some (rows.map fun row => [row])
      else if rows.isEmpty then some []
      else if sink.triggerMaxCount = 0 then none
      else some (chunks sink.triggerMaxCount rows)
  | .clickHouse true _ _ => some (if rows.isEmpty then [] else [rows])
  | .clickHouse false primaryKeys isDelete =>
      let deletes := if primaryKeys.isEmpty then [] else rows.filter isDelete
      some ([rows.filter fun row => !isDelete row, deletes].filter
        fun request => !request.isEmpty)

/-- The rows of a batch that no request has. -/
def dropped (destination : Destination ρ) (rows : List ρ) : List ρ :=
  match destination with
  | .clickHouse false primaryKeys isDelete =>
      if primaryKeys.isEmpty then rows.filter isDelete else []
  | _ => []

/-- Whether a destination may have taken in `rows` at attempts to write
`request` that did not succeed. -/
def leaves [DecidableEq ρ] (destination : Destination ρ)
    (request rows : List ρ) : Bool :=
  if destination.remote then decide (rows ⊆ request) else rows.isEmpty

/-- What may become of a request. -/
def allows [DecidableEq ρ] (destination : Destination ρ)
    (request : List ρ) (sent : Sent ρ) : Bool :=
  destination.leaves request sent.retried &&
    match destination with
    | .http sink => !sent.skipped || sink.skipOnError
    | _ => !sent.skipped

/-- The records that a write of the items in `ready` has counted when it
fails behind the first `front` of them. -/
def countedBefore (destination : Destination ρ)
    (ready : List (Item ρ)) (front : ℕ) : ℕ :=
  match destination with
  | .http _ => (rowsOf (batches (ready.take front))).length
  | _ => 0

/-- What the write of batches comes to when their requests end as `sent`
says. -/
def receipt [DecidableEq ρ] (destination : Destination ρ)
    (stream : List (RecordBatch ρ)) (sent : List (Sent ρ)) :
    Option (Receipt ρ) :=
  match stream.mapM fun batch => destination.requests batch.rows with
  | some requests =>
      if List.Forall₂ (fun request sent => destination.allows request sent)
          requests.flatten sent then
        some
          { taken :=
              (List.zipWith Sent.taken requests.flatten sent).flatten
            skipped :=
              (stream.flatMap fun batch => destination.dropped batch.rows) ++
                (List.zipWith Sent.givenUp requests.flatten sent).flatten }
      else none
  | none => none

end Destination

/-- What a sink is configured with. -/
structure SinkSettings (ρ : Type) where
  sinkId : String
  numRecordsBeforeStop : Option ℕ
  destination : Destination ρ

namespace SinkSettings

/-- Whether a sink that has received `total` records stops. -/
def reached (settings : SinkSettings ρ) (total : ℕ) : Bool :=
  match settings.numRecordsBeforeStop with
  | some limit => decide (limit ≤ total) && !(limit == 0 && total == 0)
  | none => false

/-- The records received by a sink after it wrote `rows` of them. -/
def receivedAtWrite (settings : SinkSettings ρ) (received rows : ℕ) : ℕ :=
  if settings.destination.stopCheck = .countedAfterAcks then received
  else received + rows

/-- The records received by a sink after the acknowledgements of a write of
`rows` records that counted `total`, and whether it stops there. -/
def afterAcks (settings : SinkSettings ρ) (received rows total : ℕ) :
    ℕ × Bool :=
  match settings.destination.stopCheck with
  | .countedAtWrite => (received, settings.reached total)
  | .loadedAfterAcks => (received, settings.reached received)
  | .countedAfterAcks =>
      match settings.numRecordsBeforeStop with
      | some limit =>
          if rows = 0 then (received, false)
          else (received + rows, decide (limit ≤ received + rows))
      | none => (received, false)

end SinkSettings

/-! ## One write stream -/

/-- Where a write stands. -/
inductive Phase where
  | reading
  | acking (messages : List CheckpointMessage) (rows total : ℕ)
  | returned
  | failed
  | joined
  | aborted
  deriving DecidableEq

/-- The checkpoint messages that the write still has to look at. -/
def Phase.unreported : Phase → List CheckpointMessage
  | .acking messages _ _ => messages
  | _ => []

structure WriteStream (ρ : Type) where
  /-- What the input partition has not yielded yet. -/
  upstream : List (Item ρ)
  /-- The item that the prefetch task waits to send. -/
  forwarding : Option (Item ρ)
  channel : List (Item ρ)
  /-- What the sink has taken and not written. -/
  ready : List (Item ρ)
  /-- The last epoch whose marker the stream handed the sink. -/
  lastMarker : Option CheckpointEpoch
  phase : Phase
  rowCount : ℕ
  /-- What the destination has taken in from the stream. -/
  written : Multiset ρ
  /-- The rows of the stream that were counted without being taken in. -/
  skipped : Multiset ρ
  /-- The batches whose write succeeded; no step reads them. -/
  flushed : List (RecordBatch ρ)

namespace WriteStream

def start (input : List (Item ρ)) : WriteStream ρ where
  upstream := input
  forwarding := none
  channel := []
  ready := []
  lastMarker := none
  phase := .reading
  rowCount := 0
  written := 0
  skipped := 0
  flushed := []

/-- The prefetch task reads its input. -/
def read (x : WriteStream ρ) : Option (WriteStream ρ) :=
  match x.forwarding, x.upstream with
  | none, item :: rest =>
      some { x with forwarding := some item, upstream := rest }
  | _, _ => none

/-- The prefetch task sends what it read, once there is room. -/
def forward (x : WriteStream ρ) : Option (WriteStream ρ) :=
  match x.forwarding with
  | some item =>
      if x.channel.length < writeStreamPrefetch then
        some { x with channel := x.channel ++ [item], forwarding := none }
      else none
  | none => none

/-- The later of a recorded epoch and the one of the markers read. -/
def recordMarker (recorded : Option CheckpointEpoch) :
    Item ρ → Option CheckpointEpoch
  | .ok batch => laterEpoch recorded (lastMarkerEpoch batch.messages)
  | .error _ => recorded

/-- The sink takes the next item that is ready, and its marker is recorded. -/
def take (settings : SinkSettings ρ) (x : WriteStream ρ) :
    Option (WriteStream ρ) :=
  match x.phase, x.channel with
  | .reading, item :: rest =>
      if x.ready.length < settings.destination.bufferSize then
        some
          { x with
            channel := rest
            ready := x.ready ++ [item]
            lastMarker := recordMarker x.lastMarker item }
      else none
  | _, _ => none

/-- The stream after the batches it took are written, when the sink has
counted `total` records. -/
def wrote (x : WriteStream ρ) (stream : List (RecordBatch ρ))
    (receipt : Receipt ρ) (total : ℕ) : WriteStream ρ :=
  { x with
    ready := []
    phase := .acking (stream.flatMap RecordBatch.messages)
      (rowsOf stream).length total
    rowCount := x.rowCount + (rowsOf stream).length
    written := x.written + (receipt.taken : Multiset ρ)
    skipped := x.skipped + (receipt.skipped : Multiset ρ)
    flushed := x.flushed ++ stream }

/-- The stream in `phase` after the destination took in `rows` at attempts
of a write that did not succeed. -/
def unfinished (x : WriteStream ρ) (rows : List ρ) (phase : Phase) :
    WriteStream ρ :=
  { x with phase := phase, written := x.written + (rows : Multiset ρ) }

/-- The write ends with an error: the input yielded one, or something is wrong
with the destination or a batch for it.  Attempts before it may have left
`rows` behind. -/
def fails [DecidableEq ρ] (settings : SinkSettings ρ) (x : WriteStream ρ)
    (rows : List ρ) : Option (WriteStream ρ) :=
  match x.phase with
  | .reading =>
      if (settings.destination.remote = true ∨
            (x.ready.mapM Except.toOption).isNone) ∧
          settings.destination.leaves (rowsOf (batches x.ready)) rows then
        some (x.unfinished rows .failed)
      else none
  | _ => none

/-- The stream has ended, and with it the write. -/
def ends (x : WriteStream ρ) : Option (WriteStream ρ) :=
  match x.phase with
  | .reading =>
      if x.ready = [] ∧ x.channel = [] ∧ x.forwarding.isNone ∧
          x.upstream = [] then
        some { x with phase := .returned }
      else none
  | _ => none

/-- A write that has not ended is cancelled, and may leave `rows` behind. -/
def abort [DecidableEq ρ] (settings : SinkSettings ρ) (x : WriteStream ρ)
    (rows : List ρ) : Option (WriteStream ρ) :=
  match x.phase with
  | .reading | .acking _ _ _ =>
      if settings.destination.leaves (rowsOf (batches x.ready)) rows then
        some (x.unfinished rows .aborted)
      else none
  | _ => none

end WriteStream

/-! ## The executor -/

/-- The executor with its write streams. -/
structure SinkExec (ρ : Type) (N : ℕ) where
  gates : SinkAckGates
  streams : Fin N → WriteStream ρ
  /-- The records that the sink has counted for all its streams. -/
  received : ℕ
  /-- The acknowledgements sent for the sink. -/
  acks : List CheckpointEpoch
  totalCount : ℕ
  outcome : Option (Except Unit ℕ)

namespace SinkExec

/-- The streams of a sink are registered at the gate before they run. -/
def start (settings : SinkSettings ρ) (gates : SinkAckGates)
    (inputs : Fin N → List (Item ρ)) : SinkExec ρ N where
  gates := registerSinkStreams gates settings.sinkId N
  streams := fun i => .start (inputs i)
  received := 0
  acks := []
  totalCount := 0
  outcome := none

/-- Stream `i` is replaced by the result of a step of its own. -/
def withStream (s : SinkExec ρ N) (i : Fin N) (x : WriteStream ρ) :
    SinkExec ρ N :=
  { s with streams := Function.update s.streams i x }

/-- The sink writes what stream `i` took, and its requests end as `sent`
says. -/
def write [DecidableEq ρ] (settings : SinkSettings ρ) (s : SinkExec ρ N)
    (i : Fin N) (sent : List (Sent ρ)) : Option (SinkExec ρ N) :=
  let x := s.streams i
  match x.phase, x.ready.mapM Except.toOption with
  | .reading, some stream =>
      if stream.isEmpty then none
      else
        match settings.destination.receipt stream sent with
        | some receipt =>
            let total :=
              settings.receivedAtWrite s.received (rowsOf stream).length
            some
              { s.withStream i (x.wrote stream receipt total) with
                received := total }
        | none => none
  | _, _ => none

/-- A write of stream `i` fails behind the first `front` items. -/
def fails [DecidableEq ρ] (settings : SinkSettings ρ) (s : SinkExec ρ N)
    (i : Fin N) (rows : List ρ) (front : ℕ) : Option (SinkExec ρ N) :=
  ((s.streams i).fails settings rows).map fun x' =>
    { s.withStream i x' with
      received := s.received +
        settings.destination.countedBefore (s.streams i).ready front }

/-- The next message is looked at: a marker is reported at the gate, and
acknowledged if it was the last one outstanding. -/
def processCheckpointAck (settings : SinkSettings ρ) (s : SinkExec ρ N)
    (i : Fin N) (nowMs : ℕ) : Option (SinkExec ρ N) :=
  let x := s.streams i
  match x.phase with
  | .acking (message :: rest) rows total =>
      let next := s.withStream i { x with phase := .acking rest rows total }
      match message with
      | .marker epoch _ =>
          let result :=
            reportMarkerAtSink s.gates settings.sinkId epoch nowMs
          some
            { next with
              gates := result.1
              acks := s.acks ++ if result.2 then [epoch] else [] }
      | _ => some next
  | _ => none

/-- Every message was looked at: the write goes on, or stops at the limit. -/
def proceed (settings : SinkSettings ρ) (s : SinkExec ρ N) (i : Fin N) :
    Option (SinkExec ρ N) :=
  let x := s.streams i
  match x.phase with
  | .acking [] rows total =>
      let result := settings.afterAcks s.received rows total
      some
        { s.withStream i
            { x with phase := if result.2 then .returned else .reading } with
          received := result.1 }
  | _ => none

/-- The executor joins a write.  Only a successful one releases its stream's
share of the gate. -/
def joinNext (settings : SinkSettings ρ) (s : SinkExec ρ N) (i : Fin N)
    (nowMs : ℕ) : Option (SinkExec ρ N) :=
  let x := s.streams i
  match s.outcome, x.phase with
  | none, .returned =>
      let result :=
        sinkStreamDone s.gates settings.sinkId x.lastMarker nowMs
      some
        { s.withStream i { x with phase := .joined } with
          gates := result.1
          acks := s.acks ++ result.2
          totalCount := s.totalCount + x.rowCount }
  | none, .failed => some { s with outcome := some (.error ()) }
  | _, _ => none

/-- A write is cancelled once the executor has failed. -/
def abort [DecidableEq ρ] (settings : SinkSettings ρ) (s : SinkExec ρ N)
    (i : Fin N) (rows : List ρ) : Option (SinkExec ρ N) :=
  match s.outcome with
  | some (.error _) =>
      ((s.streams i).abort settings rows).map (s.withStream i)
  | _ => none

/-- Every write is joined. -/
def complete (s : SinkExec ρ N) : Option (SinkExec ρ N) :=
  if s.outcome.isNone ∧ ∀ i, (s.streams i).phase = .joined then
    some { s with outcome := some (.ok s.totalCount) }
  else none

/-- The steps of the executor, of its streams and of the other sinks that
share the table of gates. -/
inductive Action (ρ : Type) (N : ℕ) where
  | read (i : Fin N)
  | forward (i : Fin N)
  | take (i : Fin N)
  | write (i : Fin N) (sent : List (Sent ρ))
  | fails (i : Fin N) (rows : List ρ) (front : ℕ)
  | ends (i : Fin N)
  | processCheckpointAck (i : Fin N) (nowMs : ℕ)
  | proceed (i : Fin N)
  | joinNext (i : Fin N) (nowMs : ℕ)
  | abort (i : Fin N) (rows : List ρ)
  | complete
  | registerOther (sinkId : String) (streams : ℕ)
  | reportOther (sinkId : String) (epoch : CheckpointEpoch) (nowMs : ℕ)
  | doneOther (sinkId : String) (lastFlushed : Option CheckpointEpoch)
      (nowMs : ℕ)

/-- What another sink does to the table of gates. -/
def other (settings : SinkSettings ρ) (s : SinkExec ρ N) (sinkId : String)
    (gates : SinkAckGates) : Option (SinkExec ρ N) :=
  if sinkId = settings.sinkId then none else some { s with gates := gates }

def step [DecidableEq ρ] (settings : SinkSettings ρ) (s : SinkExec ρ N) :
    Action ρ N → Option (SinkExec ρ N)
  | .read i => (s.streams i).read.map (s.withStream i)
  | .forward i => (s.streams i).forward.map (s.withStream i)
  | .take i => ((s.streams i).take settings).map (s.withStream i)
  | .write i sent => s.write settings i sent
  | .fails i rows front => s.fails settings i rows front
  | .ends i => (s.streams i).ends.map (s.withStream i)
  | .processCheckpointAck i nowMs => s.processCheckpointAck settings i nowMs
  | .proceed i => s.proceed settings i
  | .joinNext i nowMs => s.joinNext settings i nowMs
  | .abort i rows => s.abort settings i rows
  | .complete => s.complete
  | .registerOther sinkId streams =>
      s.other settings sinkId (registerSinkStreams s.gates sinkId streams)
  | .reportOther sinkId epoch nowMs =>
      s.other settings sinkId
        (reportMarkerAtSink s.gates sinkId epoch nowMs).1
  | .doneOther sinkId lastFlushed nowMs =>
      s.other settings sinkId
        (sinkStreamDone s.gates sinkId lastFlushed nowMs).1

end SinkExec

end ParallelSink

end Streamling
