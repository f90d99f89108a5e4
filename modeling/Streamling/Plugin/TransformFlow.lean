import Streamling.Plugin.Transform

/-!
# Markers through a plugin transform

The channels and the dispatcher form one queue of messages: as long as the
dispatcher runs, what the host has received, and what is still on its way, are
the replies to what it has sent.  So what is received always is a prefix of
those replies, whose batches are the input batches with their checkpoint
messages before them.
-/

namespace Streamling

namespace PluginTransform

open PluginSource (ControlMsg controlOf? controls)

variable {ρ τ : Type}

/-! ## Replies -/

/-- What the dispatcher returns for a message, if its hook succeeds. -/
def reply? (config : TransformConfig ρ τ) : PluginMsg ρ → Option (OutputMsg τ)
  | .nextBatch data => some (.nextBatch (config.processBatch data))
  | .control message => some (.control message)
  | _ => none

def replies (config : TransformConfig ρ τ) (messages : List (PluginMsg ρ)) :
    List (OutputMsg τ) :=
  messages.filterMap (reply? config)

def OutputMsg.isReply : OutputMsg τ → Bool
  | .error => false
  | _ => true

/-- The output without failure reports. -/
def returned (messages : List (OutputMsg τ)) : List (OutputMsg τ) :=
  messages.filter OutputMsg.isReply

/-- The dispatcher calls hooks. -/
def Dispatcher.live : Dispatcher ρ τ → Bool
  | .draining _ => false
  | .exited => false
  | _ => true

/-- The reply the dispatcher has not sent yet. -/
def Dispatcher.held (config : TransformConfig ρ τ) :
    Dispatcher ρ τ → List (OutputMsg τ)
  | .processing message => (reply? config message).toList
  | .sending message => [message]
  | _ => []

/-- A batch on the output channel, after its checkpoint messages. -/
def block (messages : List ControlMsg) (data : List τ) :
    List (OutputMsg τ) :=
  messages.map .control ++ [.nextBatch data]

/-- What is sent to the plugin for a batch. -/
def messagesOf (batch : RecordBatch ρ) : List (PluginMsg ρ) :=
  (controls batch.messages).map .control ++ [.nextBatch batch.rows]

/-- What is sent to the plugin for a stream. -/
def written (stream : List (RecordBatch ρ)) : List (PluginMsg ρ) :=
  .init :: stream.flatMap messagesOf

/-- What the host sends before it reads or waits again. -/
def Host.unsent : Host ρ τ → List (PluginMsg ρ)
  | .starting => [.init]
  | .sending messages data =>
      (controls messages).map .control ++ [.nextBatch data]
  | _ => []

/-- The batch the host is about to emit. -/
def Host.inHand : Host ρ τ → List (RecordBatch τ)
  | .emitting batch => [batch]
  | _ => []

/-- The batches read and not emitted. -/
def Host.owed : Host ρ τ → ℕ
  | .sending _ _ => 1
  | .polling => 1
  | .looking _ => 1
  | .emitting _ => 1
  | _ => 0

/-- The host waits for the plugin. -/
def Host.waits : Host ρ τ → Bool
  | .polling => true
  | .looking _ => true
  | _ => false

section Replies

variable {config : TransformConfig ρ τ}

@[simp] theorem replies_nil : replies config [] = [] := rfl

@[simp] theorem replies_append (xs ys : List (PluginMsg ρ)) :
    replies config (xs ++ ys) = replies config xs ++ replies config ys :=
  List.filterMap_append

theorem replies_cons (message : PluginMsg ρ) (rest : List (PluginMsg ρ)) :
    replies config (message :: rest) =
      (reply? config message).toList ++ replies config rest := by
  cases h : reply? config message <;> simp [replies, h]

@[simp] theorem replies_map_control (messages : List ControlMsg) :
    replies config (messages.map .control) = messages.map .control := by
  induction messages with
  | nil => rfl
  | cons message rest ih =>
      rw [List.map_cons, replies_cons, ih]
      rfl

@[simp] theorem replies_nextBatch (data : List ρ) :
    replies config [.nextBatch data] =
      [.nextBatch (config.processBatch data)] := rfl

theorem replies_messagesOf (batch : RecordBatch ρ) :
    replies config (messagesOf batch) =
      block (controls batch.messages) (config.processBatch batch.rows) := by
  rw [messagesOf, replies_append, replies_map_control, replies_nextBatch,
    block]

theorem replies_written (stream : List (RecordBatch ρ)) :
    replies config (written stream) = stream.flatMap fun batch =>
      block (controls batch.messages) (config.processBatch batch.rows) := by
  rw [written, replies_cons]
  induction stream with
  | nil => rfl
  | cons batch stream ih =>
      rw [List.flatMap_cons, List.flatMap_cons, replies_append, ← ih,
        replies_messagesOf]
      rfl

theorem isReply_of_mem_replies {message : OutputMsg τ}
    {messages : List (PluginMsg ρ)} (h : message ∈ replies config messages) :
    message.isReply = true := by
  obtain ⟨sent, -, hreply⟩ := List.mem_filterMap.mp h
  cases sent <;> simp [reply?] at hreply <;> subst hreply <;> rfl

@[simp] theorem returned_append (xs ys : List (OutputMsg τ)) :
    returned (xs ++ ys) = returned xs ++ returned ys :=
  List.filter_append ..

theorem returned_eq_self {messages : List (OutputMsg τ)}
    (h : ∀ message ∈ messages, message.isReply = true) :
    returned messages = messages :=
  List.filter_eq_self.mpr h

/-! ## Blocks -/

theorem block_prefix_block
    {ms ms' : List ControlMsg} {data data' : List τ}
    {rest rest' : List (OutputMsg τ)}
    (h : block ms data ++ rest <+: block ms' data' ++ rest') :
    ms = ms' ∧ data = data' ∧ rest <+: rest' := by
  induction ms generalizing ms' with
  | nil =>
      rcases ms' with _ | ⟨message, ms'⟩
      · simp only [block, List.map_nil, List.nil_append,
          List.singleton_append, List.cons_prefix_cons,
          OutputMsg.nextBatch.injEq] at h
        exact ⟨rfl, h.1, h.2⟩
      · simp [block, List.cons_prefix_cons] at h
  | cons message ms ih =>
      rcases ms' with _ | ⟨message', ms'⟩
      · simp [block, List.cons_prefix_cons] at h
      · simp only [block, List.map_cons, List.cons_append,
          List.cons_prefix_cons, OutputMsg.control.injEq] at h
        obtain ⟨rfl, htail⟩ := h
        obtain ⟨rfl, hdata, hrest⟩ := ih htail
        exact ⟨rfl, hdata, hrest⟩

/-- An output batch has the rows of an input batch, processed, and its
checkpoint messages up to creation times. -/
def Matches (config : TransformConfig ρ τ) (batch : RecordBatch ρ)
    (out : RecordBatch τ) : Prop :=
  controls batch.messages = controls out.messages ∧
    config.processBatch batch.rows = out.rows

/-- What the host receives for an output batch. -/
def outputsOf (out : RecordBatch τ) : List (OutputMsg τ) :=
  block (controls out.messages) out.rows

/-- Whole batches received match the batches sent, one by one. -/
theorem matches_of_prefix
    {stream : List (RecordBatch ρ)} {outs : List (RecordBatch τ)}
    {tail : List (OutputMsg τ)}
    (h : outs.flatMap outputsOf ++ tail <+: stream.flatMap fun batch =>
      block (controls batch.messages) (config.processBatch batch.rows)) :
    ∃ front back, stream = front ++ back ∧
      List.Forall₂ (Matches config) front outs ∧
      tail <+: back.flatMap fun batch =>
        block (controls batch.messages) (config.processBatch batch.rows) := by
  induction outs generalizing stream with
  | nil => exact ⟨[], stream, rfl, .nil, h⟩
  | cons out outs ih =>
      rcases stream with _ | ⟨batch, stream⟩
      · simp [outputsOf, block] at h
      · rw [List.flatMap_cons, List.flatMap_cons, List.append_assoc] at h
        obtain ⟨hcontrols, hrows, hrest⟩ := block_prefix_block h
        obtain ⟨front, back, rfl, hmatches, htail⟩ := ih hrest
        exact ⟨batch :: front, back, rfl,
          .cons ⟨hcontrols.symm, hrows.symm⟩ hmatches, htail⟩

theorem flatMap_outputsOf_of_matches
    {front : List (RecordBatch ρ)} {outs : List (RecordBatch τ)}
    (h : List.Forall₂ (Matches config) front outs) :
    outs.flatMap outputsOf = front.flatMap fun batch =>
      block (controls batch.messages) (config.processBatch batch.rows) := by
  induction h with
  | nil => rfl
  | cons hmatch _ ih =>
      rw [List.flatMap_cons, List.flatMap_cons, ih, outputsOf, hmatch.1,
        hmatch.2]

end Replies

namespace TransformRun

/-! ## What a step does -/

/-- The ways in which a step changes the state. -/
inductive Stepped (config : TransformConfig ρ τ) (s : TransformRun ρ τ) :
    Action → TransformRun ρ τ → Prop where
  | reads (batch : RecordBatch ρ) (rest : List (RecordBatch ρ))
      (hs : s.host = .reading) (hpending : s.pending = batch :: rest) :
      Stepped config s .read
        { s with
          pending := rest
          stream := s.stream ++ [batch]
          host := .sending batch.messages batch.rows }
  | finishes (hs : s.host = .reading) (hpending : s.pending = []) :
      Stepped config s .read { s with host := .ended (!config.inputFails) }
  | skips (message : CheckpointMessage) (rest : List CheckpointMessage)
      (data : List ρ) (hs : s.host = .sending (message :: rest) data)
      (hmessage : controlOf? message = none) :
      Stepped config s .skip { s with host := .sending rest data }
  | sends (message : PluginMsg ρ) (hs : s.host.next? = some message)
      (hroom : s.input.length < config.inputCapacity) :
      Stepped config s .send
        { s with
          epochCreatedAt := s.recordCreatedAt
          input := s.input ++ [message]
          sent := s.sent ++ [message]
          host := s.host.afterSend }
  | givesUp (message : PluginMsg ρ) (hs : s.host.next? = some message)
      (hfull : config.inputCapacity ≤ s.input.length)
      (hreason : s.dispatcher.hasExited = true ∨ s.shuttingDown = true ∨
        s.host.isStarting = true) :
      Stepped config s .giveUp { s with host := .ended false }
  | looks (hs : s.host = .polling) :
      Stepped config s .look
        { s with host := .looking s.dispatcher.hasExited }
  | idles (hs : s.host = .looking false) (houtput : s.output = []) :
      Stepped config s .idle { s with host := .polling }
  | noticesExit (hs : s.host = .looking true) (houtput : s.output = []) :
      Stepped config s .noticeExit { s with host := .ended false }
  | failsReceiving (dispatcherExited : Bool) (rest : List (OutputMsg τ))
      (nowMs : ℕ) (hs : s.host = .looking dispatcherExited)
      (houtput : s.output = .error :: rest) :
      Stepped config s (.receive nowMs)
        { s with output := rest, host := .ended false }
  | receives (dispatcherExited : Bool) (message : OutputMsg τ)
      (rest : List (OutputMsg τ)) (nowMs : ℕ)
      (hs : s.host = .looking dispatcherExited)
      (houtput : s.output = message :: rest)
      (hreply : message.isReply = true) :
      Stepped config s (.receive nowMs)
        (receiveOutput { s with output := rest } nowMs message)
  | emits (batch : RecordBatch τ) (hs : s.host = .emitting batch) :
      Stepped config s .emit
        { s with emitted := s.emitted ++ [batch], host := .reading }
  | takes (message : PluginMsg ρ) (rest : List (PluginMsg ρ))
      (dispatcher : Dispatcher ρ τ) (hinput : s.input = message :: rest)
      (htake : s.dispatcher.take? message = some dispatcher) :
      Stepped config s .take { s with input := rest, dispatcher := dispatcher }
  | hooks (ok : Bool) (dispatcher : Dispatcher ρ τ)
      (hhook : s.dispatcher.hook? config ok = some dispatcher) :
      Stepped config s (.hook ok) { s with dispatcher := dispatcher }
  | forwards (message : OutputMsg τ) (hs : s.dispatcher = .sending message)
      (hroom : s.output.length < config.outputCapacity) :
      Stepped config s .forward
        { s with output := s.output ++ [message], dispatcher := .waiting }
  | reports (hs : s.dispatcher = .draining true)
      (hroom : s.output.length < config.outputCapacity) :
      Stepped config s .report
        { s with
          output := s.output ++ [.error]
          dispatcher := .draining false }
  | exits (hs : s.dispatcher.hasExited = false) :
      Stepped config s .exit { s with dispatcher := .exited }
  | shutsDown : Stepped config s .shutDown { s with shuttingDown := true }
  | terminates (hs : s.shuttingDown = true)
      (hroom : s.input.length < config.inputCapacity) :
      Stepped config s .terminate { s with input := s.input ++ [.terminate] }

theorem hasEnded_of_next? {host : Host ρ τ} {message : PluginMsg ρ}
    (h : host.next? = some message) :
    host.hasEnded = false ∧ host.inHand = [] := by
  cases host <;> first | exact ⟨rfl, rfl⟩ | simp [Host.next?] at h

theorem hasEnded_of_waits {host : Host ρ τ} (h : host.waits = true) :
    host.hasEnded = false ∧ host.inHand = [] ∧ host.owed = 1 := by
  cases host <;> first | exact ⟨rfl, rfl, rfl⟩ | simp [Host.waits] at h

theorem stepped_of_step
    {config : TransformConfig ρ τ} {s s' : TransformRun ρ τ} {a : Action}
    (h : step config s a = some s') : Stepped config s a s' := by
  cases a with
  | read =>
      simp only [step, read] at h
      split at h
      · rename_i hs
        split at h
        · rename_i batch rest hpending
          obtain rfl := Option.some.inj h
          exact .reads batch rest hs hpending
        · rename_i hpending
          obtain rfl := Option.some.inj h
          exact .finishes hs hpending
      · exact absurd h (by simp)
  | skip =>
      simp only [step, skip] at h
      split at h
      · rename_i message rest data hs
        split_ifs at h with hmessage
        obtain rfl := Option.some.inj h
        exact .skips message rest data hs (by simpa using hmessage)
      · exact absurd h (by simp)
  | send =>
      simp only [step, send] at h
      split at h
      · rename_i message hs
        split_ifs at h with hroom
        obtain rfl := Option.some.inj h
        exact .sends message hs hroom
      · exact absurd h (by simp)
  | giveUp =>
      simp only [step, giveUp] at h
      split_ifs at h with hs
      obtain rfl := Option.some.inj h
      obtain ⟨message, hmessage⟩ := Option.isSome_iff_exists.mp hs.1
      exact .givesUp message hmessage hs.2.1 hs.2.2
  | look =>
      simp only [step, look] at h
      split at h
      · rename_i hs
        obtain rfl := Option.some.inj h
        exact .looks hs
      · exact absurd h (by simp)
  | receive nowMs =>
      simp only [step, receive] at h
      split at h
      · rename_i exited message rest hs houtput
        obtain rfl := Option.some.inj h
        cases message with
        | error => exact .failsReceiving exited rest nowMs hs houtput
        | nextBatch data =>
            exact .receives exited _ rest nowMs hs houtput rfl
        | control message =>
            exact .receives exited _ rest nowMs hs houtput rfl
      · exact absurd h (by simp)
  | idle =>
      simp only [step, idle] at h
      split at h
      · rename_i hs houtput
        obtain rfl := Option.some.inj h
        exact .idles hs houtput
      · exact absurd h (by simp)
  | noticeExit =>
      simp only [step, noticeExit] at h
      split at h
      · rename_i hs houtput
        obtain rfl := Option.some.inj h
        exact .noticesExit hs houtput
      · exact absurd h (by simp)
  | emit =>
      simp only [step, emit] at h
      split at h
      · rename_i batch hs
        obtain rfl := Option.some.inj h
        exact .emits batch hs
      · exact absurd h (by simp)
  | take =>
      simp only [step, take] at h
      split at h
      · rename_i message rest hinput
        obtain ⟨dispatcher, htake, rfl⟩ := Option.map_eq_some_iff.mp h
        exact .takes message rest dispatcher hinput htake
      · exact absurd h (by simp)
  | hook ok =>
      simp only [step, hook] at h
      obtain ⟨dispatcher, hhook, rfl⟩ := Option.map_eq_some_iff.mp h
      exact .hooks ok dispatcher hhook
  | forward =>
      simp only [step, forward] at h
      split at h
      · rename_i message hs
        split_ifs at h with hroom
        obtain rfl := Option.some.inj h
        exact .forwards message hs hroom
      · exact absurd h (by simp)
  | report =>
      simp only [step, report] at h
      split at h
      · rename_i hs
        split_ifs at h with hroom
        obtain rfl := Option.some.inj h
        exact .reports hs hroom
      · exact absurd h (by simp)
  | exit =>
      simp only [step, exit] at h
      split_ifs at h with hs
      obtain rfl := Option.some.inj h
      exact .exits (by simpa using hs)
  | shutDown =>
      obtain rfl := Option.some.inj h
      exact .shutsDown
  | terminate =>
      simp only [step, terminate] at h
      split_ifs at h with hs
      obtain rfl := Option.some.inj h
      exact .terminates hs.1 hs.2

/-! ## The channels -/

/-- What is received are replies to what was sent, and while the dispatcher
runs no reply is lost. -/
structure Flow (config : TransformConfig ρ τ) (s : TransformRun ρ τ) :
    Prop where
  returned : s.received ++ returned s.output <+: replies config s.sent
  live : s.dispatcher.live = true →
    s.received ++ s.output ++ s.dispatcher.held config ++
      replies config s.input = replies config s.sent
  inputRoom : s.input.length ≤ config.inputCapacity
  outputRoom : s.output.length ≤ config.outputCapacity

variable {config : TransformConfig ρ τ} {s s' : TransformRun ρ τ}

theorem live_of_take
    (config : TransformConfig ρ τ) {dispatcher dispatcher' : Dispatcher ρ τ}
    {message : PluginMsg ρ} (h : dispatcher.take? message = some dispatcher')
    (hlive : dispatcher'.live = true) :
    dispatcher.live = true ∧ dispatcher.held config = [] ∧
      dispatcher'.held config = (reply? config message).toList := by
  cases dispatcher <;> cases message <;>
    simp only [Dispatcher.take?, Option.some.injEq, reduceCtorEq] at h <;>
    subst h <;> simp [Dispatcher.live, Dispatcher.held, reply?] at hlive ⊢

theorem live_of_hook
    {dispatcher dispatcher' : Dispatcher ρ τ} {ok : Bool}
    (h : dispatcher.hook? config ok = some dispatcher')
    (hlive : dispatcher'.live = true) :
    dispatcher.live = true ∧
      dispatcher'.held config = dispatcher.held config := by
  cases ok <;>
    rcases dispatcher with _ | _ | _ | (_ | _ | _ | _) | _ | _ | _ <;>
    simp only [Dispatcher.hook?, Option.some.injEq, reduceCtorEq, if_true,
      Bool.false_eq_true, if_false] at h <;>
    subst h <;> simp [Dispatcher.live, Dispatcher.held, reply?] at hlive ⊢

/-- While the dispatcher runs, no failure is on the output channel. -/
theorem Flow.returned_output
    (h : Flow config s) (hlive : s.dispatcher.live = true) :
    PluginTransform.returned s.output = s.output := by
  apply returned_eq_self
  intro message hmessage
  have hmem : message ∈ replies config s.sent := by
    rw [← h.live hlive]
    simp [hmessage]
  exact isReply_of_mem_replies hmem

theorem flow_start : Flow config (start config) where
  returned := List.prefix_rfl
  live := fun _ => rfl
  inputRoom := Nat.zero_le _
  outputRoom := Nat.zero_le _

/-- A step that touches no channel and leaves the dispatcher alone. -/
theorem Flow.congr
    (h : Flow config s) (hreceived : s'.received = s.received)
    (hsent : s'.sent = s.sent) (hinput : s'.input = s.input)
    (houtput : s'.output = s.output)
    (hdispatcher : s'.dispatcher = s.dispatcher) : Flow config s' where
  returned := by
    rw [hreceived, houtput, hsent]
    exact h.returned
  live := by
    rw [hreceived, houtput, hsent, hinput, hdispatcher]
    exact h.live
  inputRoom := hinput ▸ h.inputRoom
  outputRoom := houtput ▸ h.outputRoom

theorem received_receiveOutput
    {message : OutputMsg τ} (nowMs : ℕ) (hreply : message.isReply = true) :
    (receiveOutput s nowMs message).received = s.received ++ [message] := by
  cases message with
  | error => exact absurd hreply (by simp [OutputMsg.isReply])
  | nextBatch data => rfl
  | control message => cases message <;> rfl

theorem receiveOutput_channels (message : OutputMsg τ) (nowMs : ℕ) :
    (receiveOutput s nowMs message).sent = s.sent ∧
      (receiveOutput s nowMs message).input = s.input ∧
      (receiveOutput s nowMs message).output = s.output ∧
      (receiveOutput s nowMs message).dispatcher = s.dispatcher := by
  cases message with
  | error => exact ⟨rfl, rfl, rfl, rfl⟩
  | nextBatch data => exact ⟨rfl, rfl, rfl, rfl⟩
  | control message => cases message <;> exact ⟨rfl, rfl, rfl, rfl⟩

theorem Flow.step {a : Action}
    (h : Flow config s) (hstep : Stepped config s a s') :
    Flow config s' := by
  cases hstep with
  | reads | finishes | skips | givesUp | looks | idles | noticesExit | emits
  | shutsDown =>
      exact h.congr rfl rfl rfl rfl rfl
  | sends message hs hroom =>
      constructor
      · simp only [replies_append]
        exact h.returned.trans (List.prefix_append _ _)
      · intro hlive
        simp only [replies_append, ← List.append_assoc, ← h.live hlive]
      · rw [List.length_append]
        exact hroom
      · exact h.outputRoom
  | failsReceiving exited rest nowMs hs houtput =>
      have hdead : s.dispatcher.live = false := by
        by_contra hlive
        have hmem : (.error : OutputMsg τ) ∈ replies config s.sent := by
          rw [← h.live (by simpa using hlive), houtput]
          simp
        exact absurd (isReply_of_mem_replies hmem) (by simp [OutputMsg.isReply])
      constructor
      · have hreturned := h.returned
        rw [houtput] at hreturned
        exact hreturned
      · intro hlive
        rw [hdead] at hlive
        exact absurd hlive (by simp)
      · exact h.inputRoom
      · have hroom := h.outputRoom
        rw [houtput, List.length_cons] at hroom
        exact Nat.le_of_succ_le hroom
  | receives exited message rest nowMs hs houtput hreply =>
      obtain ⟨hsent, hinput, houtput', hdispatcher⟩ :=
        receiveOutput_channels (s := { s with output := rest }) message nowMs
      have hreceived := received_receiveOutput
        (s := { s with output := rest }) nowMs hreply
      constructor
      · rw [hreceived, houtput', hsent]
        have hreturned := h.returned
        rw [houtput, PluginTransform.returned, List.filter_cons_of_pos hreply]
          at hreturned
        rw [List.append_assoc]
        exact hreturned
      · intro hlive
        rw [hdispatcher] at hlive ⊢
        rw [hreceived, houtput', hsent, hinput]
        have hflow := h.live hlive
        rw [houtput] at hflow
        rw [← hflow]
        simp
      · rw [hinput]
        exact h.inputRoom
      · rw [houtput']
        have hroom := h.outputRoom
        rw [houtput, List.length_cons] at hroom
        exact Nat.le_of_succ_le hroom
  | takes message rest dispatcher hinput htake =>
      have hroom := h.inputRoom
      rw [hinput, List.length_cons] at hroom
      refine ⟨h.returned, fun hlive => ?_, Nat.le_of_succ_le hroom,
        h.outputRoom⟩
      obtain ⟨hlive', hheld, hheld'⟩ :=
        live_of_take config htake hlive
      have hflow := h.live hlive'
      rw [hinput, replies_cons, hheld] at hflow
      rw [hheld', ← hflow]
      simp
  | hooks ok dispatcher hhook =>
      refine ⟨h.returned, fun hlive => ?_, h.inputRoom, h.outputRoom⟩
      obtain ⟨hlive', hheld⟩ := live_of_hook hhook hlive
      rw [hheld]
      exact h.live hlive'
  | forwards message hs hroom =>
      have hlive : s.dispatcher.live = true := by rw [hs]; rfl
      have hflow := h.live hlive
      have hheld : s.dispatcher.held config = [message] := by rw [hs]; rfl
      rw [hheld] at hflow
      have hreply : message.isReply = true := by
        have hmem : message ∈ replies config s.sent := by
          rw [← hflow]
          simp
        exact isReply_of_mem_replies hmem
      constructor
      · have hone : PluginTransform.returned [message] = [message] :=
          returned_eq_self (by simpa using hreply)
        rw [returned_append, h.returned_output hlive, hone, ← hflow]
        exact ⟨replies config s.input, by simp⟩
      · intro _
        rw [← hflow]
        simp [Dispatcher.held]
      · exact h.inputRoom
      · rw [List.length_append]
        exact hroom
  | reports hs hroom =>
      constructor
      · rw [returned_append]
        have hnone : PluginTransform.returned [(.error : OutputMsg τ)] = [] :=
          rfl
        rw [hnone, List.append_nil]
        exact h.returned
      · intro hlive
        exact absurd hlive (by simp [Dispatcher.live])
      · exact h.inputRoom
      · rw [List.length_append]
        exact hroom
  | exits =>
      exact ⟨h.returned, fun hlive => absurd hlive (by simp [Dispatcher.live]),
        h.inputRoom, h.outputRoom⟩
  | terminates hs hroom =>
      constructor
      · exact h.returned
      · intro hlive
        have hnone : replies config [(.terminate : PluginMsg ρ)] = [] := rfl
        rw [replies_append, hnone, List.append_nil]
        exact h.live hlive
      · rw [List.length_append]
        exact hroom
      · exact h.outputRoom

end TransformRun

end PluginTransform

end Streamling
