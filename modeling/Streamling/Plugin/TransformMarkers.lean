import Mathlib.Data.List.Forall2
import Streamling.Plugin.TransformFlow

/-!
# The output of a plugin transform

The host reads a batch only after it has emitted the one before.  So what it
emits are whole blocks of what it receives, the buffered checkpoint messages
belong to the next batch that comes back, and when the input ends everything
was emitted.
-/

namespace Streamling

namespace PluginTransform

open PluginSource (ControlMsg controlOf? controls)

variable {ρ τ : Type}

/-! ## Checkpoint messages -/

theorem controls_append (xs ys : List CheckpointMessage) :
    controls (xs ++ ys) = controls xs ++ controls ys :=
  List.filterMap_append

theorem controls_cons_of_some
    {message : CheckpointMessage} {control : ControlMsg}
    (h : controlOf? message = some control)
    (rest : List CheckpointMessage) :
    controls (message :: rest) = control :: controls rest :=
  List.filterMap_cons_some h

theorem controls_cons_of_none
    {message : CheckpointMessage} (h : controlOf? message = none)
    (rest : List CheckpointMessage) :
    controls (message :: rest) = controls rest :=
  List.filterMap_cons_none h

@[simp] theorem Host.inHand_emitting (batch : RecordBatch τ) :
    (Host.emitting batch : Host ρ τ).inHand = [batch] := rfl

@[simp] theorem Host.inHand_polling :
    (Host.polling : Host ρ τ).inHand = [] := rfl

@[simp] theorem Host.inHand_ended (ok : Bool) :
    (Host.ended ok : Host ρ τ).inHand = [] := rfl

/-- The host sends one message and still has the rest to send. -/
theorem unsent_of_next?
    {host : Host ρ τ} {message : PluginMsg ρ}
    (h : host.next? = some message) :
    host.unsent = message :: host.afterSend.unsent ∧
      host.afterSend.hasEnded = false ∧ host.afterSend.inHand = [] ∧
      host.afterSend.owed = host.owed ∧ host.waits = false := by
  cases host with
  | starting =>
      obtain rfl := Option.some.inj h
      exact ⟨rfl, rfl, rfl, rfl, rfl⟩
  | sending messages data =>
      cases messages with
      | nil =>
          obtain rfl := Option.some.inj h
          exact ⟨rfl, rfl, rfl, rfl, rfl⟩
      | cons first rest =>
          obtain ⟨control, hcontrol, rfl⟩ := Option.map_eq_some_iff.mp h
          refine ⟨?_, rfl, rfl, rfl, rfl⟩
          simp [Host.unsent, Host.afterSend,
            controls_cons_of_some hcontrol]
  | reading | polling | looking | emitting | ended =>
      exact absurd h (by simp [Host.next?])

namespace TransformRun

variable {config : TransformConfig ρ τ} {s s' : TransformRun ρ τ}

/-- The checkpoint messages of the input, in order. -/
def inputMessages (config : TransformConfig ρ τ) : List CheckpointMessage :=
  config.batches.flatMap RecordBatch.messages

/-- The checkpoint messages that came back, in order. -/
def backMessages (s : TransformRun ρ τ) : List CheckpointMessage :=
  (s.emitted ++ s.host.inHand).flatMap RecordBatch.messages ++
    s.checkpointBuffer

/-! ## The host's loop -/

/-- What the host has read, sent, received and emitted. -/
structure Hosting (config : TransformConfig ρ τ) (s : TransformRun ρ τ) :
    Prop where
  read : s.stream ++ s.pending = config.batches
  sent : s.sent ++ s.host.unsent <+: written s.stream
  sentAll : s.host.hasEnded = false →
    s.sent ++ s.host.unsent = written s.stream
  received : s.received = (s.emitted ++ s.host.inHand).flatMap outputsOf ++
    (controls s.checkpointBuffer).map .control
  owed : s.host.hasEnded = false →
    s.emitted.length + s.host.owed = s.stream.length
  buffer : s.host.hasEnded = false → s.host.waits = false →
    s.checkpointBuffer = []
  whole : s.host = .ended true →
    s.emitted.length = config.batches.length ∧ config.inputFails = false
  sending : ∀ messages data, s.host = .sending messages data →
    ∀ message ∈ messages, message ∈ inputMessages config

theorem hosting_start : Hosting config (start config) where
  read := rfl
  sent := List.prefix_rfl
  sentAll := fun _ => rfl
  received := rfl
  owed := fun _ => rfl
  buffer := fun _ _ => rfl
  whole := fun h => absurd h (by simp [start])
  sending := fun _ _ h => absurd h (by simp [start])

/-- A step that leaves the host alone. -/
theorem Hosting.congr
    (h : Hosting config s) (hpending : s'.pending = s.pending)
    (hstream : s'.stream = s.stream) (hsent : s'.sent = s.sent)
    (hreceived : s'.received = s.received) (hhost : s'.host = s.host)
    (hemitted : s'.emitted = s.emitted)
    (hbuffer : s'.checkpointBuffer = s.checkpointBuffer) :
    Hosting config s' where
  read := by rw [hstream, hpending]; exact h.read
  sent := by rw [hsent, hhost, hstream]; exact h.sent
  sentAll := by rw [hsent, hhost, hstream]; exact h.sentAll
  received := by rw [hreceived, hemitted, hhost, hbuffer]; exact h.received
  owed := by rw [hhost, hemitted, hstream]; exact h.owed
  buffer := by rw [hhost, hbuffer]; exact h.buffer
  whole := by rw [hhost, hemitted]; exact h.whole
  sending := by rw [hhost]; exact h.sending

/-- The stream ends with an error. -/
theorem Hosting.fail
    (h : Hosting config s) (hhand : s.host.inHand = [])
    (hpending : s'.pending = s.pending) (hstream : s'.stream = s.stream)
    (hsent : s'.sent = s.sent) (hreceived : s'.received = s.received)
    (hhost : s'.host = .ended false) (hemitted : s'.emitted = s.emitted)
    (hbuffer : s'.checkpointBuffer = s.checkpointBuffer) :
    Hosting config s' where
  read := by rw [hstream, hpending]; exact h.read
  sent := by
    rw [hsent, hhost, hstream]
    have hinitial := (List.prefix_append _ _).trans h.sent
    simpa [Host.unsent] using hinitial
  sentAll := by simp [hhost, Host.hasEnded]
  received := by
    rw [hreceived, hemitted, hhost, hbuffer, h.received, hhand]
    rfl
  owed := by simp [hhost, Host.hasEnded]
  buffer := by simp [hhost, Host.hasEnded]
  whole := by simp [hhost]
  sending := by simp [hhost]

theorem written_append_singleton
    (stream : List (RecordBatch ρ)) (batch : RecordBatch ρ) :
    written (stream ++ [batch]) = written stream ++ messagesOf batch := by
  simp [written]

theorem Hosting.receive
    (h : Hosting config s) (hs : s.host.waits = true)
    {message : OutputMsg τ} (hreply : message.isReply = true) (nowMs : ℕ) :
    Hosting config (receiveOutput s nowMs message) := by
  obtain ⟨hended, hhand, howed⟩ := hasEnded_of_waits hs
  have hunsent : s.host.unsent = [] := by
    revert hs
    cases s.host <;> simp [Host.waits, Host.unsent]
  have hsent := h.sent
  have hsentAll := h.sentAll hended
  have hreceived := h.received
  have hcount := h.owed hended
  rw [hunsent] at hsent hsentAll
  rw [howed] at hcount
  rw [hhand, List.append_nil] at hreceived
  cases message with
  | error => exact absurd hreply (by simp [OutputMsg.isReply])
  | nextBatch data =>
      refine ⟨h.read, hsent, fun _ => hsentAll, ?_, fun _ => hcount,
        fun _ _ => rfl, ?_, ?_⟩
      · simp [receiveOutput, Host.inHand, hreceived, outputsOf, block,
          controls]
      · simp [receiveOutput]
      · simp [receiveOutput]
  | control message =>
      cases message with
      | checkpointMarker epoch | checkpointFinalizer epoch =>
          refine ⟨h.read, hsent, fun _ => hsentAll, ?_, fun _ => hcount,
            fun _ hwaits => absurd hwaits (by simp [receiveOutput,
              Host.waits]), ?_, ?_⟩
          · simp [receiveOutput, Host.inHand, hreceived, controls,
              controlOf?]
          · simp [receiveOutput]
          · simp [receiveOutput]

/-- The host keeps waiting for the plugin. -/
theorem Hosting.poll {host : Host ρ τ}
    (h : Hosting config s) (hs : s.host.waits = true)
    (hhost : host.waits = true) : Hosting config { s with host := host } := by
  obtain ⟨hended, hhand, howed⟩ := hasEnded_of_waits hs
  obtain ⟨hended', hhand', howed'⟩ := hasEnded_of_waits hhost
  have hunsent : ∀ {host : Host ρ τ}, host.waits = true →
      host.unsent = [] := by
    intro host hwaits
    cases host <;> simp [Host.waits, Host.unsent] at hwaits ⊢
  have hsent := h.sent
  have hsentAll := h.sentAll hended
  have hreceived := h.received
  have hcount := h.owed hended
  rw [hunsent hs, ← hunsent hhost] at hsent hsentAll
  rw [hhand, ← hhand'] at hreceived
  rw [howed, ← howed'] at hcount
  refine ⟨h.read, hsent, fun _ => hsentAll, hreceived, fun _ => hcount,
    fun _ hwaits => ?_, ?_, ?_⟩
  · simp [hhost] at hwaits
  · intro heq
    simp only at heq
    rw [heq] at hended'
    exact absurd hended' (by simp [Host.hasEnded])
  · intro messages data heq
    simp only at heq
    rw [heq] at hhost
    exact absurd hhost (by simp [Host.waits])

theorem Hosting.step {a : Action}
    (h : Hosting config s) (hstep : Stepped config s a s') :
    Hosting config s' := by
  cases hstep with
  | takes | hooks | forwards | reports | exits | shutsDown | terminates =>
      exact h.congr rfl rfl rfl rfl rfl rfl rfl
  | reads batch rest hs hpending =>
      have hread := h.read
      have hsent := h.sentAll (by rw [hs]; rfl)
      have hreceived := h.received
      have hcount := h.owed (by rw [hs]; rfl)
      have hbuffer := h.buffer (by rw [hs]; rfl) (by rw [hs]; rfl)
      rw [hs] at hsent hreceived hcount
      rw [hpending] at hread
      have hall : s.sent ++ (Host.sending batch.messages batch.rows :
          Host ρ τ).unsent = written (s.stream ++ [batch]) := by
        rw [written_append_singleton, ← hsent]
        simp [Host.unsent, messagesOf]
      refine ⟨by simpa using hread, hall ▸ List.prefix_rfl, fun _ => hall,
        hreceived, fun _ => ?_, fun _ _ => hbuffer, by simp, ?_⟩
      · rw [List.length_append, ← hcount]
        rfl
      · rintro messages data heq message hmessage
        obtain ⟨rfl, -⟩ := Host.sending.inj heq
        refine List.mem_flatMap.mpr ⟨batch, ?_, hmessage⟩
        rw [← hread]
        simp
  | finishes hs hpending =>
      have hread := h.read
      have hcount := h.owed (by rw [hs]; rfl)
      have hreceived := h.received
      rw [hpending, List.append_nil] at hread
      rw [hs] at hcount hreceived
      refine ⟨h.read, ?_, by simp [Host.hasEnded], hreceived,
        by simp [Host.hasEnded], by simp [Host.hasEnded], ?_, by simp⟩
      · have hsent := h.sent
        rw [hs] at hsent
        exact hsent
      · intro hok
        rw [← hread]
        exact ⟨hcount, by simpa using hok⟩
  | skips message rest data hs hmessage =>
      have hunsent : (Host.sending rest data : Host ρ τ).unsent =
          s.host.unsent := by
        rw [hs]
        simp [Host.unsent, controls_cons_of_none hmessage]
      have hreceived := h.received
      have hcount := h.owed (by rw [hs]; rfl)
      have hbuffer := h.buffer (by rw [hs]; rfl) (by rw [hs]; rfl)
      rw [hs] at hreceived hcount
      refine ⟨h.read, by rw [hunsent]; exact h.sent, fun _ => ?_, hreceived,
        fun _ => hcount, fun _ _ => hbuffer, by simp, ?_⟩
      · rw [hunsent]
        exact h.sentAll (by rw [hs]; rfl)
      · rintro messages data' heq m hm
        obtain ⟨rfl, -⟩ := Host.sending.inj heq
        exact h.sending _ _ hs m (List.mem_cons_of_mem _ hm)
  | sends message hs hroom =>
      obtain ⟨hunsent, hended, hhand, howed, hwaits⟩ := unsent_of_next? hs
      obtain ⟨hended', hhand'⟩ := hasEnded_of_next? hs
      have hsent := h.sent
      have hsentAll := h.sentAll hended'
      rw [hunsent] at hsent hsentAll
      refine ⟨h.read, by simpa using hsent, fun _ => by simpa using hsentAll,
        ?_, fun _ => ?_, fun _ _ => h.buffer hended' hwaits, ?_, ?_⟩
      · simp only [hhand]
        rw [← hhand']
        exact h.received
      · simp only [howed]
        exact h.owed hended'
      · intro heq
        simp only at heq
        rw [heq] at hended
        exact absurd hended (by simp [Host.hasEnded])
      · rintro messages data heq m hm
        revert hs heq
        cases hhost : s.host with
        | sending messages' data' =>
            cases messages' with
            | nil => simp [Host.afterSend]
            | cons first rest =>
                intro _ heq
                obtain ⟨rfl, -⟩ := Host.sending.inj heq
                exact h.sending _ _ hhost m (List.mem_cons_of_mem _ hm)
        | starting | reading | polling | looking | emitting | ended =>
            simp [Host.afterSend, Host.next?]
  | givesUp message hs =>
      exact h.fail (hasEnded_of_next? hs).2 rfl rfl rfl rfl rfl rfl rfl
  | noticesExit hs | failsReceiving exited rest nowMs hs =>
      exact h.fail (by rw [hs]; rfl) rfl rfl rfl rfl rfl rfl rfl
  | looks hs => exact h.poll (by rw [hs]; rfl) rfl
  | idles hs => exact h.poll (by rw [hs]; rfl) rfl
  | receives exited message rest nowMs hs houtput hreply =>
      have h' : Hosting config { s with output := rest } :=
        h.congr rfl rfl rfl rfl rfl rfl rfl
      exact h'.receive (by simp only [hs]; rfl) hreply nowMs
  | emits batch hs =>
      have hsent := h.sent
      have hsentAll := h.sentAll (by rw [hs]; rfl)
      have hreceived := h.received
      have hcount := h.owed (by rw [hs]; rfl)
      have hbuffer := h.buffer (by rw [hs]; rfl) (by rw [hs]; rfl)
      rw [hs] at hsent hsentAll hreceived hcount
      refine ⟨h.read, hsent, fun _ => hsentAll, ?_, fun _ => ?_,
        fun _ _ => hbuffer, by simp, by simp⟩
      · simpa [Host.inHand] using hreceived
      · simpa [Host.owed] using hcount

/-! ## Creation times -/

/-- The epoch of a marker that comes back. -/
def markerOf? : OutputMsg τ → Option CheckpointEpoch
  | .control (.checkpointMarker epoch) => some epoch
  | _ => none

theorem filterMap_markerOf?_block
    (messages : List CheckpointMessage) (data : List τ) :
    (block (controls messages) data).filterMap markerOf? =
      markerEpochs messages := by
  induction messages with
  | nil => rfl
  | cons message rest ih =>
      cases message with
      | marker epoch createdAtMs =>
          exact congrArg (epoch :: ·) ih
      | ack | finalizer | sourceComplete => exact ih

theorem filterMap_markerOf?_written
    (config : TransformConfig ρ τ) (stream : List (RecordBatch ρ)) :
    (replies config (written stream)).filterMap markerOf? =
      stream.flatMap fun batch => markerEpochs batch.messages := by
  rw [replies_written]
  induction stream with
  | nil => rfl
  | cons batch stream ih =>
      rw [List.flatMap_cons, List.flatMap_cons, List.filterMap_append,
        filterMap_markerOf?_block, ih]

theorem replies_of_le
    {xs ys : List (PluginMsg ρ)} (h : xs <+: ys) :
    replies config xs <+: replies config ys := by
  obtain ⟨rest, rfl⟩ := h
  rw [replies_append]
  exact List.prefix_append _ _

/-- What was received is part of what the stream is replied with. -/
theorem received_prefix_written
    (hflow : Flow config s) (hhosting : Hosting config s) :
    s.received ++ returned s.output <+:
      replies config (written s.stream) :=
  hflow.returned.trans
    (replies_of_le ((List.prefix_append _ _).trans hhosting.sent))

/-- A marker that comes back, of an epoch that occurs once, was sent and has
not come back before. -/
theorem marker_returns_once
    (hflow : Flow config s) (hhosting : Hosting config s)
    {epoch : CheckpointEpoch} {rest : List (OutputMsg τ)}
    (houtput : s.output = .control (.checkpointMarker epoch) :: rest)
    (honce : (inputEpochs config).count epoch = 1) :
    .control (.checkpointMarker epoch) ∈ s.sent ∧
      .control (.checkpointMarker epoch) ∉ s.received := by
  have hreturned : returned s.output =
      .control (.checkpointMarker epoch) :: returned rest := by
    rw [houtput]
    rfl
  constructor
  · have hmem : .control (.checkpointMarker epoch) ∈
        replies config s.sent := by
      apply hflow.returned.subset
      rw [hreturned]
      simp
    obtain ⟨message, hsent, hreply⟩ := List.mem_filterMap.mp hmem
    cases message with
    | init | nextBatch | terminate => simp [reply?] at hreply
    | control control =>
        obtain rfl : control = .checkpointMarker epoch := by
          simpa [reply?] using hreply
        exact hsent
  · intro hbefore
    have hinitial := received_prefix_written hflow hhosting
    rw [hreturned] at hinitial
    have hstream : (s.stream.flatMap fun batch =>
        markerEpochs batch.messages).count epoch ≤ 1 := by
      rw [← honce, inputEpochs, ← hhosting.read, List.flatMap_append,
        List.count_append]
      exact Nat.le_add_right _ _
    have hcount : ((s.received ++ .control (.checkpointMarker epoch) ::
        returned rest).filterMap markerOf?).count epoch ≤ 1 := by
      refine Nat.le_trans ?_ hstream
      rw [← filterMap_markerOf?_written config]
      exact (hinitial.sublist.filterMap _).count_le _
    have hfirst : 0 < (s.received.filterMap markerOf?).count epoch :=
      List.count_pos_iff.mpr (List.mem_filterMap.mpr ⟨_, hbefore, rfl⟩)
    have hnext : (.control (.checkpointMarker epoch) ::
        returned rest).filterMap markerOf? =
        epoch :: (returned rest).filterMap markerOf? := rfl
    rw [List.filterMap_append, List.count_append, hnext,
      List.count_cons_self] at hcount
    omega

/-- The checkpoint messages that came back are markers and finalizers, and a
marker of an epoch that occurs once has its creation time. -/
structure Timing (config : TransformConfig ρ τ) (s : TransformRun ρ τ) :
    Prop where
  control : ∀ message ∈ backMessages s, (controlOf? message).isSome = true
  created : ∀ epoch createdAtMs,
    .marker epoch createdAtMs ∈ backMessages s →
    (inputEpochs config).count epoch = 1 →
    .marker epoch createdAtMs ∈ inputMessages config
  inFlight : ∀ epoch, (inputEpochs config).count epoch = 1 →
    .control (.checkpointMarker epoch) ∈ s.sent →
    .control (.checkpointMarker epoch) ∉ s.received →
    ∃ createdAtMs, s.epochCreatedAt epoch = some createdAtMs ∧
      .marker epoch createdAtMs ∈ inputMessages config

theorem timing_start : Timing config (start config) where
  control := by simp [backMessages, start, Host.inHand]
  created := by simp [backMessages, start, Host.inHand]
  inFlight := by simp [start]

/-- A step that sends nothing and receives nothing. -/
theorem Timing.congr
    (h : Timing config s) (hback : backMessages s' = backMessages s)
    (hsent : s'.sent = s.sent) (hreceived : s'.received = s.received)
    (hcreated : s'.epochCreatedAt = s.epochCreatedAt) :
    Timing config s' where
  control := by rw [hback]; exact h.control
  created := by rw [hback]; exact h.created
  inFlight := by rw [hsent, hreceived, hcreated]; exact h.inFlight

/-- A message that does not come back from the stream of markers. -/
theorem Timing.receive
    (h : Timing config s) (hs : s.host.waits = true)
    {message : OutputMsg τ} (hreply : message.isReply = true) (nowMs : ℕ)
    (honce : ∀ epoch, message = .control (.checkpointMarker epoch) →
      (inputEpochs config).count epoch = 1 →
      .control (.checkpointMarker epoch) ∈ s.sent ∧
        .control (.checkpointMarker epoch) ∉ s.received) :
    Timing config (receiveOutput s nowMs message) := by
  have hhand := (hasEnded_of_waits hs).2.1
  cases message with
  | error => exact absurd hreply (by simp [OutputMsg.isReply])
  | nextBatch data =>
      have hback : backMessages (receiveOutput s nowMs (.nextBatch data)) =
          backMessages s := by
        simp [backMessages, receiveOutput, hhand]
      refine ⟨by rw [hback]; exact h.control,
        by rw [hback]; exact h.created, ?_⟩
      simpa [receiveOutput] using h.inFlight
  | control message =>
      cases message with
      | checkpointMarker epoch =>
          have hback : backMessages
              (receiveOutput s nowMs (.control (.checkpointMarker epoch))) =
              backMessages s ++
                [.marker epoch ((s.epochCreatedAt epoch).getD nowMs)] := by
            simp [backMessages, receiveOutput, hhand]
          refine ⟨?_, ?_, ?_⟩
          · rw [hback]
            intro m hm
            rcases List.mem_append.mp hm with hm | hm
            · exact h.control m hm
            · rw [List.mem_singleton.mp hm]
              rfl
          · rw [hback]
            intro e t hm hcount
            rcases List.mem_append.mp hm with hm | hm
            · exact h.created e t hm hcount
            · obtain ⟨rfl, rfl⟩ := CheckpointMessage.marker.inj
                (List.mem_singleton.mp hm)
              obtain ⟨hsent, hreceived⟩ := honce e rfl hcount
              obtain ⟨createdAtMs, hcreated, hinput⟩ :=
                h.inFlight e hcount hsent hreceived
              rw [hcreated]
              exact hinput
          · intro e hcount hsent hreceived
            have hne : e ≠ epoch := by
              rintro rfl
              exact hreceived (by simp [receiveOutput])
            obtain ⟨t, ht, hinput⟩ := h.inFlight e hcount hsent
              (fun hmem => hreceived (by simp [receiveOutput, hmem]))
            refine ⟨t, ?_, hinput⟩
            rw [← ht]
            exact Function.update_of_ne hne _ _
      | checkpointFinalizer epoch =>
          have hback : backMessages (receiveOutput s nowMs
              (.control (.checkpointFinalizer epoch))) =
              backMessages s ++ [.finalizer epoch] := by
            simp [backMessages, receiveOutput, hhand]
          refine ⟨?_, ?_, ?_⟩
          · rw [hback]
            intro m hm
            rcases List.mem_append.mp hm with hm | hm
            · exact h.control m hm
            · rw [List.mem_singleton.mp hm]
              rfl
          · rw [hback]
            intro e t hm hcount
            refine h.created e t ?_ hcount
            simpa using hm
          · intro e hcount hsent hreceived
            exact h.inFlight e hcount hsent
              (fun hmem => hreceived (by simp [receiveOutput, hmem]))

/-- Sending the marker of an epoch records its creation time, and sending
anything else leaves the epoch alone. -/
theorem recordCreatedAt_cases
    {message : PluginMsg ρ} (hs : s.host.next? = some message)
    (epoch : CheckpointEpoch) :
    (∃ createdAtMs rest data,
      s.host = .sending (.marker epoch createdAtMs :: rest) data ∧
        s.recordCreatedAt epoch = some createdAtMs) ∨
      message ≠ .control (.checkpointMarker epoch) ∧
        s.recordCreatedAt epoch = s.epochCreatedAt epoch := by
  unfold recordCreatedAt
  cases hhost : s.host with
  | sending messages data =>
      rw [hhost] at hs
      rcases messages with _ | ⟨first, rest⟩
      · right
        obtain rfl := Option.some.inj hs
        exact ⟨by simp, rfl⟩
      · cases first with
        | marker e createdAtMs =>
            obtain rfl := Option.some.inj hs
            by_cases heq : e = epoch
            · subst heq
              exact .inl ⟨createdAtMs, rest, data, rfl,
                Function.update_self ..⟩
            · right
              constructor
              · simpa using heq
              · exact Function.update_of_ne (Ne.symm heq) _ _
        | finalizer e =>
            right
            obtain rfl := Option.some.inj hs
            exact ⟨by simp, rfl⟩
        | ack | sourceComplete =>
            exact absurd hs (by simp [Host.next?, controlOf?])
  | starting =>
      right
      rw [hhost] at hs
      obtain rfl := Option.some.inj hs
      exact ⟨by simp, rfl⟩
  | reading | polling | looking | emitting | ended =>
      rw [hhost] at hs
      exact absurd hs (by simp [Host.next?])

theorem Timing.send
    (h : Timing config s) (hhosting : Hosting config s)
    {message : PluginMsg ρ} (hs : s.host.next? = some message) :
    Timing config
      { s with
        epochCreatedAt := s.recordCreatedAt
        input := s.input ++ [message]
        sent := s.sent ++ [message]
        host := s.host.afterSend } := by
  have hback : ∀ input, backMessages
      { s with
        epochCreatedAt := s.recordCreatedAt
        input := input
        sent := s.sent ++ [message]
        host := s.host.afterSend } = backMessages s := by
    intro input
    simp only [backMessages, (unsent_of_next? hs).2.2.1,
      (hasEnded_of_next? hs).2]
  refine ⟨by rw [hback]; exact h.control, by rw [hback]; exact h.created,
    ?_⟩
  intro epoch hcount hsent hreceived
  rcases recordCreatedAt_cases hs epoch with
    ⟨createdAtMs, rest, data, hhost, hcreated⟩ | ⟨hne, hcreated⟩
  · exact ⟨createdAtMs, hcreated,
      hhosting.sending _ _ hhost _ List.mem_cons_self⟩
  · obtain ⟨createdAtMs, hbefore, hinput⟩ := h.inFlight epoch hcount (by
        rcases List.mem_append.mp hsent with hsent | hsent
        · exact hsent
        · exact absurd (List.mem_singleton.mp hsent).symm hne) hreceived
    exact ⟨createdAtMs, hcreated.trans hbefore, hinput⟩

theorem Timing.step {a : Action}
    (h : Timing config s) (hflow : Flow config s)
    (hhosting : Hosting config s) (hstep : Stepped config s a s') :
    Timing config s' := by
  cases hstep with
  | takes | hooks | forwards | reports | exits | shutsDown | terminates =>
      exact h.congr rfl rfl rfl rfl
  | reads batch rest hs | finishes hs | skips message rest data hs
  | emits batch hs =>
      refine h.congr ?_ rfl rfl rfl
      simp [backMessages, hs, Host.inHand]
  | givesUp message hs =>
      refine h.congr ?_ rfl rfl rfl
      simp [backMessages, (hasEnded_of_next? hs).2]
  | looks hs | idles hs | noticesExit hs
  | failsReceiving exited rest nowMs hs =>
      refine h.congr ?_ rfl rfl rfl
      simp [backMessages, hs, Host.inHand]
  | sends message hs hroom => exact h.send hhosting hs
  | receives exited message rest nowMs hs houtput hreply =>
      have h' : Timing config { s with output := rest } :=
        h.congr rfl rfl rfl rfl
      refine h'.receive (by simp only [hs]; rfl) hreply nowMs ?_
      rintro epoch rfl hcount
      exact marker_returns_once hflow hhosting houtput hcount

/-! ## Faithful output -/

/-- What holds in every state of a run. -/
structure Inv (config : TransformConfig ρ τ) (s : TransformRun ρ τ) :
    Prop where
  flow : Flow config s
  hosting : Hosting config s
  timing : Timing config s

theorem inv_start : Inv config (start config) where
  flow := flow_start
  hosting := hosting_start
  timing := timing_start

theorem Inv.step {a : Action}
    (h : Inv config s) (hstep : Stepped config s a s') : Inv config s' where
  flow := h.flow.step hstep
  hosting := h.hosting.step hstep
  timing := h.timing.step h.flow h.hosting hstep

theorem inv_of_reachable (h : Reachable config s) : Inv config s := by
  obtain ⟨actions, hrun⟩ := h
  exact Transition.run_invariant
    (fun _ _ _ hs hstep => hs.step (stepped_of_step hstep)) inv_start hrun

/-- The markers of an epoch that occurs once are one message. -/
theorem marker_eq_of_count
    {messages : List CheckpointMessage} {epoch : CheckpointEpoch}
    {first second : ℕ} (h : (markerEpochs messages).count epoch = 1)
    (hfirst : .marker epoch first ∈ messages)
    (hsecond : .marker epoch second ∈ messages) : first = second := by
  induction messages with
  | nil => exact absurd hfirst List.not_mem_nil
  | cons message rest ih =>
      have hpos : ∀ {t}, .marker epoch t ∈ rest →
          0 < (markerEpochs rest).count epoch := fun hmem =>
        List.count_pos_iff.mpr (mem_markerEpochs.mpr ⟨_, hmem⟩)
      by_cases hhead : message.markerEpoch? = some epoch
      · rw [markerEpochs_cons, hhead, Option.toList_some,
          List.singleton_append, List.count_cons_self] at h
        have hnot : ∀ {t}, .marker epoch t ∉ rest := fun hmem => by
          have := hpos hmem
          omega
        have hfirst' := (List.mem_cons.mp hfirst).resolve_right hnot
        have hsecond' := (List.mem_cons.mp hsecond).resolve_right hnot
        exact (CheckpointMessage.marker.inj
          (hfirst'.trans hsecond'.symm)).2
      · have hne : ∀ {t}, .marker epoch t ≠ message := by
          rintro t rfl
          exact hhead rfl
        have hrest : (markerEpochs rest).count epoch = 1 := by
          rw [markerEpochs_cons, List.count_append] at h
          have hzero : message.markerEpoch?.toList.count epoch = 0 := by
            rw [List.count_eq_zero]
            simpa using hhead
          omega
        exact ih hrest ((List.mem_cons.mp hfirst).resolve_left hne)
          ((List.mem_cons.mp hsecond).resolve_left hne)

theorem inputEpochs_eq (config : TransformConfig ρ τ) :
    inputEpochs config = markerEpochs (inputMessages config) := by
  unfold inputEpochs inputMessages
  induction config.batches with
  | nil => rfl
  | cons batch rest ih =>
      rw [List.flatMap_cons, List.flatMap_cons, ih, markerEpochs_append]

theorem restored_of_controlOf?
    {epochs : List CheckpointEpoch} {message back : CheckpointMessage}
    {control : ControlMsg} (hmessage : controlOf? message = some control)
    (hback : controlOf? back = some control)
    (htime : ∀ epoch t t', message = .marker epoch t →
      back = .marker epoch t' → epochs.count epoch = 1 → t' = t) :
    Restored epochs message back := by
  cases message with
  | marker epoch t =>
      obtain rfl := Option.some.inj hmessage
      cases back with
      | marker epoch' t' =>
          obtain rfl : epoch' = epoch := by
            simpa [controlOf?] using hback
          exact ⟨t', rfl, htime epoch' t t' rfl rfl⟩
      | ack | finalizer | sourceComplete =>
          exact absurd hback (by simp [controlOf?])
  | finalizer epoch =>
      obtain rfl := Option.some.inj hmessage
      cases back with
      | finalizer epoch' =>
          obtain rfl : epoch' = epoch := by
            simpa [controlOf?] using hback
          exact rfl
      | ack | marker | sourceComplete =>
          exact absurd hback (by simp [controlOf?])
  | ack | sourceComplete => exact absurd hmessage (by simp [controlOf?])

/-- Messages with the same markers and finalizers are restored, if the
creation times agree. -/
theorem restored_of_controls
    {epochs : List CheckpointEpoch} {messages back : List CheckpointMessage}
    (h : controls messages = controls back)
    (hback : ∀ message ∈ back, (controlOf? message).isSome = true)
    (htime : ∀ epoch t t', .marker epoch t ∈ messages →
      .marker epoch t' ∈ back → epochs.count epoch = 1 → t' = t) :
    List.Forall₂ (Restored epochs) (controlMessages messages) back := by
  induction messages generalizing back with
  | nil =>
      rcases back with _ | ⟨first, rest⟩
      · exact .nil
      · obtain ⟨control, hcontrol⟩ := Option.isSome_iff_exists.mp
          (hback first List.mem_cons_self)
        rw [controls_cons_of_some hcontrol] at h
        exact absurd h (by simp [controls])
  | cons message messages ih =>
      cases hmessage : controlOf? message with
      | none =>
          rw [controls_cons_of_none hmessage] at h
          have hskip : controlMessages (message :: messages) =
              controlMessages messages := by
            simp [controlMessages, hmessage]
          rw [hskip]
          exact ih h hback fun epoch t t' hm =>
            htime epoch t t' (List.mem_cons_of_mem _ hm)
      | some control =>
          rw [controls_cons_of_some hmessage] at h
          rcases back with _ | ⟨first, rest⟩
          · exact absurd h (by simp [controls])
          · obtain ⟨control', hfirst⟩ := Option.isSome_iff_exists.mp
              (hback first List.mem_cons_self)
            rw [controls_cons_of_some hfirst] at h
            obtain ⟨rfl, hrest⟩ := List.cons.inj h
            have hkeep : controlMessages (message :: messages) =
                message :: controlMessages messages := by
              simp [controlMessages, hmessage]
            rw [hkeep]
            refine .cons ?_ (ih hrest
              (fun m hm => hback m (List.mem_cons_of_mem _ hm))
              fun epoch t t' hm hm' => htime epoch t t'
                (List.mem_cons_of_mem _ hm) (List.mem_cons_of_mem _ hm'))
            refine restored_of_controlOf? hmessage hfirst ?_
            rintro epoch t t' rfl rfl
            exact htime epoch t t' List.mem_cons_self List.mem_cons_self

/-- The emitted batches are the first batches of the input. -/
theorem Inv.emitted_matches (h : Inv config s) :
    ∃ front back, s.stream = front ++ back ∧
      List.Forall₂ (Matches config) front s.emitted := by
  have hinitial := received_prefix_written h.flow h.hosting
  rw [h.hosting.received, List.flatMap_append, replies_written,
    List.append_assoc, List.append_assoc] at hinitial
  obtain ⟨front, back, hstream, hmatches, -⟩ := matches_of_prefix hinitial
  exact ⟨front, back, hstream, hmatches⟩

/-- In every state of every run, the output is a prefix of the input with its
markers and finalizers, and all of it if the stream ended without an error. -/
theorem faithful_of_reachable
    (h : Reachable config s) : Faithful config s := by
  have hinv := inv_of_reachable h
  refine ⟨?_, hinv.hosting.whole⟩
  obtain ⟨front, back, hstream, hmatches⟩ := hinv.emitted_matches
  have hfront : front <+: config.batches := by
    rw [← hinv.hosting.read, hstream, List.append_assoc]
    exact List.prefix_append _ _
  refine ⟨front, hfront, ?_⟩
  rw [List.forall₂_iff_zip] at hmatches ⊢
  refine ⟨hmatches.1, fun {batch out} hpair => ?_⟩
  obtain ⟨hcontrols, hrows⟩ := hmatches.2 hpair
  obtain ⟨hbatch, hout⟩ := List.of_mem_zip hpair
  have hsub : ∀ m ∈ out.messages, m ∈ backMessages s := by
    intro m hm
    refine List.mem_append_left _ (List.mem_flatMap.mpr ⟨out, ?_, hm⟩)
    exact List.mem_append_left _ hout
  refine ⟨hrows.symm, restored_of_controls hcontrols
    (fun m hm => hinv.timing.control m (hsub m hm)) ?_⟩
  intro epoch t t' hm hm' hcount
  have hback := hinv.timing.created epoch t' (hsub _ hm') hcount
  have hinput : .marker epoch t ∈ inputMessages config :=
    List.mem_flatMap.mpr ⟨batch, hfront.subset hbatch, hm⟩
  rw [inputEpochs_eq] at hcount
  exact marker_eq_of_count hcount hback hinput

end TransformRun

end PluginTransform

end Streamling
