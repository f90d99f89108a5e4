import Mathlib
import Streamling.Plugin.TransformMarkers

/-!
# When the stream of a plugin transform ends

While it sends a batch the host does not read what the plugin returns.  If the
checkpoint messages of a batch fill both channels, the host waits for room in
the one and the dispatcher for room in the other, and neither moves.  If they
fit, some step is always possible until the stream has ended.
-/

namespace Streamling

namespace PluginTransform

open PluginSource (ControlMsg controlOf? controls)

variable {ρ τ : Type}

def PluginMsg.isInit : PluginMsg ρ → Bool
  | .init => true
  | _ => false

def PluginMsg.isTerminate : PluginMsg ρ → Bool
  | .terminate => true
  | _ => false

/-- The dispatcher has taken the initialization and still runs. -/
def Dispatcher.started : Dispatcher ρ τ → Bool
  | .awaitingInit => false
  | dispatcher => dispatcher.live

/-- The host sends a batch and its messages. -/
def Host.isSending : Host ρ τ → Bool
  | .sending _ _ => true
  | _ => false

namespace TransformRun

variable {config : TransformConfig ρ τ} {s s' : TransformRun ρ τ}

/-! ## What is on the channels -/

/-- What the messages on the channels say about the two parties. -/
structure Queued (s : TransformRun ρ τ) : Prop where
  terminate : s.input.any PluginMsg.isTerminate = true →
    s.shuttingDown = true
  init : s.dispatcher.started.toNat + s.input.countP PluginMsg.isInit +
    s.host.isStarting.toNat ≤ 1
  hooks : s.dispatcher ≠ .processing .init
  reported : s.dispatcher = .draining false → s.host.hasEnded = false →
    .error ∈ s.output

theorem queued_start : Queued (start config) where
  terminate := by simp [start]
  init := by simp [start, Dispatcher.started, Host.isStarting]
  hooks := by simp [start]
  reported := by simp [start]

theorem isStarting_of_next?
    {host : Host ρ τ} {message : PluginMsg ρ}
    (h : host.next? = some message) :
    message.isInit = host.isStarting ∧ message.isTerminate = false ∧
      host.afterSend.isStarting = false := by
  cases host with
  | starting =>
      obtain rfl := Option.some.inj h
      exact ⟨rfl, rfl, rfl⟩
  | sending messages data =>
      cases messages with
      | nil =>
          obtain rfl := Option.some.inj h
          exact ⟨rfl, rfl, rfl⟩
      | cons first rest =>
          obtain ⟨control, hcontrol, rfl⟩ := Option.map_eq_some_iff.mp h
          exact ⟨rfl, rfl, rfl⟩
  | reading | polling | looking | emitting | ended =>
      exact absurd h (by simp [Host.next?])

theorem started_of_take
    {dispatcher dispatcher' : Dispatcher ρ τ} {message : PluginMsg ρ}
    (h : dispatcher.take? message = some dispatcher') :
    dispatcher'.started.toNat ≤
        dispatcher.started.toNat + message.isInit.toNat ∧
      dispatcher' ≠ .processing .init ∧
      (dispatcher' = .draining false → dispatcher = .draining false) := by
  cases dispatcher <;> cases message <;>
    simp only [Dispatcher.take?, Option.some.injEq, reduceCtorEq] at h <;>
    subst h <;> simp [Dispatcher.started, Dispatcher.live, PluginMsg.isInit]

theorem started_of_hook
    {dispatcher dispatcher' : Dispatcher ρ τ} {ok : Bool}
    (h : dispatcher.hook? config ok = some dispatcher') :
    dispatcher'.started.toNat ≤ dispatcher.started.toNat ∧
      dispatcher' ≠ .processing .init ∧ dispatcher' ≠ .draining false := by
  cases ok <;>
    rcases dispatcher with _ | _ | _ | (_ | _ | _ | _) | _ | _ | _ <;>
    simp only [Dispatcher.hook?, Option.some.injEq, reduceCtorEq, if_true,
      Bool.false_eq_true, if_false] at h <;>
    subst h <;> simp [Dispatcher.started, Dispatcher.live]

/-- A step of the host that leaves the input alone. -/
theorem Queued.host
    (h : Queued s) (hinput : s'.input = s.input)
    (hdispatcher : s'.dispatcher = s.dispatcher)
    (hshutdown : s'.shuttingDown = s.shuttingDown)
    (hstarting : s'.host.isStarting = false)
    (hreported : s'.host.hasEnded = false →
      s.host.hasEnded = false ∧ (.error ∈ s.output → .error ∈ s'.output)) :
    Queued s' where
  terminate := by rw [hinput, hshutdown]; exact h.terminate
  init := by
    have hinit := h.init
    rw [hinput, hdispatcher, hstarting]
    simp only [Bool.toNat_false]
    omega
  hooks := by rw [hdispatcher]; exact h.hooks
  reported := by
    rw [hdispatcher]
    intro hs hended
    obtain ⟨hended', houtput⟩ := hreported hended
    exact houtput (h.reported hs hended')

theorem Queued.step {a : Action}
    (h : Queued s) (hstep : Stepped config s a s') : Queued s' := by
  cases hstep with
  | reads batch rest hs | skips message rest data hs | looks hs | idles hs
  | emits batch hs =>
      exact h.host rfl rfl rfl rfl fun _ => ⟨by rw [hs]; rfl, id⟩
  | finishes | givesUp | noticesExit | failsReceiving =>
      exact h.host rfl rfl rfl rfl fun hended =>
        absurd hended (by simp [Host.hasEnded])
  | receives exited message rest nowMs hs houtput hreply =>
      have herror : ∀ {output : List (OutputMsg τ)}, .error ∈ s.output →
          output = rest → .error ∈ output := by
        rintro output hmem rfl
        rw [houtput] at hmem
        rcases List.mem_cons.mp hmem with rfl | hmem
        · exact absurd hreply (by simp [OutputMsg.isReply])
        · exact hmem
      cases message with
      | error => exact absurd hreply (by simp [OutputMsg.isReply])
      | nextBatch data =>
          exact h.host rfl rfl rfl rfl fun _ =>
            ⟨by rw [hs]; rfl, fun hmem => herror hmem rfl⟩
      | control message =>
          cases message with
          | checkpointMarker epoch | checkpointFinalizer epoch =>
              exact h.host rfl rfl rfl rfl fun _ =>
                ⟨by rw [hs]; rfl, fun hmem => herror hmem rfl⟩
  | sends message hs hroom =>
      obtain ⟨hinit, hterminate, hstarting⟩ := isStarting_of_next? hs
      refine ⟨?_, ?_, h.hooks, ?_⟩
      · simpa [hterminate] using h.terminate
      · have hbefore := h.init
        rw [← hinit] at hbefore
        simp only [hstarting, List.countP_append, List.countP_singleton]
        cases hmessage : message.isInit <;>
          simp only [hmessage, Bool.toNat_true, Bool.toNat_false, if_true,
            Bool.false_eq_true, if_false] at hbefore ⊢ <;>
          omega
      · intro hdraining _
        exact h.reported hdraining (hasEnded_of_next? hs).1
  | takes message rest dispatcher hinput htake =>
      obtain ⟨hstarted, hhooks, hdraining⟩ := started_of_take htake
      refine ⟨?_, ?_, hhooks, ?_⟩
      · intro hany
        apply h.terminate
        rw [hinput, List.any_cons]
        simp [hany]
      · have hbefore := h.init
        rw [hinput, List.countP_cons] at hbefore
        cases hmessage : message.isInit <;>
          simp only [hmessage, Bool.toNat_true, Bool.toNat_false, if_true,
            Bool.false_eq_true, if_false] at hbefore hstarted ⊢ <;>
          omega
      · exact fun hs hended => h.reported (hdraining hs) hended
  | hooks ok dispatcher hhook =>
      obtain ⟨hstarted, hhooks, hdraining⟩ := started_of_hook hhook
      refine ⟨h.terminate, ?_, hhooks, fun hs => absurd hs hdraining⟩
      have hbefore := h.init
      simp only
      omega
  | forwards message hs hroom =>
      refine ⟨h.terminate, ?_, by simp, by simp⟩
      have hbefore := h.init
      rw [hs] at hbefore
      exact hbefore
  | reports hs hroom =>
      refine ⟨h.terminate, ?_, by simp, fun _ _ => by simp⟩
      have hbefore := h.init
      rw [hs] at hbefore
      exact hbefore
  | exits hs =>
      refine ⟨h.terminate, ?_, by simp, by simp⟩
      have hbefore := h.init
      have hstopped : (Dispatcher.exited : Dispatcher ρ τ).started.toNat = 0 :=
        rfl
      simp only [hstopped]
      omega
  | shutsDown => exact ⟨fun _ => rfl, h.init, h.hooks, h.reported⟩
  | terminates hs hroom =>
      refine ⟨fun _ => hs, ?_, h.hooks, h.reported⟩
      simpa [PluginMsg.isInit] using h.init

theorem queued_of_reachable (h : Reachable config s) : Queued s := by
  obtain ⟨actions, hrun⟩ := h
  exact Transition.run_invariant
    (fun _ _ _ hs hstep => hs.step (stepped_of_step hstep)) queued_start hrun

/-! ## The batch in flight -/

/-- While a batch is not emitted, its block is spread over the buffer, the
channels and the two parties. -/
theorem Inv.inFlight
    (h : Inv config s) (hlive : s.dispatcher.live = true)
    (hended : s.host.hasEnded = false) (hhand : s.host.inHand = [])
    (howed : s.host.owed = 1) :
    ∃ front batch, s.stream = front ++ [batch] ∧
      (controls s.checkpointBuffer).map .control ++ s.output ++
        s.dispatcher.held config ++ replies config s.input ++
        replies config s.host.unsent =
      block (controls batch.messages) (config.processBatch batch.rows) := by
  obtain ⟨front, back, hstream, hmatches⟩ := h.emitted_matches
  have hcount := h.hosting.owed hended
  rw [howed, ← hmatches.length_eq, hstream, List.length_append] at hcount
  obtain ⟨batch, rfl⟩ := List.length_eq_one_iff.mp
    (Nat.add_left_cancel hcount).symm
  refine ⟨front, batch, hstream, ?_⟩
  have hsent := congrArg (replies config) (h.hosting.sentAll hended)
  have hreceived := h.hosting.received
  rw [hhand, List.append_nil, flatMap_outputsOf_of_matches hmatches,
    ← replies_written] at hreceived
  rw [replies_append, ← h.flow.live hlive, hreceived, hstream,
    replies_written, replies_written, List.flatMap_append,
    List.flatMap_singleton] at hsent
  simp only [List.append_assoc, List.append_cancel_left_eq] at hsent ⊢
  exact hsent

theorem length_held_le
    (config : TransformConfig ρ τ) (dispatcher : Dispatcher ρ τ) :
    (dispatcher.held config).length ≤ 1 := by
  cases dispatcher with
  | processing message => cases message <;> simp [Dispatcher.held, reply?]
  | sending message => exact Nat.le_refl _
  | awaitingInit | initializing | waiting | draining | exited =>
      exact Nat.zero_le _

theorem length_replies_le
    (config : TransformConfig ρ τ) (messages : List (PluginMsg ρ)) :
    (replies config messages).length ≤ messages.length :=
  List.length_filterMap_le _ _

/-- Every message but an initialization and a termination has a reply. -/
theorem length_replies_eq
    {messages : List (PluginMsg ρ)}
    (hinit : messages.countP PluginMsg.isInit = 0)
    (hterminate : messages.any PluginMsg.isTerminate = false) :
    (replies config messages).length = messages.length := by
  induction messages with
  | nil => rfl
  | cons message rest ih =>
      rw [List.countP_cons] at hinit
      rw [List.any_cons, Bool.or_eq_false_iff] at hterminate
      rw [replies_cons, List.length_append,
        ih (by omega) hterminate.2, List.length_cons]
      cases message with
      | init => simp [PluginMsg.isInit] at hinit
      | terminate => simp [PluginMsg.isTerminate] at hterminate
      | nextBatch | control => simp [reply?, Nat.add_comm]

theorem length_block (messages : List ControlMsg) (data : List τ) :
    (block messages data).length = messages.length + 1 := by
  simp [block]

theorem replies_unsent_pos
    {host : Host ρ τ} (h : host.isSending = true) :
    1 ≤ (replies config host.unsent).length := by
  cases host with
  | sending messages data => simp [Host.unsent]
  | starting | reading | polling | looking | emitting | ended =>
      exact absurd h (by simp [Host.isSending])

/-- The host and the dispatcher do not both wait for room, if the checkpoint
messages of a batch fit. -/
theorem output_room
    (h : Inv config s) (hq : Queued s) (hfits : FitsChannels config)
    (hsending : s.host.isSending = true)
    (hfull : config.inputCapacity ≤ s.input.length)
    (hshutdown : s.shuttingDown = false) {message : OutputMsg τ}
    (hs : s.dispatcher = .sending message) :
    s.output.length < config.outputCapacity := by
  obtain ⟨hended, hhand, howed⟩ : s.host.hasEnded = false ∧
      s.host.inHand = [] ∧ s.host.owed = 1 := by
    revert hsending
    cases s.host <;> simp [Host.isSending, Host.hasEnded, Host.inHand,
      Host.owed]
  obtain ⟨front, batch, hstream, hblock⟩ :=
    h.inFlight (by rw [hs]; rfl) hended hhand howed
  have hmem : batch ∈ config.batches := by
    rw [← h.hosting.read, hstream]
    simp
  have hbound := hfits batch hmem
  have hinit : s.input.countP PluginMsg.isInit = 0 := by
    have hcount := hq.init
    rw [hs] at hcount
    simp only [Dispatcher.started, Dispatcher.live, Bool.toNat_true] at hcount
    omega
  have hterminate : s.input.any PluginMsg.isTerminate = false := by
    by_contra hany
    have hdown := hq.terminate (by simpa using hany)
    rw [hshutdown] at hdown
    exact absurd hdown (by simp)
  have hinput : (replies config s.input).length = s.input.length :=
    length_replies_eq hinit hterminate
  have hunsent : 1 ≤ (replies config s.host.unsent).length :=
    replies_unsent_pos hsending
  have hheld : (s.dispatcher.held config).length = 1 := by rw [hs]; rfl
  have hlength := congrArg List.length hblock
  simp only [List.length_append, length_block, hinput, hheld] at hlength
  omega

/-- While the host waits, a running dispatcher that is idle has input. -/
theorem input_of_waits
    (h : Inv config s) (hlive : s.dispatcher.live = true)
    (hheld : s.dispatcher.held config = []) (hs : s.host.waits = true)
    (houtput : s.output = []) : s.input ≠ [] := by
  obtain ⟨hended, hhand, howed⟩ := hasEnded_of_waits hs
  obtain ⟨front, batch, -, hblock⟩ := h.inFlight hlive hended hhand howed
  have hunsent : s.host.unsent = [] := by
    revert hs
    cases s.host <;> simp [Host.waits, Host.unsent]
  intro hinput
  rw [houtput, hheld, hinput, hunsent, replies_nil, List.append_nil,
    List.append_nil, List.append_nil, List.append_nil] at hblock
  have hmem : (.nextBatch (config.processBatch batch.rows) : OutputMsg τ) ∈
      (controls s.checkpointBuffer).map OutputMsg.control := by
    rw [hblock]
    simp [block]
  obtain ⟨message, -, hmessage⟩ := List.mem_map.mp hmem
  cases hmessage

/-! ## Progress -/

/-- A step of the two parties that is not a sleep of the host. -/
def Advances (config : TransformConfig ρ τ) (s : TransformRun ρ τ) : Prop :=
  ∃ a s', step config s a = some s' ∧ a.isFault = false ∧
    (a = .idle → s.dispatcher.hasExited = true)

/-- A dispatcher that runs and does not wait for room advances. -/
theorem advances_of_dispatcher
    (hq : Queued s) (hexited : s.dispatcher.hasExited = false)
    (hinput : s.dispatcher = .awaitingInit ∨ s.dispatcher = .waiting →
      s.input ≠ [])
    (hdraining : ∀ unsentReport, s.dispatcher = .draining unsentReport →
      s.input ≠ [] ∨
        unsentReport = true ∧ s.output.length < config.outputCapacity)
    (hroom : ∀ message, s.dispatcher = .sending message →
      s.output.length < config.outputCapacity) : Advances config s := by
  have htakes : ∀ {dispatcher : Dispatcher ρ τ},
      s.dispatcher = dispatcher →
      (∀ message, (dispatcher.take? message).isSome = true) →
      s.input ≠ [] → Advances config s := by
    rintro dispatcher rfl htake hne
    obtain ⟨message, rest, hcons⟩ := List.exists_cons_of_ne_nil hne
    obtain ⟨dispatcher', h⟩ := Option.isSome_iff_exists.mp (htake message)
    refine ⟨.take, { s with input := rest, dispatcher := dispatcher' }, ?_,
      rfl, by simp⟩
    simp [step, take, hcons, h]
  have hhooks : ∀ {dispatcher : Dispatcher ρ τ},
      s.dispatcher = dispatcher →
      (dispatcher.hook? config true).isSome = true → Advances config s := by
    rintro dispatcher rfl hhook
    obtain ⟨dispatcher', h⟩ := Option.isSome_iff_exists.mp hhook
    refine ⟨.hook true, { s with dispatcher := dispatcher' }, ?_, rfl,
      by simp⟩
    simp [step, hook, h]
  cases hs : s.dispatcher with
  | awaitingInit =>
      exact htakes hs (fun message => by cases message <;> rfl)
        (hinput (.inl hs))
  | waiting =>
      exact htakes hs (fun message => by cases message <;> rfl)
        (hinput (.inr hs))
  | initializing => exact hhooks hs rfl
  | processing message =>
      refine hhooks hs ?_
      cases message with
      | init => exact absurd hs hq.hooks
      | nextBatch | control | terminate => rfl
  | sending message =>
      refine ⟨.forward, { s with
        output := s.output ++ [message]
        dispatcher := .waiting }, ?_, rfl, by simp⟩
      simp only [step, forward, hs, if_pos (hroom message hs)]
  | draining unsentReport =>
      rcases hdraining unsentReport hs with hne | ⟨rfl, hroom'⟩
      · exact htakes hs (fun message => by cases message <;> rfl) hne
      · refine ⟨.report, { s with
          output := s.output ++ [.error]
          dispatcher := .draining false }, ?_, rfl, by simp⟩
        simp only [step, report, hs, if_pos hroom']
  | exited =>
      rw [hs] at hexited
      exact absurd hexited (by simp [Dispatcher.hasExited])

/-- A host that waits for room does so only as long as the dispatcher
advances. -/
theorem advances_of_full
    (h : Inv config s) (hq : Queued s) (hfits : FitsChannels config)
    {message : PluginMsg ρ} (hs : s.host.next? = some message)
    (hfull : config.inputCapacity ≤ s.input.length) : Advances config s := by
  by_cases hreason : s.dispatcher.hasExited = true ∨
      s.shuttingDown = true ∨ s.host.isStarting = true
  · refine ⟨.giveUp, { s with host := .ended false }, ?_, rfl, by simp⟩
    simp only [step, giveUp, hs, Option.isSome_some, hfull, hreason, and_self,
      if_true]
  · simp only [not_or, Bool.not_eq_true] at hreason
    obtain ⟨hexited, hshutdown, hstarting⟩ := hreason
    have hsending : s.host.isSending = true := by
      revert hs hstarting
      cases s.host <;> simp [Host.next?, Host.isStarting, Host.isSending]
    have hne : s.input ≠ [] := by
      intro hnil
      rw [hnil] at hfull
      have := config.inputCapacity_pos
      simp at hfull
      omega
    exact advances_of_dispatcher hq hexited (fun _ => hne)
      (fun _ _ => .inl hne)
      (fun _ hdispatcher =>
        output_room h hq hfits hsending hfull hshutdown hdispatcher)

/-- A host that waits for output does so only as long as the dispatcher
advances. -/
theorem advances_of_empty
    (h : Inv config s) (hq : Queued s) {exited : Bool}
    (hs : s.host = .looking exited) (houtput : s.output = []) :
    Advances config s := by
  have hroom : s.output.length < config.outputCapacity := by
    rw [houtput]
    exact config.outputCapacity_pos
  by_cases hexited : s.dispatcher.hasExited = true
  · cases exited with
    | true =>
        refine ⟨.noticeExit, { s with host := .ended false }, ?_, rfl,
          by simp⟩
        simp [step, noticeExit, hs, houtput]
    | false =>
        refine ⟨.idle, { s with host := .polling }, ?_, rfl,
          fun _ => hexited⟩
        simp [step, idle, hs, houtput]
  · have hwaits : s.host.waits = true := by rw [hs]; rfl
    refine advances_of_dispatcher hq (by simpa using hexited) ?_ ?_
      (fun _ _ => hroom)
    · rintro (hdispatcher | hdispatcher)
      · exact input_of_waits h (by rw [hdispatcher]; rfl)
          (by rw [hdispatcher]; rfl) hwaits houtput
      · exact input_of_waits h (by rw [hdispatcher]; rfl)
          (by rw [hdispatcher]; rfl) hwaits houtput
    · intro unsentReport hdispatcher
      cases unsentReport with
      | true => exact .inr ⟨rfl, hroom⟩
      | false =>
          have herror := hq.reported hdispatcher (by rw [hs]; rfl)
          rw [houtput] at herror
          exact absurd herror List.not_mem_nil

/-- As long as the stream has not ended, the two parties advance. -/
theorem advances
    (h : Inv config s) (hq : Queued s) (hfits : FitsChannels config)
    (hended : s.host.hasEnded = false) : Advances config s := by
  have hsends : ∀ message : PluginMsg ρ, s.host.next? = some message →
      Advances config s := by
    intro message hnext
    by_cases hroom : s.input.length < config.inputCapacity
    · refine ⟨.send, { s with
        epochCreatedAt := s.recordCreatedAt
        input := s.input ++ [message]
        sent := s.sent ++ [message]
        host := s.host.afterSend }, ?_, rfl, by simp⟩
      simp only [step, send, hnext, if_pos hroom]
    · exact advances_of_full h hq hfits hnext (Nat.le_of_not_lt hroom)
  cases hs : s.host with
  | starting => exact hsends _ (by rw [hs]; rfl)
  | reading =>
      cases hpending : s.pending with
      | nil =>
          refine ⟨.read, { s with host := .ended (!config.inputFails) }, ?_,
            rfl, by simp⟩
          simp [step, read, hs, hpending]
      | cons batch rest =>
          refine ⟨.read, { s with
            pending := rest
            stream := s.stream ++ [batch]
            host := .sending batch.messages batch.rows }, ?_, rfl, by simp⟩
          simp [step, read, hs, hpending]
  | sending messages data =>
      cases messages with
      | nil => exact hsends _ (by rw [hs]; rfl)
      | cons first rest =>
          cases hfirst : controlOf? first with
          | some control =>
              refine hsends (.control control) ?_
              rw [hs, Host.next?, hfirst]
              rfl
          | none =>
              refine ⟨.skip, { s with host := .sending rest data }, ?_, rfl,
                by simp⟩
              simp [step, skip, hs, hfirst]
  | polling =>
      refine ⟨.look, { s with host := .looking s.dispatcher.hasExited }, ?_,
        rfl, by simp⟩
      simp [step, look, hs]
  | looking exited =>
      cases houtput : s.output with
      | nil => exact advances_of_empty h hq hs houtput
      | cons message rest =>
          refine ⟨.receive 0, receiveOutput { s with output := rest } 0
            message, ?_, rfl, by simp⟩
          simp [step, receive, hs, houtput]
  | emitting batch =>
      refine ⟨.emit, { s with
        emitted := s.emitted ++ [batch]
        host := .reading }, ?_, rfl, by simp⟩
      simp [step, emit, hs]
  | ended ok =>
      rw [hs] at hended
      exact absurd hended (by simp [Host.hasEnded])

/-! ## The work left -/

/-- The work of sending a batch and waiting for its reply. -/
def sendWork (messages : List CheckpointMessage) : ℕ :=
  6 * messages.length + 10

/-- The work left for the host with what it has read.  If it has missed the
exit of the dispatcher, it looks again. -/
def hostWork (dispatcherExited : Bool) : Host ρ τ → ℕ
  | .starting => 7
  | .reading => 1
  | .sending messages _ => sendWork messages
  | .polling => 4
  | .looking seen => if dispatcherExited && !seen then 5 else 3
  | .emitting _ => 2
  | .ended _ => 0

@[simp] theorem hostWork_polling (exited : Bool) :
    hostWork exited (.polling : Host ρ τ) = 4 := rfl

@[simp] theorem hostWork_emitting (exited : Bool) (batch : RecordBatch τ) :
    hostWork exited (.emitting batch : Host ρ τ) = 2 := rfl

@[simp] theorem hostWork_ended (exited ok : Bool) :
    hostWork exited (.ended ok : Host ρ τ) = 0 := rfl

/-- The work left for the dispatcher with what it has taken. -/
def dispatcherWork : Dispatcher ρ τ → ℕ
  | .awaitingInit => 1
  | .initializing => 5
  | .waiting => 1
  | .processing _ => 5
  | .sending _ => 4
  | .draining unsentReport => if unsentReport then 4 else 1
  | .exited => 0

/-- The work left until the stream ends. -/
def remaining (s : TransformRun ρ τ) : ℕ :=
  (s.pending.map fun batch => sendWork batch.messages).sum +
    hostWork s.dispatcher.hasExited s.host + 5 * s.input.length +
    dispatcherWork s.dispatcher + 2 * s.output.length

theorem hostWork_of_next? (exited : Bool)
    {host : Host ρ τ} {message : PluginMsg ρ}
    (h : host.next? = some message) :
    hostWork exited host = hostWork exited host.afterSend + 6 := by
  cases host with
  | starting => rfl
  | sending messages data =>
      cases messages with
      | nil => rfl
      | cons first rest =>
          simp only [hostWork, Host.afterSend, sendWork, List.length_cons]
          omega
  | reading | polling | looking | emitting | ended =>
      exact absurd h (by simp [Host.next?])

theorem dispatcherWork_of_take
    {dispatcher dispatcher' : Dispatcher ρ τ} {message : PluginMsg ρ}
    (h : dispatcher.take? message = some dispatcher') (host : Host ρ τ) :
    hostWork dispatcher'.hasExited host + dispatcherWork dispatcher' <
      hostWork dispatcher.hasExited host + dispatcherWork dispatcher + 5 := by
  have hhost : hostWork true host ≤ hostWork false host + 2 := by
    cases host with
    | looking seen => cases seen <;> simp [hostWork]
    | starting | reading | sending | polling | emitting | ended =>
        exact Nat.le_add_right _ _
  cases dispatcher <;> cases message <;>
    simp only [Dispatcher.take?, Option.some.injEq, reduceCtorEq] at h <;>
    subst h <;> simp only [Dispatcher.hasExited, dispatcherWork] <;> omega

theorem dispatcherWork_of_hook
    {dispatcher dispatcher' : Dispatcher ρ τ}
    (h : dispatcher.hook? config true = some dispatcher') :
    dispatcherWork dispatcher' < dispatcherWork dispatcher ∧
      dispatcher'.hasExited = dispatcher.hasExited := by
  rcases dispatcher with _ | _ | _ | (_ | _ | _ | _) | _ | _ | _ <;>
    simp only [Dispatcher.hook?, Option.some.injEq, reduceCtorEq,
      if_true] at h <;>
    subst h <;> simp [dispatcherWork, Dispatcher.hasExited]

theorem remaining_receiveOutput
    (message : OutputMsg τ) (nowMs : ℕ) (hs : s.host.waits = true) :
    remaining (receiveOutput s nowMs message) < remaining s + 2 := by
  have hhost : 3 ≤ hostWork s.dispatcher.hasExited s.host := by
    revert hs
    cases s.host <;> simp [Host.waits, hostWork]
    split_ifs <;> omega
  cases message with
  | error | nextBatch =>
      simp only [receiveOutput, remaining, hostWork_emitting, hostWork_ended]
      omega
  | control message =>
      cases message with
      | checkpointMarker | checkpointFinalizer =>
          simp only [receiveOutput, remaining, hostWork_polling]
          omega

/-- Every step but a fault and a sleep of the host lowers the work left, and
so does a sleep in which the dispatcher's exit was missed. -/
theorem remaining_lt {a : Action}
    (hstep : Stepped config s a s') (hfault : a.isFault = false)
    (hidle : a = .idle → s.dispatcher.hasExited = true) :
    remaining s' < remaining s := by
  cases hstep with
  | reads batch rest hs hpending =>
      simp only [remaining, hs, hpending, hostWork, List.map_cons,
        List.sum_cons]
      omega
  | finishes hs | emits batch hs =>
      simp only [remaining, hs, hostWork]
      omega
  | skips message rest data hs =>
      simp only [remaining, hs, hostWork, sendWork, List.length_cons]
      omega
  | sends message hs hroom =>
      have hwork := hostWork_of_next? s.dispatcher.hasExited hs
      simp only [remaining, hwork, List.length_append, List.length_singleton]
      omega
  | givesUp message hs =>
      have hwork := hostWork_of_next? s.dispatcher.hasExited hs
      simp only [remaining, hwork, hostWork_ended]
      omega
  | looks hs =>
      simp only [remaining, hs, hostWork]
      cases s.dispatcher.hasExited <;> simp
  | idles hs =>
      simp only [remaining, hs, hostWork, hidle rfl, Bool.not_false,
        Bool.and_self, if_true]
      omega
  | noticesExit hs =>
      simp only [remaining, hs, hostWork, Bool.not_true, Bool.and_false,
        Bool.false_eq_true, if_false]
      omega
  | failsReceiving exited rest nowMs hs houtput =>
      simp only [remaining, hs, houtput, hostWork, List.length_cons]
      omega
  | receives exited message rest nowMs hs houtput =>
      have hlt := remaining_receiveOutput (s := { s with output := rest })
        message nowMs (by simp only [hs]; rfl)
      refine Nat.lt_of_lt_of_le hlt ?_
      simp only [remaining, houtput, List.length_cons]
      omega
  | takes message rest dispatcher hinput htake =>
      have hwork := dispatcherWork_of_take htake s.host
      simp only [remaining, hinput, List.length_cons]
      omega
  | hooks ok dispatcher hhook =>
      obtain rfl : ok = true := by simpa [Action.isFault] using hfault
      obtain ⟨hwork, hexited⟩ := dispatcherWork_of_hook hhook
      simp only [remaining, hexited]
      omega
  | forwards message hs =>
      simp only [remaining, hs, dispatcherWork, Dispatcher.hasExited,
        List.length_append, List.length_singleton]
      omega
  | reports hs =>
      simp only [remaining, hs, dispatcherWork, Dispatcher.hasExited,
        List.length_append, List.length_singleton, if_true,
        Bool.false_eq_true, if_false]
      omega
  | exits | shutsDown | terminates =>
      exact absurd hfault (by simp [Action.isFault])

/-- If the checkpoint messages fit, the stream can always end. -/
theorem canEnd_of_fits
    (h : Inv config s) (hq : Queued s) (hfits : FitsChannels config) :
    CanEnd config s := by
  refine Transition.exists_run_of_measure remaining
    (fun s a s' hs hstep => And.intro (hs.1.step (stepped_of_step hstep))
      (hs.2.step (stepped_of_step hstep))) ?_ ⟨h, hq⟩
  rintro s ⟨hs, hqs⟩ hended
  obtain ⟨a, s', hstep, hfault, hidle⟩ :=
    advances hs hqs hfits (by simpa using hended)
  exact ⟨a, s', hfault, hstep,
    remaining_lt (stepped_of_step hstep) hfault hidle⟩

/-! ## Runs without a fault -/

/-- What holds as long as no step was a fault: the dispatcher runs, no teardown
has begun, and the batches sent fit into the channels. -/
structure Healthy (config : TransformConfig ρ τ) (s : TransformRun ρ τ) :
    Prop where
  live : s.dispatcher.live = true
  calm : s.shuttingDown = false
  awaiting : s.dispatcher = .awaitingInit →
    s.host.isStarting = true ∨ ∃ rest, s.input = .init :: rest
  starting : s.host.isStarting = true → s.input = []
  looking : s.host ≠ .looking true
  delivered : ∀ batch ∈ s.stream.take
    (s.stream.length - s.host.isSending.toNat),
    (controls batch.messages).length ≤
      config.inputCapacity + config.outputCapacity
  ended : s.host.hasEnded = true → s.pending = []

theorem healthy_start : Healthy config (start config) where
  live := rfl
  calm := rfl
  awaiting := fun _ => .inl rfl
  starting := fun _ => rfl
  looking := by simp [start]
  delivered := by simp [start]
  ended := fun h => absurd h (by simp [start, Host.hasEnded])

/-- A step of the host that neither starts nor ends, nor sends a batch. -/
theorem Healthy.host
    (h : Healthy config s) (hdispatcher : s'.dispatcher = s.dispatcher)
    (hshutdown : s'.shuttingDown = s.shuttingDown)
    (hinput : s'.input = s.input) (hstarting : s'.host.isStarting = false)
    (hstarted : s.host.isStarting = false) (hlooking : s'.host ≠ .looking true)
    (hstream : s'.stream.take
        (s'.stream.length - s'.host.isSending.toNat) =
      s.stream.take (s.stream.length - s.host.isSending.toNat))
    (hended : s'.host.hasEnded = true → s'.pending = []) :
    Healthy config s' where
  live := by rw [hdispatcher]; exact h.live
  calm := by rw [hshutdown]; exact h.calm
  awaiting := by
    rw [hdispatcher, hinput]
    intro hs
    refine .inr ((h.awaiting hs).resolve_left ?_)
    simp [hstarted]
  starting := by simp [hstarting]
  looking := hlooking
  delivered := by rw [hstream]; exact h.delivered
  ended := hended

theorem hasExited_of_live {dispatcher : Dispatcher ρ τ}
    (h : dispatcher.live = true) : dispatcher.hasExited = false := by
  cases dispatcher <;> first | rfl | simp [Dispatcher.live] at h

theorem not_error_of_live
    (h : Flow config s) (hlive : s.dispatcher.live = true) :
    (.error : OutputMsg τ) ∉ s.output := by
  rw [← h.returned_output hlive]
  intro hmem
  exact absurd (List.mem_filter.mp hmem).2 (by simp [OutputMsg.isReply])

/-- A batch that was sent to a running dispatcher fits into the channels. -/
theorem fits_of_sent
    (h : Inv config s) (hlive : s.dispatcher.live = true) {data : List ρ}
    (hs : s.host = .sending [] data)
    (hroom : s.input.length < config.inputCapacity) :
    ∃ front batch, s.stream = front ++ [batch] ∧
      (controls batch.messages).length ≤
        config.inputCapacity + config.outputCapacity := by
  obtain ⟨front, batch, hstream, hblock⟩ := h.inFlight hlive
    (by rw [hs]; rfl) (by rw [hs]; rfl) (by rw [hs]; rfl)
  refine ⟨front, batch, hstream, ?_⟩
  have hbuffer := h.hosting.buffer (by rw [hs]; rfl) (by rw [hs]; rfl)
  have hoffer : (replies config s.host.unsent).length = 1 := by rw [hs]; rfl
  have hheld := length_held_le config s.dispatcher
  have hinput := length_replies_le config s.input
  have houtput := h.flow.outputRoom
  have hlength := congrArg List.length hblock
  simp only [hbuffer, List.length_append, length_block, hoffer, controls,
    List.filterMap_nil, List.map_nil, List.length_nil] at hlength
  simp only [controls]
  omega

theorem live_of_take_init
    {dispatcher dispatcher' : Dispatcher ρ τ} {message : PluginMsg ρ}
    (h : dispatcher.take? message = some dispatcher')
    (hlive : dispatcher.live = true)
    (hinit : dispatcher = .awaitingInit → message = .init) :
    dispatcher'.live = true ∧ dispatcher' ≠ .awaitingInit := by
  cases dispatcher <;> cases message <;>
    simp only [Dispatcher.take?, Option.some.injEq, reduceCtorEq] at h <;>
    subst h <;> simp [Dispatcher.live] at hlive hinit ⊢

theorem live_of_hook_ok
    {dispatcher dispatcher' : Dispatcher ρ τ}
    (h : dispatcher.hook? config true = some dispatcher') :
    dispatcher'.live = true ∧ dispatcher' ≠ .awaitingInit := by
  rcases dispatcher with _ | _ | _ | (_ | _ | _ | _) | _ | _ | _ <;>
    simp only [Dispatcher.hook?, Option.some.injEq, reduceCtorEq,
      if_true] at h <;>
    subst h <;> simp [Dispatcher.live]

theorem Healthy.send
    (h : Healthy config s) (hinv : Inv config s) {message : PluginMsg ρ}
    (hs : s.host.next? = some message)
    (hroom : s.input.length < config.inputCapacity) :
    Healthy config
      { s with
        epochCreatedAt := s.recordCreatedAt
        input := s.input ++ [message]
        sent := s.sent ++ [message]
        host := s.host.afterSend } := by
  obtain ⟨hinit, -, hstarting⟩ := isStarting_of_next? hs
  refine ⟨h.live, h.calm, fun hdispatcher => ?_, ?_, ?_, ?_, ?_⟩
  · right
    rcases h.awaiting hdispatcher with hfirst | ⟨rest, hrest⟩
    · rw [hfirst] at hinit
      have hempty := h.starting hfirst
      cases message with
      | init => exact ⟨[], by simp [hempty]⟩
      | nextBatch | control | terminate =>
          exact absurd hinit (by simp [PluginMsg.isInit])
    · exact ⟨rest ++ [message], by simp [hrest]⟩
  · intro hfirst
    simp only [hstarting] at hfirst
    exact absurd hfirst (by simp)
  · revert hs
    cases s.host with
    | sending messages data => cases messages <;> simp [Host.afterSend]
    | starting | reading | polling | looking | emitting | ended =>
        simp [Host.afterSend, Host.next?]
  · intro batch hbatch
    cases hhost : s.host with
    | sending messages data =>
        cases messages with
        | cons first rest =>
            refine h.delivered batch ?_
            rw [hhost] at hbatch ⊢
            exact hbatch
        | nil =>
            obtain ⟨front, last, hstream, hfits⟩ :=
              fits_of_sent hinv h.live hhost hroom
            have hbefore := h.delivered
            rw [hhost, hstream] at hbefore
            rw [hhost, hstream] at hbatch
            simp only [Host.afterSend, Host.isSending, Bool.toNat_false,
              Nat.sub_zero, List.take_length, List.mem_append,
              List.mem_singleton] at hbatch
            rcases hbatch with hbatch | rfl
            · exact hbefore batch (by simpa [Host.isSending] using hbatch)
            · exact hfits
    | starting =>
        refine h.delivered batch ?_
        rw [hhost] at hbatch ⊢
        exact hbatch
    | reading | polling | looking | emitting | ended =>
        rw [hhost] at hs
        exact absurd hs (by simp [Host.next?])
  · intro hended
    rw [(unsent_of_next? hs).2.1] at hended
    exact absurd hended (by simp)

theorem Healthy.step {a : Action}
    (h : Healthy config s) (hinv : Inv config s)
    (hstep : Stepped config s a s') (hfault : a.isFault = false) :
    Healthy config s' := by
  cases hstep with
  | reads batch rest hs hpending =>
      refine h.host rfl rfl rfl rfl (by rw [hs]; rfl) (by simp) ?_ (by simp
        [Host.hasEnded])
      simp [hs, Host.isSending]
  | finishes hs hpending =>
      refine h.host rfl rfl rfl rfl (by rw [hs]; rfl) (by simp) ?_
        (fun _ => hpending)
      simp [hs, Host.isSending]
  | skips message rest data hs | idles hs | emits batch hs =>
      refine h.host rfl rfl rfl rfl (by rw [hs]; rfl) (by simp) ?_ (by simp
        [Host.hasEnded])
      simp [hs, Host.isSending]
  | sends message hs hroom => exact h.send hinv hs hroom
  | givesUp message hs hfull hreason =>
      rcases hreason with hexited | hshutdown | hstarting
      · rw [hasExited_of_live h.live] at hexited
        exact absurd hexited (by simp)
      · rw [h.calm] at hshutdown
        exact absurd hshutdown (by simp)
      · rw [h.starting hstarting] at hfull
        have := config.inputCapacity_pos
        simp at hfull
        omega
  | looks hs =>
      refine h.host rfl rfl rfl rfl (by rw [hs]; rfl) ?_ ?_ (by simp
        [Host.hasEnded])
      · simp [hasExited_of_live h.live]
      · simp [hs, Host.isSending]
  | noticesExit hs => exact absurd hs h.looking
  | failsReceiving exited rest nowMs hs houtput =>
      refine absurd ?_ (not_error_of_live hinv.flow h.live)
      rw [houtput]
      exact List.mem_cons_self
  | receives exited message rest nowMs hs houtput hreply =>
      have hstarted : s.host.isStarting = false := by rw [hs]; rfl
      cases message with
      | error => exact absurd hreply (by simp [OutputMsg.isReply])
      | nextBatch data =>
          refine h.host rfl rfl rfl rfl hstarted (by simp [receiveOutput]) ?_
            (by simp [receiveOutput, Host.hasEnded])
          simp [receiveOutput, hs, Host.isSending]
      | control message =>
          cases message with
          | checkpointMarker epoch | checkpointFinalizer epoch =>
              refine h.host rfl rfl rfl rfl hstarted
                (by simp [receiveOutput]) ?_
                (by simp [receiveOutput, Host.hasEnded])
              simp [receiveOutput, hs, Host.isSending]
  | takes message rest dispatcher hinput htake =>
      have hstarted : s.host.isStarting = false := by
        by_contra hstarting
        have hempty := h.starting (by simpa using hstarting)
        rw [hinput] at hempty
        exact absurd hempty (by simp)
      have hinit : s.dispatcher = .awaitingInit → message = .init := by
        intro hs
        rcases h.awaiting hs with hstarting | ⟨rest', hrest'⟩
        · simp [hstarted] at hstarting
        · rw [hinput] at hrest'
          exact (List.cons.inj hrest').1
      obtain ⟨hlive, hne⟩ := live_of_take_init htake h.live hinit
      exact ⟨hlive, h.calm, fun hs => absurd hs hne,
        fun hstarting => absurd hstarting (by simp [hstarted]), h.looking,
        h.delivered, h.ended⟩
  | hooks ok dispatcher hhook =>
      obtain rfl : ok = true := by simpa [Action.isFault] using hfault
      obtain ⟨hlive, hne⟩ := live_of_hook_ok hhook
      exact ⟨hlive, h.calm, fun hs => absurd hs hne, h.starting, h.looking,
        h.delivered, h.ended⟩
  | forwards message hs hroom =>
      exact ⟨rfl, h.calm, by simp, h.starting, h.looking, h.delivered,
        h.ended⟩
  | reports hs =>
      have hlive := h.live
      rw [hs] at hlive
      exact absurd hlive (by simp [Dispatcher.live])
  | exits | shutsDown | terminates =>
      exact absurd hfault (by simp [Action.isFault])

/-- If the stream can end without a fault, every batch fits into the
channels. -/
theorem fits_of_canEnd
    (h : CanEnd config (start config)) : FitsChannels config := by
  obtain ⟨actions, t, hfaults, hrun, hended⟩ := h
  have hstep : ∀ (s : TransformRun ρ τ) (a : Action) (s' : TransformRun ρ τ),
      Inv config s ∧ Healthy config s → a.isFault = false →
      step config s a = some s' → Inv config s' ∧ Healthy config s' := by
    intro s a s' hs hfault hstep
    have hstepped := stepped_of_step hstep
    exact ⟨hs.1.step hstepped, hs.2.step hs.1 hstepped hfault⟩
  obtain ⟨hinv, hhealthy⟩ := Transition.run_invariant_of_forall hstep
    ⟨inv_start, healthy_start⟩ hfaults hrun
  have hsending : t.host.isSending = false := by
    revert hended
    cases t.host <;> simp [Host.hasEnded, Host.isSending]
  intro batch hbatch
  apply hhealthy.delivered
  rw [hsending, Bool.toNat_false, Nat.sub_zero, List.take_length]
  have hread := hinv.hosting.read
  rw [hhealthy.ended hended, List.append_nil] at hread
  rw [hread]
  exact hbatch

/-! ## The result -/

/-- The output is faithful in every state of every run.  In every state the
stream can also still end exactly if the checkpoint messages of every batch
fit into the two channels. -/
theorem transform_keeps_markers_iff (config : TransformConfig ρ τ) :
    (∀ s, Reachable config s → Faithful config s) ∧
      (KeepsMarkers config ↔ FitsChannels config) := by
  refine ⟨fun s hs => faithful_of_reachable hs, ?_, ?_⟩
  · intro hkeeps
    exact fits_of_canEnd (hkeeps (start config) ⟨[], rfl⟩).2
  · intro hfits s hs
    exact ⟨faithful_of_reachable hs,
      canEnd_of_fits (inv_of_reachable hs) (queued_of_reachable hs) hfits⟩

/-- A batch with three checkpoint messages and channels of one message each. -/
def wedgedConfig : TransformConfig ℕ ℕ where
  batches := [⟨[7], [.marker 1 0, .finalizer 1, .marker 2 0]⟩]
  inputFails := false
  processBatch := id
  inputCapacity := 1
  outputCapacity := 1
  inputCapacity_pos := Nat.one_pos
  outputCapacity_pos := Nat.one_pos

/-- The host waits for room to send the batch, and the dispatcher for room to
return the finalizer. -/
def wedgedRun : TransformRun ℕ ℕ where
  pending := []
  host := .sending [] [7]
  epochCreatedAt :=
    Function.update (Function.update (fun _ => none) 1 (some 0)) 2 (some 0)
  checkpointBuffer := []
  input := [.control (.checkpointMarker 2)]
  dispatcher := .sending (.control (.checkpointFinalizer 1))
  output := [.control (.checkpointMarker 1)]
  shuttingDown := false
  emitted := []
  stream := wedgedConfig.batches
  sent := [.init, .control (.checkpointMarker 1),
    .control (.checkpointFinalizer 1), .control (.checkpointMarker 2)]
  received := []

/-- From the wedged state no step but a fault is possible. -/
theorem transform_wedged :
    (Reachable wedgedConfig wedgedRun ∧
      ∀ a, a.isFault = false → step wedgedConfig wedgedRun a = none) ∧
      ¬ KeepsMarkers wedgedConfig := by
  refine ⟨⟨⟨[.send, .take, .hook true, .read, .send, .take, .hook true,
    .forward, .send, .take, .hook true, .send], rfl⟩, ?_⟩, ?_⟩
  · intro a ha
    cases a with
    | hook ok => rfl
    | exit | shutDown | terminate =>
        exact absurd ha (by simp [Action.isFault])
    | read | skip | send | giveUp | look | receive | idle | noticeExit | emit
    | take | forward | report => rfl
  · intro hkeeps
    have hfits := fits_of_canEnd (hkeeps (start wedgedConfig) ⟨[], rfl⟩).2
    exact absurd (hfits _ List.mem_cons_self) (by decide)

end TransformRun

end PluginTransform

end Streamling
