import Mathlib.Data.List.Range
import Streamling.Plugin.Source

/-!
# What flows through a plugin source

Every generated batch is on the output channel, waits in the dispatcher's
hands, or was given up by the retry callback; every message received from the
plugin is in the stream, in the host's hands or in its buffer.  A source that
completes therefore loses nothing exactly if no retry callback found the
plugin stopped and nothing was broadcast after the host's last look at its
subscription.
-/

namespace Streamling

namespace PluginSource

/-! ## Messages -/

@[simp] theorem batchesOf_append (xs ys : List OutputMsg) :
    batchesOf (xs ++ ys) = batchesOf xs ++ batchesOf ys :=
  List.filterMap_append

@[simp] theorem controlsOf_append (xs ys : List OutputMsg) :
    controlsOf (xs ++ ys) = controlsOf xs ++ controlsOf ys :=
  List.filterMap_append

@[simp] theorem controls_append (xs ys : List CheckpointMessage) :
    controls (xs ++ ys) = controls xs ++ controls ys :=
  List.filterMap_append

@[simp] theorem batchesOf_nil : batchesOf [] = [] := rfl

@[simp] theorem controlsOf_nil : controlsOf [] = [] := rfl

@[simp] theorem controls_nil : controls [] = [] := rfl

@[simp] theorem batchesOf_cons (m : OutputMsg) (ms : List OutputMsg) :
    batchesOf (m :: ms) = m.batch?.toList ++ batchesOf ms := by
  cases m <;> rfl

@[simp] theorem controlsOf_cons (m : OutputMsg) (ms : List OutputMsg) :
    controlsOf (m :: ms) = m.control?.toList ++ controlsOf ms := by
  cases m <;> rfl

@[simp] theorem controls_cons
    (m : CheckpointMessage) (ms : List CheckpointMessage) :
    controls (m :: ms) = (controlOf? m).toList ++ controls ms := by
  cases m <;> rfl

namespace SourceRun

@[simp] theorem streamBatches_nil : streamBatches [] = [] := rfl

@[simp] theorem streamControls_nil : streamControls [] = [] := rfl

@[simp] theorem streamBatches_append (xs ys : List (RecordBatch ℕ)) :
    streamBatches (xs ++ ys) = streamBatches xs ++ streamBatches ys :=
  List.flatMap_append

@[simp] theorem streamControls_append (xs ys : List (RecordBatch ℕ)) :
    streamControls (xs ++ ys) = streamControls xs ++ streamControls ys :=
  List.flatMap_append

@[simp] theorem streamBatches_singleton (batch : RecordBatch ℕ) :
    streamBatches [batch] = batch.rows := by
  simp [streamBatches]

@[simp] theorem streamControls_singleton (batch : RecordBatch ℕ) :
    streamControls [batch] = controls batch.messages := by
  simp [streamControls]

/-! ## What a step of the dispatcher does -/

/-- What the dispatcher has in its hands changes in one of these ways, and
nothing else of the state that the invariants speak about does. -/
inductive Dispatched (s : SourceRun) : SourceRun → Prop where
  | moves (d : Dispatcher) (hheld : d.held? = s.dispatcher.held?)
      (hforwarded : d.forwarded? = none)
      (hs : s.dispatcher ≠ .exited) (hd : d ≠ .exited)
      (hrunning : s.dispatcher.consults = true → s.isRunning = true) :
      Dispatched s { s with dispatcher := d }
  | generates (hs : s.dispatcher = .generating) :
      Dispatched s
        { s with
          dispatcher := .sending s.generated
          generated := s.generated + 1 }
  | sendsBatch (n : ℕ) (hs : s.dispatcher = .sending n) :
      Dispatched s
        { s with
          output := s.output ++ [.nextBatch n]
          sent := s.sent ++ [.nextBatch n]
          dispatcher := .handling none }
  | callsHook (waiting : Option ℕ) (message : ControlMsg)
      (rest : List ControlMsg) (succeeds : Bool)
      (hs : s.dispatcher = .handling waiting)
      (hinput : s.input = message :: rest) :
      Dispatched s (callHook { s with input := rest } waiting message succeeds)
  | forwards (waiting : Option ℕ) (message : ControlMsg)
      (hs : s.dispatcher = .forwarding waiting message) :
      Dispatched s
        { s with
          output := s.output ++ [.control message]
          sent := s.sent ++ [.control message]
          dispatcher := .handling waiting }
  | drops (n : ℕ) (hs : s.dispatcher = .consulting n)
      (hrunning : s.isRunning = false) :
      Dispatched s
        { s with
          dispatcher := .handling none
          dropped := s.dropped ++ [n] }
  | reports (hs : s.dispatcher = .failing true) :
      Dispatched s
        { s with
          output := s.output ++ [.error]
          sent := s.sent ++ [.error]
          dispatcher := .failing false }
  | discards (unsentReport : Bool) (hs : s.dispatcher = .failing unsentReport) :
      Dispatched s { s with input := s.input.tail }
  | completes (hs : s.dispatcher = .completing) :
      Dispatched s
        { s with
          output := s.output ++ [.terminate]
          sent := s.sent ++ [.terminate]
          dispatcher := .exited }

theorem eq_of_trySend
    {s s' : SourceRun} {message : OutputMsg} {next : Dispatcher}
    (h : s.trySend message next = some s') :
    s' =
      { s with
        output := s.output ++ [message]
        sent := s.sent ++ [message]
        dispatcher := next } := by
  unfold trySend at h
  split at h
  · exact (Option.some.inj h).symm
  · exact absurd h (by simp)

theorem dispatched_of_dispatch
    {s s' : SourceRun} {outcome : Bool} (h : s.dispatch outcome = some s') :
    Dispatched s s' := by
  unfold dispatch at h
  split at h
  case h_1 hs =>
      obtain rfl := Option.some.inj h
      refine .moves _ ?_ ?_ (by simp [hs]) ?_
        (by simp [hs, Dispatcher.consults]) <;>
        split <;>
        simp [hs, Dispatcher.held?, Dispatcher.forwarded?]
  case h_2 hs =>
      obtain rfl := Option.some.inj h
      unfold generateBatch
      split
      · exact .generates hs
      · exact .moves _ (by simp [hs, Dispatcher.held?]) rfl (by simp [hs])
          (by simp) (by simp [hs, Dispatcher.consults])
  case h_3 n hs =>
      obtain rfl := Option.some.inj h
      unfold sendBatch
      cases hsend : s.trySend (.nextBatch n) (.handling none) with
      | some t =>
          obtain rfl := eq_of_trySend hsend
          exact .sendsBatch n hs
      | none =>
          exact .moves _ (by simp [hs, Dispatcher.held?]) rfl (by simp [hs])
            (by simp) (by simp [hs, Dispatcher.consults])
  case h_4 waiting hs =>
      obtain rfl := Option.some.inj h
      unfold handleControlMessages
      split
      case h_1 message rest hinput =>
          exact .callsHook waiting message rest outcome hs hinput
      case h_2 hinput =>
          refine .moves _ ?_ ?_ (by simp [hs]) ?_
            (by simp [hs, Dispatcher.consults]) <;>
            cases waiting <;>
            simp [hs, Dispatcher.held?, Dispatcher.forwarded?]
  case h_5 waiting message hs =>
      obtain rfl := eq_of_trySend h
      exact .forwards waiting message hs
  case h_6 n hs =>
      obtain rfl := Option.some.inj h
      unfold consultRunning
      split
      case isTrue hrunning =>
          exact .moves _ (by simp [hs, Dispatcher.held?]) rfl (by simp [hs])
            (by simp) (fun _ => hrunning)
      case isFalse hrunning => exact .drops n hs (by simpa using hrunning)
  case h_7 unsentReport hs =>
      unfold drainDiscardAfterFailure at h
      split at h
      · split at h
        · obtain rfl := eq_of_trySend h
          exact .reports (by simp_all)
        · exact absurd h (by simp)
      · obtain rfl := Option.some.inj h
        exact .discards unsentReport hs
  case h_8 hs =>
      obtain rfl := eq_of_trySend h
      exact .completes hs
  case h_9 => exact absurd h (by simp)

/-! ## What a step of the host does -/

/-- The ways in which a step of the host changes the state. -/
inductive Polled (s : SourceRun) : SourceRun → Prop where
  | moves (h : Host) (hs : s.host.inHand = []) (hhand : h.inHand = [])
      (hplugin : h.toPlugin = []) (hleft : h.leftLoop = s.host.leftLoop)
      (hflushed : h.flushed = true →
        s.host.flushed = true ∨
          s.checkpointBuffer = [] ∧ s.subscription = [])
      (hstays : s.host.flushed = true → h.flushed = true)
      (hattaches : s.attaches = false ∨ s.checkpointBuffer = []) :
      Polled s { s with host := h }
  | receives (dispatcherExited : Bool) (message : OutputMsg)
      (rest : List OutputMsg) (nowMs : ℕ)
      (hs : s.host = .looking dispatcherExited)
      (houtput : s.output = message :: rest) :
      Polled s
        (receiveOutput
          { s with output := rest, received := s.received ++ [message] }
          message nowMs)
  | flushesIdle (hs : s.host = .looking false) (houtput : s.output = []) :
      Polled s (s.attachBuffer [] false)
  | flushesFinally (hs : s.host = .finishing)
      (hsubscription : s.subscription = []) :
      Polled s (s.attachBuffer [] true)
  | emits (batch : RecordBatch ℕ) (final : Bool)
      (hs : s.host = .emitting batch final) :
      Polled s
        { s with
          stream := s.stream ++ [batch]
          host := if final then .unsubscribing else .turning }
  | takes (message : CheckpointMessage) (rest : List CheckpointMessage)
      (createdAt : CheckpointEpoch → Option ℕ) (hs : s.host = .turning)
      (hsubscription : s.subscription = message :: rest) :
      Polled s
        { s with
          subscription := rest
          epochCreatedAt := createdAt
          host :=
            match controlOf? message with
            | some message => .forwarding message
            | none => .polling }
  | delivers (message : ControlMsg) (hs : s.host = .forwarding message) :
      Polled s { s with input := s.input ++ [message], host := .polling }
  | drains (message : CheckpointMessage) (rest : List CheckpointMessage)
      (hs : s.host = .finishing)
      (hsubscription : s.subscription = message :: rest) :
      Polled s
        { s with
          subscription := rest
          drained := s.drained ++ [message]
          checkpointBuffer := s.checkpointBuffer ++
            (if (controlOf? message).isSome then [message] else []) }

/-- The host moves on within its loop, or out of it with an error. -/
theorem Polled.loops
    {s : SourceRun} {h : Host} (hs : s.host.between = true)
    (hh : (h.between && h.toPlugin.isEmpty) = true)
    (hattaches : s.attaches = false ∨ s.checkpointBuffer = []) :
    Polled s { s with host := h } := by
  obtain ⟨hhand, hleft, hflushed⟩ : s.host.inHand = [] ∧
      s.host.leftLoop = false ∧ s.host.flushed = false := by
    revert hs
    cases s.host <;> simp [Host.between, Host.inHand, Host.leftLoop,
      Host.flushed]
  obtain ⟨hhand', hplugin, hleft', hflushed'⟩ : h.inHand = [] ∧
      h.toPlugin = [] ∧ h.leftLoop = false ∧ h.flushed = false := by
    revert hh
    cases h <;> simp [Host.between, Host.inHand, Host.toPlugin,
      Host.leftLoop, Host.flushed]
  exact .moves h hhand hhand' hplugin (hleft'.trans hleft.symm)
    (by simp [hflushed']) (by simp [hflushed]) hattaches

theorem polled_of_poll
    {s s' : SourceRun} {nowMs : ℕ} (h : s.poll nowMs = some s') :
    Polled s s' := by
  unfold poll at h
  split at h
  case h_1 hs =>
      obtain rfl := Option.some.inj h
      exact .loops (by simp [hs, Host.between]) rfl
        (.inl (by simp [attaches, hs]))
  case h_2 dispatcherExited hs =>
      obtain rfl := Option.some.inj h
      unfold lookAtOutput
      split
      case h_1 message rest houtput =>
          exact .receives dispatcherExited message rest nowMs hs houtput
      case h_2 houtput =>
          split
          case isTrue hexited =>
              exact .loops (by simp [hs, Host.between]) rfl
                (.inl (by simp [attaches, hs, houtput, hexited]))
          case isFalse hexited =>
              split
              case isTrue hbuffer =>
                  exact .loops (by simp [hs, Host.between]) rfl (.inr hbuffer)
              case isFalse => exact .flushesIdle (by simp_all) houtput
  case h_3 batch final hs =>
      obtain rfl := Option.some.inj h
      exact .emits batch final hs
  case h_4 hs =>
      obtain rfl := Option.some.inj h
      unfold receiveCoordinator
      split
      case h_1 =>
          exact .loops (by simp [hs, Host.between]) rfl
            (.inl (by simp [attaches, hs]))
      case h_2 message rest hsubscription =>
          exact .takes message rest _ hs hsubscription
  case h_5 message hs =>
      unfold sendToPlugin at h
      split at h
      · obtain rfl := Option.some.inj h
        exact .delivers message hs
      · split at h
        · obtain rfl := Option.some.inj h
          exact .loops (by simp [hs, Host.between]) rfl
            (.inl (by simp [attaches, hs]))
        · exact absurd h (by simp)
  case h_6 hs =>
      obtain rfl := Option.some.inj h
      unfold finish
      split
      case h_1 message rest hsubscription =>
          exact .drains message rest hs hsubscription
      case h_2 hsubscription =>
          split
          case isTrue hbuffer =>
              exact .moves _ (by simp [hs, Host.inHand]) rfl rfl
                (by simp [hs, Host.leftLoop])
                (fun _ => .inr ⟨hbuffer, hsubscription⟩)
                (by simp [hs, Host.flushed]) (.inr hbuffer)
          case isFalse => exact .flushesFinally hs hsubscription
  case h_7 hs =>
      obtain rfl := Option.some.inj h
      exact .moves _ (by simp [hs, Host.inHand]) rfl rfl
        (by simp [hs, Host.leftLoop])
        (fun _ => .inl (by simp [hs, Host.flushed])) (fun _ => rfl)
        (.inl (by simp [attaches, hs]))
  case h_8 => exact absurd h (by simp)
  case h_9 => exact absurd h (by simp)

theorem eq_of_broadcast
    {s s' : SourceRun} {message : CheckpointMessage}
    (h : s.broadcast message = some s') :
    s.host.subscribed = true ∧
      (∀ epoch ∈ message.markerEpoch?, epoch ∉ s.broadcasts) ∧
      s' =
        { s with
          subscription := s.subscription ++ [message]
          broadcasts := s.broadcasts ++ message.markerEpoch?.toList } := by
  unfold broadcast at h
  split at h
  case isTrue => exact absurd h (by simp)
  case isFalse hsubscribed =>
      refine ⟨by simpa using hsubscribed, ?_⟩
      cases message with
      | marker epoch createdAtMs =>
          simp only at h
          split at h
          · exact absurd h (by simp)
          · obtain rfl := Option.some.inj h
            simpa [CheckpointMessage.markerEpoch?] using ‹_›
      | ack | finalizer | sourceComplete =>
          obtain rfl := Option.some.inj h
          simp [CheckpointMessage.markerEpoch?]

/-! ## The batches of the dispatcher -/

/-- Every generated batch was sent, was given up or is in the dispatcher's
hands; as long as none was given up, they were sent in order. -/
structure Accounted (s : SourceRun) : Prop where
  everyBatch :
    (batchesOf s.sent ++ s.dropped ++ s.dispatcher.held?.toList).Perm
      (List.range s.generated)
  inOrder : s.dropped = [] →
    batchesOf s.sent ++ s.dispatcher.held?.toList = List.range s.generated

theorem accounted_start (capacities : Capacities) :
    Accounted (start capacities) :=
  ⟨List.Perm.refl _, fun _ => rfl⟩

theorem Accounted.of_eq
    {s s' : SourceRun} (hs : Accounted s)
    (hsent : batchesOf s'.sent = batchesOf s.sent)
    (hdropped : s'.dropped = s.dropped)
    (hheld : s'.dispatcher.held? = s.dispatcher.held?)
    (hgenerated : s'.generated = s.generated) : Accounted s' where
  everyBatch := by
    simpa only [hsent, hdropped, hheld, hgenerated] using hs.everyBatch
  inOrder := by
    simpa only [hsent, hdropped, hheld, hgenerated] using hs.inOrder

theorem Accounted.dispatched
    {s s' : SourceRun} (hs : Accounted s) (h : Dispatched s s') :
    Accounted s' := by
  cases h with
  | moves d hheld => exact hs.of_eq rfl rfl hheld rfl
  | generates hd =>
      have hevery := hs.everyBatch
      have horder := hs.inOrder
      simp only [hd, Dispatcher.held?, Option.toList_none,
        List.append_nil] at hevery horder
      refine ⟨?_, fun hdropped => ?_⟩
      · simpa [Dispatcher.held?, List.range_succ] using hevery.append_right _
      · simp [Dispatcher.held?, List.range_succ, horder hdropped]
  | sendsBatch n hd =>
      have hevery := hs.everyBatch
      have horder := hs.inOrder
      simp only [hd, Dispatcher.held?, Option.toList_some] at hevery horder
      refine ⟨?_, fun hdropped => ?_⟩
      · refine List.Perm.trans ?_ hevery
        simpa [Dispatcher.held?, OutputMsg.batch?] using
          (@List.perm_append_comm _ [n] s.dropped).append_left
            (batchesOf s.sent)
      · simpa [Dispatcher.held?, OutputMsg.batch?] using horder hdropped
  | callsHook waiting message rest succeeds hd hinput =>
      refine hs.of_eq rfl rfl ?_ rfl
      cases succeeds <;> cases waiting <;>
        simp [hd, callHook, Dispatcher.held?]
  | forwards waiting message hd =>
      exact hs.of_eq (by simp [OutputMsg.batch?]) rfl
        (by simp [hd, Dispatcher.held?]) rfl
  | drops n hd =>
      have hevery := hs.everyBatch
      simp only [hd, Dispatcher.held?, Option.toList_some] at hevery
      refine ⟨?_, fun hdropped => absurd hdropped (by simp)⟩
      simpa [Dispatcher.held?] using hevery
  | reports hd =>
      exact hs.of_eq (by simp [OutputMsg.batch?]) rfl
        (by simp [hd, Dispatcher.held?]) rfl
  | discards unsentReport hd => exact hs.of_eq rfl rfl rfl rfl
  | completes hd =>
      exact hs.of_eq (by simp [OutputMsg.batch?]) rfl
        (by simp [hd, Dispatcher.held?]) rfl

theorem Accounted.polled
    {s s' : SourceRun} (hs : Accounted s) (h : Polled s s') :
    Accounted s' := by
  cases h with
  | receives dispatcherExited message rest nowMs =>
      cases message with
      | nextBatch | terminate | error => exact hs.of_eq rfl rfl rfl rfl
      | control message => cases message <;> exact hs.of_eq rfl rfl rfl rfl
  | _ => exact hs.of_eq rfl rfl rfl rfl

theorem accounted_step
    (s : SourceRun) (action : Action) (s' : SourceRun) (hs : Accounted s)
    (h : s.step action = some s') : Accounted s' := by
  cases action with
  | setRunning isRunning =>
      obtain rfl := Option.some.inj h
      exact hs.of_eq rfl rfl rfl rfl
  | broadcast message =>
      obtain ⟨-, -, rfl⟩ := eq_of_broadcast h
      exact hs.of_eq rfl rfl rfl rfl
  | dispatch outcome => exact hs.dispatched (dispatched_of_dispatch h)
  | poll nowMs => exact hs.polled (polled_of_poll h)

/-! ## The output channel -/

/-- The output channel is a queue, and a completion is the last message on
it. -/
structure Queued (s : SourceRun) : Prop where
  queue : s.sent = s.received ++ s.output
  terminateLast : ∀ front rest, s.sent = front ++ .terminate :: rest →
    rest = [] ∧ s.dispatcher = .exited
  ended : s.host.leftLoop = true →
    s.output = [] ∧ s.dispatcher = .exited

theorem queued_start (capacities : Capacities) : Queued (start capacities) where
  queue := rfl
  terminateLast := by simp [start]
  ended := by simp [start, Host.leftLoop]

/-- A dispatcher that has not exited appends one message. -/
theorem Queued.append
    {s s' : SourceRun} (hs : Queued s) {message : OutputMsg}
    (hrunning : s.dispatcher ≠ .exited)
    (hsent : s'.sent = s.sent ++ [message])
    (houtput : s'.output = s.output ++ [message])
    (hreceived : s'.received = s.received) (hhost : s'.host = s.host)
    (hexit : message = .terminate → s'.dispatcher = .exited) :
    Queued s' where
  queue := by rw [hsent, houtput, hreceived, hs.queue, List.append_assoc]
  terminateLast := by
    intro front rest hsplit
    rw [hsent] at hsplit
    rcases append_singleton_eq_append_cons hsplit with
      ⟨-, hmessage, hrest⟩ | ⟨rest', -, hbefore⟩
    · exact ⟨hrest, hexit hmessage⟩
    · exact absurd (hs.terminateLast _ _ hbefore).2 hrunning
  ended := by
    intro hleft
    rw [hhost] at hleft
    exact absurd (hs.ended hleft).2 hrunning

theorem Queued.of_eq
    {s s' : SourceRun} (hs : Queued s) (hsent : s'.sent = s.sent)
    (hqueue : s'.received ++ s'.output = s.received ++ s.output)
    (hexit : s.dispatcher = .exited → s'.dispatcher = .exited)
    (hended : s'.host.leftLoop = true →
      s'.output = [] ∧ s'.dispatcher = .exited) : Queued s' where
  queue := by rw [hsent, hqueue, hs.queue]
  terminateLast := by
    intro front rest hsplit
    obtain ⟨hrest, hd⟩ := hs.terminateLast front rest (hsent ▸ hsplit)
    exact ⟨hrest, hexit hd⟩
  ended := hended

theorem Queued.dispatched
    {s s' : SourceRun} (hs : Queued s) (h : Dispatched s s') :
    Queued s' := by
  have hleft (hd : s.dispatcher ≠ .exited) : s.host.leftLoop ≠ true :=
    fun hleft => hd (hs.ended hleft).2
  cases h with
  | moves d hheld hforwarded hd =>
      exact hs.of_eq rfl rfl (fun h => absurd h hd)
        (fun h => absurd h (hleft hd))
  | generates hd =>
      have hd : s.dispatcher ≠ .exited := by simp [hd]
      exact hs.of_eq rfl rfl (fun h => absurd h hd)
        (fun h => absurd h (hleft hd))
  | sendsBatch n hd =>
      exact hs.append (by simp [hd]) rfl rfl rfl rfl (by simp)
  | callsHook waiting message rest succeeds hd =>
      have hd : s.dispatcher ≠ .exited := by simp [hd]
      exact hs.of_eq rfl rfl (fun h => absurd h hd)
        (fun h => absurd h (hleft hd))
  | forwards waiting message hd =>
      exact hs.append (by simp [hd]) rfl rfl rfl rfl (by simp)
  | drops n hd =>
      have hd : s.dispatcher ≠ .exited := by simp [hd]
      exact hs.of_eq rfl rfl (fun h => absurd h hd)
        (fun h => absurd h (hleft hd))
  | reports hd => exact hs.append (by simp [hd]) rfl rfl rfl rfl (by simp)
  | discards unsentReport hd =>
      have hd : s.dispatcher ≠ .exited := by simp [hd]
      exact hs.of_eq rfl rfl id (fun h => absurd h (hleft hd))
  | completes hd =>
      exact hs.append (by simp [hd]) rfl rfl rfl rfl (fun _ => rfl)

theorem Queued.polled
    {s s' : SourceRun} (hs : Queued s) (h : Polled s s') :
    Queued s' := by
  cases h with
  | moves h hhand hhand' hplugin hleft =>
      exact hs.of_eq rfl rfl id (fun h => hs.ended (hleft ▸ h))
  | receives dispatcherExited message rest nowMs hhost houtput =>
      have hqueue : s.received ++ [message] ++ rest =
          s.received ++ s.output := by simp [houtput]
      cases message with
      | nextBatch batch =>
          exact hs.of_eq rfl hqueue id
            (by simp [receiveOutput, attachBuffer, Host.leftLoop])
      | control message =>
          cases message <;>
            exact hs.of_eq rfl hqueue id
              (by simp [receiveOutput, bufferControl, Host.leftLoop])
      | terminate =>
          have hlast := hs.terminateLast s.received rest
            (by rw [hs.queue, houtput])
          exact hs.of_eq rfl hqueue id fun _ => hlast
      | error =>
          exact hs.of_eq rfl hqueue id (by simp [receiveOutput, Host.leftLoop])
  | flushesIdle =>
      exact hs.of_eq rfl rfl id (by simp [attachBuffer, Host.leftLoop])
  | flushesFinally hhost =>
      exact hs.of_eq rfl rfl id fun _ =>
        hs.ended (by simp [hhost, Host.leftLoop])
  | emits batch final hhost =>
      refine hs.of_eq rfl rfl id fun hleft => hs.ended ?_
      cases final <;> simp_all [Host.leftLoop]
  | takes message rest createdAt hhost =>
      refine hs.of_eq rfl rfl id fun hleft => ?_
      simp only at hleft
      split at hleft <;> simp [Host.leftLoop] at hleft
  | delivers =>
      exact hs.of_eq rfl rfl id (by simp [Host.leftLoop])
  | drains => exact hs.of_eq rfl rfl id hs.ended

theorem queued_step
    (s : SourceRun) (action : Action) (s' : SourceRun) (hs : Queued s)
    (h : s.step action = some s') : Queued s' := by
  cases action with
  | setRunning isRunning =>
      obtain rfl := Option.some.inj h
      exact hs.of_eq rfl rfl id hs.ended
  | broadcast message =>
      obtain ⟨-, -, rfl⟩ := eq_of_broadcast h
      exact hs.of_eq rfl rfl id hs.ended
  | dispatch outcome => exact hs.dispatched (dispatched_of_dispatch h)
  | poll nowMs => exact hs.polled (polled_of_poll h)

/-! ## The stream -/

/-- What the host has received is in the stream, in its hands or in its
buffer, in order. -/
structure Delivered (s : SourceRun) : Prop where
  batches : streamBatches (s.stream ++ s.host.inHand) = batchesOf s.received
  messages :
    streamControls (s.stream ++ s.host.inHand) ++
        controls s.checkpointBuffer =
      controlsOf s.received ++ controls s.drained
  notDrained : s.host.leftLoop = false → s.drained = []
  bufferFlushed : s.host.flushed = true → s.checkpointBuffer = []

theorem delivered_start (capacities : Capacities) :
    Delivered (start capacities) where
  batches := rfl
  messages := rfl
  notDrained := fun _ => rfl
  bufferFlushed := fun _ => rfl

/-- The host puts its buffer on the batch in its hands. -/
theorem Delivered.attach
    {s s' : SourceRun} (hs : Delivered s) (hinHand : s.host.inHand = [])
    {rows : List ℕ} {final : Bool} {received : List OutputMsg}
    (hhost : s'.host = .emitting ⟨rows, s.checkpointBuffer⟩ final)
    (hstream : s'.stream = s.stream) (hbuffer : s'.checkpointBuffer = [])
    (hreceived : s'.received = s.received ++ received)
    (hrows : batchesOf received = rows) (hcontrols : controlsOf received = [])
    (hdrained : s'.drained = s.drained)
    (hleft : final = s.host.leftLoop) : Delivered s' where
  batches := by
    have hbatches := hs.batches
    rw [hinHand, List.append_nil] at hbatches
    simpa [hhost, hstream, hreceived, hrows, Host.inHand] using hbatches
  messages := by
    have hmessages := hs.messages
    rw [hinHand, List.append_nil] at hmessages
    simpa [hhost, hstream, hbuffer, hreceived, hcontrols, hdrained,
      Host.inHand] using hmessages
  notDrained := by
    intro h
    rw [hdrained]
    exact hs.notDrained (by simpa [hhost, Host.leftLoop, hleft] using h)
  bufferFlushed := fun _ => hbuffer

/-- The host buffers a checkpoint message of the plugin. -/
theorem Delivered.buffer
    {s s' : SourceRun} (hs : Delivered s) (hinHand : s.host.inHand = [])
    (hleft : s.host.leftLoop = false)
    {message : CheckpointMessage} {control : ControlMsg}
    (hcontrol : controlOf? message = some control)
    (hhost : s'.host = .turning) (hstream : s'.stream = s.stream)
    (hbuffer : s'.checkpointBuffer = s.checkpointBuffer ++ [message])
    (hreceived : s'.received = s.received ++ [.control control])
    (hdrained : s'.drained = s.drained) : Delivered s' where
  batches := by
    have hbatches := hs.batches
    rw [hinHand, List.append_nil] at hbatches
    simpa [hhost, hstream, hreceived, Host.inHand, OutputMsg.batch?] using
      hbatches
  messages := by
    have hmessages := hs.messages
    simp only [hs.notDrained hleft, hinHand, List.append_nil,
      controls_nil] at hmessages
    simp [hhost, hstream, hbuffer, hreceived, hdrained,
      hs.notDrained hleft, Host.inHand, OutputMsg.control?, hcontrol,
      ← hmessages]
  notDrained := fun _ => hdrained.trans (hs.notDrained hleft)
  bufferFlushed := by simp [hhost, Host.flushed]

theorem Delivered.of_eq
    {s s' : SourceRun} (hs : Delivered s)
    (hstream : s'.stream ++ s'.host.inHand = s.stream ++ s.host.inHand)
    (hbuffer : s'.checkpointBuffer = s.checkpointBuffer)
    (hreceived : batchesOf s'.received = batchesOf s.received)
    (hcontrols : controlsOf s'.received = controlsOf s.received)
    (hdrained : s'.drained = s.drained)
    (hleft : s'.host.leftLoop = false → s.host.leftLoop = false)
    (hflushed : s'.host.flushed = true →
      s.host.flushed = true ∨ s.checkpointBuffer = []) : Delivered s' where
  batches := by rw [hstream, hreceived, hs.batches]
  messages := by rw [hstream, hbuffer, hcontrols, hdrained, hs.messages]
  notDrained := fun h => hdrained.trans (hs.notDrained (hleft h))
  bufferFlushed := by
    intro h
    rw [hbuffer]
    exact (hflushed h).elim hs.bufferFlushed id

theorem Delivered.dispatched
    {s s' : SourceRun} (hs : Delivered s) (h : Dispatched s s') :
    Delivered s' := by
  cases h <;> exact hs.of_eq rfl rfl rfl rfl rfl id Or.inl

theorem Delivered.polled
    {s s' : SourceRun} (hs : Delivered s) (h : Polled s s') :
    Delivered s' := by
  cases h with
  | moves h hhand hhand' hplugin hleft hflushed =>
      exact hs.of_eq (by simp [hhand, hhand']) rfl rfl rfl rfl
        (fun h => hleft ▸ h) (fun h => (hflushed h).imp_right And.left)
  | receives dispatcherExited message rest nowMs hhost houtput =>
      have hinHand : s.host.inHand = [] := by simp [hhost, Host.inHand]
      have hleft : s.host.leftLoop = false := by simp [hhost, Host.leftLoop]
      cases message with
      | nextBatch batch =>
          exact hs.attach hinHand rfl rfl rfl rfl rfl rfl rfl hleft.symm
      | control message =>
          cases message with
          | checkpointMarker epoch =>
              exact hs.buffer hinHand hleft rfl rfl rfl rfl rfl rfl
          | checkpointFinalizer epoch =>
              exact hs.buffer hinHand hleft rfl rfl rfl rfl rfl rfl
      | terminate =>
          exact hs.of_eq (by simp [receiveOutput, hhost, Host.inHand]) rfl
            (by simp [receiveOutput, OutputMsg.batch?])
            (by simp [receiveOutput, OutputMsg.control?]) rfl
            (fun _ => hleft) (by simp [receiveOutput, Host.flushed])
      | error =>
          exact hs.of_eq (by simp [receiveOutput, hhost, Host.inHand]) rfl
            (by simp [receiveOutput, OutputMsg.batch?])
            (by simp [receiveOutput, OutputMsg.control?]) rfl
            (fun _ => hleft) (by simp [receiveOutput, Host.flushed])
  | flushesIdle hhost =>
      exact hs.attach (by simp [hhost, Host.inHand]) rfl rfl rfl
        (List.append_nil _).symm rfl rfl rfl (by simp [hhost, Host.leftLoop])
  | flushesFinally hhost =>
      exact hs.attach (by simp [hhost, Host.inHand]) rfl rfl rfl
        (List.append_nil _).symm rfl rfl rfl (by simp [hhost, Host.leftLoop])
  | emits batch final hhost =>
      refine hs.of_eq ?_ rfl rfl rfl rfl ?_ ?_ <;> cases final <;>
        simp [hhost, Host.inHand, Host.leftLoop, Host.flushed]
  | takes message rest createdAt hhost =>
      refine hs.of_eq ?_ rfl rfl rfl rfl
        (fun _ => by simp [hhost, Host.leftLoop]) ?_ <;>
        cases controlOf? message <;>
          simp [hhost, Host.inHand, Host.flushed]
  | delivers message hhost =>
      exact hs.of_eq (by simp [hhost, Host.inHand]) rfl rfl rfl rfl
        (fun _ => by simp [hhost, Host.leftLoop]) (by simp [Host.flushed])
  | drains message rest hhost =>
      refine ⟨hs.batches, ?_, ?_, ?_⟩
      · have hmessages := hs.messages
        rw [controls_append, ← List.append_assoc, hmessages]
        cases hcontrol : controlOf? message <;> simp [hcontrol]
      · simp [hhost, Host.leftLoop]
      · simp [hhost, Host.flushed]

theorem delivered_step
    (s : SourceRun) (action : Action) (s' : SourceRun) (hs : Delivered s)
    (h : s.step action = some s') : Delivered s' := by
  cases action with
  | setRunning isRunning =>
      obtain rfl := Option.some.inj h
      exact hs.of_eq rfl rfl rfl rfl rfl id Or.inl
  | broadcast message =>
      obtain ⟨-, -, rfl⟩ := eq_of_broadcast h
      exact hs.of_eq rfl rfl rfl rfl rfl id Or.inl
  | dispatch outcome => exact hs.dispatched (dispatched_of_dispatch h)
  | poll nowMs => exact hs.polled (polled_of_poll h)

/-- The invariant of every run. -/
structure Flow (s : SourceRun) : Prop where
  accounted : Accounted s
  queued : Queued s
  delivered : Delivered s

theorem flow_start (capacities : Capacities) : Flow (start capacities) :=
  ⟨accounted_start capacities, queued_start capacities,
    delivered_start capacities⟩

theorem flow_step
    (s : SourceRun) (action : Action) (s' : SourceRun) (hs : Flow s)
    (h : s.step action = some s') : Flow s' :=
  ⟨accounted_step s action s' hs.accounted h,
    queued_step s action s' hs.queued h,
    delivered_step s action s' hs.delivered h⟩

/-! ## Completion -/

/-- The step gives up no batch and leaves no message unread: a retry callback
that asks finds the plugin running, and no marker or finalizer is broadcast
after the host's last look at its subscription. -/
def Lossless (s : SourceRun) : Action → Prop
  | .dispatch _ => s.dispatcher.consults = true → s.isRunning = true
  | .broadcast message =>
      s.host.flushed = true → controlOf? message = none
  | _ => True

instance (s : SourceRun) : (action : Action) → Decidable (s.Lossless action)
  | .dispatch _ => inferInstanceAs (Decidable (_ → _))
  | .broadcast _ => inferInstanceAs (Decidable (_ → _))
  | .setRunning _ | .poll _ => inferInstanceAs (Decidable True)

/-- No batch was given up and no message was left unread. -/
def Kept (s : SourceRun) : Prop :=
  s.dropped = [] ∧
    (s.host.flushed = true → controls s.subscription = [])

theorem Kept.dispatched_iff
    {s s' : SourceRun} {outcome : Bool} (h : Dispatched s s') :
    Kept s' ↔ Kept s ∧ s.Lossless (.dispatch outcome) := by
  cases h with
  | moves d hheld hforwarded hs hd hrunning =>
      exact ⟨fun hkept => ⟨hkept, hrunning⟩, And.left⟩
  | drops n hs hrunning =>
      constructor
      · rintro ⟨hdropped, -⟩
        simp at hdropped
      · rintro ⟨-, hlossless⟩
        have := hlossless (by simp [hs, Dispatcher.consults])
        simp [hrunning] at this
  | generates hs | sendsBatch _ hs | callsHook _ _ _ _ hs
  | forwards _ _ hs | reports hs | discards _ hs | completes hs =>
      exact ⟨fun hkept =>
        ⟨hkept, by simp [Lossless, hs, Dispatcher.consults]⟩, And.left⟩

theorem Kept.polled_iff
    {s s' : SourceRun} (h : Polled s s') : Kept s' ↔ Kept s := by
  cases h with
  | moves h hhand hhand' hplugin hleft hflushed hstays =>
      refine and_congr_right fun _ => ⟨fun hkept hs => hkept (hstays hs), ?_⟩
      intro hkept hs
      rcases hflushed hs with hs | ⟨-, hsubscription⟩
      · exact hkept hs
      · simp [hsubscription]
  | receives dispatcherExited message rest nowMs hhost houtput =>
      cases message with
      | nextBatch | terminate | error =>
          simp [Kept, receiveOutput, attachBuffer, hhost, Host.flushed]
      | control message =>
          cases message <;>
            simp [Kept, receiveOutput, bufferControl, hhost, Host.flushed]
  | flushesIdle hhost => simp [Kept, attachBuffer, hhost, Host.flushed]
  | flushesFinally hhost hsubscription =>
      simp [Kept, attachBuffer, hhost, hsubscription, Host.flushed]
  | emits batch final hhost =>
      cases final <;> simp [Kept, hhost, Host.flushed]
  | takes message rest createdAt hhost =>
      cases controlOf? message <;>
        simp [Kept, hhost, Host.flushed]
  | delivers message hhost => simp [Kept, hhost, Host.flushed]
  | drains message rest hhost => simp [Kept, hhost, Host.flushed]

theorem kept_step_iff
    (s : SourceRun) (action : Action) (s' : SourceRun)
    (h : s.step action = some s') :
    Kept s' ↔ Kept s ∧ s.Lossless action := by
  cases action with
  | setRunning isRunning =>
      obtain rfl := Option.some.inj h
      exact ⟨fun hkept => ⟨hkept, trivial⟩, And.left⟩
  | broadcast message =>
      obtain ⟨-, -, rfl⟩ := eq_of_broadcast h
      simp only [Kept, Lossless, controls_append, controls_cons,
        controls_nil, List.append_nil, List.append_eq_nil_iff,
        Option.toList_eq_nil_iff, and_assoc, imp_and]
  | dispatch outcome => exact Kept.dispatched_iff (dispatched_of_dispatch h)
  | poll nowMs =>
      exact (Kept.polled_iff (polled_of_poll h)).trans
        ⟨fun hkept => ⟨hkept, trivial⟩, And.left⟩

/-- A completed source lost nothing exactly if it gave up no batch and left
no message unread. -/
theorem losesNothing_iff_kept
    {s : SourceRun} (hs : Flow s) (hdone : s.host = .done) :
    s.LosesNothing ↔ Kept s := by
  obtain ⟨haccounted, hqueued, hdelivered⟩ := hs
  obtain ⟨houtput, hexited⟩ :=
    hqueued.ended (by simp [hdone, Host.leftLoop])
  have hsent : s.sent = s.received := by
    simpa [houtput] using hqueued.queue
  have hheld : s.dispatcher.held? = none := by
    simp [hexited, Dispatcher.held?]
  have hbatches : streamBatches s.stream = batchesOf s.sent := by
    simpa [hdone, Host.inHand, hsent] using hdelivered.batches
  have hmessages : streamControls s.stream =
      controlsOf s.sent ++ controls s.drained := by
    have hbuffer := hdelivered.bufferFlushed (by simp [hdone, Host.flushed])
    simpa [hdone, Host.inHand, hsent, hbuffer] using hdelivered.messages
  have hrange : batchesOf s.sent = List.range s.generated ↔
      s.dropped = [] := by
    constructor
    · intro h
      have hlength := haccounted.everyBatch.length_eq
      simp only [h, hheld, Option.toList_none, List.append_nil,
        List.length_append, List.length_range] at hlength
      exact List.length_eq_zero_iff.mp (by omega)
    · intro h
      simpa [hheld] using haccounted.inOrder h
  simp [LosesNothing, Kept, hbatches, hmessages, hrange, hdone, Host.flushed]

end SourceRun

/-- A source that completed on its own has emitted every generated batch once
and in order, and every checkpoint message forwarded by the plugin or left on
the subscription once, exactly if no retry callback found the plugin stopped
and nothing was broadcast after the host's last look at its subscription. -/
theorem plugin_source_loses_nothing_iff
    (capacities : Capacities) (actions : List SourceRun.Action)
    (s : SourceRun)
    (hrun : Transition.run SourceRun.step (SourceRun.start capacities)
      actions = some s)
    (hdone : s.host = .done) :
    s.LosesNothing ↔
      Transition.AllSteps SourceRun.step SourceRun.Lossless
        (SourceRun.start capacities) actions := by
  have hflow := Transition.run_invariant SourceRun.flow_step
    (SourceRun.flow_start capacities) hrun
  rw [SourceRun.losesNothing_iff_kept hflow hdone]
  exact Transition.allSteps_iff_of_run SourceRun.flow_step
    (fun s action s' _ => SourceRun.kept_step_iff s action s')
    (SourceRun.flow_start capacities)
    ⟨rfl, by simp [SourceRun.start, Host.flushed]⟩ hrun

/-- Two batches, the second of which waits for room, a marker that makes the
round trip while it waits and a marker still queued at the end. -/
theorem plugin_source_loses_nothing_two_batches :
    ∃ s, Transition.run SourceRun.step
        (SourceRun.start ⟨1, 1, by decide, by decide⟩)
        [.poll 0, .poll 0, .dispatch true, .dispatch true, .dispatch true,
          .dispatch true, .dispatch true, .dispatch true,
          .broadcast (.marker 1 7), .poll 0, .poll 0, .dispatch true,
          .dispatch true, .poll 0, .poll 0, .poll 0, .dispatch true,
          .dispatch true, .poll 0, .poll 0, .poll 0, .dispatch true,
          .dispatch true, .setRunning false, .dispatch true, .dispatch true,
          .poll 0, .poll 0, .poll 0, .poll 0, .dispatch true, .poll 0,
          .poll 0, .poll 0, .broadcast (.marker 2 9), .poll 0, .poll 0,
          .poll 0, .poll 0] = some s ∧
      s.host = .done ∧ s.LosesNothing := by
  refine Exists.imp
    (fun s (h : _ ∧ s.host = .done) => ⟨h.1, h.2,
      (plugin_source_loses_nothing_iff _ _ s h.1 h.2).mpr ?_⟩)
    (Transition.exists_run_of_decide ?_)
  · decide +kernel
  · decide +kernel

/-- The plugin stops while its second batch is generated and the first still
fills the output channel: the second is given up, the completion is sent, and
the stream ends cleanly without it. -/
theorem plugin_source_loses_last_batch :
    ∃ s, Transition.run SourceRun.step
        (SourceRun.start ⟨1, 1, by decide, by decide⟩)
        [.dispatch true, .dispatch true, .dispatch true, .dispatch true,
          .dispatch true, .dispatch true, .setRunning false, .dispatch true,
          .dispatch true, .dispatch true, .dispatch true, .dispatch true,
          .poll 0, .poll 0, .poll 0, .dispatch true, .poll 0, .poll 0,
          .poll 0, .poll 0, .poll 0] = some s ∧
      s.host = .done ∧ s.generated = 2 ∧
      SourceRun.streamBatches s.stream = [0] ∧ ¬ s.LosesNothing :=
  Transition.exists_run_of_decide (by decide +kernel)

end PluginSource

end Streamling
