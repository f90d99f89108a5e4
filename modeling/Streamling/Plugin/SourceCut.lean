import Streamling.Support.Tokens
import Streamling.Plugin.SourceFlow

/-!
# The checkpoint cut of a plugin source

A plugin takes its snapshot in the marker hook.  The dispatcher calls the
hook between two batches, but also in the retry callback of a batch that
waits for room, and then the marker overtakes that batch on the output
channel.  The cut survives if the batch reaches the host before the marker is
flushed on a synthetic batch, and if no batch was given up.
-/

namespace Streamling

namespace PluginSource

namespace SourceRun

/-! ## Every epoch has one hook call -/

/-- The epochs of markers among messages to the plugin. -/
def controlEpochs (messages : List ControlMsg) : List CheckpointEpoch :=
  messages.filterMap ControlMsg.markerEpoch?

@[simp] theorem controlEpochs_nil : controlEpochs [] = [] := rfl

@[simp] theorem controlEpochs_cons
    (m : ControlMsg) (ms : List ControlMsg) :
    controlEpochs (m :: ms) = m.markerEpoch?.toList ++ controlEpochs ms := by
  cases m <;> rfl

@[simp] theorem controlEpochs_append (xs ys : List ControlMsg) :
    controlEpochs (xs ++ ys) = controlEpochs xs ++ controlEpochs ys :=
  List.filterMap_append

theorem controlEpochs_controls (messages : List CheckpointMessage) :
    controlEpochs (controls messages) = markerEpochs messages := by
  induction messages with
  | nil => rfl
  | cons m ms ih =>
      cases m <;>
        simp [controlOf?, ControlMsg.markerEpoch?, ih, markerEpochs_cons,
          CheckpointMessage.markerEpoch?]

/-- The marker epochs on their way to the plugin, those whose hook was called
and those the host read after its loop. -/
def epochs (s : SourceRun) : List CheckpointEpoch :=
  markerEpochs s.subscription ++ controlEpochs s.host.toPlugin ++
    controlEpochs s.input ++ s.hooks.map HookCall.epoch ++
    markerEpochs s.drained

/-- No step of the dispatcher makes a second copy of an epoch. -/
theorem count_epochs_dispatched
    {s s' : SourceRun} (h : Dispatched s s') (epoch : CheckpointEpoch) :
    s'.epochs.count epoch ≤ s.epochs.count epoch := by
  cases h with
  | callsHook waiting message rest succeeds hs hinput =>
      cases message <;>
        simp [epochs, callHook, hinput, ControlMsg.markerEpoch?,
          List.count_cons]
      omega
  | discards unsentReport hs =>
      cases hinput : s.input <;> simp [epochs, hinput]
  | _ => exact le_rfl

theorem count_epochs_polled
    {s s' : SourceRun} (h : Polled s s') (epoch : CheckpointEpoch) :
    s'.epochs.count epoch ≤ s.epochs.count epoch := by
  cases h with
  | moves h hs hhand hplugin => simp [epochs, hplugin]
  | receives dispatcherExited message rest nowMs hs =>
      cases message with
      | nextBatch | terminate | error =>
          simp [epochs, receiveOutput, attachBuffer, hs, Host.toPlugin]
      | control message =>
          cases message <;>
            simp [epochs, receiveOutput, bufferControl, hs, Host.toPlugin]
  | flushesIdle hs => simp [epochs, attachBuffer, hs, Host.toPlugin]
  | flushesFinally hs => simp [epochs, attachBuffer, hs, Host.toPlugin]
  | emits batch final hs =>
      cases final <;> simp [epochs, hs, Host.toPlugin]
  | takes message rest createdAt hs hsubscription =>
      cases message <;>
        simp [epochs, hs, hsubscription, Host.toPlugin, controlOf?,
          markerEpochs_cons, CheckpointMessage.markerEpoch?,
          ControlMsg.markerEpoch?, List.count_cons]
      omega
  | delivers message hs =>
      simp [epochs, hs, Host.toPlugin]
      omega
  | drains message rest hs hsubscription =>
      cases message <;>
        simp [epochs, hsubscription, markerEpochs_cons,
          markerEpochs_append, CheckpointMessage.markerEpoch?,
          List.count_cons]
      omega

/-- Every marker that was broadcast is in one place at a time. -/
def Distinct (s : SourceRun) : Prop :=
  Tokens.Once s.broadcasts s.epochs

theorem distinct_start (capacities : Capacities) :
    Distinct (start capacities) :=
  Tokens.once_nil _

/-- An epoch whose hook was called is nowhere else. -/
theorem Distinct.not_mem_of_hook
    {s : SourceRun} (hs : Distinct s) {hook : HookCall}
    (hhook : hook ∈ s.hooks) :
    hook.epoch ∉ controlEpochs s.input ∧
      hook.epoch ∉ markerEpochs s.drained := by
  have hmem : hook.epoch ∈ s.hooks.map HookCall.epoch :=
    List.mem_map_of_mem hhook
  constructor
  · refine hs.not_mem_of_mem (fun _ => ?_) hmem
    simp only [epochs, List.count_append]
    omega
  · refine hs.not_mem_of_mem (fun _ => ?_) hmem
    simp only [epochs, List.count_append]
    omega

theorem distinct_step
    (s : SourceRun) (action : Action) (s' : SourceRun) (hs : Distinct s)
    (h : s.step action = some s') : Distinct s' := by
  cases action with
  | setRunning isRunning =>
      obtain rfl := Option.some.inj h
      exact hs
  | broadcast message =>
      obtain ⟨-, hfresh, rfl⟩ := eq_of_broadcast h
      refine hs.mint message.markerEpoch? hfresh ?_
      simp only [epochs, markerEpochs_append, markerEpochs_cons,
        markerEpochs_nil, List.append_nil, List.append_assoc]
      exact List.perm_append_comm_assoc _ _ _
  | dispatch outcome =>
      have hdispatched := dispatched_of_dispatch h
      have hbroadcasts : s'.broadcasts = s.broadcasts := by
        cases hdispatched <;> rfl
      rw [Distinct, hbroadcasts]
      exact hs.of_count_le (count_epochs_dispatched hdispatched)
  | poll nowMs =>
      have hpolled := polled_of_poll h
      have hbroadcasts : s'.broadcasts = s.broadcasts := by
        cases hpolled with
        | receives dispatcherExited message =>
            cases message with
            | nextBatch | terminate | error => rfl
            | control message => cases message <;> rfl
        | _ => rfl
      rw [Distinct, hbroadcasts]
      exact hs.of_count_le (count_epochs_polled hpolled)

/-! ## What lies before a marker on the output channel -/

/-- What the batches sent so far have to do with the hook calls. -/
structure Hooked (s : SourceRun) : Prop where
  /-- A marker is sent after its hook was called. -/
  called : ∀ epoch,
    .checkpointMarker epoch ∈
        controlsOf s.sent ++ s.dispatcher.forwarded?.toList →
      epoch ∈ s.hooks.map HookCall.epoch
  waitingBelow : ∀ hook ∈ s.hooks, ∀ n ∈ hook.waiting, n < hook.generated
  /-- The hook of the marker about to be sent was called with the batch the
  dispatcher still holds. -/
  forwarding : ∀ hook ∈ s.hooks,
    s.dispatcher.forwarded? = some (.checkpointMarker hook.epoch) →
      hook.waiting = s.dispatcher.held? ∧
        ∀ n < hook.generated,
          n ∈ batchesOf s.sent ∨ n ∈ s.dropped ∨ hook.waiting = some n
  /-- Only the batch in whose retry callback a hook was called can be sent
  after the marker although it was generated before the hook. -/
  covered : ∀ hook ∈ s.hooks, ∀ front rest,
    s.sent = front ++ .control (.checkpointMarker hook.epoch) :: rest →
      ∀ n < hook.generated,
        n ∈ batchesOf front ∨ n ∈ s.dropped ∨ hook.waiting = some n
  /-- That batch is the first one sent after the marker. -/
  next : ∀ hook ∈ s.hooks, ∀ front rest,
    s.sent = front ++ .control (.checkpointMarker hook.epoch) :: rest →
      ∀ n ∈ hook.waiting, n ∈ s.dropped ∨
        (batchesOf rest ++ s.dispatcher.held?.toList).head? = some n

theorem hooked_start (capacities : Capacities) :
    Hooked (start capacities) where
  called := by simp [start, Dispatcher.forwarded?]
  waitingBelow := by simp [start]
  forwarding := by simp [start]
  covered := by simp [start]
  next := by simp [start]

/-- Steps that send nothing, call no marker hook and give up no batch. -/
theorem Hooked.of_eq
    {s s' : SourceRun} (hs : Hooked s) (hsent : s'.sent = s.sent)
    (hhooks : s'.hooks = s.hooks) (hdropped : s'.dropped = s.dropped)
    (hforwarded : s'.dispatcher = s.dispatcher ∨
      ∀ epoch, s'.dispatcher.forwarded? ≠ some (.checkpointMarker epoch))
    (hheld : s.dispatcher.held?.toList <+: s'.dispatcher.held?.toList) :
    Hooked s' where
  called := by
    intro epoch hmem
    rw [hhooks]
    refine hs.called epoch ?_
    rw [hsent] at hmem
    rcases hforwarded with hsame | hnone
    · rwa [hsame] at hmem
    · refine List.mem_append_left _
        ((List.mem_append.mp hmem).resolve_right fun hfwd => ?_)
      exact hnone epoch (Option.mem_toList.mp hfwd)
  waitingBelow := by
    rw [hhooks]
    exact hs.waitingBelow
  forwarding := by
    intro hook hhook hfwd
    rcases hforwarded with hsame | hnone
    · rw [hsame] at hfwd ⊢
      rw [hsent, hdropped]
      exact hs.forwarding hook (hhooks ▸ hhook) hfwd
    · exact absurd hfwd (hnone _)
  covered := by
    rw [hhooks, hsent, hdropped]
    exact hs.covered
  next := by
    rw [hhooks, hsent, hdropped]
    intro hook hhook front rest hsplit n hn
    refine (hs.next hook hhook front rest hsplit n hn).imp_right ?_
    intro hhead
    obtain ⟨more, hmore⟩ := hheld
    rw [← hmore, ← List.append_assoc, List.head?_append, hhead]
    rfl

/-- Steps that send a message out of the dispatcher's hands. -/
theorem Hooked.send
    {s s' : SourceRun} (hs : Hooked s) {message : OutputMsg}
    (hsent : s'.sent = s.sent ++ [message]) (hhooks : s'.hooks = s.hooks)
    (hdropped : s'.dropped = s.dropped)
    (hforwarded : s'.dispatcher.forwarded? = none)
    (hcontrol : ∀ control ∈ message.control?,
      s.dispatcher.forwarded? = some control)
    (hheld : message.batch?.toList ++ s'.dispatcher.held?.toList =
      s.dispatcher.held?.toList) :
    Hooked s' where
  called := by
    intro epoch hmem
    rw [hhooks]
    refine hs.called epoch ?_
    rw [hsent, hforwarded] at hmem
    simp only [controlsOf_append, controlsOf_cons, controlsOf_nil,
      List.append_nil, Option.toList_none] at hmem
    rcases List.mem_append.mp hmem with hmem | hmem
    · exact List.mem_append_left _ hmem
    · refine List.mem_append_right _ ?_
      rw [hcontrol _ (Option.mem_toList.mp hmem)]
      exact List.mem_singleton.mpr rfl
  waitingBelow := by
    rw [hhooks]
    exact hs.waitingBelow
  forwarding := by
    intro hook hhook hfwd
    rw [hforwarded] at hfwd
    exact absurd hfwd (by simp)
  covered := by
    rw [hhooks, hsent, hdropped]
    intro hook hhook front rest hsplit
    rcases append_singleton_eq_append_cons hsplit with
      ⟨rfl, hmessage, -⟩ | ⟨rest', -, hbefore⟩
    · have hfwd := hcontrol (.checkpointMarker hook.epoch)
        (by simp [hmessage, OutputMsg.control?])
      exact (hs.forwarding hook hhook hfwd).2
    · exact hs.covered hook hhook front rest' hbefore
  next := by
    rw [hhooks, hsent, hdropped]
    intro hook hhook front rest hsplit n hn
    rcases append_singleton_eq_append_cons hsplit with
      ⟨-, rfl, rfl⟩ | ⟨rest', rfl, hbefore⟩
    · have hfwd := hcontrol (.checkpointMarker hook.epoch)
        (by simp [OutputMsg.control?])
      right
      have hwaiting := (hs.forwarding hook hhook hfwd).1
      simp only [OutputMsg.batch?, Option.toList_none,
        List.nil_append] at hheld
      simp [hheld, ← hwaiting, Option.mem_def.mp hn]
    · refine (hs.next hook hhook front rest' hbefore n hn).imp_right ?_
      intro hhead
      simpa [← hheld] using hhead

/-- The hook call of a marker whose epoch no earlier call had. -/
theorem Hooked.call
    {s s' : SourceRun} (hs : Hooked s) (haccounted : Accounted s)
    {epoch : CheckpointEpoch} (hnew : ∀ hook ∈ s.hooks, hook.epoch ≠ epoch)
    (hsent : s'.sent = s.sent) (hdropped : s'.dropped = s.dropped)
    (hhooks : s'.hooks =
      s.hooks ++ [⟨epoch, s.generated, s.dispatcher.held?⟩])
    (hmessage : ∀ control ∈ s'.dispatcher.forwarded?,
      control = .checkpointMarker epoch)
    (hheld : s'.dispatcher.held? = s.dispatcher.held?) : Hooked s' := by
  have hunsent : .checkpointMarker epoch ∉ controlsOf s.sent := by
    intro hmem
    obtain ⟨hook, hhook, hepoch⟩ := List.mem_map.mp
      (hs.called epoch (List.mem_append_left _ hmem))
    exact hnew hook hhook hepoch
  have hbatches (n : ℕ) (hn : n < s.generated) :
      n ∈ batchesOf s.sent ∨ n ∈ s.dropped ∨
        s.dispatcher.held? = some n := by
    have hmem := haccounted.everyBatch.symm.subset (List.mem_range.mpr hn)
    simpa [or_assoc] using hmem
  refine ⟨?_, ?_, ?_, ?_, ?_⟩
  · intro e hmem
    rw [hsent] at hmem
    rw [hhooks, List.map_append]
    rcases List.mem_append.mp hmem with hmem | hmem
    · exact List.mem_append_left _
        (hs.called e (List.mem_append_left _ hmem))
    · have := hmessage _ (Option.mem_toList.mp hmem)
      simp_all
  · rw [hhooks]
    intro hook hhook n hn
    rcases List.mem_append.mp hhook with hhook | hhook
    · exact hs.waitingBelow hook hhook n hn
    · obtain rfl := List.mem_singleton.mp hhook
      have hmem := haccounted.everyBatch.subset
        (List.mem_append_right _ (Option.mem_toList.mpr hn))
      exact List.mem_range.mp hmem
  · rw [hhooks, hsent, hdropped]
    intro hook hhook hfwd
    have hepoch : hook.epoch = epoch :=
      ControlMsg.checkpointMarker.inj (hmessage _ hfwd)
    rcases List.mem_append.mp hhook with hhook | hhook
    · exact absurd hepoch (hnew hook hhook)
    · obtain rfl := List.mem_singleton.mp hhook
      exact ⟨hheld.symm, hbatches⟩
  · rw [hhooks, hsent, hdropped]
    intro hook hhook front rest hsplit
    rcases List.mem_append.mp hhook with hhook | hhook
    · exact hs.covered hook hhook front rest hsplit
    · obtain rfl := List.mem_singleton.mp hhook
      exact absurd (by simp [hsplit, OutputMsg.control?]) hunsent
  · rw [hhooks, hsent, hdropped, hheld]
    intro hook hhook front rest hsplit
    rcases List.mem_append.mp hhook with hhook | hhook
    · exact hs.next hook hhook front rest hsplit
    · obtain rfl := List.mem_singleton.mp hhook
      exact absurd (by simp [hsplit, OutputMsg.control?]) hunsent

/-- A retry callback gives up the batch in the dispatcher's hands. -/
theorem Hooked.drop
    {s s' : SourceRun} (hs : Hooked s) {n : ℕ}
    (hheld : s.dispatcher.held? = some n)
    (hsent : s'.sent = s.sent) (hhooks : s'.hooks = s.hooks)
    (hdropped : s'.dropped = s.dropped ++ [n])
    (hforwarded : s'.dispatcher.forwarded? = none)
    (hheld' : s'.dispatcher.held? = none) : Hooked s' where
  called := by
    intro epoch hmem
    rw [hsent, hforwarded] at hmem
    rw [hhooks]
    exact hs.called epoch (List.mem_append_left _ (by simpa using hmem))
  waitingBelow := by
    rw [hhooks]
    exact hs.waitingBelow
  forwarding := by simp [hforwarded]
  covered := by
    rw [hhooks, hsent, hdropped]
    intro hook hhook front rest hsplit m hm
    rcases hs.covered hook hhook front rest hsplit m hm with h | h | h
    · exact .inl h
    · exact .inr (.inl (List.mem_append_left _ h))
    · exact .inr (.inr h)
  next := by
    rw [hhooks, hsent, hdropped, hheld']
    intro hook hhook front rest hsplit m hm
    rcases hs.next hook hhook front rest hsplit m hm with h | h
    · exact .inl (List.mem_append_left _ h)
    · rw [hheld] at h
      cases hrest : batchesOf rest with
      | nil =>
          left
          simp_all
      | cons first more =>
          right
          simpa [hrest] using h

theorem Hooked.dispatched
    {s s' : SourceRun} (hs : Hooked s) (haccounted : Accounted s)
    (hdistinct : Distinct s) (h : Dispatched s s') : Hooked s' := by
  cases h with
  | moves d hheld hforwarded =>
      exact hs.of_eq rfl rfl rfl (.inr (by simp [hforwarded]))
        (by simp [hheld])
  | generates hd =>
      exact hs.of_eq rfl rfl rfl (.inr (by simp [Dispatcher.forwarded?]))
        (by simp [hd, Dispatcher.held?])
  | sendsBatch n hd =>
      exact hs.send rfl rfl rfl rfl (by simp [OutputMsg.control?])
        (by simp [hd, OutputMsg.batch?, Dispatcher.held?])
  | callsHook waiting message rest succeeds hd hinput =>
      have hheld : (callHook { s with input := rest } waiting message
          succeeds).dispatcher.held? = s.dispatcher.held? := by
        cases succeeds <;> cases waiting <;>
          simp [callHook, hd, Dispatcher.held?]
      cases message with
      | checkpointMarker epoch =>
          have hnew : ∀ hook ∈ s.hooks, hook.epoch ≠ epoch := by
            rintro hook hhook rfl
            exact (hdistinct.not_mem_of_hook hhook).1
              (by simp [hinput, ControlMsg.markerEpoch?])
          refine hs.call haccounted hnew rfl rfl ?_ ?_ hheld
          · simp [callHook, hd, Dispatcher.held?]
          · cases succeeds <;> cases waiting <;>
              simp [callHook, Dispatcher.forwarded?]
      | checkpointFinalizer epoch =>
          refine hs.of_eq rfl rfl rfl (.inr ?_) (by simp [hheld])
          cases succeeds <;> cases waiting <;>
            simp [callHook, Dispatcher.forwarded?]
  | forwards waiting message hd =>
      exact hs.send rfl rfl rfl rfl
        (by simp [hd, OutputMsg.control?, Dispatcher.forwarded?])
        (by simp [hd, OutputMsg.batch?, Dispatcher.held?])
  | drops n hd =>
      exact hs.drop (by simp [hd, Dispatcher.held?]) rfl rfl rfl rfl rfl
  | reports hd =>
      exact hs.send rfl rfl rfl rfl (by simp [OutputMsg.control?])
        (by simp [hd, OutputMsg.batch?, Dispatcher.held?])
  | discards unsentReport hd =>
      exact hs.of_eq rfl rfl rfl (.inl rfl) (List.prefix_refl _)
  | completes hd =>
      exact hs.send rfl rfl rfl rfl (by simp [OutputMsg.control?])
        (by simp [hd, OutputMsg.batch?, Dispatcher.held?])

theorem Hooked.polled
    {s s' : SourceRun} (hs : Hooked s) (h : Polled s s') : Hooked s' := by
  cases h with
  | receives dispatcherExited message rest nowMs =>
      cases message with
      | nextBatch | terminate | error =>
          exact hs.of_eq rfl rfl rfl (.inl rfl) (List.prefix_refl _)
      | control message =>
          cases message <;>
            exact hs.of_eq rfl rfl rfl (.inl rfl) (List.prefix_refl _)
  | _ => exact hs.of_eq rfl rfl rfl (.inl rfl) (List.prefix_refl _)

/-! ## The cut -/

/-- Every batch of the stream that carries a marker comes after, or is, the
last batch generated before the marker's hook. -/
def Cut (hooks : List HookCall) (stream : List (RecordBatch ℕ)) : Prop :=
  ∀ front batch rest, stream = front ++ batch :: rest →
    ∀ hook ∈ hooks, batch.carries hook.epoch = true →
      ∀ n < hook.generated, n ∈ streamBatches (front ++ [batch])

theorem cutHolds_iff (s : SourceRun) : s.CutHolds ↔ Cut s.hooks s.stream := by
  constructor
  · intro h front batch rest hstream hook hhook hcarries n hn
    have hmem := h front.length (by simp [hstream]) batch
      (by simp [hstream]) hook hhook hcarries n hn
    simpa [hstream, List.take_append, List.take_of_length_le] using hmem
  · intro h i hi batch hbatch hook hhook hcarries n hn
    obtain rfl : s.stream[i] = batch := by
      simpa [List.getElem?_eq_getElem hi] using hbatch
    have hstream : s.stream = s.stream.take i ++
        s.stream[i] :: s.stream.drop (i + 1) := by
      rw [← List.drop_eq_getElem_cons hi, List.take_append_drop]
    have hmem := h _ _ _ hstream hook hhook hcarries n hn
    rwa [List.take_append_getElem hi] at hmem

theorem cut_append_singleton
    {hooks : List HookCall} {stream : List (RecordBatch ℕ)}
    {batch : RecordBatch ℕ} :
    Cut hooks (stream ++ [batch]) ↔
      Cut hooks stream ∧
        ∀ hook ∈ hooks, batch.carries hook.epoch = true →
          ∀ n < hook.generated, n ∈ streamBatches (stream ++ [batch]) := by
  constructor
  · intro h
    refine ⟨?_, h stream batch [] rfl⟩
    rintro front b rest rfl
    exact h front b (rest ++ [batch]) (by simp)
  · rintro ⟨hstream, hbatch⟩ front b rest hsplit
    rcases append_singleton_eq_append_cons hsplit with
      ⟨rfl, rfl, -⟩ | ⟨rest', -, hbefore⟩
    · exact hbatch
    · exact hstream front b rest' hbefore

/-- The hook call of an epoch that the stream does not carry. -/
theorem cut_append_hook
    {hooks : List HookCall} {hook : HookCall}
    {stream : List (RecordBatch ℕ)}
    (hnew : ¬ RecordBatch.Carried hook.epoch stream) :
    Cut (hooks ++ [hook]) stream ↔ Cut hooks stream := by
  constructor
  · intro h front batch rest hstream other hother
    exact h front batch rest hstream other (List.mem_append_left _ hother)
  · intro h front batch rest hstream other hother hcarries
    rcases List.mem_append.mp hother with hother | hother
    · exact h front batch rest hstream other hother hcarries
    · obtain rfl := List.mem_singleton.mp hother
      exact absurd ⟨batch, by simp [hstream], hcarries⟩ hnew

/-- The host flushes no marker too early: whenever it puts its buffer on a
batch, no batch generated before the hook of a buffered marker was given up,
and if the output channel is empty the dispatcher does not hold the batch in
whose retry callback that hook was called. -/
def FlushesCovered (s : SourceRun) : Action → Prop
  | .poll _ => s.attaches = true →
      ∀ hook ∈ s.hooks, hook.epoch ∈ markerEpochs s.checkpointBuffer →
        (∀ n ∈ s.dropped, hook.generated ≤ n) ∧
          (s.output = [] →
            hook.waiting = none ∨ hook.waiting ≠ s.dispatcher.held?)
  | _ => True

instance (s : SourceRun) :
    (action : Action) → Decidable (s.FlushesCovered action)
  | .poll _ => inferInstanceAs (Decidable (_ → ∀ hook ∈ s.hooks, _))
  | .setRunning _ | .broadcast _ | .dispatch _ =>
      inferInstanceAs (Decidable True)

/-! ## Flushing a marker -/

/-- The invariants behind the cut. -/
structure Inv (s : SourceRun) : Prop where
  flow : Flow s
  distinct : Distinct s
  hooked : Hooked s

theorem inv_start (capacities : Capacities) : Inv (start capacities) :=
  ⟨flow_start capacities, distinct_start capacities,
    hooked_start capacities⟩

theorem inv_step
    (s : SourceRun) (action : Action) (s' : SourceRun) (hs : Inv s)
    (h : s.step action = some s') : Inv s' := by
  refine ⟨flow_step s action s' hs.flow h,
    distinct_step s action s' hs.distinct h, ?_⟩
  cases action with
  | setRunning isRunning =>
      obtain rfl := Option.some.inj h
      exact hs.hooked.of_eq rfl rfl rfl (.inl rfl) (List.prefix_refl _)
  | broadcast message =>
      obtain ⟨-, -, rfl⟩ := eq_of_broadcast h
      exact hs.hooked.of_eq rfl rfl rfl (.inl rfl) (List.prefix_refl _)
  | dispatch outcome =>
      exact hs.hooked.dispatched hs.flow.accounted hs.distinct
        (dispatched_of_dispatch h)
  | poll nowMs => exact hs.hooked.polled (polled_of_poll h)

/-- A marker in the stream, in the host's hands or in its buffer was received
from the plugin or read after the loop. -/
theorem Inv.mem_of_control
    {s : SourceRun} (hs : Inv s) {epoch : CheckpointEpoch}
    (hmem : .checkpointMarker epoch ∈
      streamControls (s.stream ++ s.host.inHand) ++
        controls s.checkpointBuffer) :
    .checkpointMarker epoch ∈ controlsOf s.received ∨
      epoch ∈ markerEpochs s.drained := by
  rw [hs.flow.delivered.messages] at hmem
  refine (List.mem_append.mp hmem).imp_right fun hmem => ?_
  rw [← controlEpochs_controls]
  exact List.mem_filterMap.mpr ⟨_, hmem, rfl⟩

theorem mem_controls_of_mem_markerEpochs
    {epoch : CheckpointEpoch} {messages : List CheckpointMessage}
    (h : epoch ∈ markerEpochs messages) :
    .checkpointMarker epoch ∈ controls messages := by
  obtain ⟨createdAtMs, hmem⟩ := mem_markerEpochs.mp h
  exact List.mem_filterMap.mpr ⟨_, hmem, rfl⟩

/-- What the host adds to the stream when it puts its buffer on a batch. -/
inductive Attached (s : SourceRun) : List ℕ → Prop where
  | batch (n : ℕ) (rest : List OutputMsg)
      (houtput : s.output = .nextBatch n :: rest) : Attached s [n]
  | synthetic (houtput : s.output = []) : Attached s []

/-- A batch in the stream was neither given up nor is it waiting. -/
theorem Inv.not_early_of_covered
    {s : SourceRun} (hs : Inv s) {hook : HookCall} (hhook : hook ∈ s.hooks)
    {rows : List ℕ} (hrows : Attached s rows)
    (hcovered : ∀ n < hook.generated, n ∈ batchesOf s.received ++ rows) :
    (∀ n ∈ s.dropped, hook.generated ≤ n) ∧
      (hook.waiting = none ∨ hook.waiting ≠ s.dispatcher.held?) := by
  have hsent (n : ℕ) (hn : n < hook.generated) : n ∈ batchesOf s.sent := by
    have hmem := hcovered n hn
    rw [hs.flow.queued.queue]
    cases hrows with
    | batch m rest houtput =>
        simp only [houtput, batchesOf_append, batchesOf_cons,
          OutputMsg.batch?, Option.toList_some, List.mem_append] at hmem ⊢
        tauto
    | synthetic houtput => simpa [houtput] using hmem
  have hnodup := hs.flow.accounted.everyBatch.symm.nodup List.nodup_range
  rw [List.nodup_append, List.nodup_append] at hnodup
  obtain ⟨⟨-, -, hdropped⟩, -, hheld⟩ := hnodup
  constructor
  · intro n hn
    by_contra hlt
    exact hdropped n (hsent n (Nat.lt_of_not_le hlt)) n hn rfl
  · cases hwaiting : hook.waiting with
    | none => exact .inl rfl
    | some n =>
        refine .inr fun heq => ?_
        have hn := hs.hooked.waitingBelow hook hhook n hwaiting
        exact hheld n (List.mem_append_left _ (hsent n hn)) n
          (by simp [← heq]) rfl

/-- The place on the output channel of a marker the host has buffered. -/
theorem Inv.sent_of_mem_buffer
    {s : SourceRun} (hs : Inv s) {hook : HookCall} (hhook : hook ∈ s.hooks)
    (hepoch : hook.epoch ∈ markerEpochs s.checkpointBuffer) :
    ∃ front mid,
      s.received = front ++ .control (.checkpointMarker hook.epoch) :: mid ∧
      s.sent = front ++
        .control (.checkpointMarker hook.epoch) :: (mid ++ s.output) := by
  have hreceived : .checkpointMarker hook.epoch ∈
      controlsOf s.received := by
    refine (hs.mem_of_control (List.mem_append_right _
      (mem_controls_of_mem_markerEpochs hepoch))).resolve_right ?_
    exact (hs.distinct.not_mem_of_hook hhook).2
  obtain ⟨message, hmessage, hcontrol⟩ := List.mem_filterMap.mp hreceived
  obtain rfl : message = .control (.checkpointMarker hook.epoch) := by
    cases message <;> simp_all [OutputMsg.control?]
  obtain ⟨front, mid, hsplit⟩ := List.append_of_mem hmessage
  exact ⟨front, mid, hsplit, by simp [hs.flow.queued.queue, hsplit]⟩

/-- A batch the hook covers reached the host before the marker, was given up,
or is the first one behind the marker. -/
theorem Inv.covered_of_not_early
    {s : SourceRun} (hs : Inv s) {hook : HookCall} (hhook : hook ∈ s.hooks)
    (hepoch : hook.epoch ∈ markerEpochs s.checkpointBuffer)
    {rows : List ℕ} (hrows : Attached s rows)
    (hdropped : ∀ n ∈ s.dropped, hook.generated ≤ n)
    (hwaiting : s.output = [] →
      hook.waiting = none ∨ hook.waiting ≠ s.dispatcher.held?)
    (n : ℕ) (hn : n < hook.generated) :
    n ∈ batchesOf s.received ++ rows := by
  obtain ⟨front, mid, hreceived, hsent⟩ :=
    hs.sent_of_mem_buffer hhook hepoch
  have hnotDropped : n ∉ s.dropped := fun hmem =>
    absurd (hdropped n hmem) (Nat.not_le_of_lt hn)
  rcases hs.hooked.covered hook hhook front _ hsent n hn with
    hfront | hdrop | hwait
  · simp [hreceived, hfront]
  · exact absurd hdrop hnotDropped
  · have hhead := (hs.hooked.next hook hhook front _ hsent n
      hwait).resolve_left hnotDropped
    cases hmid : batchesOf mid with
    | cons first more =>
        have : first = n := by simpa [hmid] using hhead
        simp [hreceived, hmid, this]
    | nil =>
        cases hrows with
        | batch m rest houtput =>
            have : m = n := by
              simpa [hmid, houtput, OutputMsg.batch?] using hhead
            simp [this]
        | synthetic houtput =>
            have hheld : s.dispatcher.held? = some n := by
              simpa [hmid, houtput, Option.head?_toList] using hhead
            rcases hwaiting houtput with hnone | hne
            · simp [hnone] at hwait
            · exact absurd (hwait.trans hheld.symm) hne

/-- Putting the buffer on a batch keeps the cut exactly if the step flushes
no marker too early. -/
theorem Inv.attach_iff
    {s s' : SourceRun} (hs : Inv s) {nowMs : ℕ} {rows : List ℕ}
    {final : Bool} (hinHand : s.host.inHand = [])
    (hattaches : s.attaches = true) (hrows : Attached s rows)
    (hhooks : s'.hooks = s.hooks) (hstream : s'.stream = s.stream)
    (hhost : s'.host = .emitting ⟨rows, s.checkpointBuffer⟩ final) :
    Cut s'.hooks (s'.stream ++ s'.host.inHand) ↔
      Cut s.hooks (s.stream ++ s.host.inHand) ∧
        s.FlushesCovered (.poll nowMs) := by
  have hbatches : streamBatches s.stream = batchesOf s.received := by
    simpa [hinHand] using hs.flow.delivered.batches
  rw [hhooks, hstream, hhost, hinHand, List.append_nil]
  rw [show (Host.emitting ⟨rows, s.checkpointBuffer⟩ final).inHand =
    [⟨rows, s.checkpointBuffer⟩] from rfl, cut_append_singleton]
  refine and_congr_right fun _ => ?_
  simp only [FlushesCovered, hattaches, true_imp_iff, RecordBatch.carries,
    decide_eq_true_eq, streamBatches_append, streamBatches_singleton,
    hbatches]
  refine forall_congr' fun hook => forall_congr' fun hhook =>
    forall_congr' fun hepoch => ?_
  constructor
  · intro hcovered
    have hearly := hs.not_early_of_covered hhook hrows hcovered
    exact ⟨hearly.1, fun _ => hearly.2⟩
  · rintro ⟨hdropped, hwaiting⟩
    exact hs.covered_of_not_early hhook hepoch hrows hdropped hwaiting

/-- What the host has emitted or has in its hands respects the cut. -/
def Sound (s : SourceRun) : Prop :=
  Cut s.hooks (s.stream ++ s.host.inHand)

/-- Steps of the host that put no marker on a batch. -/
theorem sound_iff_of_eq
    {s s' : SourceRun} {nowMs : ℕ} (hhooks : s'.hooks = s.hooks)
    (hstream : s'.stream ++ s'.host.inHand = s.stream ++ s.host.inHand)
    (hattaches : s.attaches = false ∨ s.checkpointBuffer = []) :
    Sound s' ↔ Sound s ∧ s.FlushesCovered (.poll nowMs) := by
  have hcovered : s.FlushesCovered (.poll nowMs) := by
    rcases hattaches with hattaches | hbuffer
    · simp [FlushesCovered, hattaches]
    · simp [FlushesCovered, hbuffer]
  simp [Sound, hhooks, hstream, hcovered]

theorem Inv.sound_dispatched_iff
    {s s' : SourceRun} (hs : Inv s) (h : Dispatched s s') :
    Sound s' ↔ Sound s := by
  cases h with
  | callsHook waiting message rest succeeds hd hinput =>
      cases message with
      | checkpointMarker epoch =>
          refine cut_append_hook ?_
          rintro ⟨batch, hbatch, hcarries⟩
          have hepoch : epoch ∈ markerEpochs batch.messages := by
            simpa [RecordBatch.carries] using hcarries
          have hmem : .checkpointMarker epoch ∈
              streamControls (s.stream ++ s.host.inHand) :=
            List.mem_flatMap.mpr
              ⟨batch, hbatch, mem_controls_of_mem_markerEpochs hepoch⟩
          -- the epoch is still on the input channel, so it was not received
          have hcount := hs.distinct.count_le_one epoch
          simp only [epochs, hinput, controlEpochs_cons,
            ControlMsg.markerEpoch?, Option.toList_some, List.count_append,
            List.count_singleton_self] at hcount
          rcases hs.mem_of_control (List.mem_append_left _ hmem) with
            hreceived | hdrained
          · have hsent : .checkpointMarker epoch ∈ controlsOf s.sent := by
              rw [hs.flow.queued.queue, controlsOf_append]
              exact List.mem_append_left _ hreceived
            have hpos := List.count_pos_iff.mpr
              (hs.hooked.called epoch (List.mem_append_left _ hsent))
            omega
          · have hpos := List.count_pos_iff.mpr hdrained
            omega
      | checkpointFinalizer epoch => exact Iff.rfl
  | _ => exact Iff.rfl

theorem Inv.sound_polled_iff
    {s s' : SourceRun} (hs : Inv s) {nowMs : ℕ} (h : Polled s s') :
    Sound s' ↔ Sound s ∧ s.FlushesCovered (.poll nowMs) := by
  cases h with
  | moves h hhand hhand' hplugin hleft hflushed hstays hattaches =>
      exact sound_iff_of_eq rfl (by simp [hhand, hhand']) hattaches
  | receives dispatcherExited message rest now hhost houtput =>
      cases message with
      | nextBatch n =>
          exact hs.attach_iff (by simp [hhost, Host.inHand])
            (by simp [attaches, hhost, houtput, OutputMsg.batch?])
            (.batch n rest houtput) rfl rfl rfl
      | control message =>
          cases message <;>
            exact sound_iff_of_eq rfl
              (by simp [receiveOutput, bufferControl, hhost, Host.inHand])
              (.inl (by simp [attaches, hhost, houtput, OutputMsg.batch?]))
      | terminate | error =>
          exact sound_iff_of_eq rfl
            (by simp [receiveOutput, hhost, Host.inHand])
            (.inl (by simp [attaches, hhost, houtput, OutputMsg.batch?]))
  | flushesIdle hhost houtput =>
      exact hs.attach_iff (by simp [hhost, Host.inHand])
        (by simp [attaches, hhost, houtput]) (.synthetic houtput)
        rfl rfl rfl
  | flushesFinally hhost hsubscription =>
      have houtput :=
        (hs.flow.queued.ended (by simp [hhost, Host.leftLoop])).1
      exact hs.attach_iff (by simp [hhost, Host.inHand])
        (by simp [attaches, hhost, hsubscription]) (.synthetic houtput)
        rfl rfl rfl
  | emits batch final hhost =>
      refine sound_iff_of_eq rfl ?_ (.inl (by simp [attaches, hhost]))
      cases final <;> simp [hhost, Host.inHand]
  | takes message rest createdAt hhost =>
      refine sound_iff_of_eq rfl ?_ (.inl (by simp [attaches, hhost]))
      cases controlOf? message <;> simp [hhost, Host.inHand]
  | delivers message hhost =>
      exact sound_iff_of_eq rfl (by simp [hhost, Host.inHand])
        (.inl (by simp [attaches, hhost]))
  | drains message rest hhost hsubscription =>
      exact sound_iff_of_eq rfl rfl
        (.inl (by simp [attaches, hhost, hsubscription]))

theorem sound_step_iff
    (s : SourceRun) (action : Action) (s' : SourceRun) (hs : Inv s)
    (h : s.step action = some s') :
    Sound s' ↔ Sound s ∧ s.FlushesCovered action := by
  cases action with
  | setRunning isRunning =>
      obtain rfl := Option.some.inj h
      exact ⟨fun hsound => ⟨hsound, trivial⟩, And.left⟩
  | broadcast message =>
      obtain ⟨-, -, rfl⟩ := eq_of_broadcast h
      exact ⟨fun hsound => ⟨hsound, trivial⟩, And.left⟩
  | dispatch outcome =>
      exact (hs.sound_dispatched_iff (dispatched_of_dispatch h)).trans
        ⟨fun hsound => ⟨hsound, trivial⟩, And.left⟩
  | poll nowMs => exact hs.sound_polled_iff (polled_of_poll h)

theorem Sound.cutHolds {s : SourceRun} (hs : Sound s) : s.CutHolds := by
  rw [cutHolds_iff]
  rintro front batch rest hstream
  exact hs front batch (rest ++ s.host.inHand) (by simp [hstream])

end SourceRun

/-- When a marker leaves the stream, every batch generated before its hook
was called has left it, provided the host never flushes a marker while a
batch that its hook covers was given up or still waits in the retry callback
that called the hook; and unless the host has a batch in its hands this is
the only case in which it has. -/
theorem plugin_source_cut_of_covered_flushes
    (capacities : Capacities) (actions : List SourceRun.Action)
    (s : SourceRun)
    (hrun : Transition.run SourceRun.step (SourceRun.start capacities)
      actions = some s) :
    (Transition.AllSteps SourceRun.step SourceRun.FlushesCovered
        (SourceRun.start capacities) actions → s.CutHolds) ∧
      (s.host.inHand = [] → s.CutHolds →
        Transition.AllSteps SourceRun.step SourceRun.FlushesCovered
          (SourceRun.start capacities) actions) := by
  have hsound : SourceRun.Sound s ↔ _ :=
    Transition.allSteps_iff_of_run SourceRun.inv_step
      SourceRun.sound_step_iff (SourceRun.inv_start capacities)
      (by simp [SourceRun.Sound, SourceRun.Cut, SourceRun.start]) hrun
  refine ⟨fun h => (hsound.mpr h).cutHolds, fun hinHand h => ?_⟩
  refine hsound.mp ?_
  rw [SourceRun.cutHolds_iff] at h
  simpa [SourceRun.Sound, hinHand] using h

/-- The hook of the marker is called while the second batch waits for room;
the batch is sent before the host looks again, and the marker rides it. -/
theorem plugin_source_cut_of_covered_flushes_one_marker :
    ∃ s, Transition.run SourceRun.step
        (SourceRun.start ⟨1, 1, by decide, by decide⟩)
        [.poll 0, .poll 0, .dispatch true, .dispatch true, .dispatch true,
          .dispatch true, .dispatch true, .dispatch true,
          .broadcast (.marker 1 7), .poll 0, .poll 0, .dispatch true,
          .dispatch true, .poll 0, .poll 0, .poll 0, .dispatch true,
          .dispatch true, .poll 0, .poll 0, .poll 0, .dispatch true,
          .dispatch true, .poll 0, .poll 0, .poll 0, .poll 0] = some s ∧
      RecordBatch.Carried 1 s.stream ∧ s.CutHolds := by
  refine Exists.imp
    (fun s (h : _ ∧ RecordBatch.Carried 1 s.stream) => ⟨h.1, h.2,
      (plugin_source_cut_of_covered_flushes _ _ s h.1).1 ?_⟩)
    (Transition.exists_run_of_decide ?_)
  · decide +kernel
  · decide +kernel

/-- The second batch waits for room while the hook of the marker is called.
The host empties the output channel, finds it idle and flushes the marker on
a synthetic batch before the second batch arrives. -/
theorem plugin_source_marker_overtakes_waiting_batch :
    ∃ s, Transition.run SourceRun.step
        (SourceRun.start ⟨1, 1, by decide, by decide⟩)
        [.poll 0, .poll 0, .dispatch true, .dispatch true, .dispatch true,
          .dispatch true, .dispatch true, .dispatch true,
          .broadcast (.marker 1 7), .poll 0, .poll 0, .dispatch true,
          .dispatch true, .poll 0, .poll 0, .poll 0, .dispatch true, .poll 0,
          .poll 0, .poll 0, .poll 0, .poll 0, .poll 0, .poll 0] = some s ∧
      s.hooks = [⟨1, 2, some 1⟩] ∧
      s.stream = [⟨[0], []⟩, ⟨[], [.marker 1 7]⟩] ∧ ¬ s.CutHolds :=
  Transition.exists_run_of_decide (by decide +kernel)

end PluginSource

end Streamling
