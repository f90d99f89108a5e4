import Streamling.Checkpoints.CoordinatorSteps

/-!
# The terminal epoch is stable

Once a terminal checkpoint has begun, its epoch is the last one.  The flag is
set before the lock is taken, and the producer looks at it again under the lock
before it clears the map and inserts, so no timer epoch can follow; a sweep
spares the terminal epoch it has read, and one that read too early finds the
new epoch too young.  Epochs only ever move forward, and an open one leaves the
map by its own timeout alone.
-/

namespace Streamling

/-! ## Epochs move forward -/

/-- When an epoch that is not finalized was created. -/
def EpochState.createdAt? : EpochState → Option ℕ
  | .started createdAt => some createdAt
  | .inProgress _ createdAt => some createdAt
  | .finalized => none

/-- The second state is the first one or comes after it on the way from
`started` over `inProgress` to `finalized`. -/
inductive EpochState.Advances : EpochState → EpochState → Prop
  | same (state : EpochState) : Advances state state
  | acked (ackedSinks : Finset String) (createdAt : ℕ) :
      Advances (.started createdAt) (.inProgress ackedSinks createdAt)
  | more {ackedSinks more : Finset String} (h : ackedSinks ⊆ more)
      (createdAt : ℕ) :
      Advances (.inProgress ackedSinks createdAt)
        (.inProgress more createdAt)
  | done (state : EpochState) : Advances state .finalized

theorem EpochState.Advances.trans
    {a b c : EpochState} (hab : a.Advances b) (hbc : b.Advances c) :
    a.Advances c := by
  cases hab with
  | same => exact hbc
  | acked ackedSinks createdAt =>
      cases hbc with
      | same => exact .acked ackedSinks createdAt
      | more h => exact .acked _ createdAt
      | done => exact .done _
  | more h createdAt =>
      cases hbc with
      | same => exact .more h createdAt
      | more h' => exact .more (h.trans h') createdAt
      | done => exact .done _
  | done state =>
      cases hbc with
      | same => exact .done a
      | done => exact .done a

theorem EpochState.Advances.createdAt
    {a b : EpochState} (h : a.Advances b) {createdAt : ℕ}
    (hb : b.createdAt? = some createdAt) : a.createdAt? = some createdAt := by
  cases h with
  | same => exact hb
  | acked ackedSinks c => exact hb
  | more hsub c => exact hb
  | done => simp [createdAt?] at hb

theorem EpochState.Advances.of_finalized
    {b : EpochState} (h : EpochState.finalized.Advances b) :
    b = .finalized := by
  cases h with
  | same => rfl
  | done => rfl

theorem recordAck_advances
    {epochs : EpochMap} (epoch : CheckpointEpoch) (sinkId : String)
    (expected : Finset String) {e : CheckpointEpoch} {state : EpochState}
    (hfind : epochs.find? e = some state) :
    ∃ state', (recordAck epochs epoch sinkId expected).1.find? e =
      some state' ∧ state.Advances state' := by
  by_cases he : e = epoch
  · subst he
    cases state with
    | finalized =>
        exact ⟨.finalized, by simp [recordAck, hfind], .same _⟩
    | started createdAt =>
        by_cases hsub : expected ⊆ {sinkId}
        · exact ⟨.finalized, by simp [recordAck, hfind, hsub], .done _⟩
        · exact ⟨.inProgress {sinkId} createdAt,
            by simp [recordAck, hfind, hsub], .acked _ _⟩
    | inProgress acked createdAt =>
        by_cases hsub : expected ⊆ insert sinkId acked
        · exact ⟨.finalized, by simp [recordAck, hfind, hsub], .done _⟩
        · exact ⟨.inProgress (insert sinkId acked) createdAt,
            by simp [recordAck, hfind, hsub],
            .more (Finset.subset_insert _ _) _⟩
  · refine ⟨state, ?_, .same _⟩
    rcases recordAck_cases epochs epoch sinkId expected with
      hrecord | ⟨before, -, -, ⟨createdAt, hrecord⟩ | ⟨-, hrecord⟩⟩
    · rw [hrecord]
      exact hfind
    · rw [hrecord, OrderedMap.find?_insert_of_ne _ _ he]
      exact hfind
    · rw [hrecord, OrderedMap.find?_insert_of_ne _ _ he]
      exact hfind

/-- Recording an acknowledgement adds no epoch to the map. -/
theorem find?_of_recordAck
    {epochs : EpochMap} {epoch : CheckpointEpoch} {sinkId : String}
    {expected : Finset String} {e : CheckpointEpoch} {state' : EpochState}
    (hfind : (recordAck epochs epoch sinkId expected).1.find? e =
      some state') :
    ∃ state, epochs.find? e = some state ∧ state.Advances state' := by
  cases hbefore : epochs.find? e with
  | some state =>
      obtain ⟨next, hnext, hadv⟩ :=
        recordAck_advances epoch sinkId expected hbefore
      obtain rfl := Option.some.inj (hnext.symm.trans hfind)
      exact ⟨state, rfl, hadv⟩
  | none =>
      rcases recordAck_cases epochs epoch sinkId expected with
        hrecord | ⟨before, hold, -, ⟨createdAt, hrecord⟩ | ⟨-, hrecord⟩⟩
      · rw [hrecord, hbefore] at hfind
        simp at hfind
      all_goals
        have he : e ≠ epoch := by
          rintro rfl
          simp [hbefore] at hold
        rw [hrecord, OrderedMap.find?_insert_of_ne _ _ he, hbefore] at hfind
        simp at hfind

namespace Coordination

variable {s s' : Coordination} {sec : Section}

/-- The epoch is older than the timeout. -/
def Expired (s : Coordination) (state : EpochState) : Prop :=
  ∃ createdAt, state.createdAt? = some createdAt ∧
    s.timeout < s.now - createdAt

theorem mem_timedOutEpochsToRemove
    {epochs : EpochMap} {timeout now : ℕ}
    {terminal : Option CheckpointEpoch} {e : CheckpointEpoch} :
    e ∈ timedOutEpochsToRemove epochs timeout now terminal ↔
      ∃ state, epochs.find? e = some state ∧
        timedOut timeout now terminal e state = true := by
  simp only [timedOutEpochsToRemove, List.mem_map, List.mem_filter,
    Prod.exists, OrderedMap.find?_eq_some_iff]
  constructor
  · rintro ⟨k, state, h, rfl⟩
    exact ⟨state, h⟩
  · rintro ⟨state, h⟩
    exact ⟨e, state, h, rfl⟩

theorem expired_of_timedOut
    {terminal : Option CheckpointEpoch} {e : CheckpointEpoch}
    {state : EpochState}
    (h : timedOut s.timeout s.now terminal e state = true) :
    s.Expired state ∧ some e ≠ terminal := by
  cases state with
  | started createdAt =>
      simp only [timedOut, Bool.and_eq_true, decide_eq_true_eq] at h
      exact ⟨⟨createdAt, rfl, h.1⟩, h.2⟩
  | inProgress acked createdAt =>
      simp only [timedOut, Bool.and_eq_true, decide_eq_true_eq] at h
      exact ⟨⟨createdAt, rfl, h.1⟩, h.2⟩
  | finalized => simp [timedOut] at h

/-- What can become of an epoch in the map: it stays and advances, the
producer clears it, or a sweep finds it expired. -/
theorem Stepped.forward
    (hstep : Stepped s sec s') (hledger : s.Ledger) {e : CheckpointEpoch}
    {state : EpochState} (hfind : s.epochs.find? e = some state) :
    (∃ state', s'.epochs.find? e = some state' ∧ state.Advances state') ∨
      (s.terminalStarted = false ∧ ∃ createdAt,
        s.producer = .ready createdAt) ∨
      (sec = .removeTimedOut ∧
        ∃ terminal readAt, s.sweep = some (terminal, readAt) ∧
          some e ≠ terminal ∧ s.Expired state) := by
  have hsame : ∀ m : EpochMap, m = s.epochs →
      ∃ state', m.find? e = some state' ∧ state.Advances state' := by
    rintro m rfl
    exact ⟨state, hfind, .same state⟩
  cases hstep with
  | unchanged sec => exact .inl (hsame _ rfl)
  | elapse duration => exact .inl (hsame _ rfl)
  | accept epoch sinkId hsub => exact .inl (hsame _ rfl)
  | count epoch sinkId seen hsub subscriber counted =>
      exact .inl (recordAck_advances epoch sinkId s.expectedSinks hfind)
  | broadcastAcked epoch hsub => exact .inl (hsame _ rfl)
  | wake hproducer => exact .inl (hsame _ rfl)
  | check hproducer => exact .inl (hsame _ rfl)
  | halt createdAt hproducer hterminal => exact .inl (hsame _ rfl)
  | mint createdAt hproducer hterminal =>
      exact .inr (.inl ⟨hterminal, createdAt, hproducer⟩)
  | sendMarker epoch hproducer => exact .inl (hsame _ rfl)
  | removeSink caller sinkId hcall hsink => exact .inl (hsame _ rfl)
  | finalizeReady caller snapshot hcall =>
      left
      have hafter := find?_finalizeReadyEpochs s.epochs snapshot e
      rw [hfind, Option.map_some] at hafter
      refine ⟨_, hafter, ?_⟩
      split
      · exact .done state
      · exact .same state
  | broadcastReady caller epochs hcall next hnext finalizers =>
      exact .inl (hsame _ rfl)
  | startTerminal => exact .inl (hsame _ rfl)
  | joinTerminal existing hcalls hterminal => exact .inl (hsame _ rfl)
  | beginTerminal hcalls hterminal =>
      left
      refine ⟨state, ?_, .same state⟩
      have hlt := hledger.tracked_lt e state hfind
      rw [OrderedMap.find?_insert_of_ne _ _ (ne_of_lt hlt)]
      exact hfind
  | readTerminal hsweep => exact .inl (hsame _ rfl)
  | removeTimedOut terminal readAt hsweep =>
      by_cases hstale : e ∈ timedOutEpochsToRemove s.epochs s.timeout s.now
          terminal
      · right
        right
        obtain ⟨found, hfound, htimedOut⟩ :=
          mem_timedOutEpochsToRemove.mp hstale
        obtain rfl := Option.some.inj (hfind.symm.trans hfound)
        obtain ⟨hexpired, hother⟩ := expired_of_timedOut htimedOut
        exact ⟨rfl, terminal, readAt, hsweep, hother, hexpired⟩
      · left
        refine ⟨state, ?_, .same state⟩
        apply OrderedMap.find?_retain_eq_some_iff.mpr
        exact ⟨hfind, by simpa using hstale⟩

/-- Where an epoch in the map comes from: it was there, or it has just been
minted. -/
theorem Stepped.backward
    (hstep : Stepped s sec s') {e : CheckpointEpoch} {state' : EpochState}
    (hfind : s'.epochs.find? e = some state') :
    (∃ state, s.epochs.find? e = some state ∧ state.Advances state') ∨
      (e = s.nextEpoch ∧ s'.nextEpoch = s.nextEpoch + 1) := by
  have hsame (h : s.epochs.find? e = some state') :
      ∃ state, s.epochs.find? e = some state ∧ state.Advances state' :=
    ⟨state', h, .same state'⟩
  cases hstep with
  | unchanged sec => exact .inl (hsame hfind)
  | elapse duration => exact .inl (hsame hfind)
  | accept epoch sinkId hsub => exact .inl (hsame hfind)
  | count epoch sinkId seen hsub subscriber counted =>
      exact .inl (find?_of_recordAck hfind)
  | broadcastAcked epoch hsub => exact .inl (hsame hfind)
  | wake hproducer => exact .inl (hsame hfind)
  | check hproducer => exact .inl (hsame hfind)
  | halt createdAt hproducer hterminal => exact .inl (hsame hfind)
  | mint createdAt hproducer hterminal =>
      right
      simp only [OrderedMap.find?_insert, OrderedMap.find?_empty] at hfind
      split at hfind
      next he => exact ⟨he, rfl⟩
      · simp at hfind
  | sendMarker epoch hproducer => exact .inl (hsame hfind)
  | removeSink caller sinkId hcall hsink => exact .inl (hsame hfind)
  | finalizeReady caller snapshot hcall =>
      left
      simp only [find?_finalizeReadyEpochs, Option.map_eq_some_iff] at hfind
      obtain ⟨before, hbefore, rfl⟩ := hfind
      refine ⟨before, hbefore, ?_⟩
      split
      · exact .done before
      · exact .same before
  | broadcastReady caller epochs hcall next hnext finalizers =>
      exact .inl (hsame hfind)
  | startTerminal => exact .inl (hsame hfind)
  | joinTerminal existing hcalls hterminal => exact .inl (hsame hfind)
  | beginTerminal hcalls hterminal =>
      rw [OrderedMap.find?_insert] at hfind
      split at hfind
      next he => exact .inr ⟨he, rfl⟩
      · exact .inl (hsame hfind)
  | readTerminal hsweep => exact .inl (hsame hfind)
  | removeTimedOut terminal readAt hsweep =>
      exact .inl (hsame (OrderedMap.find?_retain_eq_some_iff.mp hfind).1)

/-! ## The terminal checkpoint -/

/-- A sweep that read the terminal epoch removes before the timeout has
passed. -/
def TimelySweep (s : Coordination) : Section → Prop
  | .removeTimedOut =>
      ∀ terminal readAt, s.sweep = some (terminal, readAt) →
        s.now - readAt < s.timeout
  | _ => True

instance (s : Coordination) (sec : Section) :
    Decidable (TimelySweep s sec) :=
  match sec with
  | .removeTimedOut =>
      match h : s.sweep with
      | none => isTrue (by simp [TimelySweep, h])
      | some (_, readAt) =>
          decidable_of_iff (s.now - readAt < s.timeout)
            (by simp [TimelySweep, h])
  | .elapse _ | .receiveAck _ _ | .countAck | .broadcastAcked
  | .wakeProducer | .checkLastEpoch | .mintEpoch | .sendMarker
  | .removeSink _ _ | .finalizeReady _ | .broadcastReady _
  | .startTerminal | .beginTerminal | .readTerminal => isTrue trivial

/-- The flag, the calls and the epoch of the terminal checkpoint. -/
structure Terminal (s : Coordination) : Prop where
  started : ∀ t, s.terminalEpoch = some t → s.terminalStarted = true
  called : s.terminalCalls ≠ 0 → s.terminalStarted = true
  returns : ∀ t ∈ s.terminalReturns, s.terminalEpoch = some t
  last : ∀ t, s.terminalEpoch = some t → s.nextEpoch = t + 1

/-- Before the terminal checkpoint the map holds at most one epoch, and none
that is open once the producer has decided to mint. -/
structure Alternating (s : Coordination) : Prop where
  single : s.terminalEpoch = none → ∀ e e' state state',
    s.epochs.find? e = some state → s.epochs.find? e' = some state' →
      e = e'
  ready : ∀ createdAt, s.producer = .ready createdAt →
    s.terminalStarted = true ∨
      ∀ e state, s.epochs.find? e = some state → state = .finalized

/-- The terminal epoch is in the map, and a sweep that is under way has read
it or is older than it. -/
structure Tracked (s : Coordination) : Prop where
  present : ∀ t, s.terminalEpoch = some t →
    ∃ state, s.epochs.find? t = some state
  readBefore : ∀ terminal readAt, s.sweep = some (terminal, readAt) →
    readAt ≤ s.now
  spared : ∀ terminal readAt, s.sweep = some (terminal, readAt) →
    terminal = s.terminalEpoch ∨
      ∀ t state createdAt, s.terminalEpoch = some t →
        s.epochs.find? t = some state →
        state.createdAt? = some createdAt → readAt ≤ createdAt

theorem terminal_start (timeout : ℕ) (sinks : List String) :
    (start timeout sinks).Terminal := by
  constructor <;> simp [start]

theorem alternating_start (timeout : ℕ) (sinks : List String) :
    (start timeout sinks).Alternating := by
  constructor <;> simp [start]

theorem tracked_start (timeout : ℕ) (sinks : List String) :
    (start timeout sinks).Tracked := by
  constructor <;> simp [start]

theorem Terminal.step (h : s.Terminal) (hstep : Stepped s sec s') :
    s'.Terminal := by
  cases hstep with
  | unchanged sec => exact h
  | elapse duration => exact { h with }
  | accept epoch sinkId hsub => exact { h with }
  | count epoch sinkId seen hsub subscriber counted => exact { h with }
  | broadcastAcked epoch hsub => exact { h with }
  | wake hproducer => exact { h with }
  | check hproducer => exact { h with }
  | halt createdAt hproducer hterminal => exact { h with }
  | mint createdAt hproducer hterminal =>
      refine { h with last := ?_ }
      intro t ht
      rw [h.started t ht] at hterminal
      simp at hterminal
  | sendMarker epoch hproducer => exact { h with }
  | removeSink caller sinkId hcall hsink => exact { h with }
  | finalizeReady caller snapshot hcall => exact { h with }
  | broadcastReady caller epochs hcall next hnext finalizers =>
      exact { h with }
  | startTerminal =>
      exact { h with
        started := fun _ _ => rfl
        called := fun _ => rfl }
  | joinTerminal existing hcalls hterminal =>
      refine { h with called := fun _ => h.called hcalls, returns := ?_ }
      intro t ht
      rcases List.mem_append.mp ht with ht | ht
      · exact h.returns t ht
      · rw [List.mem_singleton.mp ht]
        exact hterminal
  | beginTerminal hcalls hterminal =>
      refine ⟨fun _ _ => h.called hcalls, fun _ => h.called hcalls, ?_, ?_⟩
      · intro t ht
        rcases List.mem_append.mp ht with ht | ht
        · rw [h.returns t ht] at hterminal
          simp at hterminal
        · rw [List.mem_singleton.mp ht]
      · intro t ht
        rw [Option.some.inj ht]
  | readTerminal hsweep => exact { h with }
  | removeTimedOut terminal readAt hsweep => exact { h with }

/-- A finalized last epoch leaves nothing open in a map of one epoch. -/
theorem finalized_of_lastEpochFinalized
    {epochs : EpochMap} (hlast : lastEpochFinalized epochs = true)
    (hsingle : ∀ e e' state state', epochs.find? e = some state →
      epochs.find? e' = some state' → e = e')
    {e : CheckpointEpoch} {state : EpochState}
    (hfind : epochs.find? e = some state) : state = .finalized := by
  have hmem := OrderedMap.find?_eq_some_iff.mp hfind
  cases hentry : epochs.last? with
  | none =>
      rw [OrderedMap.last?, List.getLast?_eq_none_iff] at hentry
      rw [hentry] at hmem
      simp at hmem
  | some entry =>
      obtain ⟨k, found⟩ := entry
      have hfound : epochs.find? k = some found :=
        OrderedMap.find?_eq_some_iff.mpr (List.mem_of_getLast? hentry)
      obtain rfl := hsingle e k state found hfind hfound
      obtain rfl := Option.some.inj (hfind.symm.trans hfound)
      simpa [lastEpochFinalized, hentry] using hlast

/-- A section that leaves the producer and the terminal epoch alone. -/
theorem Alternating.keep
    (h : s.Alternating) (hstep : Stepped s sec s')
    (hepoch : s'.terminalEpoch = s.terminalEpoch)
    (hstarted : s.terminalStarted = true → s'.terminalStarted = true)
    (hnext : s'.nextEpoch = s.nextEpoch)
    (hready : ∀ createdAt, s'.producer = .ready createdAt →
      s.producer = .ready createdAt) : s'.Alternating := by
  have hbefore {e : CheckpointEpoch} {state' : EpochState}
      (hfind : s'.epochs.find? e = some state') :
      ∃ state, s.epochs.find? e = some state ∧ state.Advances state' := by
    rcases hstep.backward hfind with hold | ⟨-, hnew⟩
    · exact hold
    · exact absurd (hnext.symm.trans hnew) (Nat.succ_ne_self _).symm
  refine ⟨?_, ?_⟩
  · intro hnone e e' state state' hfind hfind'
    obtain ⟨before, hold, -⟩ := hbefore hfind
    obtain ⟨before', hold', -⟩ := hbefore hfind'
    exact h.single (hepoch ▸ hnone) e e' before before' hold hold'
  · intro createdAt hproducer
    rcases h.ready createdAt (hready createdAt hproducer) with
      hflag | hall
    · exact Or.inl (hstarted hflag)
    · right
      intro e state' hfind
      obtain ⟨before, hold, hadvances⟩ := hbefore hfind
      rw [hall e before hold] at hadvances
      exact hadvances.of_finalized

theorem Alternating.step
    (h : s.Alternating) (hterminal : s.Terminal) (hstep : Stepped s sec s') :
    s'.Alternating := by
  have hkeep := h.keep hstep
  cases hstep with
  | unchanged sec => exact h
  | elapse duration => exact { h with }
  | accept epoch sinkId hsub => exact { h with }
  | count epoch sinkId seen hsub subscriber counted =>
      exact hkeep rfl id rfl fun _ => id
  | broadcastAcked epoch hsub => exact { h with }
  | wake hproducer =>
      refine hkeep rfl id rfl ?_
      intro createdAt hready
      simp only at hready
      split at hready <;> simp at hready
  | check hproducer =>
      refine ⟨h.single, ?_⟩
      intro createdAt hready
      simp only at hready
      split at hready
      next hlast =>
        cases hepoch : s.terminalEpoch with
        | some t => exact Or.inl (hterminal.started t hepoch)
        | none =>
            right
            intro e state hfind
            exact finalized_of_lastEpochFinalized hlast (h.single hepoch)
              hfind
      · simp at hready
  | halt createdAt hproducer hflag =>
      exact hkeep rfl id rfl (by simp)
  | mint createdAt hproducer hflag =>
      refine ⟨?_, by simp⟩
      intro _ e e' state state' hfind hfind'
      simp only [OrderedMap.find?_insert, OrderedMap.find?_empty] at hfind
      simp only [OrderedMap.find?_insert, OrderedMap.find?_empty] at hfind'
      by_cases he : e = s.nextEpoch
      · by_cases he' : e' = s.nextEpoch
        · exact he.trans he'.symm
        · simp [he'] at hfind'
      · simp [he] at hfind
  | sendMarker epoch hproducer => exact hkeep rfl id rfl (by simp)
  | removeSink caller sinkId hcall hsink => exact { h with }
  | finalizeReady caller snapshot hcall =>
      exact hkeep rfl id rfl fun _ => id
  | broadcastReady caller epochs hcall next hnext finalizers =>
      exact { h with }
  | startTerminal => exact hkeep rfl (fun _ => rfl) rfl fun _ => id
  | joinTerminal existing hcalls hexisting => exact { h with }
  | beginTerminal hcalls hnone =>
      exact ⟨by simp, fun _ _ => Or.inl (hterminal.called hcalls)⟩
  | readTerminal hsweep => exact { h with }
  | removeTimedOut terminal readAt hsweep =>
      exact hkeep rfl id rfl fun _ => id

/-- The terminal epoch survives every timely sweep. -/
theorem Tracked.present_step
    (h : s.Tracked) (hterminal : s.Terminal) (hledger : s.Ledger)
    (htimely : TimelySweep s sec) (hstep : Stepped s sec s')
    {t : CheckpointEpoch} (ht : s.terminalEpoch = some t)
    {state : EpochState} (hfind : s.epochs.find? t = some state) :
    ∃ state', s'.epochs.find? t = some state' ∧ state.Advances state' := by
  rcases hstep.forward hledger hfind with
    hkept | ⟨hflag, -⟩ | ⟨rfl, terminal, readAt, hsweep, hother, hexpired⟩
  · exact hkept
  · rw [hterminal.started t ht] at hflag
    simp at hflag
  · obtain ⟨createdAt, hcreated, hold⟩ := hexpired
    have hlate := htimely terminal readAt hsweep
    rcases h.spared terminal readAt hsweep with hread | hbefore
    · exact absurd (ht.symm.trans hread.symm) hother
    · have hyoung := hbefore t state createdAt ht hfind hcreated
      omega

/-- A section that leaves the terminal epoch and the sweep alone. -/
theorem Tracked.keep
    (h : s.Tracked) (hterminal : s.Terminal) (hledger : s.Ledger)
    (htimely : TimelySweep s sec) (hstep : Stepped s sec s')
    (hepoch : s'.terminalEpoch = s.terminalEpoch)
    (hsweep : s'.sweep = s.sweep ∨ s'.sweep = none)
    (hnow : s.now ≤ s'.now) : s'.Tracked := by
  have hsweep' {terminal : Option CheckpointEpoch} {readAt : ℕ}
      (hread : s'.sweep = some (terminal, readAt)) :
      s.sweep = some (terminal, readAt) := by
    rcases hsweep with hsame | hnone
    · exact hsame ▸ hread
    · simp [hnone] at hread
  refine ⟨?_, ?_, ?_⟩
  · intro t ht
    rw [hepoch] at ht
    obtain ⟨state, hfind⟩ := h.present t ht
    obtain ⟨state', hfind', -⟩ :=
      h.present_step hterminal hledger htimely hstep ht hfind
    exact ⟨state', hfind'⟩
  · intro terminal readAt hread
    exact (h.readBefore terminal readAt (hsweep' hread)).trans hnow
  · intro terminal readAt hread
    rw [hepoch]
    apply (h.spared terminal readAt (hsweep' hread)).imp_right
    intro hbefore t state' createdAt ht hfind' hcreated
    obtain ⟨state, hfind⟩ := h.present t ht
    obtain ⟨after, hafter, hadvances⟩ :=
      h.present_step hterminal hledger htimely hstep ht hfind
    obtain rfl := Option.some.inj (hafter.symm.trans hfind')
    exact hbefore t state createdAt ht hfind (hadvances.createdAt hcreated)

theorem Tracked.step
    (h : s.Tracked) (hterminal : s.Terminal) (hledger : s.Ledger)
    (htimely : TimelySweep s sec) (hstep : Stepped s sec s') :
    s'.Tracked := by
  have hkeep := h.keep hterminal hledger htimely hstep
  cases hstep with
  | unchanged sec => exact h
  | elapse duration => exact hkeep rfl (.inl rfl) (Nat.le_add_right _ _)
  | accept epoch sinkId hsub => exact hkeep rfl (.inl rfl) le_rfl
  | count epoch sinkId seen hsub subscriber counted =>
      exact hkeep rfl (.inl rfl) le_rfl
  | broadcastAcked epoch hsub => exact hkeep rfl (.inl rfl) le_rfl
  | wake hproducer => exact hkeep rfl (.inl rfl) le_rfl
  | check hproducer => exact hkeep rfl (.inl rfl) le_rfl
  | halt createdAt hproducer hflag => exact hkeep rfl (.inl rfl) le_rfl
  | mint createdAt hproducer hflag => exact hkeep rfl (.inl rfl) le_rfl
  | sendMarker epoch hproducer => exact hkeep rfl (.inl rfl) le_rfl
  | removeSink caller sinkId hcall hsink =>
      exact hkeep rfl (.inl rfl) le_rfl
  | finalizeReady caller snapshot hcall =>
      exact hkeep rfl (.inl rfl) le_rfl
  | broadcastReady caller epochs hcall next hnext finalizers =>
      exact hkeep rfl (.inl rfl) le_rfl
  | startTerminal => exact hkeep rfl (.inl rfl) le_rfl
  | joinTerminal existing hcalls hexisting =>
      exact hkeep rfl (.inl rfl) le_rfl
  | beginTerminal hcalls hnone =>
      have hnew (t : CheckpointEpoch) (ht : some s.nextEpoch = some t) :
          (s.epochs.insert s.nextEpoch (.started s.now)).find? t =
            some (.started s.now) := by
        rw [← Option.some.inj ht, OrderedMap.find?_insert_self]
      refine ⟨fun t ht => ⟨_, hnew t ht⟩, h.readBefore, ?_⟩
      intro terminal readAt hread
      right
      intro t state createdAt ht hfind hcreated
      obtain rfl := Option.some.inj ((hnew t ht).symm.trans hfind)
      obtain rfl := Option.some.inj hcreated
      exact h.readBefore terminal readAt hread
  | readTerminal hsweep =>
      refine ⟨h.present, ?_, ?_⟩
      · intro terminal readAt hread
        obtain ⟨-, rfl⟩ := Prod.mk.inj (Option.some.inj hread)
        exact le_rfl
      · intro terminal readAt hread
        obtain ⟨rfl, -⟩ := Prod.mk.inj (Option.some.inj hread)
        exact Or.inl rfl
  | removeTimedOut terminal readAt hsweep =>
      exact hkeep rfl (.inr rfl) le_rfl

/-- Nothing is minted once the terminal epoch exists. -/
theorem Terminal.nothing_minted
    (h : s.Terminal) (hstep : Stepped s sec s') {t : CheckpointEpoch}
    (ht : s.terminalEpoch = some t) :
    s'.terminalEpoch = some t ∧ s'.minted = s.minted := by
  cases hstep with
  | mint createdAt hproducer hflag =>
      rw [h.started t ht] at hflag
      simp at hflag
  | beginTerminal hcalls hnone =>
      rw [ht] at hnone
      simp at hnone
  | _ => exact ⟨ht, rfl⟩

/-! ## Whole runs -/

/-- The invariants of the terminal checkpoint. -/
structure Stable (initial : Finset String) (s : Coordination) : Prop where
  safe : s.Safe initial
  terminal : s.Terminal
  alternating : s.Alternating
  tracked : s.Tracked

theorem Stable.step
    {initial : Finset String} (h : s.Stable initial)
    (htimely : TimelySweep s sec) (hsec : s.step sec = some s') :
    s'.Stable initial := by
  have hstep := stepped_of_step hsec
  exact ⟨h.safe.step hsec, h.terminal.step hstep,
    h.alternating.step h.terminal hstep,
    h.tracked.step h.terminal h.safe.ledger htimely hstep⟩

theorem stable_run
    {timeout : ℕ} {sinks : List String} {sections : List Section}
    (h : Transition.run step (start timeout sinks) sections = some s)
    (htimely : Transition.AllSteps step TimelySweep (start timeout sinks)
      sections) :
    s.Stable sinks.toFinset := by
  have hstart : (start timeout sinks).Stable sinks.toFinset :=
    ⟨⟨coverage_start timeout sinks, ledger_start timeout sinks⟩,
      terminal_start timeout sinks, alternating_start timeout sinks,
      tracked_start timeout sinks⟩
  exact Transition.run_invariant_of_allSteps
    (fun _ _ _ hs ht hsec => Stable.step hs ht hsec) hstart htimely h

/-- At some sweep of the run the epoch was in the map and older than the
timeout. -/
def TimedOutDuring (s : Coordination) (sections : List Section)
    (e : CheckpointEpoch) : Prop :=
  ∃ before after m state, sections = before ++ .removeTimedOut :: after ∧
    Transition.run step s before = some m ∧
    m.epochs.find? e = some state ∧ m.Expired state

theorem TimedOutDuring.cons
    {sections : List Section} {e : CheckpointEpoch}
    (h : s'.TimedOutDuring sections e) (hsec : s.step sec = some s') :
    s.TimedOutDuring (sec :: sections) e := by
  obtain ⟨before, after, m, state, rfl, hrun, hfind, hexpired⟩ := h
  exact ⟨sec :: before, after, m, state, rfl,
    Transition.run_cons_eq_some.mpr ⟨s', hsec, hrun⟩, hfind, hexpired⟩

/-- What a run after the beginning of the terminal checkpoint leaves in the
map. -/
structure Unfolds (s s' : Coordination) (sections : List Section)
    (t : CheckpointEpoch) : Prop where
  terminalEpoch : s'.terminalEpoch = some t
  minted : s'.minted = s.minted
  kept : ∀ e state, s.epochs.find? e = some state →
    (∃ state', s'.epochs.find? e = some state' ∧ state.Advances state') ∨
      s.TimedOutDuring sections e
  known : ∀ e state', s'.epochs.find? e = some state' →
    ∃ state, s.epochs.find? e = some state ∧ state.Advances state'
  stays : ∀ state, s.epochs.find? t = some state →
    ∃ state', s'.epochs.find? t = some state' ∧ state.Advances state'

theorem Stable.unfolds
    {initial : Finset String} (h : s.Stable initial) {t : CheckpointEpoch}
    (ht : s.terminalEpoch = some t) {sections : List Section}
    (hrun : Transition.run Coordination.step s sections = some s')
    (htimely : Transition.AllSteps Coordination.step TimelySweep s
      sections) :
    Unfolds s s' sections t := by
  induction sections generalizing s with
  | nil =>
      obtain rfl : s = s' := by simpa using hrun
      exact ⟨ht, rfl, fun e state hfind => .inl ⟨state, hfind, .same _⟩,
        fun e state hfind => ⟨state, hfind, .same _⟩,
        fun state hfind => ⟨state, hfind, .same _⟩⟩
  | cons sec sections ih =>
      obtain ⟨m, hsec, hrest⟩ := Transition.run_cons_eq_some.mp hrun
      simp only [Transition.AllSteps, hsec] at htimely
      obtain ⟨hnow, hlater⟩ := htimely
      have hstep := stepped_of_step hsec
      obtain ⟨hterm, hminted⟩ := h.terminal.nothing_minted hstep ht
      have hm := h.step hnow hsec
      have htail := ih hm hterm hrest hlater
      refine ⟨htail.terminalEpoch, htail.minted.trans hminted, ?_, ?_, ?_⟩
      · intro e state hfind
        rcases hstep.forward h.safe.ledger hfind with
          ⟨next, hnext, hadv⟩ | ⟨hflag, -⟩ |
            ⟨rfl, terminal, readAt, -, -, hexpired⟩
        · rcases htail.kept e next hnext with
            ⟨last, hlast, hadv'⟩ | hout
          · exact .inl ⟨last, hlast, hadv.trans hadv'⟩
          · exact .inr (hout.cons hsec)
        · rw [h.terminal.started t ht] at hflag
          simp at hflag
        · exact .inr ⟨[], sections, s, state, rfl, rfl, hfind, hexpired⟩
      · intro e last hlast
        obtain ⟨next, hnext, hadv'⟩ := htail.known e last hlast
        rcases hstep.backward hnext with ⟨state, hfind, hadv⟩ | ⟨-, hnew⟩
        · exact ⟨state, hfind, hadv.trans hadv'⟩
        · rw [h.terminal.last t ht, hm.terminal.last t hterm] at hnew
          exact absurd hnew (Nat.succ_ne_self _).symm
      · intro state hfind
        obtain ⟨next, hnext, hadv⟩ := h.tracked.present_step h.terminal
          h.safe.ledger hnow hstep ht hfind
        obtain ⟨last, hlast, hadv'⟩ := htail.stays next hnext
        exact ⟨last, hlast, hadv.trans hadv'⟩

/-- An acknowledgement that completes an open epoch finalizes it. -/
theorem countAck_finalizes
    {e : CheckpointEpoch} {k : String} {seen : Finset String}
    (hsub : s.subscriber = .accepted e k seen) {state : EpochState}
    (hfind : s.epochs.find? e = some state) (hopen : state ≠ .finalized)
    (hall : s.expectedSinks ⊆ insert k state.ackedSinks) :
    ∃ m, s.step .countAck = some m ∧
      m.epochs.find? e = some .finalized := by
  have hrecord : (recordAck s.epochs e k s.expectedSinks).1.find? e =
      some .finalized := by
    cases state with
    | started createdAt =>
        have hsub' : s.expectedSinks ⊆ {k} := by
          simpa [EpochState.ackedSinks] using hall
        simp [recordAck, hfind, hsub']
    | inProgress acked createdAt =>
        have hsub' : s.expectedSinks ⊆ insert k acked := hall
        simp [recordAck, hfind, hsub']
    | finalized => exact absurd rfl hopen
  refine ⟨_, by simp only [step, countAck, hsub]; rfl, ?_⟩
  exact hrecord

/-- The producer clears the map only when nothing in it is open. -/
theorem finalized_of_mint
    (h : s.Alternating) (hsec : s.step .mintEpoch = some s')
    (hmint : s'.minted ≠ s.minted) {e : CheckpointEpoch}
    {state : EpochState} (hfind : s.epochs.find? e = some state) :
    state = .finalized := by
  cases stepped_of_step hsec with
  | unchanged => exact absurd rfl hmint
  | halt createdAt hproducer hflag => exact absurd rfl hmint
  | mint createdAt hproducer hflag =>
      rcases h.ready createdAt hproducer with htrue | hall
      · rw [htrue] at hflag
        simp at hflag
      · exact hall e state hfind

end Coordination

open Coordination in
/-- In every interleaving whose sweeps are timely: the producer clears no open
epoch; and from the moment a terminal checkpoint has returned `t`, however the
run goes on, every call returns `t`, nothing more is minted and `t` is the
greatest epoch, `t` stays in the map and only advances, every other epoch
leaves it only when a sweep finds it older than the timeout, and an
acknowledgement that completes an open epoch finalizes it. -/
theorem terminal_epoch_stable
    {timeout : ℕ} {sinks : List String} {sections : List Section}
    {s : Coordination}
    (h : Transition.run step (start timeout sinks) sections = some s)
    (htimely : Transition.AllSteps step TimelySweep (start timeout sinks)
      sections) :
    (∀ m, s.step .mintEpoch = some m → m.minted ≠ s.minted →
      ∀ e state, s.epochs.find? e = some state → state = .finalized) ∧
    ∀ t ∈ s.terminalReturns, ∀ later s',
      Transition.run step s later = some s' →
      Transition.AllSteps step TimelySweep s later →
      (∀ t' ∈ s'.terminalReturns, t' = t) ∧
      s'.minted = s.minted ∧
      (∀ e ∈ s'.mintedEpochs, e ≤ t) ∧
      (∀ e state', s'.epochs.find? e = some state' →
        ∃ state, s.epochs.find? e = some state ∧
          state.Advances state') ∧
      (∃ state state', s.epochs.find? t = some state ∧
        s'.epochs.find? t = some state' ∧ state.Advances state') ∧
      (∀ e state, s.epochs.find? e = some state →
        (∃ state', s'.epochs.find? e = some state' ∧
          state.Advances state') ∨ s.TimedOutDuring later e) ∧
      ∀ e k seen state, s'.subscriber = .accepted e k seen →
        s'.epochs.find? e = some state → state ≠ .finalized →
        s'.expectedSinks ⊆ insert k state.ackedSinks →
        ∃ m, s'.step .countAck = some m ∧
          m.epochs.find? e = some .finalized := by
  have hstable := stable_run h htimely
  refine ⟨?_, ?_⟩
  · intro m hsec hmint e state hfind
    exact finalized_of_mint hstable.alternating hsec hmint hfind
  · intro t hreturned later s' hlater htimely'
    have ht := hstable.terminal.returns t hreturned
    have hunfolds := hstable.unfolds ht hlater htimely'
    have hstable' : s'.Stable sinks.toFinset :=
      Transition.run_invariant_of_allSteps
        (fun _ _ _ hs ht hsec => Stable.step hs ht hsec) hstable htimely'
        hlater
    refine ⟨?_, hunfolds.minted, ?_, hunfolds.known, ?_, hunfolds.kept, ?_⟩
    · intro t' ht'
      have hsame := hstable'.terminal.returns t' ht'
      rw [hunfolds.terminalEpoch] at hsame
      exact (Option.some.inj hsame).symm
    · intro e he
      have hlt := hstable'.safe.ledger.minted_lt e he
      rw [hstable'.terminal.last t hunfolds.terminalEpoch] at hlt
      exact Nat.le_of_lt_succ hlt
    · obtain ⟨state, hfind⟩ := hstable.tracked.present t ht
      obtain ⟨state', hfind', hadv⟩ := hunfolds.stays state hfind
      exact ⟨state, state', hfind, hfind', hadv⟩
    · intro e k seen state hsub hfind hopen hall
      exact countAck_finalizes hsub hfind hopen hall

open Coordination in
/-- A sweep reads the terminal epoch before it exists and removes after it was
minted; a late acknowledgement then finalizes the timer epoch. -/
theorem terminal_epoch_stable_late_ack :
    let sections : List Section :=
      [.wakeProducer, .checkLastEpoch, .mintEpoch, .sendMarker,
        .readTerminal, .startTerminal, .beginTerminal, .elapse 5,
        .removeTimedOut]
    let later : List Section :=
      [.receiveAck 1 "a", .countAck, .startTerminal, .beginTerminal]
    ∃ s, Transition.run step (start 10 ["a"]) sections = some s ∧
      2 ∈ s.terminalReturns ∧
      ∃ s', Transition.run step s later = some s' ∧
        s'.epochs.find? 1 = some .finalized ∧
        (∀ t ∈ s'.terminalReturns, t = 2) ∧ s'.minted = s.minted ∧
        ∀ e ∈ s'.mintedEpochs, e ≤ 2 := by
  intro sections later
  have htimely : Transition.AllSteps step TimelySweep (start 10 ["a"])
      sections := by decide
  obtain ⟨s, hrun, hreturned, htimely', hfinal⟩ :
      ∃ s, Transition.run step (start 10 ["a"]) sections = some s ∧
        2 ∈ s.terminalReturns ∧
        Transition.AllSteps step TimelySweep s later ∧
        (Transition.run step s later).map
          (fun t => decide (t.epochs.find? 1 = some .finalized)) =
            some true :=
    Transition.exists_run_of_decide (by decide)
  obtain ⟨s', hlater, hfound⟩ := Transition.exists_run_of_decide hfinal
  obtain ⟨hreturns, hminted, hmax, -⟩ :=
    (terminal_epoch_stable hrun htimely).2 2 hreturned later s' hlater
      htimely'
  exact ⟨s, hrun, hreturned, s', hlater, hfound, hreturns, hminted, hmax⟩

end Streamling
