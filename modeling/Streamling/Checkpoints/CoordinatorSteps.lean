import Streamling.Checkpoints.CoordinatorSafety

/-!
# What one critical section of the coordinator does

The inversion of the step function: every successful section with the guard it
passed and the exact state it leaves.  Facts about runs that concern the
bindings of the map, the expected set or the terminal checkpoint are read off
these cases.
-/

namespace Streamling

namespace Coordination

/-- The sections that succeed, with what they leave behind. -/
inductive Stepped (s : Coordination) : Section → Coordination → Prop
  | unchanged (sec : Section) : Stepped s sec s
  | elapse (duration : ℕ) :
      Stepped s (.elapse duration) { s with now := s.now + duration }
  | accept (epoch : CheckpointEpoch) (sinkId : String)
      (hsub : s.subscriber = .receiving) :
      Stepped s (.receiveAck epoch sinkId)
        { s with subscriber := .accepted epoch sinkId s.expectedSinks }
  | count (epoch : CheckpointEpoch) (sinkId : String)
      (seen : Finset String)
      (hsub : s.subscriber = .accepted epoch sinkId seen)
      (subscriber : SubscriberTask) (counted : List CountedAck) :
      Stepped s .countAck
        { s with
          epochs := (recordAck s.epochs epoch sinkId s.expectedSinks).1
          subscriber := subscriber
          counted := counted }
  | broadcastAcked (epoch : CheckpointEpoch)
      (hsub : s.subscriber = .broadcasting epoch) :
      Stepped s .broadcastAcked
        { s with
          subscriber := .receiving
          finalizers := s.finalizers ++ [epoch] }
  | wake (hproducer : s.producer = .sleeping) :
      Stepped s .wakeProducer
        { s with
          producer := if s.terminalStarted then .stopped else .waiting }
  | check (hproducer : s.producer = .waiting) :
      Stepped s .checkLastEpoch
        { s with
          producer :=
            if lastEpochFinalized s.epochs then .ready s.now else .waiting }
  | halt (createdAt : ℕ) (hproducer : s.producer = .ready createdAt)
      (hterminal : s.terminalStarted = true) :
      Stepped s .mintEpoch { s with producer := .stopped }
  | mint (createdAt : ℕ) (hproducer : s.producer = .ready createdAt)
      (hterminal : s.terminalStarted = false) :
      Stepped s .mintEpoch
        { s with
          epochs := (∅ : EpochMap).insert s.nextEpoch (.started createdAt)
          nextEpoch := s.nextEpoch + 1
          producer := .sending s.nextEpoch
          minted := s.minted ++ [⟨s.nextEpoch, s.expectedSinks⟩] }
  | sendMarker (epoch : CheckpointEpoch)
      (hproducer : s.producer = .sending epoch) :
      Stepped s .sendMarker
        { s with
          producer := .sleeping
          markers := s.markers ++ [epoch] }
  | removeSink (caller : ℕ) (sinkId : String)
      (hcall : s.completions caller = .idle)
      (hsink : sinkId ∈ s.expectedSinks) :
      Stepped s (.removeSink caller sinkId)
        { s with
          expectedSinks := s.expectedSinks.erase sinkId
          completions := Function.update s.completions caller
            (.finalizing (s.expectedSinks.erase sinkId))
          removed := insert sinkId s.removed }
  | finalizeReady (caller : ℕ) (snapshot : Finset String)
      (hcall : s.completions caller = .finalizing snapshot) :
      Stepped s (.finalizeReady caller)
        { s with
          epochs := (finalizeReadyEpochs s.epochs snapshot).1
          completions := Function.update s.completions caller
            (.broadcasting (finalizeReadyEpochs s.epochs snapshot).2) }
  | broadcastReady (caller : ℕ) (epochs : List CheckpointEpoch)
      (hcall : s.completions caller = .broadcasting epochs)
      (next : CompletionCall) (hnext : ∀ snapshot,
        next ≠ .finalizing snapshot) (finalizers : List CheckpointEpoch) :
      Stepped s (.broadcastReady caller)
        { s with
          completions := Function.update s.completions caller next
          finalizers := finalizers }
  | startTerminal :
      Stepped s .startTerminal
        { s with
          terminalStarted := true
          terminalCalls := s.terminalCalls + 1 }
  | joinTerminal (existing : CheckpointEpoch)
      (hcalls : s.terminalCalls ≠ 0)
      (hterminal : s.terminalEpoch = some existing) :
      Stepped s .beginTerminal
        { s with
          terminalCalls := s.terminalCalls - 1
          terminalReturns := s.terminalReturns ++ [existing] }
  | beginTerminal (hcalls : s.terminalCalls ≠ 0)
      (hterminal : s.terminalEpoch = none) :
      Stepped s .beginTerminal
        { s with
          epochs := s.epochs.insert s.nextEpoch (.started s.now)
          nextEpoch := s.nextEpoch + 1
          terminalEpoch := some s.nextEpoch
          terminalCalls := s.terminalCalls - 1
          minted := s.minted ++ [⟨s.nextEpoch, s.expectedSinks⟩]
          terminalReturns := s.terminalReturns ++ [s.nextEpoch] }
  | readTerminal (hsweep : s.sweep = none) :
      Stepped s .readTerminal { s with sweep := some (s.terminalEpoch, s.now) }
  | removeTimedOut (terminal : Option CheckpointEpoch) (readAt : ℕ)
      (hsweep : s.sweep = some (terminal, readAt)) :
      Stepped s .removeTimedOut
        { s with
          epochs := s.epochs.retain fun epoch _ => decide (epoch ∉
            timedOutEpochsToRemove s.epochs s.timeout s.now terminal)
          sweep := none }

theorem stepped_of_step
    {s s' : Coordination} {sec : Section} (h : s.step sec = some s') :
    Stepped s sec s' := by
  cases sec with
  | elapse duration =>
      obtain rfl := Option.some.inj h
      exact .elapse duration
  | receiveAck epoch sinkId =>
      simp only [step, receiveAck] at h
      split at h
      next hsub =>
        split at h
        · obtain rfl := Option.some.inj h
          exact .accept epoch sinkId hsub
        · obtain rfl := Option.some.inj h
          exact .unchanged _
      · simp at h
  | countAck =>
      simp only [step, countAck] at h
      split at h
      next epoch sinkId seen hsub =>
        obtain rfl := Option.some.inj h
        exact .count epoch sinkId seen hsub _ _
      · simp at h
  | broadcastAcked =>
      simp only [step, broadcastAcked] at h
      split at h
      next epoch hsub =>
        obtain rfl := Option.some.inj h
        exact .broadcastAcked epoch hsub
      · simp at h
  | wakeProducer =>
      simp only [step, wakeProducer] at h
      split at h
      next hproducer =>
        obtain rfl := Option.some.inj h
        exact .wake hproducer
      · simp at h
  | checkLastEpoch =>
      simp only [step, checkLastEpoch] at h
      split at h
      next hproducer =>
        obtain rfl := Option.some.inj h
        exact .check hproducer
      · simp at h
  | mintEpoch =>
      simp only [step, mintEpoch] at h
      split at h
      next createdAt hproducer =>
        split at h
        next hterminal =>
          obtain rfl := Option.some.inj h
          exact .halt createdAt hproducer hterminal
        next hterminal =>
          obtain rfl := Option.some.inj h
          exact .mint createdAt hproducer (by simpa using hterminal)
      · simp at h
  | sendMarker =>
      simp only [step, sendMarker] at h
      split at h
      next epoch hproducer =>
        obtain rfl := Option.some.inj h
        exact .sendMarker epoch hproducer
      · simp at h
  | removeSink caller sinkId =>
      simp only [step, removeSink] at h
      split at h
      next hcall =>
        split at h
        next hsink =>
          obtain rfl := Option.some.inj h
          exact .removeSink caller sinkId hcall hsink
        · obtain rfl := Option.some.inj h
          exact .unchanged _
      · simp at h
  | finalizeReady caller =>
      simp only [step, finalizeReady] at h
      split at h
      next snapshot hcall =>
        obtain rfl := Option.some.inj h
        exact .finalizeReady caller snapshot hcall
      · simp at h
  | broadcastReady caller =>
      simp only [step, broadcastReady] at h
      split at h
      next hcall =>
        obtain rfl := Option.some.inj h
        exact .broadcastReady caller [] hcall .idle (by simp) s.finalizers
      next epoch rest hcall =>
        obtain rfl := Option.some.inj h
        exact .broadcastReady caller _ hcall (.broadcasting rest) (by simp) _
      · simp at h
  | startTerminal =>
      obtain rfl := Option.some.inj h
      exact .startTerminal
  | beginTerminal =>
      simp only [step, beginTerminal] at h
      split at h
      · simp at h
      next hcalls =>
        split at h
        next existing hterminal =>
          obtain rfl := Option.some.inj h
          exact .joinTerminal existing hcalls hterminal
        next hterminal =>
          obtain rfl := Option.some.inj h
          exact .beginTerminal hcalls hterminal
  | readTerminal =>
      simp only [step, readTerminal] at h
      split at h
      next hsweep =>
        obtain rfl := Option.some.inj h
        exact .readTerminal hsweep
      · simp at h
  | removeTimedOut =>
      simp only [step, removeTimedOut] at h
      split at h
      next terminal readAt hsweep =>
        obtain rfl := Option.some.inj h
        exact .removeTimedOut terminal readAt hsweep
      · simp at h

/-! ## Calls that a section does not concern -/

/-- The caller of `sink_completed` a section belongs to. -/
def Section.caller? : Section → Option ℕ
  | .removeSink caller _ => some caller
  | .finalizeReady caller => some caller
  | .broadcastReady caller => some caller
  | _ => none

theorem completions_step
    {s s' : Coordination} {sec : Section} (h : s.step sec = some s')
    {caller : ℕ} (hcaller : sec.caller? ≠ some caller) :
    s'.completions caller = s.completions caller := by
  have hupdate {c : ℕ} (hc : some c ≠ some caller) (call : CompletionCall) :
      Function.update s.completions c call caller =
        s.completions caller := by
    apply Function.update_of_ne
    rintro rfl
    exact hc rfl
  cases sec with
  | removeSink c k =>
      simp only [step, removeSink] at h
      split at h
      · split at h
        · obtain rfl := Option.some.inj h
          exact hupdate hcaller _
        · obtain rfl := Option.some.inj h
          rfl
      · simp at h
  | finalizeReady c =>
      simp only [step, finalizeReady] at h
      split at h
      · obtain rfl := Option.some.inj h
        exact hupdate hcaller _
      · simp at h
  | broadcastReady c =>
      simp only [step, broadcastReady] at h
      split at h
      · obtain rfl := Option.some.inj h
        exact hupdate hcaller _
      · obtain rfl := Option.some.inj h
        exact hupdate hcaller _
      · simp at h
  | _ =>
      simp only [step, receiveAck, countAck, broadcastAcked, wakeProducer,
        checkLastEpoch, mintEpoch, sendMarker, startTerminal, beginTerminal,
        readTerminal, removeTimedOut] at h
      all_goals
        repeat' split at h
        all_goals first
          | (obtain rfl := Option.some.inj h; rfl)
          | simp at h

theorem completions_run
    {s s' : Coordination} {sections : List Section}
    (h : Transition.run step s sections = some s') (caller : ℕ)
    (hcaller : ∀ sec ∈ sections, sec.caller? ≠ some caller) :
    s'.completions caller = s.completions caller := by
  induction sections generalizing s with
  | nil =>
      obtain rfl : s = s' := by simpa using h
      rfl
  | cons sec sections ih =>
      obtain ⟨m, hm, hrest⟩ := Transition.run_cons_eq_some.mp h
      obtain ⟨hsec, hothers⟩ := List.forall_mem_cons.mp hcaller
      exact (ih hrest hothers).trans (completions_step hm hsec)

end Coordination

end Streamling
