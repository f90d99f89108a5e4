import Streamling.Sources.KafkaCut

/-!
# The commits of the Kafka source

A finalized epoch is committed with the position recorded for it, first to
the broker and then to the state backend.  A position equal to the last one
committed is skipped; the offsets sought on startup are taken to be committed
too, but no recorded position equals them.
-/

namespace Streamling

namespace Kafka

/-! ## Offsets -/

theorem setOffsets_append
    (offsets : ℕ → Option ℕ) (xs ys : List (ℕ × ℕ)) :
    setOffsets offsets (xs ++ ys) = setOffsets (setOffsets offsets xs) ys :=
  List.foldl_append

theorem setOffsets_of_not_mem
    (offsets : ℕ → Option ℕ) {entries : List (ℕ × ℕ)} {partition : ℕ}
    (h : partition ∉ entries.map Prod.fst) :
    setOffsets offsets entries partition = offsets partition := by
  induction entries generalizing offsets with
  | nil => rfl
  | cons entry entries ih =>
      simp only [List.map_cons, List.mem_cons, not_or] at h
      rw [setOffsets, List.foldl_cons]
      exact (ih _ h.2).trans (Function.update_of_ne h.1 _ _)

/-- Writing entries that agree with each other leaves all of them in
place. -/
theorem setOffsets_of_mem
    (offsets : ℕ → Option ℕ) {entries : List (ℕ × ℕ)}
    (hentries : ∀ a ∈ entries, ∀ b ∈ entries, a.1 = b.1 → a = b)
    {entry : ℕ × ℕ} (hmem : entry ∈ entries) :
    setOffsets offsets entries entry.1 = some entry.2 := by
  induction entries using List.reverseRecOn with
  | nil => simp at hmem
  | append_singleton entries last ih =>
      rw [setOffsets_append]
      by_cases hlast : entry.1 = last.1
      · obtain rfl := hentries entry hmem last (by simp) hlast
        simp [setOffsets]
      · have hfront : entry ∈ entries := by
          refine (List.mem_append.mp hmem).resolve_right fun h => ?_
          exact hlast (congrArg Prod.fst (List.mem_singleton.mp h))
        have hrest := ih (fun a ha b hb => hentries a
          (List.mem_append_left _ ha) b (List.mem_append_left _ hb)) hfront
        simpa [setOffsets, Function.update_of_ne hlast] using hrest

theorem mem_validOffsets
    {position : TopicPartitionList} {entry : ℕ × ℕ} :
    entry ∈ validOffsets position ↔ (entry.1, some entry.2) ∈ position := by
  simp only [validOffsets, List.mem_filterMap, Option.map_eq_some_iff]
  constructor
  · rintro ⟨⟨partition, offset⟩, hmem, next, rfl, rfl⟩
    exact hmem
  · intro hmem
    exact ⟨_, hmem, entry.2, rfl, rfl⟩

theorem mem_of_sameOffsets
    {xs ys : TopicPartitionList} (h : sameOffsets xs ys = true)
    {x : ℕ × Option ℕ} (hx : x ∈ xs) : x ∈ ys := by
  simp only [sameOffsets, Bool.and_eq_true, List.all_eq_true,
    decide_eq_true_eq] at h
  exact List.mem_of_find?_eq_some (h.2 x hx)

/-- The position after some messages has one entry a partition. -/
theorem validOffsets_positionAfter_agree
    (assigned : List ℕ) (messages : List Message) :
    ∀ a ∈ validOffsets (positionAfter assigned messages),
      ∀ b ∈ validOffsets (positionAfter assigned messages),
        a.1 = b.1 → a = b := by
  intro a ha b hb hsame
  obtain ⟨p, -, hp⟩ := List.mem_map.mp (mem_validOffsets.mp ha)
  obtain ⟨q, -, hq⟩ := List.mem_map.mp (mem_validOffsets.mp hb)
  obtain ⟨rfl, hpa⟩ := Prod.mk.inj hp
  obtain ⟨rfl, hqb⟩ := Prod.mk.inj hq
  rw [hsame, hqb] at hpa
  exact Prod.ext hsame (Option.some.inj hpa).symm

/-- A position recorded after the startup seek is not the one sought. -/
theorem not_sameOffsets_sought
    {config : SourceConfig} {messages : List Message}
    (hstart : ∀ m ∈ messages, config.startOffset m.partition ≤ m.offset)
    (hsought : config.sought ≠ []) :
    sameOffsets (positionAfter config.assigned messages) config.sought =
      false := by
  by_contra h
  have h := eq_true_of_ne_false h
  cases hassigned : config.assigned with
  | nil => simp [SourceConfig.sought, hassigned] at hsought
  | cons partition rest =>
      have hmem : (partition, nextOffset messages partition) ∈
          config.sought := by
        refine mem_of_sameOffsets h ?_
        simp [positionAfter, hassigned]
      simp only [SourceConfig.sought, List.mem_filterMap,
        Option.map_eq_some_iff, Prod.mk.injEq] at hmem
      obtain ⟨p, hp, offset, hoffset, rfl, hnext⟩ := hmem
      obtain ⟨m, hm, hpartition, rfl⟩ := exists_of_nextOffset hnext.symm
      have hfirst := config.seek p hp _ hoffset
      have hle := hstart m hm
      rw [hpartition] at hle
      omega

/-! ## Committing -/

theorem CommitOutcome.Puts.mem
    {outcome : CommitOutcome} {entries : List (ℕ × ℕ)} {entry : ℕ × ℕ}
    (h : outcome.Puts entries entry) : entry ∈ entries := by
  obtain ⟨attempt, -, hmem⟩ := h
  exact List.mem_of_mem_take hmem

theorem PutAttempt.take_of_succeeds
    {attempt : PutAttempt} {entries : List (ℕ × ℕ)}
    (h : attempt.succeeds entries = true) :
    entries.take attempt.written = entries := by
  simp only [PutAttempt.succeeds, Bool.and_eq_true, decide_eq_true_eq] at h
  exact List.take_of_length_le h.2

/-- A successful attempt puts every entry. -/
theorem CommitOutcome.puts_of_succeeds
    {outcome : CommitOutcome} {entries : List (ℕ × ℕ)} {attempt : PutAttempt}
    (hattempt : attempt ∈ outcome.attempts)
    (hsucceeds : attempt.succeeds entries = true) {entry : ℕ × ℕ}
    (hentry : entry ∈ entries) : outcome.Puts entries entry :=
  ⟨attempt, hattempt, by rwa [PutAttempt.take_of_succeeds hsucceeds]⟩

namespace OffsetStore

theorem put_put
    (o : OffsetStore) (epoch : CheckpointEpoch) (xs ys : List (ℕ × ℕ)) :
    (o.put epoch xs).put epoch ys = o.put epoch (xs ++ ys) := by
  simp [put, setOffsets_append]

/-- What the attempts write is put, until one of them succeeds. -/
theorem putMany_eq
    (o : OffsetStore) (epoch : CheckpointEpoch) (entries : List (ℕ × ℕ))
    (attempts : List PutAttempt) :
    ∃ written : List (ℕ × ℕ),
      (o.putMany epoch entries attempts).1 = o.put epoch written ∧
      (∀ entry, entry ∈ written ↔
        ∃ attempt ∈ attempts, entry ∈ entries.take attempt.written) ∧
      ((o.putMany epoch entries attempts).2 = false ↔
        ∀ attempt ∈ attempts, attempt.succeeds entries = false) := by
  induction attempts generalizing o with
  | nil =>
      exact ⟨[], by simp [putMany, put, setOffsets], by simp,
        by simp [putMany]⟩
  | cons attempt attempts ih =>
      simp only [putMany]
      split
      case isTrue hsucceeds =>
          have htake := PutAttempt.take_of_succeeds hsucceeds
          refine ⟨entries, by rw [htake], fun entry => ?_,
            by simp [hsucceeds]⟩
          -- the later attempts are not made, and would add nothing
          constructor
          · exact fun hmem => ⟨attempt, by simp, by rwa [htake]⟩
          · rintro ⟨other, -, hmem⟩
            exact List.mem_of_mem_take hmem
      case isFalse hfails =>
          obtain ⟨written, hput, hwritten, hok⟩ :=
            ih (o.put epoch (entries.take attempt.written))
          refine ⟨entries.take attempt.written ++ written, ?_,
            fun entry => ?_, ?_⟩
          · rw [hput, put_put]
          · simp [hwritten]
          · simp [hok, hfails]

/-- A commit the broker accepts keeps what the attempts put, and ends in an
error if none of them succeeds. -/
theorem commitPosition_of_accepts
    (o : OffsetStore) (epoch : CheckpointEpoch) (entries : List (ℕ × ℕ))
    {outcome : CommitOutcome} (haccepts : outcome.brokerAccepts = true) :
    ∃ written : List (ℕ × ℕ),
      (∀ entry, entry ∈ written ↔ outcome.Puts entries entry) ∧
      (((∃ attempt ∈ outcome.attempts, attempt.succeeds entries = true) ∧
          o.commitPosition epoch entries outcome =
            ({ o with
                broker := setOffsets o.broker entries
                brokerCommits := o.brokerCommits ++ [(epoch, entries)]
                persisted := setOffsets o.persisted written
                puts := o.puts ++ written.map fun entry => (epoch, entry)
                committedOffsets := some
                  (entries.map fun entry => (entry.1, some entry.2))
                consumerOffsets := o.consumerOffsets.remove epoch },
              .covered)) ∨
        (∀ attempt ∈ outcome.attempts, attempt.succeeds entries = false) ∧
          o.commitPosition epoch entries outcome =
            ({ o with
                broker := setOffsets o.broker entries
                brokerCommits := o.brokerCommits ++ [(epoch, entries)]
                persisted := setOffsets o.persisted written
                puts := o.puts ++ written.map fun entry => (epoch, entry) },
              .error)) := by
  obtain ⟨written, hput, hwritten, hfails⟩ := putMany_eq
    { o with
      broker := setOffsets o.broker entries
      brokerCommits := o.brokerCommits ++ [(epoch, entries)] }
    epoch entries outcome.attempts
  refine ⟨written, hwritten, ?_⟩
  simp only [commitPosition, haccepts, if_true]
  revert hput hfails
  generalize putMany _ epoch entries outcome.attempts = result
  obtain ⟨saved, ok⟩ := result
  rintro rfl hfails
  cases ok with
  | true => exact .inl ⟨by simpa using hfails, rfl⟩
  | false => exact .inr ⟨hfails.mp rfl, rfl⟩

/-- The ways in which the commit of a finalized epoch can end. -/
inductive Finalized (o : OffsetStore) (epoch : CheckpointEpoch)
    (outcome : CommitOutcome) : OffsetStore → CommitResult → Prop where
  | unrecorded (hfind : o.consumerOffsets.find? epoch = none) :
      Finalized o epoch outcome
        { o with finalized := o.finalized ++ [epoch] } .covered
  | alreadyCommitted (position : TopicPartitionList)
      (hfind : o.consumerOffsets.find? epoch = some position)
      (hsame : o.committedOffsets.any (sameOffsets position) = true) :
      Finalized o epoch outcome
        { o with
          finalized := o.finalized ++ [epoch]
          consumerOffsets := o.consumerOffsets.remove epoch }
        .covered
  | nothingValid (position : TopicPartitionList)
      (hfind : o.consumerOffsets.find? epoch = some position)
      (hvalid : validOffsets position = []) :
      Finalized o epoch outcome
        { o with
          finalized := o.finalized ++ [epoch]
          consumerOffsets := o.consumerOffsets.remove epoch }
        .covered
  | refused (position : TopicPartitionList)
      (hfind : o.consumerOffsets.find? epoch = some position)
      (hrefused : outcome.brokerAccepts = false) :
      Finalized o epoch outcome
        { o with
          finalized := o.finalized ++ [epoch]
          consumerOffsets := o.consumerOffsets.remove epoch }
        .notCommitted
  | committed (position : TopicPartitionList)
      (hsaves : o.Saves epoch outcome position)
      (written : List (ℕ × ℕ))
      (hwritten : ∀ entry, entry ∈ written ↔
        outcome.Puts (validOffsets position) entry)
      (hsucceeds : ∃ attempt ∈ outcome.attempts,
        attempt.succeeds (validOffsets position) = true) :
      Finalized o epoch outcome
        { o with
          finalized := o.finalized ++ [epoch]
          broker := setOffsets o.broker (validOffsets position)
          brokerCommits :=
            o.brokerCommits ++ [(epoch, validOffsets position)]
          persisted := setOffsets o.persisted written
          puts := o.puts ++ written.map fun entry => (epoch, entry)
          committedOffsets := some
            ((validOffsets position).map fun entry =>
              (entry.1, some entry.2))
          consumerOffsets := o.consumerOffsets.remove epoch }
        .covered
  | unsaved (position : TopicPartitionList)
      (hsaves : o.Saves epoch outcome position)
      (written : List (ℕ × ℕ))
      (hwritten : ∀ entry, entry ∈ written ↔
        outcome.Puts (validOffsets position) entry)
      (hfails : ∀ attempt ∈ outcome.attempts,
        attempt.succeeds (validOffsets position) = false) :
      Finalized o epoch outcome
        { o with
          finalized := o.finalized ++ [epoch]
          broker := setOffsets o.broker (validOffsets position)
          brokerCommits :=
            o.brokerCommits ++ [(epoch, validOffsets position)]
          persisted := setOffsets o.persisted written
          puts := o.puts ++ written.map fun entry => (epoch, entry) }
        .error

theorem finalized_finalize
    (o : OffsetStore) (epoch : CheckpointEpoch) (outcome : CommitOutcome) :
    Finalized o epoch outcome (o.finalize epoch outcome).1
      (o.finalize epoch outcome).2 := by
  unfold finalize commitOffsetsForFinalizedEpoch
  split
  case h_1 hfind => exact .unrecorded hfind
  case h_2 position hfind =>
      have hfind : o.consumerOffsets.find? epoch = some position := hfind
      split
      case isTrue hsame => exact .alreadyCommitted position hfind hsame
      case isFalse hdifferent =>
          split
          case isTrue hvalid => exact .nothingValid position hfind hvalid
          case isFalse hvalid =>
              by_cases haccepts : outcome.brokerAccepts = true
              · have hsaves : o.Saves epoch outcome position :=
                  ⟨hfind, eq_false_of_ne_true hdifferent, hvalid, haccepts⟩
                obtain ⟨written, hwritten,
                    ⟨hsucceeds, hcommit⟩ | ⟨hfails, hcommit⟩⟩ :=
                  commitPosition_of_accepts
                    { o with finalized := o.finalized ++ [epoch] } epoch
                    (validOffsets position) haccepts
                · rw [hcommit]
                  exact .committed position hsaves written hwritten hsucceeds
                · rw [hcommit]
                  exact .unsaved position hsaves written hwritten hfails
              · rw [commitPosition, if_neg haccepts]
                exact .refused position hfind (by simpa using haccepts)

theorem Finalized.find?_of_find?
    {o o' : OffsetStore} {epoch : CheckpointEpoch} {outcome : CommitOutcome}
    {result : CommitResult} (h : Finalized o epoch outcome o' result)
    {e : CheckpointEpoch} {position : TopicPartitionList}
    (hfind : o'.consumerOffsets.find? e = some position) :
    o.consumerOffsets.find? e = some position := by
  cases h with
  | unrecorded | unsaved => exact hfind
  | alreadyCommitted | nothingValid | refused | committed =>
      exact (OrderedMap.find?_retain_eq_some_iff.mp hfind).1

theorem Finalized.unchanged_of_refused
    {o o' : OffsetStore} {epoch : CheckpointEpoch} {outcome : CommitOutcome}
    {result : CommitResult} (h : Finalized o epoch outcome o' result)
    (hrefused : outcome.brokerAccepts = false) :
    o'.broker = o.broker ∧ o'.persisted = o.persisted := by
  cases h with
  | unrecorded | alreadyCommitted | nothingValid | refused =>
      exact ⟨rfl, rfl⟩
  | committed position hsaves | unsaved position hsaves =>
      exact absurd (hrefused.symm.trans hsaves.accepted) (by simp)

theorem Finalized.persisted_of_unsaved
    {o o' : OffsetStore} {epoch : CheckpointEpoch} {outcome : CommitOutcome}
    {result : CommitResult} (h : Finalized o epoch outcome o' result)
    (hunsaved : ∀ position, ¬ o.Saves epoch outcome position) :
    o'.persisted = o.persisted := by
  cases h with
  | unrecorded | alreadyCommitted | nothingValid | refused => rfl
  | committed position hsaves | unsaved position hsaves =>
      exact absurd hsaves (hunsaved position)

/-- A commit that gets to saving its position ends in one of two ways. -/
theorem Finalized.saved
    {o o' : OffsetStore} {epoch : CheckpointEpoch} {outcome : CommitOutcome}
    {result : CommitResult} (h : Finalized o epoch outcome o' result)
    {position : TopicPartitionList} (hsaves : o.Saves epoch outcome position) :
    ∃ written : List (ℕ × ℕ),
      (∀ entry, entry ∈ written ↔
        outcome.Puts (validOffsets position) entry) ∧
      o'.persisted = setOffsets o.persisted written ∧
      (result = .error ↔ ∀ attempt ∈ outcome.attempts,
        attempt.succeeds (validOffsets position) = false) := by
  cases h with
  | unrecorded hfind =>
      exact absurd (hfind.symm.trans hsaves.recorded) (by simp)
  | alreadyCommitted found hfind hsame =>
      obtain rfl := Option.some.inj (hfind.symm.trans hsaves.recorded)
      exact absurd (hsame.symm.trans hsaves.different) (by simp)
  | nothingValid found hfind hvalid =>
      obtain rfl := Option.some.inj (hfind.symm.trans hsaves.recorded)
      exact absurd hvalid hsaves.valid
  | refused found hfind hrefused =>
      exact absurd (hrefused.symm.trans hsaves.accepted) (by simp)
  | committed found hfound written hwritten hsucceeds =>
      obtain rfl :=
        Option.some.inj (hfound.recorded.symm.trans hsaves.recorded)
      obtain ⟨attempt, hattempt, hsucceeds⟩ := hsucceeds
      refine ⟨written, hwritten, rfl, by simp, fun hfails => ?_⟩
      simp [hfails attempt hattempt] at hsucceeds
  | unsaved found hfound written hwritten hfails =>
      obtain rfl :=
        Option.some.inj (hfound.recorded.symm.trans hsaves.recorded)
      exact ⟨written, hwritten, rfl, fun _ => hfails, fun _ => rfl⟩

end OffsetStore

namespace SourceRun

/-- The instance has ended, and commits nothing more. -/
def ended (s : SourceRun) : Bool :=
  decide (s.phase = .failed ∨ s.phase = .done)

/-- What a step does to the offsets. -/
inductive OffsetsStep (s : SourceRun) (action : Action) (s' : SourceRun) :
    Prop where
  | keeps (hfinalizes : s.finalizes action = none)
      (hoffsets : s'.offsets = s.offsets)
      (hrecordings : s'.recordings = s.recordings)
  | records (epoch : CheckpointEpoch)
      (hfinalizes : s.finalizes action = none)
      (hoffsets : s'.offsets = s.offsets.record epoch s.consumerPosition)
      (hrecords : s.records action = some epoch)
      (hrecordings : s'.recordings = s.recordings ++
        [⟨epoch, s.consumerPosition, s.built.length⟩])
  | finalizes (epoch : CheckpointEpoch) (outcome : CommitOutcome)
      (hfinalizes : s.finalizes action = some (epoch, outcome))
      (hoffsets : s'.offsets = (s.offsets.finalize epoch outcome).1)
      (hrecordings : s'.recordings = s.recordings)
      (herror : (s.offsets.finalize epoch outcome).2 = .error →
        s'.ended = true)

theorem offsetsStep_of_processMessage
    {s s' : SourceRun} {positionOk : Bool} {outcome : CommitOutcome}
    (h : s.processMessage positionOk outcome = some s') :
    OffsetsStep s (.processMessage positionOk outcome) s' := by
  unfold processMessage at h
  split at h
  case h_1 batch message rest hs =>
      cases message with
      | marker epoch createdAtMs =>
          obtain rfl := Option.some.inj h
          have hfinalizes : s.finalizes (.processMessage positionOk outcome) =
              none := by simp [finalizes, hs]
          cases positionOk with
          | false => exact .keeps hfinalizes rfl rfl
          | true =>
              exact .records epoch hfinalizes rfl (by simp [records, hs]) rfl
      | finalizer epoch =>
          have hfinalizes : s.finalizes (.processMessage positionOk outcome) =
              some (epoch, outcome) := by simp [finalizes, hs]
          simp only at h
          split at h
          case h_1 offsets hcommit =>
              obtain rfl := Option.some.inj h
              exact .finalizes epoch outcome hfinalizes (by simp [hcommit])
                rfl (fun _ => by simp [ended])
          case h_2 offsets result herror hcommit =>
              obtain rfl := Option.some.inj h
              refine .finalizes epoch outcome hfinalizes (by simp [hcommit])
                rfl fun hresult => ?_
              rw [hcommit] at hresult
              exact absurd hresult herror
      | ack | sourceComplete =>
          obtain rfl := Option.some.inj h
          exact .keeps (by simp [finalizes, hs]) rfl rfl
  case h_2 batch hs =>
      obtain rfl := Option.some.inj h
      exact .keeps (by simp [finalizes, hs]) rfl rfl
  case h_3 => exact absurd h (by simp)

theorem offsetsStep_of_step
    {s s' : SourceRun} {action : Action} (h : s.step action = some s') :
    OffsetsStep s action s' := by
  cases action with
  | processMessage positionOk outcome =>
      exact offsetsStep_of_processMessage h
  | beginTerminal terminal createdAtMs positionOk =>
      simp only [step, beginTerminal] at h
      split at h
      case h_1 graceful hs =>
          split at h
          case isTrue hgraceful =>
              split at h
              · exact absurd h (by simp)
              · obtain rfl := Option.some.inj h
                cases positionOk with
                | false => exact .keeps rfl rfl rfl
                | true =>
                    exact .records terminal rfl rfl
                      (by simp_all [records]) rfl
          case isFalse =>
              obtain rfl := Option.some.inj h
              exact .keeps rfl rfl rfl
      case h_2 => exact absurd h (by simp)
  | terminalFinalized outcome =>
      simp only [step, terminalFinalized] at h
      split at h
      case h_1 terminal hs =>
          obtain rfl := Option.some.inj h
          exact .finalizes terminal outcome (by simp [finalizes, hs]) rfl rfl
            (fun _ => by simp [ended])
      case h_2 => exact absurd h (by simp)
  | broadcast message =>
      obtain ⟨-, rfl⟩ := eq_of_broadcast h
      exact .keeps rfl rfl rfl
  | dropReceiver | enterIteration | consume | decodeError | convertError
  | closeBatch | receive | send | flush | terminalTimeout =>
      simp only [step, enterIteration, consume, decodeError, closeBatch,
        receive, send, flush] at h
      repeat' split at h
      all_goals
        first
          | obtain rfl := Option.some.inj h
            exact .keeps rfl rfl rfl
          | simp at h

theorem ended_step
    {s s' : SourceRun} {action : Action} (hs : s.ended = true)
    (h : s.step action = some s') : s'.ended = true := by
  have hphase : s.phase = .failed ∨ s.phase = .done := of_decide_eq_true hs
  cases action with
  | broadcast message =>
      obtain ⟨-, rfl⟩ := eq_of_broadcast h
      exact hs
  | dropReceiver =>
      obtain rfl := Option.some.inj h
      exact hs
  | enterIteration | consume | decodeError | convertError | closeBatch
  | receive | processMessage | send | beginTerminal | flush
  | terminalFinalized | terminalTimeout =>
      rcases hphase with hphase | hphase <;>
        simp [step, enterIteration, consume, decodeError, closeBatch,
          receive, processMessage, send, beginTerminal, flush,
          terminalFinalized, hphase] at h

/-! ## The invariant -/

/-- What is known of the offsets committed and kept. -/
structure Committing (s : SourceRun) : Prop where
  pending : ∀ epoch position,
    s.offsets.consumerOffsets.find? epoch = some position →
      (epoch, position) ∈ s.recorded
  positions : ∀ epoch position, (epoch, position) ∈ s.recorded →
    ∃ messages, (∀ m ∈ messages, m ∈ s.consumed) ∧
      position = positionAfter s.config.assigned messages
  recorded : CommitsRecorded s
  /-- The position last committed is in place, unless it is the one sought on
  startup. -/
  committed : s.ended = false → ∀ position,
    s.offsets.committedOffsets = some position →
      (position = s.config.sought ∧ position ≠ []) ∨
        ∀ entry ∈ validOffsets position,
          s.offsets.broker entry.1 = some entry.2 ∧
            s.offsets.persisted entry.1 = some entry.2

theorem committing_start (config : SourceConfig) :
    Committing (start config) where
  pending := by simp [start, OffsetStore.start]
  positions := by simp [start, SourceRun.recorded]
  recorded :=
    ⟨by simp [start, OffsetStore.start], by simp [start, OffsetStore.start],
      rfl, rfl⟩
  committed := by
    intro _ position hposition
    simp only [start, OffsetStore.start] at hposition
    split at hposition
    · exact absurd hposition (by simp)
    case isFalse hsought =>
        obtain rfl := Option.some.inj hposition
        exact .inl ⟨rfl, hsought⟩

/-- A recorded position is not the one sought on startup, so a position found
to be committed already is in place. -/
theorem Committing.inPlace_of_same
    {s : SourceRun} (hs : Committing s) (hconsuming : Consuming s)
    (hended : s.ended = false) {epoch : CheckpointEpoch}
    {position : TopicPartitionList} (hmem : (epoch, position) ∈ s.recorded)
    (hsame : s.offsets.committedOffsets.any (sameOffsets position) = true) :
    ∀ entry ∈ validOffsets position,
      s.offsets.broker entry.1 = some entry.2 ∧
        s.offsets.persisted entry.1 = some entry.2 := by
  obtain ⟨last, hlast, hsame⟩ :=
    (Option.any_eq_true _ _).mp hsame
  rcases hs.committed hended last hlast with ⟨rfl, hsought⟩ | hplace
  · obtain ⟨messages, hmessages, rfl⟩ := hs.positions epoch position hmem
    have hnot := not_sameOffsets_sought
      (fun m hm => hconsuming.fromStart m (hmessages m hm)) hsought
    simp [hnot] at hsame
  · intro entry hentry
    exact hplace entry (mem_validOffsets.mpr
      (mem_of_sameOffsets hsame (mem_validOffsets.mp hentry)))

theorem Stepped.config_eq
    {s s' : SourceRun} (h : Stepped s s') : s'.config = s.config := by
  cases h with
  | marks batch epoch createdAtMs rest positionOk => cases positionOk <;> rfl
  | terminates terminal createdAtMs positionOk => cases positionOk <;> rfl
  | _ => rfl

theorem Stepped.consumed_subset
    {s s' : SourceRun} (h : Stepped s s') : s.consumed ⊆ s'.consumed := by
  cases h with
  | consumes | failsDecoding => exact List.subset_append_left _ _
  | marks batch epoch createdAtMs rest positionOk =>
      cases positionOk <;> exact List.Subset.refl _
  | terminates terminal createdAtMs positionOk =>
      cases positionOk <;> exact List.Subset.refl _
  | _ => exact List.Subset.refl _

/-- A finalized epoch adds at most one broker commit, and puts of its
entries. -/
theorem CommitsRecorded.extend
    {s s' : SourceRun} (hs : CommitsRecorded s) (epoch : CheckpointEpoch)
    (new : List (CheckpointEpoch × List (ℕ × ℕ))) (written : List (ℕ × ℕ))
    (hconfig : s'.config = s.config) (hrecorded : s'.recorded = s.recorded)
    (hfinalized : s'.offsets.finalized = s.offsets.finalized ++ [epoch])
    (hcommits : s'.offsets.brokerCommits = s.offsets.brokerCommits ++ new)
    (hnew : ∀ commit ∈ new, commit.1 = epoch ∧
      ∃ position, (epoch, position) ∈ s.recorded ∧
        commit.2 = validOffsets position)
    (hputs : s'.offsets.puts =
      s.offsets.puts ++ written.map fun entry => (epoch, entry))
    (hwritten : ∀ entry ∈ written, ∃ commit ∈ new, entry ∈ commit.2)
    (hbroker : s'.offsets.broker =
      setOffsets s.offsets.broker (new.flatMap Prod.snd))
    (hpersisted : s'.offsets.persisted =
      setOffsets s.offsets.persisted written) : CommitsRecorded s' where
  commits := by
    rw [hcommits, hfinalized, hrecorded]
    intro e entries hmem
    rcases List.mem_append.mp hmem with hmem | hmem
    · obtain ⟨hfinal, hposition⟩ := hs.commits e entries hmem
      exact ⟨List.mem_append_left _ hfinal, hposition⟩
    · obtain ⟨rfl, hposition⟩ := hnew _ hmem
      exact ⟨by simp, hposition⟩
  puts := by
    rw [hputs, hcommits]
    intro e entry hmem
    rcases List.mem_append.mp hmem with hmem | hmem
    · obtain ⟨entries, hentries, hentry⟩ := hs.puts e entry hmem
      exact ⟨entries, List.mem_append_left _ hentries, hentry⟩
    · obtain ⟨_, hentry, heq⟩ := List.mem_map.mp hmem
      obtain ⟨rfl, rfl⟩ := Prod.mk.inj heq
      obtain ⟨commit, hcommit, hmem⟩ := hwritten _ hentry
      refine ⟨commit.2, List.mem_append_right _ ?_, hmem⟩
      rwa [← (hnew commit hcommit).1]
  broker := by
    rw [hbroker, hcommits, hconfig, hs.broker, List.flatMap_append,
      setOffsets_append]
  persisted := by
    rw [hpersisted, hputs, hconfig, hs.persisted, List.map_append,
      setOffsets_append]
    simp

/-- The offsets after the commit of a finalized epoch. -/
theorem Committing.commitsRecorded_finalized
    {s s' : SourceRun} (hs : Committing s) {epoch : CheckpointEpoch}
    {outcome : CommitOutcome} {result : CommitResult} {o : OffsetStore}
    (hconfig : s'.config = s.config) (hrecorded : s'.recorded = s.recorded)
    (hoffsets : s'.offsets = o)
    (h : OffsetStore.Finalized s.offsets epoch outcome o result) :
    CommitsRecorded s' := by
  cases h with
  | unrecorded | alreadyCommitted | nothingValid | refused =>
      exact hs.recorded.extend epoch [] [] hconfig hrecorded
        (by simp [hoffsets]) (by simp [hoffsets]) (by simp)
        (by simp [hoffsets]) (by simp) (by simp [hoffsets, setOffsets])
        (by simp [hoffsets, setOffsets])
  | committed position hsaves written hwritten
  | unsaved position hsaves written hwritten =>
      have hmem : ∀ entry ∈ written, entry ∈ validOffsets position :=
        fun entry hentry => ((hwritten entry).mp hentry).mem
      exact hs.recorded.extend epoch [(epoch, validOffsets position)]
        written hconfig hrecorded
        (by simp [hoffsets]) (by rw [hoffsets])
        (by simpa using ⟨position, hs.pending _ _ hsaves.recorded, rfl⟩)
        (by simp [hoffsets]) (by simpa using hmem)
        (by simp [hoffsets]) (by simp [hoffsets])

/-- The entries of a recorded position agree with each other. -/
theorem Committing.entries_agree
    {s : SourceRun} (hs : Committing s) {epoch : CheckpointEpoch}
    {position : TopicPartitionList}
    (hfind : s.offsets.consumerOffsets.find? epoch = some position)
    {entries : List (ℕ × ℕ)}
    (hentries : ∀ entry ∈ entries, entry ∈ validOffsets position) :
    ∀ a ∈ entries, ∀ b ∈ entries, a.1 = b.1 → a = b := by
  obtain ⟨messages, -, rfl⟩ :=
    hs.positions epoch position (hs.pending epoch position hfind)
  intro a ha b hb
  exact validOffsets_positionAfter_agree _ messages a (hentries a ha) b
    (hentries b hb)

/-- A position whose save succeeded is in place. -/
theorem Committing.inPlace_of_written
    {s : SourceRun} (hs : Committing s) {epoch : CheckpointEpoch}
    {outcome : CommitOutcome} {position : TopicPartitionList}
    (hfind : s.offsets.consumerOffsets.find? epoch = some position)
    {written : List (ℕ × ℕ)}
    (hwritten : ∀ entry, entry ∈ written ↔
      outcome.Puts (validOffsets position) entry)
    (hsucceeds : ∃ attempt ∈ outcome.attempts,
      attempt.succeeds (validOffsets position) = true) :
    ∀ entry ∈ validOffsets position,
      setOffsets s.offsets.broker (validOffsets position) entry.1 =
          some entry.2 ∧
        setOffsets s.offsets.persisted written entry.1 = some entry.2 := by
  intro entry hentry
  obtain ⟨attempt, hattempt, hsucceeds⟩ := hsucceeds
  refine ⟨setOffsets_of_mem _ (hs.entries_agree hfind fun _ h => h) hentry,
    setOffsets_of_mem _ (hs.entries_agree hfind fun entry hentry =>
      ((hwritten entry).mp hentry).mem) ?_⟩
  exact (hwritten entry).mpr
    (CommitOutcome.puts_of_succeeds hattempt hsucceeds hentry)

/-- After a commit that saved its position, that position is in place. -/
theorem Committing.committed_finalized
    {s : SourceRun} (hs : Committing s) (hended : s.ended = false)
    {epoch : CheckpointEpoch} {outcome : CommitOutcome}
    {result : CommitResult} {o : OffsetStore}
    (h : OffsetStore.Finalized s.offsets epoch outcome o result)
    (hresult : result ≠ .error) :
    ∀ position, o.committedOffsets = some position →
      (position = s.config.sought ∧ position ≠ []) ∨
        ∀ entry ∈ validOffsets position,
          o.broker entry.1 = some entry.2 ∧
            o.persisted entry.1 = some entry.2 := by
  cases h with
  | unrecorded | alreadyCommitted | nothingValid | refused =>
      exact hs.committed hended
  | committed position hsaves written hwritten hsucceeds =>
      intro last hlast
      obtain rfl := Option.some.inj hlast
      refine .inr fun entry hentry => ?_
      have hmem : entry ∈ validOffsets position := by
        simpa [mem_validOffsets] using hentry
      exact hs.inPlace_of_written hsaves.recorded hwritten hsucceeds entry hmem
  | unsaved => exact absurd rfl hresult

/-- A commit reported as covered leaves the recorded position in place. -/
theorem Committing.covered_finalized
    {s : SourceRun} (hs : Committing s) (hconsuming : Consuming s)
    (hended : s.ended = false)
    {epoch : CheckpointEpoch} {outcome : CommitOutcome}
    {result : CommitResult} {o : OffsetStore}
    (h : OffsetStore.Finalized s.offsets epoch outcome o result)
    {position : TopicPartitionList}
    (hposition : s.offsets.consumerOffsets.find? epoch = some position)
    (hcovered : result = .covered) :
    ∀ entry ∈ validOffsets position,
      o.broker entry.1 = some entry.2 ∧
        o.persisted entry.1 = some entry.2 := by
  cases h with
  | unrecorded hfind => simp [hfind] at hposition
  | alreadyCommitted found hfind hsame =>
      obtain rfl := Option.some.inj (hfind.symm.trans hposition)
      exact hs.inPlace_of_same hconsuming hended (hs.pending _ _ hfind) hsame
  | nothingValid found hfind hvalid =>
      obtain rfl := Option.some.inj (hfind.symm.trans hposition)
      simp [hvalid]
  | refused => exact absurd hcovered (by simp)
  | committed found hsaves written hwritten hsucceeds =>
      obtain rfl := Option.some.inj (hsaves.recorded.symm.trans hposition)
      exact hs.inPlace_of_written hsaves.recorded hwritten hsucceeds
  | unsaved => exact absurd hcovered (by simp)

/-- A save, failed or not, changes the offsets that were put, and no
others. -/
theorem Committing.perPartition_finalized
    {s : SourceRun} (hs : Committing s)
    {epoch : CheckpointEpoch} {outcome : CommitOutcome}
    {result : CommitResult} {o : OffsetStore}
    (h : OffsetStore.Finalized s.offsets epoch outcome o result)
    {position : TopicPartitionList}
    (hsaves : s.offsets.Saves epoch outcome position) (partition : ℕ) :
    (∀ next, (partition, next) ∈ validOffsets position →
      outcome.Puts (validOffsets position) (partition, next) →
        o.persisted partition = some next) ∧
    ((∀ next, (partition, next) ∈ validOffsets position →
      ¬ outcome.Puts (validOffsets position) (partition, next)) →
        o.persisted partition = s.offsets.persisted partition) := by
  obtain ⟨written, hwritten, hpersisted, -⟩ := h.saved hsaves
  have hmem (entry : ℕ × ℕ) (hentry : entry ∈ written) :
      entry ∈ validOffsets position := ((hwritten entry).mp hentry).mem
  rw [hpersisted]
  constructor
  · intro next _ hputs
    exact setOffsets_of_mem _ (hs.entries_agree hsaves.recorded hmem)
      ((hwritten _).mpr hputs)
  · intro hnone
    refine setOffsets_of_not_mem _ fun hpartition => ?_
    obtain ⟨⟨p, next⟩, hentry, rfl⟩ := List.mem_map.mp hpartition
    exact hnone next (hmem _ hentry) ((hwritten _).mp hentry)

theorem Committing.step
    {s s' : SourceRun} {action : Action} (hs : Committing s)
    (hconsuming : Consuming s) (h : s.step action = some s') :
    Committing s' := by
  have hstepped := stepped_of_step h
  have hconfig := hstepped.config_eq
  have hended (hs' : s'.ended = false) : s.ended = false := by
    by_contra hs
    simp [ended_step (eq_true_of_ne_false hs) h] at hs'
  have hold (epoch : CheckpointEpoch) (position : TopicPartitionList)
      (hmem : (epoch, position) ∈ s.recorded) :
      ∃ messages, (∀ m ∈ messages, m ∈ s'.consumed) ∧
        position = positionAfter s'.config.assigned messages := by
    obtain ⟨messages, hmessages, hposition⟩ := hs.positions epoch _ hmem
    exact ⟨messages, fun m hm => hstepped.consumed_subset (hmessages m hm),
      by rw [hconfig, hposition]⟩
  cases offsetsStep_of_step h with
  | keeps hfinalizes hoffsets hrecordings =>
      have hrecorded : s'.recorded = s.recorded := by
        simp [SourceRun.recorded, hrecordings]
      refine ⟨?_, ?_, ?_, ?_⟩
      · rw [hoffsets, hrecorded]
        exact hs.pending
      · rw [hrecorded]
        exact hold
      · refine ⟨?_, ?_, ?_, ?_⟩
        · rw [hoffsets, hrecorded]
          exact hs.recorded.commits
        · rw [hoffsets]
          exact hs.recorded.puts
        · rw [hoffsets, hconfig]
          exact hs.recorded.broker
        · rw [hoffsets, hconfig]
          exact hs.recorded.persisted
      · rw [hoffsets, hconfig]
        exact fun h => hs.committed (hended h)
  | records epoch hfinalizes hoffsets hrecords hrecordings =>
      have hrecorded : s'.recorded =
          s.recorded ++ [(epoch, s.consumerPosition)] := by
        simp [SourceRun.recorded, hrecordings]
      refine ⟨?_, ?_, ?_, ?_⟩
      · rw [hoffsets, hrecorded]
        intro e position hfind
        rw [OffsetStore.record, OrderedMap.find?_insert] at hfind
        split at hfind
        case isTrue heq =>
            subst heq
            simp [Option.some.inj hfind]
        case isFalse => exact List.mem_append_left _ (hs.pending e _ hfind)
      · rw [hrecorded]
        intro e position hmem
        rcases List.mem_append.mp hmem with hmem | hmem
        · exact hold e position hmem
        · obtain ⟨rfl, rfl⟩ := Prod.mk.inj (List.mem_singleton.mp hmem)
          exact ⟨s.consumed, fun m hm => hstepped.consumed_subset hm,
            by rw [hconfig, hconsuming.consumerPosition_eq]⟩
      · refine ⟨?_, ?_, ?_, ?_⟩
        · rw [hoffsets, hrecorded]
          intro e entries hmem
          obtain ⟨hfinal, position, hposition, heq⟩ :=
            hs.recorded.commits e entries hmem
          exact ⟨hfinal, position, List.mem_append_left _ hposition, heq⟩
        · rw [hoffsets]
          exact hs.recorded.puts
        · rw [hoffsets, hconfig]
          exact hs.recorded.broker
        · rw [hoffsets, hconfig]
          exact hs.recorded.persisted
      · rw [hoffsets, hconfig]
        exact fun h => hs.committed (hended h)
  | finalizes epoch outcome hfinalizes hoffsets hrecordings herror =>
      have hfinalized := s.offsets.finalized_finalize epoch outcome
      have hrecorded : s'.recorded = s.recorded := by
        simp [SourceRun.recorded, hrecordings]
      refine ⟨?_, by rw [hrecorded]; exact hold,
        hs.commitsRecorded_finalized hconfig hrecorded hoffsets hfinalized, ?_⟩
      · rw [hoffsets, hrecorded]
        exact fun e position hfind =>
          hs.pending e position (hfinalized.find?_of_find? hfind)
      · intro hs'
        rw [hoffsets, hconfig]
        refine hs.committed_finalized (hended hs') hfinalized fun hresult => ?_
        simp [herror hresult] at hs'

/-- An instance that commits has not ended. -/
theorem ended_eq_false_of_finalizes
    {s : SourceRun} {action : Action} {epoch : CheckpointEpoch}
    {outcome : CommitOutcome}
    (h : s.finalizes action = some (epoch, outcome)) : s.ended = false := by
  rw [ended, decide_eq_false_iff_not]
  rintro (hphase | hphase) <;> cases action <;>
    simp [finalizes, hphase] at h

theorem Committing.commitStep
    {s s' : SourceRun} {action : Action} (hs : Committing s)
    (hconsuming : Consuming s) (h : s.step action = some s') :
    CommitStep s action s' := by
  cases offsetsStep_of_step h with
  | keeps hfinalizes hoffsets =>
      refine ⟨fun _ => ?_, ?_, ?_, ?_, ?_, ?_⟩
      · rw [hoffsets]
        exact ⟨rfl, rfl⟩
      all_goals simp [hfinalizes]
  | records epoch hfinalizes hoffsets =>
      refine ⟨fun _ => ?_, ?_, ?_, ?_, ?_, ?_⟩
      · rw [hoffsets]
        exact ⟨rfl, rfl⟩
      all_goals simp [hfinalizes]
  | finalizes epoch outcome hfinalizes hoffsets =>
      have hended := ended_eq_false_of_finalizes hfinalizes
      have hfinalized := s.offsets.finalized_finalize epoch outcome
      have hepoch {e : CheckpointEpoch} {out : CommitOutcome}
          (heq : s.finalizes action = some (e, out)) :
          epoch = e ∧ outcome = out := by
        rw [hfinalizes] at heq
        exact Prod.mk.inj (Option.some.inj heq)
      refine ⟨by simp [hfinalizes], ?_, ?_, ?_, ?_, ?_⟩
      · intro e out heq position hfind hcovered
        obtain ⟨rfl, rfl⟩ := hepoch heq
        rw [hoffsets]
        exact hs.covered_finalized hconsuming hended hfinalized hfind hcovered
      · intro e out heq hrefused
        obtain ⟨rfl, rfl⟩ := hepoch heq
        rw [hoffsets]
        exact hfinalized.unchanged_of_refused hrefused
      · intro e out heq hunsaved
        obtain ⟨rfl, rfl⟩ := hepoch heq
        rw [hoffsets]
        exact hfinalized.persisted_of_unsaved hunsaved
      · intro e out heq position hsaves
        obtain ⟨rfl, rfl⟩ := hepoch heq
        obtain ⟨-, -, -, hfails⟩ := hfinalized.saved hsaves
        exact hfails
      · intro e out heq position hsaves partition
        obtain ⟨rfl, rfl⟩ := hepoch heq
        rw [hoffsets]
        exact hs.perPartition_finalized hfinalized hsaves partition

end SourceRun

/-- The checkpoint cut of the Kafka source.  In every state of every run, a
recorded position covers exactly the batches sent before the one that carries
the marker; every message consumed is in one batch once the loop is left;
offsets are committed for finalized epochs only, as recorded; and a step
changes the persisted offset of a partition only to the recorded one, where
an attempt to save put it. -/
theorem kafka_source_checkpoint_cut
    (config : SourceConfig) (actions : List SourceRun.Action)
    (s : SourceRun)
    (hrun : Transition.run SourceRun.step (SourceRun.start config) actions =
      some s) :
    s.CutHolds ∧ s.InOneBatch ∧ s.CommitsRecorded ∧
      ∀ action s', s.step action = some s' →
        SourceRun.CommitStep s action s' := by
  have hinv : SourceRun.Inv s ∧ SourceRun.Committing s := by
    refine Transition.run_invariant
      (fun s action s' (hs : SourceRun.Inv s ∧ SourceRun.Committing s) h =>
        ⟨SourceRun.inv_step s action s' hs.1 h,
          hs.2.step hs.1.consuming h⟩)
      ⟨SourceRun.inv_start config, SourceRun.committing_start config⟩ hrun
  exact ⟨hinv.1.cutHolds, hinv.1.inOneBatch, hinv.2.recorded,
    fun _ _ h => hinv.2.commitStep hinv.1.consuming h⟩

/-- Two batches, a periodic epoch committed between them, with an attempt that
writes nothing and one whose answer is lost, and the terminal epoch after a
graceful exit. -/
theorem kafka_source_checkpoint_cut_two_batches :
    ∃ s, Transition.run SourceRun.step
        (SourceRun.start
          { assigned := [0]
            assigned_nodup := by decide
            batchSizeLimit := 10
            startOffset := fun _ => 0
            broker := fun _ => none
            persisted := fun _ => none
            seek := by simp
            checkpointControl := true })
        [.enterIteration false, .consume ⟨0, 0⟩, .broadcast (.marker 1 5),
          .closeBatch false, .receive, .receive,
          .processMessage true ⟨true, []⟩, .processMessage true ⟨true, []⟩,
          .send, .enterIteration false, .consume ⟨0, 1⟩,
          .broadcast (.finalizer 1), .closeBatch true, .receive, .receive,
          .processMessage true
            ⟨true, [⟨0, true⟩, ⟨1, false⟩, ⟨1, true⟩]⟩,
          .processMessage true ⟨true, []⟩, .send, .enterIteration false,
          .beginTerminal 2 9 true, .flush,
          .terminalFinalized ⟨true, [⟨1, true⟩]⟩] = some s ∧
      (s.sent = [⟨[⟨0, 0⟩], []⟩, ⟨[⟨0, 1⟩], [.marker 1 5]⟩,
          ⟨[], [.finalizer 1, .marker 2 9]⟩] ∧
        s.offsets.brokerCommits = [(1, [(0, 1)]), (2, [(0, 2)])] ∧
        s.offsets.persisted 0 = some 2) ∧
      s.CutHolds ∧ s.InOneBatch ∧ s.CommitsRecorded := by
  refine Exists.imp (fun s (h : _ ∧ _) => ⟨h.1, h.2, ?_⟩)
    (Transition.exists_run_of_decide ?_)
  · obtain ⟨hcut, hbatch, hcommits, -⟩ :=
      kafka_source_checkpoint_cut _ _ s h.1
    exact ⟨hcut, hbatch, hcommits⟩
  · decide +kernel

def twoPartitions : SourceConfig where
  assigned := [0, 1]
  assigned_nodup := by decide
  batchSizeLimit := 10
  startOffset := fun _ => 0
  broker := fun _ => none
  persisted := fun _ => none
  seek := by simp
  checkpointControl := true

/-- A message of each partition, a marker and its finalizer. -/
def untilFinalizer : List SourceRun.Action :=
  [.enterIteration false, .consume ⟨0, 0⟩, .consume ⟨1, 0⟩,
    .broadcast (.marker 1 5), .closeBatch false, .receive, .receive,
    .processMessage true ⟨true, []⟩, .processMessage true ⟨true, []⟩, .send,
    .enterIteration false, .broadcast (.finalizer 1), .closeBatch false,
    .receive, .receive]

/-- One attempt, which writes the first entry only. -/
def firstEntryWritten : CommitOutcome :=
  ⟨true, [⟨1, true⟩]⟩

/-- The commit ends in an error, and the persisted offset of the first
partition has changed. -/
theorem kafka_failed_save_moves_partition :
    ∃ s s', Transition.run SourceRun.step (SourceRun.start twoPartitions)
        untilFinalizer = some s ∧
      s.step (.processMessage true firstEntryWritten) = some s' ∧
      s.finalizes (.processMessage true firstEntryWritten) =
        some (1, firstEntryWritten) ∧
      (s.offsets.finalize 1 firstEntryWritten).2 = .error ∧
      s.offsets.persisted 0 = none ∧ s'.offsets.persisted 0 = some 1 ∧
      s'.offsets.persisted 1 = none := by
  have hsome : ∃ s,
      Transition.run SourceRun.step (SourceRun.start twoPartitions)
          untilFinalizer = some s ∧
        (s.step (.processMessage true firstEntryWritten)).any (fun s' =>
          decide (s.finalizes (.processMessage true firstEntryWritten) =
              some (1, firstEntryWritten) ∧
            (s.offsets.finalize 1 firstEntryWritten).2 = .error ∧
            s.offsets.persisted 0 = none ∧
            s'.offsets.persisted 0 = some 1 ∧
            s'.offsets.persisted 1 = none)) = true :=
    Transition.exists_run_of_decide (by decide +kernel)
  obtain ⟨s, hrun, hstep⟩ := hsome
  obtain ⟨s', hstep, h⟩ := (Option.any_eq_true _ _).mp hstep
  exact ⟨s, s', hrun, hstep, of_decide_eq_true h⟩

end Kafka

end Streamling
