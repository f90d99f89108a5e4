import Mathlib
import Streamling.Sources.Kafka

/-!
# The startup of the Kafka source

The consumer gets its assignment by polling, and the poll may return a
message, which is dropped; the positions are sought afterwards.  If any
assigned partition has a persisted offset, only those that have one are
sought; otherwise all are sought to the configured start.

A partition is therefore left behind the dropped message exactly if the
message came from a partition without a persisted offset while another
partition has one.
-/

namespace Streamling

namespace Kafka

/-- What the startup finds: the assignment, the persisted offsets, the
configured start, and of each partition its messages, its bounds and the
position it is assigned at. -/
structure StartupConfig where
  assigned : List ℕ
  persisted : ℕ → Option ℕ
  startAt : Option String
  log : ℕ → List ℕ
  beginning : ℕ → ℕ
  end_ : ℕ → ℕ
  initial : ℕ → ℕ

namespace StartupConfig

/-- The next position of each partition. -/
abbrev Positions := ℕ → ℕ

/-- The offset of the message fetched next from a partition. -/
def nextMessage (config : StartupConfig) (position : Positions)
    (partition : ℕ) : Option ℕ :=
  (config.log partition).find? fun offset =>
    decide (position partition ≤ offset)

/-- The messages the consume loop will deliver of a partition. -/
def delivered (config : StartupConfig) (position : Positions)
    (partition : ℕ) : List ℕ :=
  (config.log partition).filter fun offset =>
    decide (position partition ≤ offset)

inductive StartupError where
  | cancelled
  | fetchingInitialMessage
  | streamEnded
  | assignmentTimedOut
  | seekFailed
  deriving DecidableEq, Repr

/-- One turn of the initial wait: the assignment is seen, a shutdown is, or
the consumer is polled, with one of five outcomes. -/
inductive PollRound where
  | assigned
  | shutdown
  | message (partition : ℕ)
  | fetchError
  | streamEnded
  | timeout
  | shutdownFlagChanged
  | shutdownSenderDropped
  deriving DecidableEq

/-- The loop of the initial wait.  `none`: it is still waiting, or a message
is fetched that is not there. -/
def waitForInitialAssignmentOrMessage (config : StartupConfig)
    (position : Positions) :
    List PollRound → Option (Except StartupError Positions)
  | [] => none
  | .assigned :: _ => some (.ok position)
  | .shutdown :: _ => some (.error .cancelled)
  | .message partition :: _ =>
      if partition ∈ config.assigned then
        (config.nextMessage position partition).map fun offset =>
          .ok (Function.update position partition (offset + 1))
      else none
  | .fetchError :: _ => some (.error .fetchingInitialMessage)
  | .streamEnded :: _ => some (.error .streamEnded)
  | .timeout :: rounds =>
      config.waitForInitialAssignmentOrMessage position rounds
  | .shutdownFlagChanged :: rounds =>
      config.waitForInitialAssignmentOrMessage position rounds
  | .shutdownSenderDropped :: _ => some (.error .cancelled)

/-- The offsets in the state backend of the assigned partitions. -/
def findOffsetsInStateBackend (config : StartupConfig) : List (ℕ × ℕ) :=
  config.assigned.filterMap fun partition =>
    (config.persisted partition).map fun offset => (partition, offset)

def seekPartitions (position : Positions) (targets : List (ℕ × ℕ)) :
    Positions :=
  targets.foldl
    (fun position target => Function.update position target.1 target.2)
    position

/-- What is sought: the persisted offsets if there are any, else the
configured start of every assigned partition. -/
def seekTargets (config : StartupConfig) : List (ℕ × ℕ) :=
  let found := config.findOffsetsInStateBackend
  if 0 < found.length then found
  else
    config.assigned.map fun partition =>
      (partition,
        if config.startAt = some "latest" then config.end_ partition
        else config.beginning partition)

/-- The startup up to the consume loop.  The wait for the assignment may time
out, and a seek may fail. -/
def startup (config : StartupConfig) (rounds : List PollRound)
    (assignmentTimesOut seekFails : Bool) :
    Option (Except StartupError Positions) :=
  (config.waitForInitialAssignmentOrMessage config.initial rounds).map
    fun polled => do
      let position ← polled
      if assignmentTimesOut then throw .assignmentTimedOut
      if seekFails then throw .seekFailed
      return seekPartitions position config.seekTargets

/-- The partition the initial poll dropped a message of. -/
def droppedFrom : List PollRound → Option ℕ
  | .message partition :: _ => some partition
  | .timeout :: rounds => droppedFrom rounds
  | .shutdownFlagChanged :: rounds => droppedFrom rounds
  | _ => none

/-! ## Positions after seeking -/

theorem seekPartitions_of_not_mem
    (position : Positions) {targets : List (ℕ × ℕ)} {partition : ℕ}
    (h : ∀ target ∈ targets, target.1 ≠ partition) :
    seekPartitions position targets partition = position partition := by
  unfold seekPartitions
  induction targets generalizing position with
  | nil => rfl
  | cons target targets ih =>
      rw [List.foldl_cons, ih _ fun t ht => h t (List.mem_cons_of_mem _ ht)]
      have hne := h target List.mem_cons_self
      exact Function.update_of_ne hne.symm _ _

/-- A partition all of whose targets agree is positioned there. -/
theorem seekPartitions_of_mem
    {position : Positions} {targets : List (ℕ × ℕ)} {partition offset : ℕ}
    (hmem : (partition, offset) ∈ targets)
    (hall : ∀ target ∈ targets, target.1 = partition →
      target.2 = offset) :
    seekPartitions position targets partition = offset := by
  unfold seekPartitions
  induction targets generalizing position with
  | nil => simp at hmem
  | cons target targets ih =>
      rw [List.foldl_cons]
      by_cases hlater : (partition, offset) ∈ targets
      · exact ih hlater fun t ht => hall t (List.mem_cons_of_mem _ ht)
      · -- the last target of the partition is this one
        obtain rfl : target = (partition, offset) := by
          rcases List.mem_cons.mp hmem with heq | hmem
          · exact heq.symm
          · exact absurd hmem hlater
        have hnot : ∀ t ∈ targets, t.1 ≠ partition := by
          intro t ht heq
          have hoffset := hall t (List.mem_cons_of_mem _ ht) heq
          apply hlater
          rw [← heq, ← hoffset]
          exact ht
        have hrest := seekPartitions_of_not_mem
          (Function.update position partition offset) hnot
        unfold seekPartitions at hrest
        rw [hrest, Function.update_self]

variable {config : StartupConfig}

theorem mem_findOffsetsInStateBackend {partition offset : ℕ} :
    (partition, offset) ∈ config.findOffsetsInStateBackend ↔
      partition ∈ config.assigned ∧
        config.persisted partition = some offset := by
  simp only [findOffsetsInStateBackend, List.mem_filterMap,
    Option.map_eq_some_iff]
  constructor
  · rintro ⟨p, hp, o, ho, heq⟩
    obtain ⟨rfl, rfl⟩ := Prod.mk.inj heq
    exact ⟨hp, ho⟩
  · rintro ⟨hp, ho⟩
    exact ⟨partition, hp, offset, ho, rfl⟩

theorem findOffsetsInStateBackend_pos_iff :
    0 < config.findOffsetsInStateBackend.length ↔
      ∃ q ∈ config.assigned, config.persisted q ≠ none := by
  rw [List.length_pos_iff_exists_mem]
  constructor
  · rintro ⟨⟨q, offset⟩, hmem⟩
    obtain ⟨hq, hoffset⟩ := mem_findOffsetsInStateBackend.mp hmem
    exact ⟨q, hq, by simp [hoffset]⟩
  · rintro ⟨q, hq, hne⟩
    obtain ⟨offset, hoffset⟩ := Option.ne_none_iff_exists'.mp hne
    exact ⟨(q, offset), mem_findOffsetsInStateBackend.mpr ⟨hq, hoffset⟩⟩

/-- A partition with a persisted offset is sought to it. -/
theorem seek_persisted
    (position : Positions) {partition offset : ℕ}
    (hassigned : partition ∈ config.assigned)
    (hoffset : config.persisted partition = some offset) :
    seekPartitions position config.seekTargets partition = offset := by
  have hmem : (partition, offset) ∈ config.findOffsetsInStateBackend :=
    mem_findOffsetsInStateBackend.mpr ⟨hassigned, hoffset⟩
  have hpos := List.length_pos_of_mem hmem
  have htargets : config.seekTargets = config.findOffsetsInStateBackend :=
    if_pos hpos
  rw [htargets]
  apply seekPartitions_of_mem hmem
  rintro ⟨p, o⟩ htarget rfl
  obtain ⟨-, ho⟩ := mem_findOffsetsInStateBackend.mp htarget
  exact Option.some.inj (ho.symm.trans hoffset)

/-- Without a persisted offset, a partition stays where it is if another one
has one. -/
theorem seek_of_mixed
    (position : Positions) {partition : ℕ}
    (hnone : config.persisted partition = none)
    (hsome : ∃ q ∈ config.assigned, config.persisted q ≠ none) :
    seekPartitions position config.seekTargets partition =
      position partition := by
  have htargets : config.seekTargets = config.findOffsetsInStateBackend :=
    if_pos (findOffsetsInStateBackend_pos_iff.mpr hsome)
  rw [htargets]
  apply seekPartitions_of_not_mem
  rintro ⟨p, o⟩ htarget rfl
  obtain ⟨-, ho⟩ := mem_findOffsetsInStateBackend.mp htarget
  simp [hnone] at ho

/-- Without any persisted offset, the result of the seek does not depend on
the position before. -/
theorem seek_of_none
    (position position' : Positions) {partition : ℕ}
    (hassigned : partition ∈ config.assigned)
    (hnone : ¬ ∃ q ∈ config.assigned, config.persisted q ≠ none) :
    seekPartitions position config.seekTargets partition =
      seekPartitions position' config.seekTargets partition := by
  have hmem : (partition, if config.startAt = some "latest" then
      config.end_ partition else config.beginning partition) ∈
      config.seekTargets := by
    rw [seekTargets, if_neg (fun h =>
      hnone (findOffsetsInStateBackend_pos_iff.mp h))]
    exact List.mem_map.mpr ⟨partition, hassigned, rfl⟩
  have hall : ∀ target ∈ config.seekTargets, target.1 = partition →
      target.2 = if config.startAt = some "latest" then
        config.end_ partition else config.beginning partition := by
    intro target htarget heq
    rw [seekTargets, if_neg (fun h =>
      hnone (findOffsetsInStateBackend_pos_iff.mp h))] at htarget
    obtain ⟨p, -, rfl⟩ := List.mem_map.mp htarget
    rw [← heq]
  rw [seekPartitions_of_mem hmem hall, seekPartitions_of_mem hmem hall]

/-! ## The initial poll -/

/-- The poll leaves the positions as they are, or moves one partition past
the message it dropped. -/
theorem waitForInitialAssignmentOrMessage_cases
    {rounds : List PollRound} {position position' : Positions}
    (h : config.waitForInitialAssignmentOrMessage position rounds =
      some (.ok position')) :
    (droppedFrom rounds = none ∧ position' = position) ∨
      ∃ partition offset, droppedFrom rounds = some partition ∧
        partition ∈ config.assigned ∧ position partition ≤ offset ∧
        position' = Function.update position partition (offset + 1) := by
  induction rounds with
  | nil => simp [waitForInitialAssignmentOrMessage] at h
  | cons round rounds ih =>
      cases round with
      | assigned =>
          left
          exact ⟨rfl, by
            simpa [waitForInitialAssignmentOrMessage] using h.symm⟩
      | message partition =>
          right
          simp only [waitForInitialAssignmentOrMessage] at h
          split at h
          · rename_i hassigned
            obtain ⟨offset, hnext, heq⟩ := Option.map_eq_some_iff.mp h
            have hle := List.find?_some hnext
            refine ⟨partition, offset, rfl, hassigned, by simpa using hle,
              ?_⟩
            exact (Except.ok.inj heq).symm
          · simp at h
      | timeout => exact ih h
      | shutdownFlagChanged => exact ih h
      | shutdown => simp [waitForInitialAssignmentOrMessage] at h
      | fetchError => simp [waitForInitialAssignmentOrMessage] at h
      | streamEnded => simp [waitForInitialAssignmentOrMessage] at h
      | shutdownSenderDropped =>
          simp [waitForInitialAssignmentOrMessage] at h

theorem startup_eq_ok
    {rounds : List PollRound} {assignmentTimesOut seekFails : Bool}
    {position : Positions}
    (h : config.startup rounds assignmentTimesOut seekFails =
      some (.ok position)) :
    ∃ polled, config.waitForInitialAssignmentOrMessage config.initial
        rounds = some (.ok polled) ∧
      position = seekPartitions polled config.seekTargets := by
  obtain ⟨result, hwait, hrest⟩ := Option.map_eq_some_iff.mp h
  cases result with
  | error e => simp [bind, Except.bind] at hrest
  | ok polled =>
      refine ⟨polled, hwait, ?_⟩
      cases assignmentTimesOut with
      | true => simp [bind, Except.bind, throw, throwThe,
          MonadExceptOf.throw] at hrest
      | false =>
          cases seekFails with
          | true => simp [bind, Except.bind, throw, throwThe,
              MonadExceptOf.throw] at hrest
          | false => exact (Except.ok.inj hrest).symm

/-! ## Positions after the startup -/

/-- After a startup that succeeded, every assigned partition with a persisted
offset is positioned there.  The others are positioned where they would be had
the initial poll fetched nothing, except for one a message of which was
dropped while some assigned partition has a persisted offset. -/
theorem kafka_startup_positions_iff
    (config : StartupConfig) (rounds : List PollRound)
    (assignmentTimesOut seekFails : Bool) (position unpolled : Positions)
    (hstart : config.startup rounds assignmentTimesOut seekFails =
      some (.ok position))
    (hunpolled : config.startup [.assigned] false false =
      some (.ok unpolled)) :
    ((∀ p ∈ config.assigned, ∀ offset ∈ config.persisted p,
        position p = offset) ∧
      ∀ p ∈ config.assigned, config.persisted p = none →
        position p = unpolled p) ↔
      ¬ ∃ p, droppedFrom rounds = some p ∧ config.persisted p = none ∧
        ∃ q ∈ config.assigned, config.persisted q ≠ none := by
  obtain ⟨polled, hwait, rfl⟩ := startup_eq_ok hstart
  obtain ⟨first, hfirst, rfl⟩ := startup_eq_ok hunpolled
  obtain rfl : config.initial = first := by
    simpa [waitForInitialAssignmentOrMessage] using hfirst
  constructor
  · rintro ⟨-, hothers⟩ ⟨p, hdropped, hnone, hsome⟩
    rcases waitForInitialAssignmentOrMessage_cases hwait with
      ⟨hkept, -⟩ | ⟨q, offset, hq, hassigned, hle, rfl⟩
    · simp [hdropped] at hkept
    · obtain rfl : p = q := Option.some.inj (hdropped.symm.trans hq)
      have heq := hothers p hassigned hnone
      rw [seek_of_mixed _ hnone hsome, seek_of_mixed _ hnone hsome,
        Function.update_self] at heq
      omega
  · intro hcondition
    refine ⟨fun p hp offset hoffset => seek_persisted _ hp hoffset, ?_⟩
    intro p hp hnone
    by_cases hsome : ∃ q ∈ config.assigned, config.persisted q ≠ none
    · rw [seek_of_mixed _ hnone hsome, seek_of_mixed _ hnone hsome]
      rcases waitForInitialAssignmentOrMessage_cases hwait with
        ⟨-, rfl⟩ | ⟨q, offset, hq, -, -, rfl⟩
      · rfl
      · have hne : p ≠ q := by
          rintro rfl
          exact hcondition ⟨p, hq, hnone, hsome⟩
        exact Function.update_of_ne hne _ _
    · exact seek_of_none _ _ hp hsome

/-- Two partitions, of which the first has a persisted offset; the message
dropped is the first one of the second partition. -/
def mixedStartup : StartupConfig where
  assigned := [0, 1]
  persisted := fun partition => if partition = 0 then some 3 else none
  startAt := none
  log := fun _ => [0, 1, 2, 3, 4]
  beginning := fun _ => 0
  end_ := fun _ => 5
  initial := fun _ => 0

/-- A message dropped from the partition with the persisted offset does no
harm. -/
theorem kafka_startup_positions_sought :
    ∃ position unpolled,
      mixedStartup.startup [.timeout, .message 0] false false =
          some (.ok position) ∧
        mixedStartup.startup [.assigned] false false =
          some (.ok unpolled) ∧
        (∀ p ∈ mixedStartup.assigned, mixedStartup.persisted p = none →
          position p = unpolled p) := by
  refine ⟨_, _, rfl, rfl, ?_⟩
  exact ((kafka_startup_positions_iff mixedStartup [.timeout, .message 0]
    false false _ _ rfl rfl).mpr (by decide)).2

/-- A message dropped from the other partition is not delivered. -/
theorem kafka_startup_drops_message :
    ∃ position unpolled,
      mixedStartup.startup [.message 1] false false =
          some (.ok position) ∧
        mixedStartup.startup [.assigned] false false =
          some (.ok unpolled) ∧
        mixedStartup.persisted 1 = none ∧ position 1 ≠ unpolled 1 ∧
        0 ∈ mixedStartup.delivered unpolled 1 ∧
        0 ∉ mixedStartup.delivered position 1 := by
  refine ⟨_, _, rfl, rfl, ?_⟩
  decide

end StartupConfig

end Kafka

end Streamling
