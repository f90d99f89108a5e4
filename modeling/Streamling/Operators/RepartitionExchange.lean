import Streamling.Support.Tokens
import Streamling.Operators.RepartitionRouting

/-!
# The exchange loses, repeats and overtakes nothing

What the router of an input has in store for an output, what lies in the
channel between them and what the merge task has received always add up to the
same sequence.  The rows a merge task has forwarded are those of the batches it
has received, up to the one in hand, and it hands the markers of a batch to the
aligner only after the rows.  A marker that has left the aligner is settled
there, so every input that has it in its stream has delivered it, and with it
all rows in front of it.
-/

namespace Tokens

variable {ε ι : Type*} {minted spent : List ε} {held held' : ι → List ε}

/-- An owner spends all its tokens. -/
theorem Owned.spendAll
    (h : Owned minted spent held) (owner : ι) (howner : held' owner = [])
    (hother : ∀ other, other ≠ owner → held' other = held other) :
    Owned minted (spent ++ held owner) held' := by
  have hheld (other : ι) : (held' other).Sublist (held other) := by
    by_cases heq : other = owner
    · rw [heq, howner]
      exact List.nil_sublist _
    · rw [hother other heq]
  have hrest := h.lose hheld
  refine ⟨?_, hrest.held_nodup, ?_, hrest.distinct, ?_, hrest.held_minted⟩
  · refine List.nodup_append.mpr ⟨h.spent_nodup, h.held_nodup owner, ?_⟩
    rintro a ha b hb rfl
    exact h.unspent owner a hb ha
  · intro other token hmem hspent
    rcases List.mem_append.mp hspent with hspent | hspent
    · exact hrest.unspent other token hmem hspent
    · have hsame := h.distinct other owner token
        ((hheld other).subset hmem) hspent
      rw [hsame, howner] at hmem
      simp at hmem
  · intro token hmem
    rcases List.mem_append.mp hmem with hmem | hmem
    · exact h.spent_minted token hmem
    · exact h.held_minted owner token hmem

end Tokens

namespace Streamling

namespace Repartition

open AlignerRun

variable {ρ : Type*} {N M : ℕ}

/-! ## What one step does -/

/-- The effects of the steps, with what the code checked before them. -/
inductive Stepped (plan : Plan ρ) (s : State ρ N M) : State ρ N M → Prop
  | read (i : Fin N) (batch : RecordBatch ρ) (input : List (RecordBatch ρ))
      (hsends : (s.routers i).sends = [])
      (hinput : (s.routers i).input = batch :: input) :
      Stepped plan s (s.setRouter i
        { s.routers i with
          input := input
          sends := sendsOf M
            (routeBatch plan.exchange M (s.routers i).nextOutput batch).1
          nextOutput :=
            (routeBatch plan.exchange M (s.routers i).nextOutput batch).2 })
  | send (i : Fin N) (j : Fin M) (batch : RecordBatch ρ)
      (sends : List (Fin M × RecordBatch ρ))
      (hsends : (s.routers i).sends = (j, batch) :: sends) :
      Stepped plan s
        ((s.setRouter i { s.routers i with sends := sends }).setChannel
          (i, j) (s.channels (i, j) ++ [batch]))
  | close (i : Fin N) (hsends : (s.routers i).sends = [])
      (hinput : (s.routers i).input = [])
      (hclosed : (s.routers i).closed = false) :
      Stepped plan s (s.setRouter i { s.routers i with closed := true })
  | receive (i : Fin N) (j : Fin M) (batch : RecordBatch ρ)
      (batches : List (RecordBatch ρ))
      (htask : (s.merges (i, j)).task = .receiving)
      (hchannel : s.channels (i, j) = batch :: batches) :
      Stepped plan s ((s.setChannel (i, j) batches).setMerge (i, j)
        { s.merges (i, j) with
          task := taskFor batch
          received := (s.merges (i, j)).received ++ [batch] })
  | forward (i : Fin N) (j : Fin M) (batch : RecordBatch ρ)
      (messages : List CheckpointMessage)
      (htask : (s.merges (i, j)).task = .forwarding batch messages) :
      Stepped plan s ((s.emit i j batch).setMerge (i, j)
        { s.merges (i, j) with task := taskAfterRows messages })
  | observe (i : Fin N) (j : Fin M) (messages : List CheckpointMessage)
      (htask : (s.merges (i, j)).task = .observing messages) :
      Stepped plan s
        ((s.setAligner j ((s.aligners j).receiveAll i messages)).setMerge
          (i, j)
          { s.merges (i, j) with
            task := taskReleasing
              ((s.aligners j).aligner.observe messages).2
            lastDelivered := laterEpoch (s.merges (i, j)).lastDelivered
              (lastMarkerEpoch messages) })
  | release (i : Fin N) (j : Fin M) (messages : List CheckpointMessage)
      (next : MergeTask ρ)
      (htask : ((s.merges (i, j)).task = .releasing messages ∧
          next = .receiving) ∨
        ((s.merges (i, j)).task = .closing messages ∧ next = .finished)) :
      Stepped plan s ((s.emit i j ⟨[], messages⟩).setMerge (i, j)
        { s.merges (i, j) with task := next })
  | finish (i : Fin N) (j : Fin M) (nowMs : ℕ)
      (htask : (s.merges (i, j)).task = .receiving)
      (hchannel : s.channels (i, j) = [])
      (hclosed : (s.routers i).closed = true) :
      Stepped plan s
        ((s.setAligner j ((s.aligners j).endInput i
            (s.merges (i, j)).lastDelivered nowMs)).setMerge (i, j)
          { s.merges (i, j) with
            task := taskClosing ((s.aligners j).aligner.inputDone
              (s.merges (i, j)).lastDelivered nowMs).2 })
  | take (j : Fin M) (htaken : s.taken j < (s.outputs j).length) :
      Stepped plan s
        { s with taken := Function.update s.taken j (s.taken j + 1) }

theorem stepped_of_step
    {plan : Plan ρ} {s s' : State ρ N M} {action : Action N M}
    (h : step plan s action = some s') : Stepped plan s s' := by
  cases action with
  | read i =>
      simp only [step] at h
      split at h
      next batch input hsends hinput =>
        obtain rfl := Option.some.inj h
        exact .read i batch input hsends hinput
      · simp at h
  | send i =>
      simp only [step] at h
      split at h
      next j batch sends hsends =>
        split at h
        · obtain rfl := Option.some.inj h
          exact .send i j batch sends hsends
        · simp at h
      · simp at h
  | close i =>
      simp only [step] at h
      split at h
      next hsends hinput hclosed =>
        obtain rfl := Option.some.inj h
        exact .close i hsends hinput hclosed
      · simp at h
  | receive i j =>
      simp only [step] at h
      split at h
      next batch batches htask hchannel =>
        obtain rfl := Option.some.inj h
        exact .receive i j batch batches htask hchannel
      · simp at h
  | forward i j =>
      simp only [step] at h
      split at h
      next batch messages htask =>
        split at h
        · obtain rfl := Option.some.inj h
          exact .forward i j batch messages htask
        · simp at h
      · simp at h
  | observe i j =>
      simp only [step] at h
      split at h
      next messages htask =>
        obtain rfl := Option.some.inj h
        exact .observe i j messages htask
      · simp at h
  | release i j =>
      simp only [step] at h
      split at h
      next messages htask =>
        split at h
        · obtain rfl := Option.some.inj h
          exact .release i j messages .receiving (Or.inl ⟨htask, rfl⟩)
        · simp at h
      next messages htask =>
        split at h
        · obtain rfl := Option.some.inj h
          exact .release i j messages .finished (Or.inr ⟨htask, rfl⟩)
        · simp at h
      · simp at h
  | finish i j nowMs =>
      simp only [step] at h
      split at h
      next htask hchannel hclosed =>
        obtain rfl := Option.some.inj h
        exact .finish i j nowMs htask hchannel hclosed
      · simp at h
  | take j =>
      simp only [step] at h
      split at h
      next htaken =>
        obtain rfl := Option.some.inj h
        exact .take j htaken
      · simp at h

/-! ## Nothing is lost between a router and a merge task -/

/-- The rest of what the router of input `i` will send to output `j`. -/
def Router.upcoming (exchange : Exchange ρ) (router : Router ρ M)
    (j : Fin M) : List (RecordBatch ρ) :=
  sentTo j router.sends ++
    routed exchange router.nextOutput router.input j

/-- Received, in the channel and to come add up to the routed stream; a
router that has returned has nothing left to send. -/
structure Flow (plan : Plan ρ) (inputs : Fin N → List (RecordBatch ρ))
    (s : State ρ N M) : Prop where
  carried : ∀ i j,
    (s.merges (i, j)).received ++ (s.channels (i, j) ++
      (s.routers i).upcoming plan.exchange j) =
        routed plan.exchange 0 (inputs i) j
  closed : ∀ i, (s.routers i).closed = true →
    (s.routers i).sends = [] ∧ (s.routers i).input = []

theorem flow_start
    (plan : Plan ρ) (inputs : Fin N → List (RecordBatch ρ)) :
    Flow plan inputs (start M inputs) where
  carried := by simp [start, Router.upcoming, sentTo]
  closed := by simp [start]

/-- A step of a merge task that receives nothing. -/
theorem Flow.of_received
    {plan : Plan ρ} {inputs : Fin N → List (RecordBatch ρ)}
    {s s' : State ρ N M} (h : Flow plan inputs s)
    (hrouters : s'.routers = s.routers) (hchannels : s'.channels = s.channels)
    {lane : Fin N × Fin M} {merge : Merge ρ}
    (hmerges : s'.merges = Function.update s.merges lane merge)
    (hreceived : merge.received = (s.merges lane).received) :
    Flow plan inputs s' := by
  have hsame (l : Fin N × Fin M) :
      (s'.merges l).received = (s.merges l).received := by
    rw [hmerges]
    by_cases hl : l = lane
    · subst hl
      simpa using hreceived
    · simp [hl]
  refine ⟨?_, ?_⟩
  · intro i j
    rw [hrouters, hchannels, hsame]
    exact h.carried i j
  · rw [hrouters]
    exact h.closed

theorem Flow.step
    {plan : Plan ρ} {inputs : Fin N → List (RecordBatch ρ)}
    {s s' : State ρ N M} (h : Flow plan inputs s)
    (hstep : Stepped plan s s') : Flow plan inputs s' := by
  cases hstep with
  | read i batch input hsends hinput =>
      refine ⟨?_, ?_⟩
      · intro k j
        have hcarried := h.carried k j
        by_cases hk : k = i
        · subst hk
          simpa [State.setRouter, Router.upcoming, hsends, hinput, sentTo,
            routed] using hcarried
        · simpa [State.setRouter, hk] using hcarried
      · intro k hclosed
        by_cases hk : k = i
        · subst hk
          have hdone := h.closed k (by simpa [State.setRouter] using hclosed)
          simp [hinput] at hdone
        · simpa [State.setRouter, hk] using
            h.closed k (by simpa [State.setRouter, hk] using hclosed)
  | send i j batch sends hsends =>
      refine ⟨?_, ?_⟩
      · intro k l
        have hcarried := h.carried k l
        by_cases hk : k = i
        · subst hk
          by_cases hl : l = j
          · subst hl
            simpa [State.setRouter, State.setChannel, Router.upcoming,
              hsends, sentTo] using hcarried
          · simpa [State.setRouter, State.setChannel, Router.upcoming,
              hsends, sentTo, hl, Ne.symm hl] using hcarried
        · simpa [State.setRouter, State.setChannel, hk] using hcarried
      · intro k hclosed
        by_cases hk : k = i
        · subst hk
          have hdone := h.closed k
            (by simpa [State.setRouter, State.setChannel] using hclosed)
          simp [hsends] at hdone
        · simpa [State.setRouter, State.setChannel, hk] using
            h.closed k (by
              simpa [State.setRouter, State.setChannel, hk] using hclosed)
  | close i hsends hinput hopen =>
      refine ⟨?_, ?_⟩
      · intro k j
        have hcarried := h.carried k j
        by_cases hk : k = i
        · subst hk
          simpa [State.setRouter, Router.upcoming] using hcarried
        · simpa [State.setRouter, hk] using hcarried
      · intro k hclosed
        by_cases hk : k = i
        · subst hk
          simp [State.setRouter, hsends, hinput]
        · simpa [State.setRouter, hk] using
            h.closed k (by simpa [State.setRouter, hk] using hclosed)
  | receive i j batch batches htask hchannel =>
      refine ⟨?_, h.closed⟩
      intro k l
      have hcarried := h.carried k l
      by_cases hkl : (k, l) = (i, j)
      · obtain ⟨rfl, rfl⟩ := Prod.mk.inj hkl
        simpa [State.setMerge, State.setChannel, hchannel] using hcarried
      · simpa [State.setMerge, State.setChannel, hkl] using hcarried
  | forward i j batch messages htask => exact h.of_received rfl rfl rfl rfl
  | observe i j messages htask => exact h.of_received rfl rfl rfl rfl
  | release i j messages next htask => exact h.of_received rfl rfl rfl rfl
  | finish i j nowMs htask hchannel hclosed =>
      exact h.of_received rfl rfl rfl rfl
  | take j htaken => exact ⟨h.carried, h.closed⟩

/-! ## What a merge task has done with the batches it received -/

/-- The rows that the merge tasks of input `i` sent to an output. -/
def rowsFrom (i : Fin N) (output : List (Fin N × RecordBatch ρ)) : List ρ :=
  rowsOf ((output.filter fun q => q.1 = i).map Prod.snd)

/-- The epochs of the markers on an output. -/
def outputEpochs (output : List (Fin N × RecordBatch ρ)) :
    List CheckpointEpoch :=
  epochsOf (output.map Prod.snd)

theorem rowsOf_append (xs ys : List (RecordBatch ρ)) :
    rowsOf (xs ++ ys) = rowsOf xs ++ rowsOf ys := List.flatMap_append

theorem epochsOf_append (xs ys : List (RecordBatch ρ)) :
    epochsOf (xs ++ ys) = epochsOf xs ++ epochsOf ys := List.flatMap_append

@[simp] theorem rowsOf_singleton (batch : RecordBatch ρ) :
    rowsOf [batch] = batch.rows := by simp [rowsOf]

@[simp] theorem epochsOf_singleton (batch : RecordBatch ρ) :
    epochsOf [batch] = markerEpochs batch.messages := by simp [epochsOf]

theorem rowsFrom_append_singleton
    (i k : Fin N) (output : List (Fin N × RecordBatch ρ))
    (batch : RecordBatch ρ) :
    rowsFrom i (output ++ [(k, batch)]) =
      rowsFrom i output ++ if k = i then batch.rows else [] := by
  by_cases hk : k = i
  · simp [rowsFrom, hk, rowsOf_append]
  · simp [rowsFrom, hk]

theorem outputEpochs_append_singleton
    (k : Fin N) (output : List (Fin N × RecordBatch ρ))
    (batch : RecordBatch ρ) :
    outputEpochs (output ++ [(k, batch)]) =
      outputEpochs output ++ markerEpochs batch.messages := by
  simp [outputEpochs, epochsOf_append]

/-- How far the received batches have come, by the task in hand: the rows
sent, the epochs delivered to the aligner, and whether the input has ended
there. -/
def LaneAt (received : List (RecordBatch ρ)) (sent : List ρ)
    (delivered : List CheckpointEpoch) (ended : Prop) : MergeTask ρ → Prop
  | .receiving | .releasing _ =>
      sent = rowsOf received ∧ delivered = epochsOf received ∧ ¬ ended
  | .forwarding batch messages =>
      ∃ front last, received = front ++ [last] ∧ sent = rowsOf front ∧
        delivered = epochsOf front ∧ batch.rows = last.rows ∧
        batch.messages = [] ∧ messages = last.messages ∧ ¬ ended
  | .observing messages =>
      ∃ front last, received = front ++ [last] ∧ sent = rowsOf received ∧
        delivered = epochsOf front ∧ messages = last.messages ∧ ¬ ended
  | .closing _ | .finished =>
      sent = rowsOf received ∧ delivered = epochsOf received ∧ ended

section LaneAt

variable {received : List (RecordBatch ρ)} {sent : List ρ}
  {delivered : List CheckpointEpoch} {ended : Prop}

theorem LaneAt.receive
    (h : LaneAt received sent delivered ended .receiving)
    (batch : RecordBatch ρ) :
    LaneAt (received ++ [batch]) sent delivered ended (taskFor batch) := by
  obtain ⟨hsent, hdelivered, hended⟩ := h
  unfold taskFor
  split
  next hmessages =>
    refine ⟨received, batch, rfl, hsent, hdelivered, rfl, ?_, ?_, hended⟩
    · simpa using hmessages
    · simpa using hmessages.symm
  · split
    next hrows =>
      refine ⟨received, batch, rfl, ?_, hdelivered, rfl, hended⟩
      have hempty : batch.rows = [] := by simpa using hrows
      simp [rowsOf_append, hsent, hempty]
    · exact ⟨received, batch, rfl, hsent, hdelivered, rfl, rfl, rfl,
        hended⟩

theorem LaneAt.forward
    {batch : RecordBatch ρ} {messages : List CheckpointMessage}
    (h : LaneAt received sent delivered ended
      (.forwarding batch messages)) :
    LaneAt received (sent ++ batch.rows) delivered ended
      (taskAfterRows messages) := by
  obtain ⟨front, last, rfl, rfl, rfl, hrows, -, rfl, hended⟩ := h
  have hsent : rowsOf front ++ batch.rows = rowsOf (front ++ [last]) := by
    simp [rowsOf_append, hrows]
  cases hmessages : last.messages with
  | nil =>
      refine ⟨hsent, ?_, hended⟩
      simp [epochsOf_append, hmessages]
  | cons message messages =>
      exact ⟨front, last, rfl, hsent, rfl, hmessages.symm, hended⟩

theorem LaneAt.observe
    {messages : List CheckpointMessage}
    (h : LaneAt received sent delivered ended (.observing messages))
    (released : List CheckpointMessage) :
    LaneAt received sent (delivered ++ markerEpochs messages) ended
      (taskReleasing released) := by
  obtain ⟨front, last, rfl, hsent, rfl, rfl, hended⟩ := h
  have hdelivered : epochsOf front ++ markerEpochs last.messages =
      epochsOf (front ++ [last]) := by simp [epochsOf_append]
  cases released with
  | nil => exact ⟨hsent, hdelivered, hended⟩
  | cons message released => exact ⟨hsent, hdelivered, hended⟩

theorem LaneAt.finish
    (h : LaneAt received sent delivered ended .receiving)
    {ended' : Prop} (hended : ended') (released : List CheckpointMessage) :
    LaneAt received sent delivered ended' (taskClosing released) := by
  obtain ⟨hsent, hdelivered, -⟩ := h
  cases released with
  | nil => exact ⟨hsent, hdelivered, hended⟩
  | cons message released => exact ⟨hsent, hdelivered, hended⟩

/-- The epochs delivered are those of a first part of the received batches
whose rows have all been sent. -/
theorem LaneAt.observed
    {task : MergeTask ρ} (h : LaneAt received sent delivered ended task) :
    ∃ front, front <+: received ∧ delivered = epochsOf front ∧
      rowsOf front <+: sent := by
  have hwhole (hsent : sent = rowsOf received)
      (hdelivered : delivered = epochsOf received) :
      ∃ front, front <+: received ∧ delivered = epochsOf front ∧
        rowsOf front <+: sent :=
    ⟨received, List.prefix_rfl, hdelivered, hsent ▸ List.prefix_rfl⟩
  cases task with
  | receiving => exact hwhole h.1 h.2.1
  | releasing messages => exact hwhole h.1 h.2.1
  | closing messages => exact hwhole h.1 h.2.1
  | finished => exact hwhole h.1 h.2.1
  | forwarding batch messages =>
      obtain ⟨front, last, rfl, rfl, rfl, -⟩ := h
      exact ⟨front, List.prefix_append _ _, rfl, List.prefix_rfl⟩
  | observing messages =>
      obtain ⟨front, last, rfl, rfl, rfl, -⟩ := h
      refine ⟨front, List.prefix_append _ _, rfl, ?_⟩
      rw [rowsOf_append]
      exact List.prefix_append _ _

/-- What has been sent is never more than was received. -/
theorem LaneAt.rows_sent
    {task : MergeTask ρ} (h : LaneAt received sent delivered ended task) :
    sent <+: rowsOf received := by
  cases task with
  | receiving => exact h.1 ▸ List.prefix_rfl
  | releasing messages => exact h.1 ▸ List.prefix_rfl
  | closing messages => exact h.1 ▸ List.prefix_rfl
  | finished => exact h.1 ▸ List.prefix_rfl
  | forwarding batch messages =>
      obtain ⟨front, last, rfl, rfl, -⟩ := h
      rw [rowsOf_append]
      exact List.prefix_append _ _
  | observing messages =>
      obtain ⟨front, last, -, rfl, -⟩ := h
      exact List.prefix_rfl

/-- The input has ended at the aligner exactly in the last two places. -/
theorem LaneAt.of_ended
    {task : MergeTask ρ} (h : LaneAt received sent delivered ended task)
    (hended : ended) : delivered = epochsOf received := by
  cases task with
  | receiving => exact absurd hended h.2.2
  | releasing messages => exact absurd hended h.2.2
  | closing messages => exact h.2.1
  | finished => exact h.2.1
  | forwarding batch messages =>
      obtain ⟨front, last, -, -, -, -, -, -, hnot⟩ := h
      exact absurd hended hnot
  | observing messages =>
      obtain ⟨front, last, -, -, -, -, hnot⟩ := h
      exact absurd hended hnot

end LaneAt

theorem laterEpoch_max? (xs ys : List CheckpointEpoch) :
    laterEpoch xs.max? ys.max? = (xs ++ ys).max? := by
  cases hx : xs.max? with
  | none =>
      obtain rfl : xs = [] := by simpa using hx
      simp [laterEpoch]
  | some x =>
      cases hy : ys.max? with
      | none =>
          obtain rfl : ys = [] := by simpa using hy
          simp [laterEpoch, hx]
      | some y =>
          obtain ⟨hxmem, hxle⟩ := List.max?_eq_some_iff.mp hx
          obtain ⟨hymem, hyle⟩ := List.max?_eq_some_iff.mp hy
          symm
          apply List.max?_eq_some_iff.mpr
          refine ⟨?_, ?_⟩
          · rcases max_choice x y with h | h
            · rw [h]
              exact List.mem_append_left ys hxmem
            · rw [h]
              exact List.mem_append_right xs hymem
          · intro b hb
            rcases List.mem_append.mp hb with hb | hb
            · exact (hxle b hb).trans (le_max_left x y)
            · exact (hyle b hb).trans (le_max_right x y)

/-- Every merge task keeps its books, and an input ends at an aligner only
when its router has returned and its channel is empty. -/
structure Lanes (s : State ρ N M) : Prop where
  lane : ∀ i j, LaneAt (s.merges (i, j)).received
    (rowsFrom i (s.outputs j)) ((s.aligners j).delivered i)
    (i ∈ (s.aligners j).finished) (s.merges (i, j)).task
  ended : ∀ i j, i ∈ (s.aligners j).finished →
    s.channels (i, j) = [] ∧ (s.routers i).closed = true
  last : ∀ i j, (s.merges (i, j)).lastDelivered =
    ((s.aligners j).delivered i).max?

theorem lanes_start (inputs : Fin N → List (RecordBatch ρ)) :
    Lanes (start M inputs) where
  lane := by
    intro i j
    simp [start, LaneAt, AlignerRun.start, rowsFrom, rowsOf, epochsOf]
  ended := by simp [start, AlignerRun.start]
  last := by simp [start, AlignerRun.start]

/-- Nothing that the lane from input `i` to output `j` reads has changed. -/
structure SameLane (s s' : State ρ N M) (i : Fin N) (j : Fin M) :
    Prop where
  channel : s'.channels (i, j) = s.channels (i, j)
  merge : s'.merges (i, j) = s.merges (i, j)
  rows : rowsFrom i (s'.outputs j) = rowsFrom i (s.outputs j)
  delivered : (s'.aligners j).delivered i = (s.aligners j).delivered i
  finished : i ∈ (s'.aligners j).finished ↔ i ∈ (s.aligners j).finished

section Lanes

variable {s : State ρ N M}

/-- A step of one merge task need only be checked on its own lane. -/
theorem Lanes.of_lane
    {s' : State ρ N M} (h : Lanes s) {i : Fin N} {j : Fin M}
    (hrouters : s'.routers = s.routers)
    (hsame : ∀ k l, (k, l) ≠ (i, j) → SameLane s s' k l)
    (hlane : LaneAt (s'.merges (i, j)).received
      (rowsFrom i (s'.outputs j)) ((s'.aligners j).delivered i)
      (i ∈ (s'.aligners j).finished) (s'.merges (i, j)).task)
    (hended : i ∈ (s'.aligners j).finished →
      s'.channels (i, j) = [] ∧ (s'.routers i).closed = true)
    (hlast : (s'.merges (i, j)).lastDelivered =
      ((s'.aligners j).delivered i).max?) : Lanes s' where
  lane := by
    intro k l
    by_cases hkl : (k, l) = (i, j)
    · obtain ⟨rfl, rfl⟩ := Prod.mk.inj hkl
      exact hlane
    · have hother := hsame k l hkl
      rw [hother.merge, hother.rows, hother.delivered]
      simpa only [hother.finished] using h.lane k l
  ended := by
    intro k l hfin
    by_cases hkl : (k, l) = (i, j)
    · obtain ⟨rfl, rfl⟩ := Prod.mk.inj hkl
      exact hended hfin
    · have hother := hsame k l hkl
      rw [hother.channel, hrouters]
      exact h.ended k l (hother.finished.mp hfin)
  last := by
    intro k l
    by_cases hkl : (k, l) = (i, j)
    · obtain ⟨rfl, rfl⟩ := Prod.mk.inj hkl
      exact hlast
    · have hother := hsame k l hkl
      rw [hother.merge, hother.delivered]
      exact h.last k l

/-- A router that has closed stays closed. -/
theorem Lanes.setRouter
    (h : Lanes s) {i : Fin N} {router : Router ρ M}
    (hclosed : (s.routers i).closed = true → router.closed = true) :
    Lanes (s.setRouter i router) := by
  refine ⟨h.lane, ?_, h.last⟩
  intro k j hfin
  obtain ⟨hchannel, hwas⟩ := h.ended k j hfin
  refine ⟨hchannel, ?_⟩
  by_cases hk : k = i
  · subst hk
    simpa [State.setRouter] using hclosed hwas
  · simpa [State.setRouter, hk] using hwas

/-- A router that still sends is not closed. -/
theorem Lanes.send
    {plan : Plan ρ} {inputs : Fin N → List (RecordBatch ρ)} (h : Lanes s)
    (hflow : Flow plan inputs s) {i : Fin N} {j : Fin M}
    {batch : RecordBatch ρ} {sends : List (Fin M × RecordBatch ρ)}
    (hsends : (s.routers i).sends = (j, batch) :: sends) :
    Lanes ((s.setRouter i { s.routers i with sends := sends }).setChannel
      (i, j) (s.channels (i, j) ++ [batch])) := by
  refine ⟨h.lane, ?_, h.last⟩
  intro k l hfin
  obtain ⟨hchannel, hclosed⟩ := h.ended k l hfin
  have hk : k ≠ i := by
    rintro rfl
    have hnone := (hflow.closed k hclosed).1
    simp [hsends] at hnone
  simpa [State.setRouter, State.setChannel, hk] using
    And.intro hchannel hclosed

theorem Lanes.receive
    (h : Lanes s) {i : Fin N} {j : Fin M} {batch : RecordBatch ρ}
    {batches : List (RecordBatch ρ)}
    (htask : (s.merges (i, j)).task = .receiving)
    (hchannel : s.channels (i, j) = batch :: batches) :
    Lanes ((s.setChannel (i, j) batches).setMerge (i, j)
      { s.merges (i, j) with
        task := taskFor batch
        received := (s.merges (i, j)).received ++ [batch] }) := by
  refine h.of_lane (i := i) (j := j) (by rfl) ?_ ?_ ?_ ?_
  · intro k l hkl
    exact ⟨by simp [State.setMerge, State.setChannel, hkl],
      by simp [State.setMerge, State.setChannel, hkl], rfl, rfl, Iff.rfl⟩
  · have hlane := h.lane i j
    rw [htask] at hlane
    simpa [State.setMerge, State.setChannel] using hlane.receive batch
  · intro hfin
    have hempty := (h.ended i j hfin).1
    rw [hchannel] at hempty
    cases hempty
  · simpa [State.setMerge, State.setChannel] using h.last i j

/-- A merge task puts a batch out and goes on. -/
theorem Lanes.emit
    (h : Lanes s) {i : Fin N} {j : Fin M} {batch : RecordBatch ρ}
    {task : MergeTask ρ}
    (hlane : LaneAt (s.merges (i, j)).received
      (rowsFrom i (s.outputs j) ++ batch.rows)
      ((s.aligners j).delivered i) (i ∈ (s.aligners j).finished) task) :
    Lanes ((s.emit i j batch).setMerge (i, j)
      { s.merges (i, j) with task := task }) := by
  refine h.of_lane (i := i) (j := j) (by rfl) ?_ ?_ ?_ ?_
  · intro k l hkl
    refine ⟨rfl, by simp [State.setMerge, State.emit, hkl], ?_, rfl,
      Iff.rfl⟩
    by_cases hl : l = j
    · subst hl
      have hk : i ≠ k := fun hk => hkl (by rw [hk])
      simp [State.setMerge, State.emit, rowsFrom_append_singleton, hk]
    · simp [State.setMerge, State.emit, hl]
  · simpa [State.setMerge, State.emit, rowsFrom_append_singleton] using
      hlane
  · exact h.ended i j
  · simpa [State.setMerge, State.emit] using h.last i j

theorem Lanes.release
    (h : Lanes s) {i : Fin N} {j : Fin M}
    {messages : List CheckpointMessage} {next : MergeTask ρ}
    (htask : ((s.merges (i, j)).task = .releasing messages ∧
        next = .receiving) ∨
      ((s.merges (i, j)).task = .closing messages ∧ next = .finished)) :
    Lanes ((s.emit i j ⟨[], messages⟩).setMerge (i, j)
      { s.merges (i, j) with task := next }) := by
  apply h.emit
  have hlane := h.lane i j
  rw [List.append_nil]
  rcases htask with ⟨htask, rfl⟩ | ⟨htask, rfl⟩
  · rw [htask] at hlane
    exact hlane
  · rw [htask] at hlane
    exact hlane

theorem Lanes.observe
    (h : Lanes s) {i : Fin N} {j : Fin M}
    {messages : List CheckpointMessage}
    (htask : (s.merges (i, j)).task = .observing messages) :
    Lanes ((s.setAligner j ((s.aligners j).receiveAll i messages)).setMerge
      (i, j)
      { s.merges (i, j) with
        task := taskReleasing ((s.aligners j).aligner.observe messages).2
        lastDelivered := laterEpoch (s.merges (i, j)).lastDelivered
          (lastMarkerEpoch messages) }) := by
  refine h.of_lane (i := i) (j := j) (by rfl) ?_ ?_ ?_ ?_
  · intro k l hkl
    by_cases hl : l = j
    · subst hl
      have hk : k ≠ i := fun hk => hkl (by rw [hk])
      exact ⟨rfl, by simp [State.setMerge, State.setAligner, hk], rfl,
        by simp [State.setMerge, State.setAligner,
          receiveAll_delivered_of_ne _ messages hk],
        by simp [State.setMerge, State.setAligner]⟩
    · exact ⟨rfl, by simp [State.setMerge, State.setAligner, hl], rfl,
        by simp [State.setMerge, State.setAligner, hl],
        by simp [State.setMerge, State.setAligner, hl]⟩
  · have hlane := h.lane i j
    rw [htask] at hlane
    simpa [State.setMerge, State.setAligner, receiveAll_delivered] using
      hlane.observe _
  · intro hfin
    exact h.ended i j
      (by simpa [State.setMerge, State.setAligner] using hfin)
  · have hlater := laterEpoch_max? ((s.aligners j).delivered i)
      (markerEpochs messages)
    simpa [State.setMerge, State.setAligner, receiveAll_delivered,
      lastMarkerEpoch, h.last i j] using hlater

theorem Lanes.finish
    (h : Lanes s) {i : Fin N} {j : Fin M} (nowMs : ℕ)
    (htask : (s.merges (i, j)).task = .receiving)
    (hchannel : s.channels (i, j) = [])
    (hclosed : (s.routers i).closed = true) :
    Lanes ((s.setAligner j ((s.aligners j).endInput i
        (s.merges (i, j)).lastDelivered nowMs)).setMerge (i, j)
      { s.merges (i, j) with
        task := taskClosing ((s.aligners j).aligner.inputDone
          (s.merges (i, j)).lastDelivered nowMs).2 }) := by
  refine h.of_lane (i := i) (j := j) (by rfl) ?_ ?_ ?_ ?_
  · intro k l hkl
    by_cases hl : l = j
    · subst hl
      have hk : k ≠ i := fun hk => hkl (by rw [hk])
      exact ⟨rfl, by simp [State.setMerge, State.setAligner, hk], rfl,
        by simp [State.setMerge, State.setAligner, endInput],
        by simp [State.setMerge, State.setAligner, endInput, hk]⟩
    · exact ⟨rfl, by simp [State.setMerge, State.setAligner, hl], rfl,
        by simp [State.setMerge, State.setAligner, hl],
        by simp [State.setMerge, State.setAligner, hl]⟩
  · have hlane := h.lane i j
    rw [htask] at hlane
    simpa [State.setMerge, State.setAligner, endInput] using
      hlane.finish trivial _
  · exact fun _ => ⟨hchannel, hclosed⟩
  · simpa [State.setMerge, State.setAligner, endInput] using h.last i j

theorem Lanes.step
    {plan : Plan ρ} {inputs : Fin N → List (RecordBatch ρ)}
    {s' : State ρ N M} (h : Lanes s) (hflow : Flow plan inputs s)
    (hstep : Stepped plan s s') : Lanes s' := by
  cases hstep with
  | read i batch input hsends hinput => exact h.setRouter id
  | send i j batch sends hsends => exact h.send hflow hsends
  | close i hsends hinput hopen => exact h.setRouter fun _ => rfl
  | receive i j batch batches htask hchannel =>
      exact h.receive htask hchannel
  | forward i j batch messages htask =>
      have hlane := h.lane i j
      rw [htask] at hlane
      exact h.emit hlane.forward
  | observe i j messages htask => exact h.observe htask
  | release i j messages next htask => exact h.release htask
  | finish i j nowMs htask hchannel hclosed =>
      exact h.finish nowMs htask hchannel hclosed
  | take j htaken => exact ⟨h.lane, h.ended, h.last⟩

end Lanes

/-! ## A marker on an output is behind the rows it covers -/

section Covered

variable {plan : Plan ρ} {inputs : Fin N → List (RecordBatch ρ)}
  {s : State ρ N M}

/-- An input that has ended at an aligner has delivered all its epochs. -/
theorem Lanes.delivered_of_finished
    (h : Lanes s) (hflow : Flow plan inputs s)
    (hfit : ∀ i, AllFit plan.exchange (inputs i)) {i : Fin N} {j : Fin M}
    (hfin : i ∈ (s.aligners j).finished) :
    (s.aligners j).delivered i = epochsOf (inputs i) := by
  obtain ⟨hchannel, hclosed⟩ := h.ended i j hfin
  obtain ⟨hsends, hinput⟩ := hflow.closed i hclosed
  have hcarried := hflow.carried i j
  have hall : (s.merges (i, j)).received =
      routed plan.exchange 0 (inputs i) j := by
    simpa [hchannel, Router.upcoming, hsends, hinput, sentTo, routed] using
      hcarried
  rw [(h.lane i j).of_ended hfin, hall, epochsOf_routed (hfit i)]

/-- A released epoch has been delivered by every input that carries it. -/
theorem Lanes.delivered_of_released
    (h : Lanes s) (hflow : Flow plan inputs s)
    (hfit : ∀ i, AllFit plan.exchange (inputs i)) {j : Fin M}
    (hguarded : (s.aligners j).Guarded) {epoch : CheckpointEpoch}
    (hreleased : epoch ∈ (s.aligners j).releasedEpochs) {i : Fin N}
    (hepoch : epoch ∈ epochsOf (inputs i)) :
    epoch ∈ (s.aligners j).delivered i := by
  have hended (hfin : i ∈ (s.aligners j).finished) :
      epoch ∈ (s.aligners j).delivered i := by
    rw [h.delivered_of_finished hflow hfit hfin]
    exact hepoch
  rcases hguarded.settled epoch hreleased with hall | heach
  · exact hended (hall i)
  · rcases heach i with hdel | ⟨hfin, -⟩
    · exact hdel
    · exact hended hfin

/-- The rows in front of a delivered marker have been sent. -/
theorem Lanes.rows_of_delivered
    (h : Lanes s) (hflow : Flow plan inputs s)
    (hfit : ∀ i, AllFit plan.exchange (inputs i)) {i : Fin N} {j : Fin M}
    {epoch : CheckpointEpoch}
    (hdelivered : epoch ∈ (s.aligners j).delivered i) :
    placed plan.exchange M 0 (throughMarker epoch (inputs i)) j <+:
      rowsFrom i (s.outputs j) := by
  obtain ⟨front, ⟨rest, hfront⟩, hepochs, hrows⟩ := (h.lane i j).observed
  have hcarried := hflow.carried i j
  rw [← hfront, List.append_assoc] at hcarried
  rw [hepochs] at hdelivered
  have hplaced := placed_throughMarker_prefix_of_mem (hfit i)
    hcarried.symm hdelivered
  exact hplaced.trans hrows

/-- What a merge task is about to observe continues what its input has
delivered. -/
theorem Lanes.continues
    (h : Lanes s) (hflow : Flow plan inputs s)
    (hfit : ∀ i, AllFit plan.exchange (inputs i))
    (hincreasing : ∀ i, (epochsOf (inputs i)).Pairwise (· < ·))
    {i : Fin N} {j : Fin M} {messages : List CheckpointMessage}
    (htask : (s.merges (i, j)).task = .observing messages) :
    (s.aligners j).Continues i messages := by
  have hlane := h.lane i j
  rw [htask] at hlane
  obtain ⟨front, last, hreceived, -, hdelivered, rfl, -⟩ := hlane
  have hcarried := congrArg epochsOf (hflow.carried i j)
  rw [epochsOf_routed (hfit i), epochsOf_append, hreceived,
    epochsOf_append, epochsOf_singleton, ← hdelivered] at hcarried
  have hpair := hincreasing i
  rw [← hcarried] at hpair
  exact (List.pairwise_append.mp hpair).1

end Covered

/-- The epochs of the released markers a merge task is about to send. -/
def MergeTask.held : MergeTask ρ → List CheckpointEpoch
  | .releasing messages | .closing messages => markerEpochs messages
  | _ => []

/-- When a marker appears on output `j`, the rows placed there that its inputs
emitted up to it have appeared. -/
def Covers (exchange : Exchange ρ) (inputs : Fin N → List (RecordBatch ρ))
    (j : Fin M) (output : List (Fin N × RecordBatch ρ)) : Prop :=
  ∀ front item rest, output = front ++ item :: rest →
    ∀ epoch ∈ markerEpochs item.2.messages,
      ∀ i, epoch ∈ epochsOf (inputs i) →
        placed exchange M 0 (throughMarker epoch (inputs i)) j <+:
          rowsFrom i front

theorem Covers.append
    {exchange : Exchange ρ} {inputs : Fin N → List (RecordBatch ρ)}
    {j : Fin M} {output : List (Fin N × RecordBatch ρ)}
    (h : Covers exchange inputs j output) (item : Fin N × RecordBatch ρ)
    (hitem : ∀ epoch ∈ markerEpochs item.2.messages,
      ∀ i, epoch ∈ epochsOf (inputs i) →
        placed exchange M 0 (throughMarker epoch (inputs i)) j <+:
          rowsFrom i output) :
    Covers exchange inputs j (output ++ [item]) := by
  intro front next rest hsplit
  rcases append_singleton_eq_append_cons hsplit with
    ⟨rfl, rfl, -⟩ | ⟨rest', -, hold⟩
  · exact hitem
  · exact h front next rest' hold

/-- The aligners are sound, every released marker is sent once, and none
overtakes a row. -/
structure Aligned (plan : Plan ρ) (inputs : Fin N → List (RecordBatch ρ))
    (s : State ρ N M) : Prop where
  guarded : ∀ j, (s.aligners j).Guarded
  owned : ∀ j, Tokens.Owned (s.aligners j).releasedEpochs
    (outputEpochs (s.outputs j)) fun i => (s.merges (i, j)).task.held
  covers : ∀ j, Covers plan.exchange inputs j (s.outputs j)

theorem aligned_start
    (plan : Plan ρ) (inputs : Fin N → List (RecordBatch ρ)) :
    Aligned plan inputs (start M inputs) where
  guarded := fun _ => guarded_start N
  owned := fun _ => Tokens.owned_nil
  covers := by
    intro j front item rest hsplit
    simp [start] at hsplit

@[simp] theorem held_taskFor (batch : RecordBatch ρ) :
    (taskFor batch).held = [] := by
  unfold taskFor
  split
  · rfl
  · split <;> rfl

@[simp] theorem held_taskAfterRows (messages : List CheckpointMessage) :
    (taskAfterRows messages : MergeTask ρ).held = [] := by
  cases messages <;> rfl

@[simp] theorem held_taskReleasing (messages : List CheckpointMessage) :
    (taskReleasing messages : MergeTask ρ).held = markerEpochs messages := by
  cases messages <;> rfl

@[simp] theorem held_taskClosing (messages : List CheckpointMessage) :
    (taskClosing messages : MergeTask ρ).held = markerEpochs messages := by
  cases messages <;> rfl

/-- A call on the aligner of output `j`: what it releases is held by the task
that made the call. -/
theorem Aligned.of_released
    {plan : Plan ρ} {inputs : Fin N → List (RecordBatch ρ)}
    {s : State ρ N M} (h : Aligned plan inputs s) {i : Fin N} {j : Fin M}
    {aligner : AlignerRun N} (hguarded : aligner.Guarded)
    {merge : Merge ρ}
    (hreleased : aligner.releasedEpochs =
      (s.aligners j).releasedEpochs ++ merge.task.held) :
    Aligned plan inputs
      ((s.setAligner j aligner).setMerge (i, j) merge) := by
  refine ⟨?_, ?_, h.covers⟩
  · intro l
    by_cases hl : l = j
    · subst hl
      simpa [State.setMerge, State.setAligner] using hguarded
    · simpa [State.setMerge, State.setAligner, hl] using h.guarded l
  · intro l
    by_cases hl : l = j
    · subst hl
      have hnodup := hguarded.nodup
      rw [hreleased] at hnodup
      have hmint : Tokens.Owned
          ((s.aligners l).releasedEpochs ++ merge.task.held)
          (outputEpochs (s.outputs l)) (fun k =>
            (Function.update s.merges (i, l) merge (k, l)).task.held) := by
        apply (h.owned l).mint i hnodup
        · simp
        · intro k hk
          simp [hk]
      simpa [State.setMerge, State.setAligner, hreleased] using hmint
    · simpa [State.setMerge, State.setAligner, hl] using h.owned l

section Aligned

variable {plan : Plan ρ} {inputs : Fin N → List (RecordBatch ρ)}
variable {s s' : State ρ N M}

theorem Aligned.receive
    (h : Aligned plan inputs s) {i : Fin N} {j : Fin M}
    {batch : RecordBatch ρ} (batches : List (RecordBatch ρ)) :
    Aligned plan inputs ((s.setChannel (i, j) batches).setMerge (i, j)
      { s.merges (i, j) with
        task := taskFor batch
        received := (s.merges (i, j)).received ++ [batch] }) := by
  refine ⟨h.guarded, ?_, h.covers⟩
  intro l
  apply (h.owned l).lose
  intro k
  by_cases hkl : (k, l) = (i, j)
  · obtain ⟨rfl, rfl⟩ := Prod.mk.inj hkl
    simp [State.setMerge]
  · simp [State.setMerge, State.setChannel, hkl]

/-- The rows of a batch are put out without its messages. -/
theorem Aligned.forward
    (h : Aligned plan inputs s) (hlanes : Lanes s) {i : Fin N} {j : Fin M}
    {batch : RecordBatch ρ} {messages : List CheckpointMessage}
    (htask : (s.merges (i, j)).task = .forwarding batch messages) :
    Aligned plan inputs ((s.emit i j batch).setMerge (i, j)
      { s.merges (i, j) with task := taskAfterRows messages }) := by
  have hlane := hlanes.lane i j
  rw [htask] at hlane
  obtain ⟨front, last, -, -, -, -, hplain, -⟩ := hlane
  have hepochs : outputEpochs (s.outputs j ++ [(i, batch)]) =
      outputEpochs (s.outputs j) := by
    simp [outputEpochs_append_singleton, hplain]
  refine ⟨h.guarded, ?_, ?_⟩
  · intro l
    have hspent : outputEpochs
        (Function.update s.outputs j (s.outputs j ++ [(i, batch)]) l) =
        outputEpochs (s.outputs l) := by
      by_cases hl : l = j
      · subst hl
        simpa using hepochs
      · simp [hl]
    simp only [State.setMerge, State.emit, hspent]
    apply (h.owned l).lose
    intro k
    by_cases hkl : (k, l) = (i, j)
    · obtain ⟨rfl, rfl⟩ := Prod.mk.inj hkl
      simp
    · simp [hkl]
  · intro l
    by_cases hl : l = j
    · subst hl
      have happend := (h.covers l).append (i, batch) (by simp [hplain])
      simpa [State.setMerge, State.emit] using happend
    · simpa [State.setMerge, State.emit, hl] using h.covers l

/-- What a task holds is spent by putting it out. -/
theorem Aligned.release
    (hfit : ∀ i, AllFit plan.exchange (inputs i))
    (h : Aligned plan inputs s) (hflow : Flow plan inputs s)
    (hlanes : Lanes s) {i : Fin N} {j : Fin M}
    {messages : List CheckpointMessage} {next : MergeTask ρ}
    (hheld : (s.merges (i, j)).task.held = markerEpochs messages)
    (hnext : next.held = []) :
    Aligned plan inputs ((s.emit i j ⟨[], messages⟩).setMerge (i, j)
      { s.merges (i, j) with task := next }) := by
  refine ⟨h.guarded, ?_, ?_⟩
  · intro l
    by_cases hl : l = j
    · subst hl
      have hspend : Tokens.Owned (s.aligners l).releasedEpochs
          (outputEpochs (s.outputs l) ++ (s.merges (i, l)).task.held)
          (fun k => (Function.update s.merges (i, l)
            { s.merges (i, l) with task := next } (k, l)).task.held) := by
        apply (h.owned l).spendAll i
        · simp [hnext]
        · intro k hk
          simp [hk]
      simpa [State.setMerge, State.emit, hheld,
        outputEpochs_append_singleton] using hspend
    · simpa [State.setMerge, State.emit, hl] using h.owned l
  · intro l
    by_cases hl : l = j
    · subst hl
      have happend := (h.covers l).append (i, ⟨[], messages⟩) (by
        intro epoch hepoch k hk
        have hreleased : epoch ∈ (s.aligners l).releasedEpochs := by
          apply (h.owned l).held_minted i
          rw [hheld]
          exact hepoch
        apply hlanes.rows_of_delivered hflow hfit
        exact hlanes.delivered_of_released hflow hfit (h.guarded l)
          hreleased hk)
      simpa [State.setMerge, State.emit] using happend
    · simpa [State.setMerge, State.emit, hl] using h.covers l

theorem Aligned.step
    (hfit : ∀ i, AllFit plan.exchange (inputs i))
    (hincreasing : ∀ i, (epochsOf (inputs i)).Pairwise (· < ·))
    (h : Aligned plan inputs s) (hflow : Flow plan inputs s)
    (hlanes : Lanes s) (hstep : Stepped plan s s') :
    Aligned plan inputs s' := by
  cases hstep with
  | read i batch input hsends hinput =>
      exact ⟨h.guarded, h.owned, h.covers⟩
  | send i j batch sends hsends => exact ⟨h.guarded, h.owned, h.covers⟩
  | close i hsends hinput hopen => exact ⟨h.guarded, h.owned, h.covers⟩
  | receive i j batch batches htask hchannel => exact h.receive batches
  | forward i j batch messages htask => exact h.forward hlanes htask
  | observe i j messages htask =>
      have hnot : i ∉ (s.aligners j).finished := by
        have hlane := hlanes.lane i j
        rw [htask] at hlane
        obtain ⟨front, last, -, -, -, -, hnot⟩ := hlane
        exact hnot
      apply h.of_released
      · apply (h.guarded j).receiveAll hnot
        exact hlanes.continues hflow hfit hincreasing htask
      · rw [held_taskReleasing]
        exact (receiveAll_aligner i (s.aligners j) messages).2
  | release i j messages next htask =>
      rcases htask with ⟨htask, rfl⟩ | ⟨htask, rfl⟩
      · exact h.release hfit hflow hlanes (by rw [htask]; rfl) rfl
      · exact h.release hfit hflow hlanes (by rw [htask]; rfl) rfl
  | finish i j nowMs htask hchannel hclosed =>
      have hnot : i ∉ (s.aligners j).finished := by
        have hlane := hlanes.lane i j
        rw [htask] at hlane
        exact hlane.2.2
      apply h.of_released
      · rw [hlanes.last i j]
        exact (h.guarded j).endInput hnot nowMs
      · rw [held_taskClosing]
        exact endInput_releasedEpochs i (s.aligners j) _ nowMs
  | take j htaken => exact ⟨h.guarded, h.owned, h.covers⟩

end Aligned

/-! ## Whole schedules -/

/-- The invariant of the exchange. -/
structure Sound (plan : Plan ρ) (inputs : Fin N → List (RecordBatch ρ))
    (s : State ρ N M) : Prop where
  flow : Flow plan inputs s
  lanes : Lanes s
  aligned : Aligned plan inputs s

theorem sound_run
    {plan : Plan ρ} {inputs : Fin N → List (RecordBatch ρ)}
    (hfit : ∀ i, AllFit plan.exchange (inputs i))
    (hincreasing : ∀ i, (epochsOf (inputs i)).Pairwise (· < ·))
    {actions : List (Action N M)} {s : State ρ N M}
    (hrun : Transition.run (step plan) (start M inputs) actions = some s) :
    Sound plan inputs s := by
  have hstart : Sound plan inputs (start M inputs) :=
    ⟨flow_start plan inputs, lanes_start inputs, aligned_start plan inputs⟩
  refine Transition.run_invariant ?_ hstart hrun
  intro s action s' h hstep
  have hstepped := stepped_of_step hstep
  exact ⟨h.flow.step hstepped, h.lanes.step h.flow hstepped,
    h.aligned.step hfit hincreasing h.flow h.lanes hstepped⟩

end Repartition

end Streamling
