import Streamling.Operators.RepartitionExchange

/-!
# What the exchange delivers

Every schedule of the exchange is finite and can only end with all tasks
returned: the bounded channels make tasks wait for each other, but never in a
circle.  At that point every row has reached the one output it is placed on.
-/

namespace Streamling

namespace Repartition

variable {ρ : Type*} {N M : ℕ}

/-! ## A schedule that has come to its end -/

/-- No task can take a step any more. -/
def Quiescent (plan : Plan ρ) (s : State ρ N M) : Prop :=
  ∀ action, step plan s action = none

/-- All tasks have returned and nothing is left in a channel. -/
structure Drained (s : State ρ N M) : Prop where
  routers : ∀ i, (s.routers i).sends = [] ∧ (s.routers i).input = [] ∧
    (s.routers i).closed = true
  channels : ∀ i j, s.channels (i, j) = []
  merges : ∀ i j, (s.merges (i, j)).task = .finished
  outputs : ∀ j, (s.outputs j).length ≤ s.taken j

instance [DecidableEq ρ] (s : State ρ N M) : Decidable (Drained s) :=
  decidable_of_iff
    ((∀ i, (s.routers i).sends = [] ∧ (s.routers i).input = [] ∧
        (s.routers i).closed = true) ∧
      (∀ i j, s.channels (i, j) = []) ∧
      (∀ i j, (s.merges (i, j)).task = .finished) ∧
      ∀ j, (s.outputs j).length ≤ s.taken j)
    ⟨fun h => ⟨h.1, h.2.1, h.2.2.1, h.2.2.2⟩,
      fun h => ⟨h.routers, h.channels, h.merges, h.outputs⟩⟩

theorem quiescent_of_drained
    {plan : Plan ρ} {s : State ρ N M} (h : Drained s) :
    Quiescent plan s := by
  intro action
  cases action with
  | read i => simp [step, h.routers i]
  | send i => simp [step, h.routers i]
  | close i => simp [step, h.routers i]
  | receive i j => simp [step, h.merges i j]
  | forward i j => simp [step, h.merges i j]
  | observe i j => simp [step, h.merges i j]
  | release i j => simp [step, h.merges i j]
  | finish i j nowMs => simp [step, h.merges i j]
  | take j => simp [step, h.outputs j]

section Progress

variable {plan : Plan ρ} {s : State ρ N M}

theorem Quiescent.taken (h : Quiescent plan s) (j : Fin M) :
    (s.outputs j).length ≤ s.taken j := by
  have htake := h (.take j)
  simpa [step] using htake

theorem Quiescent.room (h : Quiescent plan s) (j : Fin M) :
    s.hasRoom plan j = true := by
  have hle := h.taken j
  have hpos := plan.channelBufferSize_pos
  simp only [State.hasRoom, decide_eq_true_eq]
  omega

/-- A merge task is never stuck with something in its hands. -/
theorem Quiescent.task (h : Quiescent plan s) (i : Fin N) (j : Fin M) :
    ((s.merges (i, j)).task = .receiving ∧ s.channels (i, j) = []) ∨
      (s.merges (i, j)).task = .finished := by
  have hroom := h.room j
  cases htask : (s.merges (i, j)).task with
  | receiving =>
      left
      refine ⟨rfl, ?_⟩
      cases hchannel : s.channels (i, j) with
      | nil => rfl
      | cons batch batches =>
          have hstuck := h (.receive i j)
          simp [step, htask, hchannel] at hstuck
  | forwarding batch messages =>
      have hstuck := h (.forward i j)
      simp [step, htask, hroom] at hstuck
  | observing messages =>
      have hstuck := h (.observe i j)
      simp [step, htask] at hstuck
  | releasing messages =>
      have hstuck := h (.release i j)
      simp [step, htask, hroom] at hstuck
  | closing messages =>
      have hstuck := h (.release i j)
      simp [step, htask, hroom] at hstuck
  | finished => exact Or.inr rfl

/-- The tasks cannot block each other: where no step is possible, all have
returned. -/
theorem drained_of_quiescent (hlanes : Lanes s) (h : Quiescent plan s) :
    Drained s := by
  have hchannels (i : Fin N) (j : Fin M) : s.channels (i, j) = [] := by
    rcases h.task i j with ⟨-, hempty⟩ | hfinished
    · exact hempty
    · have hlane := hlanes.lane i j
      rw [hfinished] at hlane
      exact (hlanes.ended i j hlane.2.2).1
  have hrouters (i : Fin N) : (s.routers i).sends = [] ∧
      (s.routers i).input = [] ∧ (s.routers i).closed = true := by
    have hsends : (s.routers i).sends = [] := by
      cases hsends : (s.routers i).sends with
      | nil => rfl
      | cons send sends =>
          have hstuck := h (.send i)
          simp [step, hsends, hchannels] at hstuck
    have hinput : (s.routers i).input = [] := by
      cases hinput : (s.routers i).input with
      | nil => rfl
      | cons batch input =>
          have hstuck := h (.read i)
          simp [step, hsends, hinput] at hstuck
    refine ⟨hsends, hinput, ?_⟩
    cases hclosed : (s.routers i).closed with
    | true => rfl
    | false =>
        have hstuck := h (.close i)
        simp [step, hsends, hinput, hclosed] at hstuck
  refine ⟨hrouters, hchannels, ?_, h.taken⟩
  intro i j
  rcases h.task i j with ⟨hreceiving, -⟩ | hfinished
  · have hstuck := h (.finish i j 0)
    simp [step, hreceiving, hchannels, hrouters] at hstuck
  · exact hfinished

end Progress

/-! ## Every schedule is finite -/

/-- How many steps a merge task can still cause, the receipts of its channel
apart. -/
def MergeTask.weight : MergeTask ρ → ℕ
  | .finished => 0
  | .closing _ => 2
  | .receiving => 3
  | .releasing _ => 5
  | .observing _ => 6
  | .forwarding _ _ => 8

/-- How many steps a router can still cause. -/
def Router.weight (router : Router ρ M) : ℕ :=
  router.input.length * (7 * M + 1) + router.sends.length * 7 +
    if router.closed then 0 else 1

/-- A bound on the number of steps left. -/
def State.weight (s : State ρ N M) : ℕ :=
  (∑ i, (s.routers i).weight) +
    (∑ lane, (s.channels lane).length * 6) +
    (∑ lane, (s.merges lane).task.weight) +
    ∑ j, ((s.outputs j).length - s.taken j)

theorem sum_update
    {α β : Type*} [Fintype α] [DecidableEq α] (w : α → β → ℕ) (g : α → β)
    (a : α) (v : β) :
    (∑ x, w x (Function.update g a v x)) + w a (g a) =
      (∑ x, w x (g x)) + w a v := by
  rw [← Finset.add_sum_erase Finset.univ _ (Finset.mem_univ a),
    ← Finset.add_sum_erase Finset.univ (fun x => w x (g x))
      (Finset.mem_univ a)]
  have hrest : ∑ x ∈ Finset.univ.erase a, w x (Function.update g a v x) =
      ∑ x ∈ Finset.univ.erase a, w x (g x) := by
    apply Finset.sum_congr rfl
    intro x hx
    rw [Function.update_of_ne (Finset.ne_of_mem_erase hx)]
  rw [hrest, Function.update_self]
  omega

theorem length_sendsOf_le (split : List (Option (RecordBatch ρ))) :
    (sendsOf M split).length ≤ M := by
  refine (List.length_filterMap_le _ _).trans ?_
  simp

theorem weight_taskFor_le (batch : RecordBatch ρ) :
    (taskFor batch).weight ≤ 8 := by
  unfold taskFor
  split
  · simp [MergeTask.weight]
  · split <;> simp [MergeTask.weight]

theorem weight_taskAfterRows_le (messages : List CheckpointMessage) :
    (taskAfterRows messages : MergeTask ρ).weight ≤ 6 := by
  cases messages <;> simp [taskAfterRows, MergeTask.weight]

theorem weight_taskReleasing_le (messages : List CheckpointMessage) :
    (taskReleasing messages : MergeTask ρ).weight ≤ 5 := by
  cases messages <;> simp [taskReleasing, MergeTask.weight]

theorem weight_taskClosing_le (messages : List CheckpointMessage) :
    (taskClosing messages : MergeTask ρ).weight ≤ 2 := by
  cases messages <;> simp [taskClosing, MergeTask.weight]

section Weight

variable (s : State ρ N M)

theorem weight_setRouter (i : Fin N) (router : Router ρ M) :
    (s.setRouter i router).weight + (s.routers i).weight =
      s.weight + router.weight := by
  have hsum := sum_update (fun _ r => Router.weight r) s.routers i router
  simp only [State.weight, State.setRouter]
  omega

theorem weight_setChannel (lane : Fin N × Fin M)
    (batches : List (RecordBatch ρ)) :
    (s.setChannel lane batches).weight +
        (s.channels lane).length * 6 =
      s.weight + batches.length * 6 := by
  have hsum := sum_update (fun _ (xs : List (RecordBatch ρ)) =>
    xs.length * 6) s.channels lane batches
  simp only [State.weight, State.setChannel]
  omega

theorem weight_setMerge (lane : Fin N × Fin M) (merge : Merge ρ) :
    (s.setMerge lane merge).weight + (s.merges lane).task.weight =
      s.weight + merge.task.weight := by
  have hsum := sum_update (fun _ (m : Merge ρ) => m.task.weight)
    s.merges lane merge
  simp only [State.weight, State.setMerge]
  omega

theorem weight_emit_le (i : Fin N) (j : Fin M) (batch : RecordBatch ρ) :
    (s.emit i j batch).weight ≤ s.weight + 1 := by
  have hsum := sum_update (fun k (xs : List (Fin N × RecordBatch ρ)) =>
    xs.length - s.taken k) s.outputs j (s.outputs j ++ [(i, batch)])
  simp only [State.weight, State.emit]
  simp only [List.length_append, List.length_singleton] at hsum
  omega

end Weight

/-- A merge task takes a step that costs it at least `k`. -/
theorem weight_setMerge_le
    (s t : State ρ N M) {lane : Fin N × Fin M} {merge : Merge ρ}
    (hmerges : t.merges = s.merges) {k : ℕ}
    (hcost : t.weight + merge.task.weight + k ≤
      s.weight + (s.merges lane).task.weight) :
    (t.setMerge lane merge).weight + k ≤ s.weight := by
  have hset := weight_setMerge t lane merge
  rw [hmerges] at hset
  omega

/-- Every step uses up some of the bound. -/
theorem weight_step
    {plan : Plan ρ} {s s' : State ρ N M} (hstep : Stepped plan s s') :
    s'.weight + 1 ≤ s.weight := by
  cases hstep with
  | read i batch input hsends hinput =>
      have hle := length_sendsOf_le (M := M)
        (routeBatch plan.exchange M (s.routers i).nextOutput batch).1
      generalize hrouter : ({ s.routers i with
          input := input
          sends := sendsOf M
            (routeBatch plan.exchange M (s.routers i).nextOutput batch).1
          nextOutput :=
            (routeBatch plan.exchange M (s.routers i).nextOutput batch).2 } :
        Router ρ M) = router
      have hcost : router.weight + 1 ≤ (s.routers i).weight := by
        subst hrouter
        simp only [Router.weight, hsends, hinput, List.length_cons,
          List.length_nil]
        have hmul : (input.length + 1) * (7 * M + 1) =
            input.length * (7 * M + 1) + (7 * M + 1) := Nat.succ_mul _ _
        omega
      have hset := weight_setRouter s i router
      omega
  | send i j batch sends hsends =>
      have hset := weight_setRouter s i { s.routers i with sends := sends }
      have hchan := weight_setChannel
        (s.setRouter i { s.routers i with sends := sends }) (i, j)
        (s.channels (i, j) ++ [batch])
      have hsame : (s.setRouter i
          { s.routers i with sends := sends }).channels (i, j) =
            s.channels (i, j) := rfl
      have hcost : Router.weight { s.routers i with sends := sends } + 7 =
          (s.routers i).weight := by
        simp only [Router.weight, hsends, List.length_cons]
        omega
      rw [hsame, List.length_append, List.length_singleton] at hchan
      omega
  | close i hsends hinput hclosed =>
      have hset := weight_setRouter s i { s.routers i with closed := true }
      have hcost : Router.weight { s.routers i with closed := true } + 1 =
          (s.routers i).weight := by
        simp [Router.weight, hclosed]
      omega
  | receive i j batch batches htask hchannel =>
      refine weight_setMerge_le s (s.setChannel (i, j) batches) rfl ?_
      have hchan := weight_setChannel s (i, j) batches
      have hle := weight_taskFor_le batch
      rw [hchannel, List.length_cons] at hchan
      rw [htask]
      change _ + 1 ≤ s.weight + 3
      dsimp only
      omega
  | forward i j batch messages htask =>
      refine weight_setMerge_le s (s.emit i j batch) rfl ?_
      have hemit := weight_emit_le s i j batch
      have hle := weight_taskAfterRows_le (ρ := ρ) messages
      rw [htask]
      change _ + 1 ≤ s.weight + 8
      dsimp only
      omega
  | observe i j messages htask =>
      refine weight_setMerge_le s (s.setAligner j
        ((s.aligners j).receiveAll i messages)) rfl ?_
      have hle := weight_taskReleasing_le (ρ := ρ)
        ((s.aligners j).aligner.observe messages).2
      rw [htask]
      change s.weight + _ + 1 ≤ s.weight + 6
      dsimp only
      omega
  | release i j messages next htask =>
      refine weight_setMerge_le s (s.emit i j ⟨[], messages⟩) rfl ?_
      have hemit := weight_emit_le s i j ⟨[], messages⟩
      have hcost : next.weight + 2 ≤ (s.merges (i, j)).task.weight := by
        rcases htask with ⟨htask, rfl⟩ | ⟨htask, rfl⟩
        · rw [htask]
          simp [MergeTask.weight]
        · rw [htask]
          simp [MergeTask.weight]
      dsimp only
      omega
  | finish i j nowMs htask hchannel hclosed =>
      refine weight_setMerge_le s (s.setAligner j
        ((s.aligners j).endInput i (s.merges (i, j)).lastDelivered nowMs))
        rfl ?_
      have hle := weight_taskClosing_le (ρ := ρ)
        ((s.aligners j).aligner.inputDone
          (s.merges (i, j)).lastDelivered nowMs).2
      rw [htask]
      change s.weight + _ + 1 ≤ s.weight + 3
      dsimp only
      omega
  | take j htaken =>
      have hsum := sum_update (fun k n => (s.outputs k).length - n) s.taken
        j (s.taken j + 1)
      simp only [State.weight]
      omega

/-- A schedule is never longer than the bound at its start. -/
theorem length_le_weight
    {plan : Plan ρ} {s t : State ρ N M} {actions : List (Action N M)}
    (hrun : Transition.run (step plan) s actions = some t) :
    actions.length + t.weight ≤ s.weight := by
  induction actions generalizing s with
  | nil =>
      obtain rfl : s = t := by simpa using hrun
      simp
  | cons action actions ih =>
      obtain ⟨m, hm, hrest⟩ := Transition.run_cons_eq_some.mp hrun
      have hhead := weight_step (stepped_of_step hm)
      have htail := ih hrest
      simp only [List.length_cons]
      omega

/-! ## What the outputs carry -/

/-- All rows on an output. -/
def outputRows (output : List (Fin N × RecordBatch ρ)) : List ρ :=
  rowsOf (output.map Prod.snd)

theorem outputRows_perm (output : List (Fin N × RecordBatch ρ)) :
    (outputRows output).Perm
      ((List.finRange N).flatMap fun i => rowsFrom i output) := by
  induction output with
  | nil => simp [outputRows, rowsFrom, rowsOf]
  | cons item output ih =>
      obtain ⟨k, batch⟩ := item
      have hsplit : (fun i => rowsFrom i ((k, batch) :: output)) =
          fun i => (if i = k then batch.rows else []) ++
            rowsFrom i output := by
        funext i
        by_cases hi : i = k
        · simp [rowsFrom, rowsOf, hi]
        · simp [rowsFrom, hi, Ne.symm hi]
      have hhead : outputRows ((k, batch) :: output) =
          batch.rows ++ outputRows output := List.flatMap_cons
      rw [hsplit, hhead]
      refine List.Perm.trans ?_ (List.flatMap_append_perm _ _ _)
      rw [flatMap_ite_eq (List.mem_finRange k) (List.nodup_finRange N)]
      exact ih.append_left batch.rows

theorem flatMap_swap_perm
    {α β γ : Type*} (xs : List α) (ys : List β) (f : α → β → List γ) :
    (xs.flatMap fun x => ys.flatMap fun y => f x y).Perm
      (ys.flatMap fun y => xs.flatMap fun x => f x y) := by
  induction xs with
  | nil => simp
  | cons x xs ih =>
      simp only [List.flatMap_cons]
      refine (ih.append_left _).trans ?_
      exact List.flatMap_append_perm ys _ _

/-- The exchange has delivered what it should. -/
structure Delivered (plan : Plan ρ) (inputs : Fin N → List (RecordBatch ρ))
    (s : State ρ N M) : Prop where
  /-- An output has, of every input, a first part of the rows of that input
  placed on it, in their order. -/
  rows : ∀ i j, rowsFrom i (s.outputs j) <+:
    placed plan.exchange M 0 (inputs i) j
  /-- Of the placed rows, none is missing when the schedule has come to its
  end. -/
  rows_at_end : Quiescent plan s → ∀ i j, rowsFrom i (s.outputs j) =
    placed plan.exchange M 0 (inputs i) j
  /-- At that point the outputs together have the rows of the inputs. -/
  all_rows : Quiescent plan s →
    ((List.finRange M).flatMap fun j => outputRows (s.outputs j)).Perm
      ((List.finRange N).flatMap fun i => rowsOf (inputs i))
  /-- Hash placement: the hash of a row decides its output, and the rows of
  an input on an output are in input order. -/
  by_hash : ∀ hashRow, plan.exchange = .hash hashRow → ∀ j : Fin M,
    (∀ row ∈ outputRows (s.outputs j), (hashRow row).toNat % M = j) ∧
      ∀ i, rowsFrom i (s.outputs j) <+:
        (rowsOf (inputs i)).filter fun row => (hashRow row).toNat % M = j
  /-- No output carries an epoch twice. -/
  epochs_once : ∀ j, (outputEpochs (s.outputs j)).Nodup
  /-- A marker is behind the rows it covers. -/
  covers : ∀ j, Covers plan.exchange inputs j (s.outputs j)

/-- The exchange, for every placement whose batches fit, all inputs with
increasing markers and every schedule: a schedule is finite, every row is
placed on exactly one output, and the outputs carry what they should. -/
theorem exchange_delivers_every_row
    (plan : Plan ρ) (hM : 0 < M) (inputs : Fin N → List (RecordBatch ρ))
    (hincreasing : ∀ i, (epochsOf (inputs i)).Pairwise (· < ·))
    (hfit : ∀ i, AllFit plan.exchange (inputs i))
    {actions : List (Action N M)} {s : State ρ N M}
    (hrun : Transition.run (step plan) (start M inputs) actions = some s) :
    actions.length ≤ (start M inputs).weight ∧
      (∀ i, ((List.finRange M).flatMap fun j : Fin M =>
        placed plan.exchange M 0 (inputs i) j).Perm (rowsOf (inputs i))) ∧
      Delivered plan inputs s := by
  obtain ⟨hflow, hlanes, haligned⟩ := sound_run hfit hincreasing hrun
  have hlength := length_le_weight hrun
  have hplaced (i : Fin N) := placed_perm plan.exchange (inputs i) hM
  have hreceived (i : Fin N) (j : Fin M) :
      rowsOf (s.merges (i, j)).received <+:
        placed plan.exchange M 0 (inputs i) j := by
    rw [← rowsOf_routed (hfit i), ← hflow.carried i j, rowsOf_append]
    exact List.prefix_append _ _
  have hrows (i : Fin N) (j : Fin M) :
      rowsFrom i (s.outputs j) <+: placed plan.exchange M 0 (inputs i) j :=
    (hlanes.lane i j).rows_sent.trans (hreceived i j)
  have hend (hquiet : Quiescent plan s) (i : Fin N) (j : Fin M) :
      rowsFrom i (s.outputs j) = placed plan.exchange M 0 (inputs i) j := by
    have hdrained := drained_of_quiescent hlanes hquiet
    have hlane := hlanes.lane i j
    rw [hdrained.merges i j] at hlane
    have hcarried := hflow.carried i j
    rw [hdrained.channels i j, Router.upcoming, (hdrained.routers i).1,
      (hdrained.routers i).2.1] at hcarried
    rw [hlane.1, ← rowsOf_routed (hfit i), ← hcarried]
    simp [sentTo, routed]
  refine ⟨by omega, hplaced, hrows, hend, ?_, ?_, ?_, haligned.covers⟩
  · intro hquiet
    have houtput (j : Fin M) : (outputRows (s.outputs j)).Perm
        ((List.finRange N).flatMap fun i =>
          placed plan.exchange M 0 (inputs i) j) := by
      have hperm := outputRows_perm (s.outputs j)
      simpa only [hend hquiet] using hperm
    refine (List.Perm.flatMap_left _ fun j _ => houtput j).trans ?_
    refine (flatMap_swap_perm _ _ _).trans ?_
    exact List.Perm.flatMap_left _ fun i _ => hplaced i
  · intro hashRow hexchange j
    have hfilter (i : Fin N) : rowsFrom i (s.outputs j) <+:
        (rowsOf (inputs i)).filter fun row =>
          (hashRow row).toNat % M = j := by
      have hprefixed := hrows i j
      rw [hexchange, placed_hash] at hprefixed
      exact hprefixed
    refine ⟨?_, hfilter⟩
    intro row hrow
    obtain ⟨i, -, hmem⟩ := List.mem_flatMap.mp
      ((outputRows_perm (s.outputs j)).subset hrow)
    have hin := (hfilter i).subset hmem
    simpa using (List.mem_filter.mp hin).2
  · intro j
    exact (haligned.owned j).spent_nodup

/-- Two inputs, two outputs: one batch is split, both inputs deliver epoch
`1`, and the schedule runs to its end. -/
theorem exchange_delivers_every_row_two_inputs :
    let plan : Plan ℕ := ⟨.hash UInt64.ofNat, 4, by decide⟩
    let inputs : Fin 2 → List (RecordBatch ℕ) :=
      ![[⟨[0, 1], [.marker 1 0]⟩], [⟨[3], []⟩, ⟨[], [.marker 1 0]⟩]]
    let actions : List (Action 2 2) :=
      [.read 0, .send 0, .send 0, .close 0, .read 1, .send 1, .read 1,
        .send 1, .send 1, .close 1, .receive 0 0, .forward 0 0,
        .observe 0 0, .receive 0 1, .forward 0 1, .observe 0 1,
        .receive 1 0, .observe 1 0, .release 1 0, .receive 1 1,
        .forward 1 1, .receive 1 1, .observe 1 1, .release 1 1,
        .finish 0 0 0, .finish 0 1 0, .finish 1 0 0, .finish 1 1 0,
        .take 0, .take 0, .take 1, .take 1, .take 1]
    ∃ s, Transition.run (step plan) (start 2 inputs) actions = some s ∧
      Quiescent plan s ∧
      (outputRows (s.outputs 0) = [0] ∧
        outputRows (s.outputs 1) = [1, 3] ∧
        outputEpochs (s.outputs 0) = [1] ∧
        outputEpochs (s.outputs 1) = [1]) ∧
      Delivered plan inputs s := by
  intro plan inputs actions
  have hfit : ∀ i, AllFit plan.exchange (inputs i) := by
    intro i
    fin_cases i <;> simp [AllFit, Fits, plan, inputs]
  refine Exists.imp (fun s (h : _ ∧ Drained s ∧ _) =>
    ⟨h.1, quiescent_of_drained h.2.1, h.2.2, ?_⟩)
    (Transition.exists_run_of_decide ?_)
  · exact (exchange_delivers_every_row plan (by decide) inputs
      (by decide) hfit h.1).2.2
  · decide +kernel

/-! ## A batch with more than `2 ^ 32` rows -/

/-- What a single output is sent for a batch of `rows` that all hash to it. -/
def gathered (rows : List ρ) : List ρ :=
  takeRows rows (rowIndices (fun _ => 0) 1 rows 0)

theorem routeBatch_single {rows : List ρ} (hrows : rows ≠ []) :
    routeBatch (.hash fun _ => 0) 1 0 ⟨rows, []⟩ =
      ([some ⟨gathered rows, []⟩], 0) := by
  have hlength : (rowIndices (fun _ => 0) 1 rows 0).length =
      rows.length := by
    rw [length_rowIndices]
    simp [hashedTo]
  have hindices : rowIndices (fun _ => 0) 1 rows 0 ≠ [] := by
    intro hnil
    rw [hnil] at hlength
    exact hrows (List.length_eq_zero_iff.mp hlength.symm)
  have htake : (gathered rows).take
      (rowIndices (fun _ => 0) 1 rows 0).length = gathered rows :=
    List.take_of_length_le (List.length_filterMap_le _ _)
  have hsplit : splitBatchByHash (fun _ => 0) 1 ⟨rows, []⟩ =
      [some ⟨gathered rows, []⟩] := by
    simp [splitBatchByHash, sliceOutputs, hindices]
    exact htake
  simp [routeBatch, hrows, hsplit, reattach]

/-- A batch through an exchange of one input and one output. -/
theorem run_single {rows : List ρ} (hrows : rows ≠ []) :
    ∃ s : State ρ 1 1,
      Transition.run (step ⟨.hash fun _ => 0, 1, Nat.one_pos⟩)
        (start 1 fun _ => [⟨rows, []⟩])
        [.read 0, .send 0, .close 0, .receive 0 0, .forward 0 0,
          .finish 0 0 0, .take 0] = some s ∧
      Drained s ∧ outputRows (s.outputs 0) = gathered rows := by
  have hread : step ⟨.hash fun _ => 0, 1, Nat.one_pos⟩
      (start 1 fun _ : Fin 1 => [⟨rows, []⟩]) (.read 0) =
      some ((start 1 fun _ => [⟨rows, []⟩]).setRouter 0
        { input := [], sends := [(0, ⟨gathered rows, []⟩)] }) := by
    simp only [step, start, routeBatch_single hrows]
    rfl
  refine ⟨_, Transition.run_cons_eq_some.mpr ⟨_, hread, rfl⟩, ?_, ?_⟩
  · refine ⟨?_, ?_, ?_, ?_⟩
    · intro i
      rw [Subsingleton.elim i 0]
      exact ⟨rfl, rfl, rfl⟩
    · intro i j
      rw [Subsingleton.elim i 0, Subsingleton.elim j 0]
      rfl
    · intro i j
      rw [Subsingleton.elim i 0, Subsingleton.elim j 0]
      rfl
    · intro j
      rw [Subsingleton.elim j 0]
      exact le_refl 1
  · exact List.append_nil _

/-- No row behind the first `2 ^ 32` is gathered. -/
theorem not_mem_gathered :
    2 ^ 32 ∉ gathered (List.range (2 ^ 32 + 1)) := by
  intro hmem
  simp only [gathered, takeRows, rowIndices, List.mem_filterMap,
    List.mem_map] at hmem
  obtain ⟨k, ⟨q, -, rfl⟩, hget⟩ := hmem
  have hlt : q.2 % 2 ^ 32 < 2 ^ 32 := Nat.mod_lt _ (by positivity)
  have hval : q.2 % 2 ^ 32 = 2 ^ 32 := by
    rw [List.getElem?_range (hlt.trans (Nat.lt_succ_self _))] at hget
    exact Option.some.inj hget
  omega

/-- A batch of `2 ^ 32 + 1` rows, all hashed to the only output: the schedule
comes to its end, and the last row is on no output. -/
theorem exchange_loses_row_of_wide_batch :
    ∃ (inputs : Fin 1 → List (RecordBatch ℕ)) (actions : List (Action 1 1))
      (s : State ℕ 1 1),
      Transition.run (step ⟨.hash fun _ => 0, 1, Nat.one_pos⟩)
        (start 1 inputs) actions = some s ∧
      Quiescent ⟨.hash fun _ => 0, 1, Nat.one_pos⟩ s ∧
      (∀ i, (epochsOf (inputs i)).Pairwise (· < ·)) ∧
      2 ^ 32 ∈ rowsOf (inputs 0) ∧
      ∀ j, 2 ^ 32 ∉ outputRows (s.outputs j) := by
  have hrows : List.range (2 ^ 32 + 1) ≠ [] := by
    rw [Ne, List.range_eq_nil]
    omega
  obtain ⟨s, hrun, hdrained, houtput⟩ := run_single hrows
  refine ⟨_, _, s, hrun, quiescent_of_drained hdrained, ?_, ?_, ?_⟩
  · intro i
    simp [epochsOf]
  · rw [rowsOf_singleton, List.mem_range]
    exact Nat.lt_succ_self _
  · intro j
    rw [Subsingleton.elim j 0, houtput]
    exact not_mem_gathered

end Repartition

end Streamling
