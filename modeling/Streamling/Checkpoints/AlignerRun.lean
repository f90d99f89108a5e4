import Mathlib.Data.Fintype.Card
import Streamling.Support.Run
import Streamling.Checkpoints.MarkerAligner

/-!
# Runs of one marker aligner

The aligner only counts copies.  A run records beside it what the counting
stands for: which epochs each of the `N` inputs delivered, which inputs
finished, and for every release the deliveries and the finished inputs at that
moment.  The inputs of a run behave as the streams of a pipeline do: each
delivers strictly increasing epochs, reports its greatest epoch when it ends
and nothing afterwards, and a finalizer is only seen for a released epoch.
-/

namespace Streamling

/-- A release of `epoch`, with the deliveries and the finished inputs at the
moment of the release. -/
structure Release (N : ℕ) where
  epoch : CheckpointEpoch
  delivered : Fin N → List CheckpointEpoch
  finished : Finset (Fin N)

/-- An aligner with the history of its inputs. -/
structure AlignerRun (N : ℕ) where
  aligner : MarkerAligner
  delivered : Fin N → List CheckpointEpoch
  finished : Finset (Fin N)
  releases : List (Release N)

/-- A call made on the aligner on behalf of input `i`. -/
inductive AlignerCall (N : ℕ) where
  | observe (i : Fin N) (messages : List CheckpointMessage)
  | inputDone (i : Fin N) (lastDelivered : Option CheckpointEpoch)
      (nowMs : ℕ)

/-- Every input has finished, or every input has delivered `epoch` or
finished with a watermark below it. -/
def Settled {N : ℕ} (delivered : Fin N → List CheckpointEpoch)
    (finished : Finset (Fin N)) (epoch : CheckpointEpoch) : Prop :=
  (∀ i, i ∈ finished) ∨
    ∀ i, epoch ∈ delivered i ∨
      (i ∈ finished ∧ ∀ d ∈ delivered i, d < epoch)

namespace AlignerRun

variable {N : ℕ}

/-- The run before any call. -/
def start (N : ℕ) : AlignerRun N where
  aligner := MarkerAligner.new N
  delivered := fun _ => []
  finished := ∅
  releases := []

/-- The epochs released so far, in order. -/
def releasedEpochs (r : AlignerRun N) : List CheckpointEpoch :=
  r.releases.map Release.epoch

/-- The deliveries after input `i` delivers `message`. -/
def deliveredAfter (r : AlignerRun N) (i : Fin N)
    (message : CheckpointMessage) : Fin N → List CheckpointEpoch :=
  match message.markerEpoch? with
  | some epoch => Function.update r.delivered i (r.delivered i ++ [epoch])
  | none => r.delivered

/-- Whether input `i` may deliver `message` now. -/
def mayDeliver (r : AlignerRun N) (i : Fin N) :
    CheckpointMessage → Bool
  | .marker epoch _ =>
      decide (i ∉ r.finished) && (r.delivered i).all (· < epoch)
  | .finalizer epoch =>
      decide (i ∉ r.finished) && decide (epoch ∈ r.releasedEpochs)
  | _ => decide (i ∉ r.finished)

/-- Input `i` delivers one message. -/
def deliver (i : Fin N) (r : AlignerRun N) (message : CheckpointMessage) :
    Option (AlignerRun N) :=
  if r.mayDeliver i message then
    let result := r.aligner.observeMessage message
    let delivered := r.deliveredAfter i message
    some
      { aligner := result.1
        delivered := delivered
        finished := r.finished
        releases := r.releases ++
          (markerEpochs result.2).map fun epoch =>
            ⟨epoch, delivered, r.finished⟩ }
  else none

/-- Input `i` ends. -/
def finish (i : Fin N) (lastDelivered : Option CheckpointEpoch)
    (nowMs : ℕ) (r : AlignerRun N) : Option (AlignerRun N) :=
  if i ∉ r.finished ∧ lastDelivered = (r.delivered i).max? then
    let result := r.aligner.inputDone lastDelivered nowMs
    let finished := insert i r.finished
    some
      { aligner := result.1
        delivered := r.delivered
        finished := finished
        releases := r.releases ++
          (markerEpochs result.2).map fun epoch =>
            ⟨epoch, r.delivered, finished⟩ }
  else none

/-- One call on the aligner.  A call of `observe` handles its messages one
after the other. -/
def step (r : AlignerRun N) : AlignerCall N → Option (AlignerRun N)
  | .observe i messages => Transition.run (deliver i) r messages
  | .inputDone i lastDelivered nowMs => finish i lastDelivered nowMs r

/-! ## The run drives the aligner's own functions -/

theorem run_deliver_aligner
    {i : Fin N} {r r' : AlignerRun N} {messages : List CheckpointMessage}
    (h : Transition.run (deliver i) r messages = some r') :
    r'.aligner = (r.aligner.observe messages).1 ∧
      r'.releasedEpochs =
        r.releasedEpochs ++ markerEpochs (r.aligner.observe messages).2 := by
  induction messages generalizing r with
  | nil =>
      obtain rfl : r = r' := by simpa using h
      simp
  | cons message messages ih =>
      obtain ⟨m, hm, hrest⟩ := Transition.run_cons_eq_some.mp h
      obtain ⟨haligner, hreleased⟩ := ih hrest
      simp only [deliver] at hm
      split at hm
      · obtain rfl := Option.some.inj hm
        constructor
        · simpa [MarkerAligner.observe_cons] using haligner
        · rw [hreleased, MarkerAligner.observe_cons, markerEpochs_append]
          simp [releasedEpochs, Function.comp_def]
      · simp at hm

/-- A call leaves the aligner in the state that the called function computes
and releases exactly the marker epochs that function returns. -/
theorem step_aligner
    {r r' : AlignerRun N} {call : AlignerCall N}
    (h : r.step call = some r') :
    match call with
    | .observe _ messages =>
        r'.aligner = (r.aligner.observe messages).1 ∧
          r'.releasedEpochs = r.releasedEpochs ++
            markerEpochs (r.aligner.observe messages).2
    | .inputDone _ lastDelivered nowMs =>
        r'.aligner = (r.aligner.inputDone lastDelivered nowMs).1 ∧
          r'.releasedEpochs = r.releasedEpochs ++
            markerEpochs (r.aligner.inputDone lastDelivered nowMs).2 := by
  cases call with
  | observe i messages => exact run_deliver_aligner h
  | inputDone i lastDelivered nowMs =>
      simp only [step, finish] at h
      split at h
      · obtain rfl := Option.some.inj h
        simp [releasedEpochs, Function.comp_def]
      · simp at h

/-! ## What the counters stand for -/

/-- The inputs that delivered `epoch`. -/
def deliverers (r : AlignerRun N) (epoch : CheckpointEpoch) :
    Finset (Fin N) :=
  Finset.univ.filter fun i => epoch ∈ r.delivered i

/-- The inputs that finished with a watermark below `epoch`. -/
def finishedBelow (r : AlignerRun N) (epoch : CheckpointEpoch) :
    Finset (Fin N) :=
  r.finished.filter fun i => ∀ d ∈ r.delivered i, d < epoch

/-- No input can deliver `epoch` any more. -/
def Closed (r : AlignerRun N) (epoch : CheckpointEpoch) : Prop :=
  ∀ i, i ∈ r.finished ∨ ∃ d ∈ r.delivered i, epoch ≤ d

theorem closed_of_settled
    {r : AlignerRun N} {epoch : CheckpointEpoch}
    (h : Settled r.delivered r.finished epoch) : r.Closed epoch := by
  intro i
  rcases h with hall | heach
  · exact Or.inl (hall i)
  · rcases heach i with hdel | ⟨hfin, -⟩
    · exact Or.inr ⟨epoch, hdel, le_refl epoch⟩
    · exact Or.inl hfin

theorem Closed.mono
    {r : AlignerRun N} {e f : CheckpointEpoch}
    (h : r.Closed f) (hef : e ≤ f) : r.Closed e := by
  intro i
  rcases h i with hfin | ⟨d, hd, hfd⟩
  · exact Or.inl hfin
  · exact Or.inr ⟨d, hd, hef.trans hfd⟩

theorem deliverers_disjoint_finishedBelow
    (r : AlignerRun N) (epoch : CheckpointEpoch) :
    Disjoint (r.deliverers epoch) (r.finishedBelow epoch) := by
  rw [Finset.disjoint_left]
  intro i hdel hbelow
  simp only [deliverers, Finset.mem_filter] at hdel
  simp only [finishedBelow, Finset.mem_filter] at hbelow
  exact lt_irrefl epoch (hbelow.2 epoch hdel.2)

/-- If the copies delivered and the inputs finished below account for every
input, each input is one or the other: no copy stands in for another input's
missing one. -/
theorem settled_of_card
    {r : AlignerRun N} {epoch : CheckpointEpoch}
    (h : N ≤ (r.deliverers epoch).card + (r.finishedBelow epoch).card) :
    ∀ i, epoch ∈ r.delivered i ∨
      (i ∈ r.finished ∧ ∀ d ∈ r.delivered i, d < epoch) := by
  have hcard :
      (r.deliverers epoch ∪ r.finishedBelow epoch).card = N := by
    apply le_antisymm
    · simpa using Finset.card_le_univ
        (r.deliverers epoch ∪ r.finishedBelow epoch)
    · rw [Finset.card_union_of_disjoint
        (r.deliverers_disjoint_finishedBelow epoch)]
      exact h
  have huniv : r.deliverers epoch ∪ r.finishedBelow epoch = Finset.univ := by
    apply Finset.eq_univ_of_card
    simpa using hcard
  intro i
  have hi : i ∈ r.deliverers epoch ∪ r.finishedBelow epoch := by
    rw [huniv]
    exact Finset.mem_univ i
  simpa [deliverers, finishedBelow] using hi

end AlignerRun

end Streamling
