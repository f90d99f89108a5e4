import Streamling.Checkpoints.AlignerBarrier

/-!
# The aligner under arbitrary messages

At an exchange the aligner is fed whatever rides on the batches: beside the
markers of an input, which increase, any finalizers, completions and
acknowledgements.  A finalizer may then prune an epoch that is still waiting.
The count of such an epoch starts again from zero, which can delay its release
but not bring it forward: a count is at most the number of inputs that
delivered the epoch, and that is all the barrier rests on.
-/

namespace Streamling

open MarkerAligner

namespace AlignerRun

variable {N : ℕ}

/-- Input `i` delivers one message, whatever it is. -/
def receive (i : Fin N) (r : AlignerRun N) (message : CheckpointMessage) :
    AlignerRun N :=
  let result := r.aligner.observeMessage message
  let delivered := r.deliveredAfter i message
  { aligner := result.1
    delivered := delivered
    finished := r.finished
    releases := r.releases ++
      (markerEpochs result.2).map fun epoch =>
        ⟨epoch, delivered, r.finished⟩ }

/-- Input `i` delivers the messages of one batch: a call of `observe`. -/
def receiveAll (i : Fin N) (r : AlignerRun N)
    (messages : List CheckpointMessage) : AlignerRun N :=
  messages.foldl (receive i) r

/-- Input `i` ends after `lastDelivered`: a call of `input_done`. -/
def endInput (i : Fin N) (r : AlignerRun N)
    (lastDelivered : Option CheckpointEpoch) (nowMs : ℕ) : AlignerRun N :=
  let result := r.aligner.inputDone lastDelivered nowMs
  let finished := insert i r.finished
  { aligner := result.1
    delivered := r.delivered
    finished := finished
    releases := r.releases ++
      (markerEpochs result.2).map fun epoch =>
        ⟨epoch, r.delivered, finished⟩ }

/-! ## The calls drive the aligner's own functions -/

theorem receiveAll_cons
    (i : Fin N) (r : AlignerRun N) (message : CheckpointMessage)
    (messages : List CheckpointMessage) :
    receiveAll i r (message :: messages) =
      receiveAll i (receive i r message) messages := rfl

theorem receiveAll_aligner
    (i : Fin N) (r : AlignerRun N) (messages : List CheckpointMessage) :
    (receiveAll i r messages).aligner = (r.aligner.observe messages).1 ∧
      (receiveAll i r messages).releasedEpochs =
        r.releasedEpochs ++ markerEpochs (r.aligner.observe messages).2 := by
  induction messages generalizing r with
  | nil => simp [receiveAll]
  | cons message messages ih =>
      obtain ⟨haligner, hreleased⟩ := ih (receive i r message)
      rw [receiveAll_cons, observe_cons]
      refine ⟨haligner, ?_⟩
      rw [hreleased, markerEpochs_append]
      simp [receive, releasedEpochs, Function.comp_def]

theorem receive_delivered
    (i : Fin N) (r : AlignerRun N) (message : CheckpointMessage) :
    (receive i r message).delivered i =
      r.delivered i ++ message.markerEpoch?.toList := by
  simp only [receive, deliveredAfter]
  cases message.markerEpoch? <;> simp

theorem receive_delivered_of_ne
    {i k : Fin N} (r : AlignerRun N) (message : CheckpointMessage)
    (hk : k ≠ i) :
    (receive i r message).delivered k = r.delivered k := by
  simp only [receive, deliveredAfter]
  cases message.markerEpoch? <;> simp [hk]

theorem receiveAll_delivered
    (i : Fin N) (r : AlignerRun N) (messages : List CheckpointMessage) :
    (receiveAll i r messages).delivered i =
      r.delivered i ++ markerEpochs messages := by
  induction messages generalizing r with
  | nil => simp [receiveAll]
  | cons message messages ih =>
      rw [receiveAll_cons, ih, receive_delivered, markerEpochs_cons,
        List.append_assoc]

theorem receiveAll_delivered_of_ne
    {i k : Fin N} (r : AlignerRun N) (messages : List CheckpointMessage)
    (hk : k ≠ i) :
    (receiveAll i r messages).delivered k = r.delivered k := by
  induction messages generalizing r with
  | nil => rfl
  | cons message messages ih =>
      rw [receiveAll_cons, ih, receive_delivered_of_ne r message hk]

@[simp] theorem receiveAll_finished
    (i : Fin N) (r : AlignerRun N) (messages : List CheckpointMessage) :
    (receiveAll i r messages).finished = r.finished := by
  induction messages generalizing r with
  | nil => rfl
  | cons message messages ih => rw [receiveAll_cons, ih]; rfl

theorem endInput_releasedEpochs
    (i : Fin N) (r : AlignerRun N) (lastDelivered : Option CheckpointEpoch)
    (nowMs : ℕ) :
    (endInput i r lastDelivered nowMs).releasedEpochs =
      r.releasedEpochs ++
        markerEpochs (r.aligner.inputDone lastDelivered nowMs).2 := by
  simp [endInput, releasedEpochs, Function.comp_def]

/-! ## The invariant -/

/-- Counts stand for deliveries, and only what is settled has been
released. -/
structure Guarded (r : AlignerRun N) : Prop where
  inputs : r.aligner.inputs = N
  finished_length : r.aligner.finished.length = r.finished.card
  finished_below : ∀ e,
    (r.aligner.finished.filter (finishedBefore e)).length =
      (r.finishedBelow e).card
  pending : ∀ e st, r.aligner.epochs.find? e = some st →
    st.released = false →
      st.copies ≤ (r.deliverers e).card ∧ e ∉ r.releasedEpochs
  absent : ∀ e, r.aligner.epochs.find? e = none →
    e ∉ r.releasedEpochs ∨ r.Closed e
  settled : ∀ e ∈ r.releasedEpochs, Settled r.delivered r.finished e
  nodup : r.releasedEpochs.Nodup

theorem guarded_start (N : ℕ) : Guarded (start N) := by
  have h := inv_start N
  refine ⟨h.inputs, h.finished_length, h.finished_below, ?_, ?_,
    h.settled, h.nodup⟩
  · intro e st hfind
    simp [start, MarkerAligner.new] at hfind
  · intro e _
    exact Or.inl (by simp [start, releasedEpochs])

section Marker

variable {r : AlignerRun N} {i : Fin N} {e : CheckpointEpoch}

/-- A copy that may still arrive is the copy of an epoch that has not been
released, and its count does not exceed its deliverers. -/
theorem Guarded.count_before
    (hr : r.Guarded) (hi : i ∉ r.finished)
    (hlt : ∀ d ∈ r.delivered i, d < e)
    (hst : ((r.aligner.epochs.find? e).getD {}).released = false) :
    ((r.aligner.epochs.find? e).getD {}).copies ≤
        (r.deliverers e).card ∧
      e ∉ r.releasedEpochs := by
  cases hfind : r.aligner.epochs.find? e with
  | none =>
      refine ⟨by simp, ?_⟩
      apply (hr.absent e hfind).resolve_right
      exact not_closed_of_mayDeliver hi hlt
  | some st =>
      rw [hfind] at hst
      exact hr.pending e st hfind hst

/-- Deliveries that leave the aligner alone. -/
theorem Guarded.of_delivered
    (hr : r.Guarded) (hi : i ∉ r.finished) {r' : AlignerRun N}
    (haligner : r'.aligner = r.aligner)
    (hdel : r'.delivered = deliverEpoch r.delivered i e)
    (hfin : r'.finished = r.finished)
    (hrel : r'.releasedEpochs = r.releasedEpochs) : r'.Guarded := by
  have hmono (f : CheckpointEpoch) :
      (r.deliverers f).card ≤ (r'.deliverers f).card := by
    apply Finset.card_le_card
    intro k hk
    simp only [deliverers, Finset.mem_filter, Finset.mem_univ, true_and]
      at hk ⊢
    rw [hdel]
    exact mem_deliverEpoch.mpr (Or.inl hk)
  refine ⟨haligner ▸ hr.inputs, ?_, ?_, ?_, ?_, ?_, hrel ▸ hr.nodup⟩
  · rw [haligner, hfin]
    exact hr.finished_length
  · intro f
    rw [haligner, finishedBelow_deliverEpoch hdel hfin hi]
    exact hr.finished_below f
  · intro f st hfind hst
    obtain ⟨hle, hnot⟩ := hr.pending f st (haligner ▸ hfind) hst
    exact ⟨hle.trans (hmono f), hrel ▸ hnot⟩
  · intro f hfind
    rw [hrel]
    apply (hr.absent f (haligner ▸ hfind)).imp_right
    exact Closed.deliverEpoch hdel hfin
  · intro f hf
    rw [hdel, hfin]
    exact settled_deliverEpoch (hr.settled f (hrel ▸ hf)) hi

/-- The copy of an epoch that has not been released is counted, and the epoch
is released if the count reaches the required number. -/
theorem receive_counted_eq
    (hst : ((r.aligner.epochs.find? e).getD {}).released = false)
    (createdAtMs : ℕ) :
    ∃ (copies : ℕ) (released : Bool),
      copies = ((r.aligner.epochs.find? e).getD {}).copies + 1 ∧
      (released = true →
        requiredCopies r.aligner.inputs r.aligner.finished e ≤ copies) ∧
      (receive i r (.marker e createdAtMs)).aligner =
        { r.aligner with
          epochs := r.aligner.epochs.insert e ⟨copies, released⟩ } ∧
      (receive i r (.marker e createdAtMs)).releasedEpochs =
        r.releasedEpochs ++ if released then [e] else [] := by
  have heq := observeMessage_marker_of_not_released r.aligner e
    createdAtMs hst
  refine ⟨_, decide (requiredCopies r.aligner.inputs r.aligner.finished e ≤
    ((r.aligner.epochs.find? e).getD {}).copies + 1), rfl,
    of_decide_eq_true, ?_, ?_⟩
  · simp only [receive, heq]
  · simp only [receive, releasedEpochs, heq, List.map_append, List.map_map]
    split <;> rfl

/-- A counted copy. -/
theorem Guarded.receive_counted
    (hr : r.Guarded) (hi : i ∉ r.finished)
    (hlt : ∀ d ∈ r.delivered i, d < e)
    (hst : ((r.aligner.epochs.find? e).getD {}).released = false)
    (createdAtMs : ℕ) : (receive i r (.marker e createdAtMs)).Guarded := by
  obtain ⟨hle, hnot⟩ := hr.count_before hi hlt hst
  obtain ⟨copies, released, hcopies, hreleased, haligner, hepochs⟩ :=
    receive_counted_eq (i := i) hst createdAtMs
  have hdel : (receive i r (.marker e createdAtMs)).delivered =
      deliverEpoch r.delivered i e := rfl
  have hfin : (receive i r (.marker e createdAtMs)).finished =
      r.finished := rfl
  generalize receive i r (.marker e createdAtMs) = r' at *
  have hmem : i ∉ r.deliverers e := by
    simp only [deliverers, Finset.mem_filter, Finset.mem_univ, true_and]
    exact fun h => lt_irrefl e (hlt e h)
  have hcard : copies ≤ (r'.deliverers e).card := by
    rw [deliverers_deliverEpoch_self hdel, Finset.card_insert_of_notMem hmem]
    omega
  have hin (f : CheckpointEpoch) (hf : f ∈ r'.releasedEpochs) :
      f ∈ r.releasedEpochs ∨ (f = e ∧ released = true) := by
    rw [hepochs, List.mem_append] at hf
    apply hf.imp_right
    intro hf
    split at hf
    next hrel => exact ⟨by simpa using hf, hrel⟩
    · simp at hf
  refine ⟨?_, ?_, ?_, ?_, ?_, ?_, ?_⟩
  · rw [haligner]
    exact hr.inputs
  · rw [haligner, hfin]
    exact hr.finished_length
  · intro f
    rw [haligner, finishedBelow_deliverEpoch hdel hfin hi]
    exact hr.finished_below f
  · intro f st hfind hf
    rw [haligner, OrderedMap.find?_insert] at hfind
    by_cases hfe : f = e
    · rw [if_pos hfe] at hfind
      obtain rfl := Option.some.inj hfind
      refine ⟨hfe ▸ hcard, ?_⟩
      intro hmem'
      rcases hin f hmem' with hmem' | ⟨-, hrel⟩
      · exact hnot (hfe ▸ hmem')
      · exact Bool.false_ne_true (hf.symm.trans hrel)
    · rw [if_neg hfe] at hfind
      obtain ⟨hcopies, hnotf⟩ := hr.pending f st hfind hf
      rw [deliverers_deliverEpoch_of_ne hdel hfe]
      refine ⟨hcopies, ?_⟩
      intro hmem'
      rcases hin f hmem' with hmem' | ⟨hfe', -⟩
      · exact hnotf hmem'
      · exact hfe hfe'
  · intro f hfind
    rw [haligner, OrderedMap.find?_insert] at hfind
    by_cases hfe : f = e
    · rw [if_pos hfe] at hfind
      simp at hfind
    · rw [if_neg hfe] at hfind
      rcases hr.absent f hfind with hnotf | hclosed
      · left
        intro hmem'
        rcases hin f hmem' with hmem' | ⟨hfe', -⟩
        · exact hnotf hmem'
        · exact hfe hfe'
      · exact Or.inr (hclosed.deliverEpoch hdel hfin)
  · intro f hf
    rcases hin f hf with hf | ⟨rfl, hrel⟩
    · rw [hdel, hfin]
      exact settled_deliverEpoch (hr.settled f hf) hi
    · right
      apply settled_of_card
      have hreq : requiredCopies r.aligner.inputs r.aligner.finished f ≤
          copies := hreleased hrel
      have hbelow := hr.finished_below f
      have hinputs := hr.inputs
      rw [finishedBelow_deliverEpoch hdel hfin hi, ← hbelow]
      simp only [requiredCopies] at hreq
      omega
  · rw [hepochs, List.nodup_append]
    refine ⟨hr.nodup, ?_, ?_⟩
    · split <;> simp
    · intro a ha b hb
      split at hb
      · obtain rfl : b = e := by simpa using hb
        exact fun h => hnot (h ▸ ha)
      · simp at hb

theorem Guarded.receive_marker
    (hr : r.Guarded) (hi : i ∉ r.finished)
    (hlt : ∀ d ∈ r.delivered i, d < e) (createdAtMs : ℕ) :
    (receive i r (.marker e createdAtMs)).Guarded := by
  cases hst : ((r.aligner.epochs.find? e).getD {}).released with
  | false => exact hr.receive_counted hi hlt hst createdAtMs
  | true =>
      have heq : r.aligner.observeMessage (.marker e createdAtMs) =
          (r.aligner, []) := by
        simp only [observeMessage, hst, if_true]
      apply hr.of_delivered (e := e) hi
      · simp only [receive, heq]
      · rfl
      · rfl
      · simp [receive, releasedEpochs, heq]

end Marker

/-- What a message that is no marker may do to the map is drop epochs. -/
theorem find?_observeMessage_of_not_marker
    (a : MarkerAligner) {message : CheckpointMessage}
    (hnot : message.markerEpoch? = none) (e : CheckpointEpoch) :
    (a.observeMessage message).1.epochs.find? e = a.epochs.find? e ∨
      (a.observeMessage message).1.epochs.find? e = none := by
  cases message with
  | marker f createdAtMs => simp [CheckpointMessage.markerEpoch?] at hnot
  | ack f sinkId => exact Or.inl rfl
  | sourceComplete source =>
      left
      simp only [observeMessage]
      split <;> rfl
  | finalizer f =>
      have hpruned : (a.observeMessage (.finalizer f)).1.epochs =
          a.epochs.retain fun k _ => decide (f < k) := by
        simp only [observeMessage]
        split <;> rfl
      rw [hpruned, OrderedMap.find?_retain_key _ (fun k => decide (f < k))]
      by_cases hlt : f < e
      · simp [hlt]
      · simp [hlt]

theorem Guarded.receive_not_marker
    {r : AlignerRun N} {message : CheckpointMessage} (hr : r.Guarded)
    (i : Fin N) (hnot : message.markerEpoch? = none) :
    (receive i r message).Guarded := by
  have hsame := observeMessage_inputs_finished r.aligner message
  have hnone := markerEpochs_observeMessage_of_not_marker r.aligner hnot
  have hfind := find?_observeMessage_of_not_marker r.aligner hnot
  have hdel : (receive i r message).delivered = r.delivered := by
    simp [receive, deliveredAfter, hnot]
  have hrel : (receive i r message).releasedEpochs = r.releasedEpochs := by
    simp [receive, releasedEpochs, hnone]
  have hfin : (receive i r message).finished = r.finished := rfl
  have hinputs : (receive i r message).aligner.inputs =
      r.aligner.inputs := hsame.1
  have hended : (receive i r message).aligner.finished =
      r.aligner.finished := hsame.2
  have hepochs : (receive i r message).aligner.epochs =
      (r.aligner.observeMessage message).1.epochs := rfl
  rw [← hepochs] at hfind
  generalize receive i r message = r' at *
  have hclosed (e : CheckpointEpoch) : r'.Closed e ↔ r.Closed e := by
    simp [Closed, hdel, hfin]
  refine ⟨hinputs.trans hr.inputs, ?_, ?_, ?_, ?_, ?_, hrel ▸ hr.nodup⟩
  · rw [hended, hfin]
    exact hr.finished_length
  · intro e
    rw [hended]
    simpa [finishedBelow, hdel, hfin] using hr.finished_below e
  · intro e st h hst
    rcases hfind e with heq | hpruned
    · have hpend := hr.pending e st (heq ▸ h) hst
      simpa [deliverers, hdel, hrel] using hpend
    · simp [hpruned] at h
  · intro e h
    rw [hrel, hclosed]
    rcases hfind e with heq | hpruned
    · exact hr.absent e (heq ▸ h)
    · -- A pruned epoch that was released is closed by its release.
      by_cases he : e ∈ r.releasedEpochs
      · exact Or.inr (closed_of_settled (hr.settled e he))
      · exact Or.inl he
  · intro e he
    rw [hdel, hfin]
    exact hr.settled e (hrel ▸ he)

/-- The markers of `messages` continue those that input `i` delivered. -/
def Continues (r : AlignerRun N) (i : Fin N)
    (messages : List CheckpointMessage) : Prop :=
  (r.delivered i ++ markerEpochs messages).Pairwise (· < ·)

theorem Guarded.receiveAll
    {r : AlignerRun N} {i : Fin N} {messages : List CheckpointMessage}
    (hr : r.Guarded) (hi : i ∉ r.finished)
    (hnext : r.Continues i messages) :
    (receiveAll i r messages).Guarded := by
  induction messages generalizing r with
  | nil => exact hr
  | cons message messages ih =>
      have hrest : (receive i r message).Continues i messages := by
        rw [Continues, receive_delivered]
        rw [Continues, markerEpochs_cons, ← List.append_assoc] at hnext
        exact hnext
      rw [receiveAll_cons]
      refine ih (r := receive i r message) ?_ hi hrest
      cases message with
      | marker e createdAtMs =>
          apply hr.receive_marker hi _ createdAtMs
          intro d hd
          have hpair := (List.pairwise_append.mp hnext).2.2
          exact hpair d hd e (by simp [markerEpochs_cons,
            CheckpointMessage.markerEpoch?])
      | ack e sinkId => exact hr.receive_not_marker i rfl
      | finalizer e => exact hr.receive_not_marker i rfl
      | sourceComplete source => exact hr.receive_not_marker i rfl

/-! ## An input that ends -/

/-- The input reports the greatest epoch it delivered. -/
theorem Guarded.endInput
    {r : AlignerRun N} {i : Fin N} (hr : r.Guarded)
    (hi : i ∉ r.finished) (nowMs : ℕ) :
    (endInput i r (r.delivered i).max? nowMs).Guarded := by
  have hepochs := endInput_releasedEpochs i r (r.delivered i).max? nowMs
  rw [markerEpochs_inputDone, ← releasedAtEnd] at hepochs
  have hdel : (AlignerRun.endInput i r (r.delivered i).max? nowMs).delivered =
      r.delivered := rfl
  have hfin : (AlignerRun.endInput i r (r.delivered i).max? nowMs).finished =
      insert i r.finished := rfl
  have haligner :
      (AlignerRun.endInput i r (r.delivered i).max? nowMs).aligner =
        (r.aligner.inputDone (r.delivered i).max? nowMs).1 := rfl
  generalize AlignerRun.endInput i r (r.delivered i).max? nowMs = r' at *
  have hfind (e : CheckpointEpoch) : r'.aligner.epochs.find? e =
      (r.aligner.epochs.find? e).map fun st =>
        if readyWhenDone r.aligner.inputs
          (r.aligner.finished ++ [(r.delivered i).max?]) e st then
          { st with released := true }
        else st := by
    rw [haligner]
    exact OrderedMap.find?_mapValues _ _ e
  have hdeliverers (e : CheckpointEpoch) :
      r'.deliverers e = r.deliverers e := by
    simp [deliverers, hdel]
  have hbelow (e : CheckpointEpoch) :=
    finished_below_insert (hr.finished_below e) hi hdel hfin
  have hended : r'.aligner.finished =
      r.aligner.finished ++ [(r.delivered i).max?] := by rw [haligner]; rfl
  have hlength : r'.aligner.finished.length = r'.finished.card := by
    rw [hended, hfin, Finset.card_insert_of_notMem hi,
      ← hr.finished_length]
    simp
  have hnew : ∀ e ∈ r.releasedAtEnd i,
      Settled r'.delivered r'.finished e ∧ e ∉ r.releasedEpochs := by
    intro e he
    obtain ⟨st, hst, hready⟩ := mem_releasedAtEnd.mp he
    simp only [readyWhenDone, Bool.and_eq_true, Bool.or_eq_true,
      Bool.not_eq_true', decide_eq_true_eq] at hready
    obtain ⟨hcopies, hnot⟩ := hr.pending e st hst hready.1
    refine ⟨?_, hnot⟩
    have hinputs := hr.inputs
    rcases hready.2 with hall | hreq
    · left
      have hcard : r'.finished.card = N := by
        apply le_antisymm
        · simpa using Finset.card_le_univ r'.finished
        · rw [← hlength, hended]
          exact hinputs.symm.le.trans hall
      have huniv : r'.finished = Finset.univ := by
        apply Finset.eq_univ_of_card
        simpa using hcard
      intro k
      rw [huniv]
      exact Finset.mem_univ k
    · right
      apply settled_of_card
      have hbelow_e := hbelow e
      rw [hdeliverers, ← hbelow_e]
      simp only [requiredCopies] at hreq
      omega
  refine ⟨?_, hlength, ?_, ?_, ?_, ?_, ?_⟩
  · rw [haligner]
    exact hr.inputs
  · intro e
    rw [hended]
    exact hbelow e
  · intro e st hst hrel
    rw [hfind, Option.map_eq_some_iff] at hst
    obtain ⟨old, hold, rfl⟩ := hst
    split at hrel
    · simp at hrel
    next hnotready =>
      simp only [hnotready]
      obtain ⟨hcopies, hnot⟩ := hr.pending e old hold hrel
      rw [hdeliverers, hepochs, List.mem_append]
      refine ⟨hcopies, ?_⟩
      rintro (h | h)
      · exact hnot h
      · obtain ⟨st', hst', hready⟩ := mem_releasedAtEnd.mp h
        obtain rfl := Option.some.inj (hold.symm.trans hst')
        exact hnotready hready
  · intro e hnone
    rw [hfind, Option.map_eq_none_iff] at hnone
    rcases hr.absent e hnone with hnot | hclosed
    · left
      rw [hepochs, List.mem_append]
      rintro (h | h)
      · exact hnot h
      · obtain ⟨st, hst, -⟩ := mem_releasedAtEnd.mp h
        simp [hnone] at hst
    · exact Or.inr (hclosed.insert_finished hdel hfin)
  · intro e he
    rw [hepochs, List.mem_append] at he
    rcases he with he | he
    · rw [hdel, hfin]
      exact settled_insert_finished (hr.settled e he)
    · exact (hnew e he).1
  · rw [hepochs, List.nodup_append]
    refine ⟨hr.nodup, ?_, ?_⟩
    · exact (OrderedMap.pairwise_filterMap_key _ _).imp fun h => ne_of_lt h
    · intro a ha b hb hab
      exact (hnew b hb).2 (hab ▸ ha)

end AlignerRun

end Streamling
