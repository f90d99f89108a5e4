import Streamling.Checkpoints.AlignerRun

/-!
# The aligner is a barrier

The invariant that ties the aligner's counters to the history of its inputs,
and its preservation by every call.  An unreleased epoch has counted exactly
the inputs that delivered it; an epoch the map no longer mentions can no
longer be delivered.  Pruning at a finalizer relies on the second half: a
released epoch, and with it every smaller one, is closed.
-/

namespace Streamling

open MarkerAligner

namespace AlignerRun

variable {N : ℕ}

/-- What holds between the aligner and the history of its inputs. -/
structure Inv (r : AlignerRun N) : Prop where
  inputs : r.aligner.inputs = N
  increasing : ∀ i, (r.delivered i).Pairwise (· < ·)
  finished_length : r.aligner.finished.length = r.finished.card
  finished_below : ∀ e,
    (r.aligner.finished.filter (finishedBefore e)).length =
      (r.finishedBelow e).card
  pending : ∀ e st, r.aligner.epochs.find? e = some st →
    st.released = false →
      st.copies = (r.deliverers e).card ∧ 0 < st.copies ∧
        st.copies <
          requiredCopies r.aligner.inputs r.aligner.finished e ∧
        e ∉ r.releasedEpochs
  recorded : ∀ e st, r.aligner.epochs.find? e = some st →
    st.released = true → e ∈ r.releasedEpochs
  absent : ∀ e, r.aligner.epochs.find? e = none →
    (r.deliverers e = ∅ ∧ e ∉ r.releasedEpochs) ∨ r.Closed e
  delivered_of_released : ∀ e ∈ r.releasedEpochs, ∃ i, e ∈ r.delivered i
  settled : ∀ e ∈ r.releasedEpochs, Settled r.delivered r.finished e
  at_release : ∀ rel ∈ r.releases,
    Settled rel.delivered rel.finished rel.epoch
  nodup : r.releasedEpochs.Nodup

theorem inv_start (N : ℕ) : Inv (start N) where
  inputs := rfl
  increasing := by simp [start]
  finished_length := rfl
  finished_below := by
    intro e
    simp [start, MarkerAligner.new, finishedBelow]
  pending := by
    intro e st h
    simp [start, MarkerAligner.new] at h
  recorded := by
    intro e st h
    simp [start, MarkerAligner.new] at h
  absent := by
    intro e _
    left
    simp [start, deliverers, releasedEpochs]
  delivered_of_released := by simp [start, releasedEpochs]
  settled := by simp [start, releasedEpochs]
  at_release := by simp [start]
  nodup := by simp [start, releasedEpochs]

/-! ## A delivered marker -/

/-- The deliveries after input `i` delivers `epoch`. -/
def deliverEpoch (delivered : Fin N → List CheckpointEpoch) (i : Fin N)
    (epoch : CheckpointEpoch) : Fin N → List CheckpointEpoch :=
  Function.update delivered i (delivered i ++ [epoch])

theorem mem_deliverEpoch
    {delivered : Fin N → List CheckpointEpoch} {i j : Fin N}
    {e d : CheckpointEpoch} :
    d ∈ deliverEpoch delivered i e j ↔
      d ∈ delivered j ∨ (j = i ∧ d = e) := by
  by_cases hj : j = i
  · subst hj
    simp [deliverEpoch]
  · simp [deliverEpoch, hj]

theorem settled_deliverEpoch
    {delivered : Fin N → List CheckpointEpoch} {finished : Finset (Fin N)}
    {i : Fin N} {e f : CheckpointEpoch}
    (h : Settled delivered finished f) (hi : i ∉ finished) :
    Settled (deliverEpoch delivered i e) finished f := by
  rcases h with hall | heach
  · exact absurd (hall i) hi
  · right
    intro j
    rcases heach j with hdel | ⟨hfin, hbelow⟩
    · exact Or.inl (mem_deliverEpoch.mpr (Or.inl hdel))
    · right
      refine ⟨hfin, ?_⟩
      intro d hd
      rcases mem_deliverEpoch.mp hd with hd | ⟨rfl, -⟩
      · exact hbelow d hd
      · exact absurd hfin hi

theorem settled_insert_finished
    {delivered : Fin N → List CheckpointEpoch} {finished : Finset (Fin N)}
    {i : Fin N} {f : CheckpointEpoch}
    (h : Settled delivered finished f) :
    Settled delivered (insert i finished) f := by
  rcases h with hall | heach
  · exact Or.inl fun j => Finset.mem_insert_of_mem (hall j)
  · right
    intro j
    rcases heach j with hdel | ⟨hfin, hbelow⟩
    · exact Or.inl hdel
    · exact Or.inr ⟨Finset.mem_insert_of_mem hfin, hbelow⟩

/-! ## More epochs are released -/

/-- The epochs `new` are released by a step: they are settled behind it and
were not released before. -/
structure ReleasesMore (r r' : AlignerRun N) (new : List CheckpointEpoch) :
    Prop where
  releases : r'.releases = r.releases ++
    new.map fun e => ⟨e, r'.delivered, r'.finished⟩
  settled_new : ∀ e ∈ new, Settled r'.delivered r'.finished e
  notMem_new : ∀ e ∈ new, e ∉ r.releasedEpochs
  delivered_new : ∀ e ∈ new, ∃ i, e ∈ r'.delivered i
  nodup_new : new.Nodup
  delivered_kept : ∀ i, ∀ e ∈ r.delivered i, e ∈ r'.delivered i
  settled_kept : ∀ e, Settled r.delivered r.finished e →
    Settled r'.delivered r'.finished e

section ReleasesMore

variable {r r' : AlignerRun N} {new : List CheckpointEpoch}

theorem ReleasesMore.releasedEpochs (h : ReleasesMore r r' new) :
    r'.releasedEpochs = r.releasedEpochs ++ new := by
  simp [AlignerRun.releasedEpochs, h.releases, Function.comp_def]

theorem ReleasesMore.delivered_of_released
    (h : ReleasesMore r r' new) (hr : r.Inv) :
    ∀ e ∈ r'.releasedEpochs, ∃ i, e ∈ r'.delivered i := by
  intro e he
  rw [h.releasedEpochs, List.mem_append] at he
  rcases he with he | he
  · obtain ⟨i, hi⟩ := hr.delivered_of_released e he
    exact ⟨i, h.delivered_kept i e hi⟩
  · exact h.delivered_new e he

theorem ReleasesMore.settled
    (h : ReleasesMore r r' new) (hr : r.Inv) :
    ∀ e ∈ r'.releasedEpochs, Settled r'.delivered r'.finished e := by
  intro e he
  rw [h.releasedEpochs, List.mem_append] at he
  rcases he with he | he
  · exact h.settled_kept e (hr.settled e he)
  · exact h.settled_new e he

theorem ReleasesMore.at_release
    (h : ReleasesMore r r' new) (hr : r.Inv) :
    ∀ rel ∈ r'.releases, Settled rel.delivered rel.finished rel.epoch := by
  intro rel hrel
  rw [h.releases, List.mem_append, List.mem_map] at hrel
  rcases hrel with hrel | ⟨e, he, rfl⟩
  · exact hr.at_release rel hrel
  · exact h.settled_new e he

theorem ReleasesMore.nodup
    (h : ReleasesMore r r' new) (hr : r.Inv) :
    r'.releasedEpochs.Nodup := by
  rw [h.releasedEpochs, List.nodup_append]
  refine ⟨hr.nodup, h.nodup_new, ?_⟩
  intro a ha b hb hab
  exact h.notMem_new b hb (hab ▸ ha)

end ReleasesMore

section Marker

variable {r : AlignerRun N} {i : Fin N} {e : CheckpointEpoch}

/-- An input that may still deliver `e` keeps it open. -/
theorem not_closed_of_mayDeliver
    (hi : i ∉ r.finished) (hlt : ∀ d ∈ r.delivered i, d < e) :
    ¬ r.Closed e := by
  intro hclosed
  rcases hclosed i with hfin | ⟨d, hd, hed⟩
  · exact hi hfin
  · exact absurd (hlt d hd) (not_lt.mpr hed)

/-- A copy that may still arrive is the copy of an epoch not yet released,
and the count so far is the number of its deliverers. -/
theorem Inv.count_before
    (hr : r.Inv) (hi : i ∉ r.finished)
    (hlt : ∀ d ∈ r.delivered i, d < e) :
    ((r.aligner.epochs.find? e).getD {}).released = false ∧
      ((r.aligner.epochs.find? e).getD {}).copies =
        (r.deliverers e).card ∧
      e ∉ r.releasedEpochs := by
  have hopen := not_closed_of_mayDeliver hi hlt
  cases hfind : r.aligner.epochs.find? e with
  | none =>
      rcases hr.absent e hfind with ⟨hnone, hnot⟩ | hclosed
      · simp [hnone, hnot]
      · exact absurd hclosed hopen
  | some st =>
      cases hst : st.released with
      | true =>
          have hmem := hr.recorded e st hfind hst
          exact absurd (closed_of_settled (hr.settled e hmem)) hopen
      | false =>
          obtain ⟨hcopies, -, -, hnot⟩ := hr.pending e st hfind hst
          exact ⟨hst, hcopies, hnot⟩

theorem deliverers_deliverEpoch_self
    {r' : AlignerRun N} (h : r'.delivered = deliverEpoch r.delivered i e) :
    r'.deliverers e = insert i (r.deliverers e) := by
  ext j
  simp only [deliverers, h, mem_deliverEpoch, Finset.mem_filter,
    Finset.mem_univ, true_and, Finset.mem_insert, and_true]
  exact or_comm

theorem deliverers_deliverEpoch_of_ne
    {r' : AlignerRun N} (h : r'.delivered = deliverEpoch r.delivered i e)
    {f : CheckpointEpoch} (hf : f ≠ e) :
    r'.deliverers f = r.deliverers f := by
  ext j
  simp [deliverers, h, mem_deliverEpoch, hf]

theorem finishedBelow_deliverEpoch
    {r' : AlignerRun N} (h : r'.delivered = deliverEpoch r.delivered i e)
    (hfin : r'.finished = r.finished) (hi : i ∉ r.finished)
    (f : CheckpointEpoch) :
    r'.finishedBelow f = r.finishedBelow f := by
  ext j
  simp only [finishedBelow, h, hfin, Finset.mem_filter]
  constructor
  · rintro ⟨hj, hbelow⟩
    exact ⟨hj, fun d hd => hbelow d (mem_deliverEpoch.mpr (Or.inl hd))⟩
  · rintro ⟨hj, hbelow⟩
    refine ⟨hj, ?_⟩
    intro d hd
    rcases mem_deliverEpoch.mp hd with hd | ⟨rfl, -⟩
    · exact hbelow d hd
    · exact absurd hj hi

theorem Closed.deliverEpoch
    {r' : AlignerRun N} (h : r'.delivered = deliverEpoch r.delivered i e)
    (hfin : r'.finished = r.finished) {f : CheckpointEpoch}
    (hf : r.Closed f) : r'.Closed f := by
  intro j
  rcases hf j with hj | ⟨d, hd, hfd⟩
  · exact Or.inl (hfin ▸ hj)
  · refine Or.inr ⟨d, ?_, hfd⟩
    rw [h]
    exact mem_deliverEpoch.mpr (Or.inl hd)

/-- Input `i` has delivered a copy of `e`.  The copy is counted, and the epoch
is released exactly when its deliverers are as many as required. -/
structure Counted (r r' : AlignerRun N) (i : Fin N) (e : CheckpointEpoch)
    (released : Bool) : Prop where
  released_iff : released = true ↔
    requiredCopies r.aligner.inputs r.aligner.finished e ≤
      (r'.deliverers e).card
  aligner : r'.aligner =
    { r.aligner with
      epochs := r.aligner.epochs.insert e
        ⟨(r'.deliverers e).card, released⟩ }
  delivered : r'.delivered = deliverEpoch r.delivered i e
  finished : r'.finished = r.finished
  releases : r'.releases = r.releases ++
    if released then [⟨e, r'.delivered, r'.finished⟩] else []

/-- The run after input `i` delivers a copy it may still deliver. -/
theorem Inv.counted
    (hr : r.Inv) (hi : i ∉ r.finished)
    (hlt : ∀ d ∈ r.delivered i, d < e)
    {createdAtMs : ℕ} {r' : AlignerRun N}
    (hr' : deliver i r (.marker e createdAtMs) = some r') :
    ∃ released, Counted r r' i e released := by
  obtain ⟨hstate, hcount, -⟩ := hr.count_before hi hlt
  have hmay : r.mayDeliver i (.marker e createdAtMs) = true := by
    simpa [mayDeliver, hi] using hlt
  have hdel : r'.delivered = deliverEpoch r.delivered i e := by
    simp only [deliver, hmay, if_true] at hr'
    obtain rfl := Option.some.inj hr'
    rfl
  have hmem_i : i ∉ r.deliverers e := by
    simp only [deliverers, Finset.mem_filter, Finset.mem_univ, true_and]
    exact fun h => lt_irrefl e (hlt e h)
  have hcard : (r'.deliverers e).card =
      ((r.aligner.epochs.find? e).getD {}).copies + 1 := by
    rw [deliverers_deliverEpoch_self hdel,
      Finset.card_insert_of_notMem hmem_i, hcount]
  refine ⟨decide (requiredCopies r.aligner.inputs r.aligner.finished e ≤
    (r'.deliverers e).card), by simp, ?_, hdel, ?_, ?_⟩
  · rw [hcard]
    simp only [deliver, hmay, if_true,
      observeMessage_marker_of_not_released _ _ _ hstate] at hr'
    obtain rfl := Option.some.inj hr'
    rfl
  · simp only [deliver, hmay, if_true] at hr'
    obtain rfl := Option.some.inj hr'
    rfl
  · rw [hcard]
    simp only [deliver, hmay, if_true,
      observeMessage_marker_of_not_released _ _ _ hstate] at hr'
    obtain rfl := Option.some.inj hr'
    simp only [List.append_cancel_left_eq]
    split
    · rfl
    · rfl

section Counted

variable {r' : AlignerRun N} {released : Bool}

/-- Deliveries increase at every input. -/
theorem Counted.increasing
    (h : Counted r r' i e released) (hr : r.Inv)
    (hlt : ∀ d ∈ r.delivered i, d < e) (j : Fin N) :
    (r'.delivered j).Pairwise (· < ·) := by
  rw [h.delivered]
  by_cases hj : j = i
  · subst hj
    simp only [deliverEpoch, Function.update_self,
      List.pairwise_append, List.pairwise_singleton, true_and,
      List.mem_singleton, forall_eq]
    exact ⟨hr.increasing j, hlt⟩
  · simpa [deliverEpoch, hj] using hr.increasing j

/-- An epoch that is released now is settled. -/
theorem Counted.releasesMore
    (h : Counted r r' i e released) (hr : r.Inv) (hi : i ∉ r.finished)
    (hlt : ∀ d ∈ r.delivered i, d < e) :
    ReleasesMore r r' (if released then [e] else []) := by
  obtain ⟨-, -, hnot⟩ := hr.count_before hi hlt
  have hmem : ∀ f ∈ if released then [e] else [],
      f = e ∧ released = true := by
    intro f hf
    split at hf
    next hrel => exact ⟨List.mem_singleton.mp hf, hrel⟩
    · simp at hf
  refine ⟨?_, ?_, ?_, ?_, ?_, ?_, ?_⟩
  · rw [h.releases]
    split
    · rfl
    · rfl
  · intro f hf
    obtain ⟨rfl, hrel⟩ := hmem f hf
    right
    apply settled_of_card
    have hreq := h.released_iff.mp hrel
    have hbelow := hr.finished_below f
    rw [finishedBelow_deliverEpoch h.delivered h.finished hi, ← hbelow]
    have hinputs := hr.inputs
    simp only [requiredCopies] at hreq
    omega
  · intro f hf
    rw [(hmem f hf).1]
    exact hnot
  · intro f hf
    rw [h.delivered]
    exact ⟨i, mem_deliverEpoch.mpr (Or.inr ⟨rfl, (hmem f hf).1⟩)⟩
  · split
    · exact List.nodup_singleton e
    · exact List.nodup_nil
  · intro j f hf
    rw [h.delivered]
    exact mem_deliverEpoch.mpr (Or.inl hf)
  · intro f hf
    rw [h.delivered, h.finished]
    exact settled_deliverEpoch hf hi

/-- Other epochs than `e` are neither counted nor released. -/
theorem Counted.of_ne
    (h : Counted r r' i e released) (hr : r.Inv) (hi : i ∉ r.finished)
    (hlt : ∀ d ∈ r.delivered i, d < e) {f : CheckpointEpoch}
    (hf : f ≠ e) :
    r'.aligner.epochs.find? f = r.aligner.epochs.find? f ∧
      r'.deliverers f = r.deliverers f ∧
      (f ∈ r'.releasedEpochs ↔ f ∈ r.releasedEpochs) := by
  refine ⟨?_, deliverers_deliverEpoch_of_ne h.delivered hf, ?_⟩
  · rw [h.aligner, OrderedMap.find?_insert, if_neg hf]
  · rw [(h.releasesMore hr hi hlt).releasedEpochs, List.mem_append]
    constructor
    · rintro (hmem | hmem)
      · exact hmem
      · split at hmem
        · exact absurd (List.mem_singleton.mp hmem) hf
        · simp at hmem
    · exact Or.inl

/-- An epoch that is not released has counted its deliverers. -/
theorem Counted.pending
    (h : Counted r r' i e released) (hr : r.Inv) (hi : i ∉ r.finished)
    (hlt : ∀ d ∈ r.delivered i, d < e) {f : CheckpointEpoch}
    {st : MarkerState} (hfind : r'.aligner.epochs.find? f = some st)
    (hst : st.released = false) :
    st.copies = (r'.deliverers f).card ∧ 0 < st.copies ∧
      st.copies <
        requiredCopies r'.aligner.inputs r'.aligner.finished f ∧
      f ∉ r'.releasedEpochs := by
  have hsame : r'.aligner.inputs = r.aligner.inputs ∧
      r'.aligner.finished = r.aligner.finished := by
    rw [h.aligner]
    exact ⟨rfl, rfl⟩
  rw [hsame.1, hsame.2]
  by_cases hf : f = e
  · subst hf
    rw [h.aligner, OrderedMap.find?_insert, if_pos rfl] at hfind
    obtain rfl := Option.some.inj hfind
    change released = false at hst
    refine ⟨rfl, ?_, ?_, ?_⟩
    · rw [deliverers_deliverEpoch_self h.delivered]
      simp
    · by_contra hge
      have hrel := h.released_iff.mpr (not_lt.mp hge)
      simp [hst] at hrel
    · rw [(h.releasesMore hr hi hlt).releasedEpochs, hst]
      simpa using (hr.count_before hi hlt).2.2
  · obtain ⟨hsameFind, hdeliverers, hreleased⟩ := h.of_ne hr hi hlt hf
    rw [hsameFind] at hfind
    rw [hdeliverers, hreleased]
    exact hr.pending f st hfind hst

/-- An epoch recorded as released is released. -/
theorem Counted.recorded
    (h : Counted r r' i e released) (hr : r.Inv) (hi : i ∉ r.finished)
    (hlt : ∀ d ∈ r.delivered i, d < e) {f : CheckpointEpoch}
    {st : MarkerState} (hfind : r'.aligner.epochs.find? f = some st)
    (hst : st.released = true) : f ∈ r'.releasedEpochs := by
  by_cases hf : f = e
  · subst hf
    rw [h.aligner, OrderedMap.find?_insert, if_pos rfl] at hfind
    obtain rfl := Option.some.inj hfind
    change released = true at hst
    rw [(h.releasesMore hr hi hlt).releasedEpochs, hst]
    simp
  · obtain ⟨hsame, -, hreleased⟩ := h.of_ne hr hi hlt hf
    rw [hsame] at hfind
    exact hreleased.mpr (hr.recorded f st hfind hst)

/-- An epoch that the map does not mention is new or closed. -/
theorem Counted.absent
    (h : Counted r r' i e released) (hr : r.Inv) (hi : i ∉ r.finished)
    (hlt : ∀ d ∈ r.delivered i, d < e) {f : CheckpointEpoch}
    (hfind : r'.aligner.epochs.find? f = none) :
    (r'.deliverers f = ∅ ∧ f ∉ r'.releasedEpochs) ∨ r'.Closed f := by
  by_cases hf : f = e
  · rw [h.aligner, OrderedMap.find?_insert, if_pos hf] at hfind
    cases hfind
  · obtain ⟨hsame, hdeliverers, hreleased⟩ := h.of_ne hr hi hlt hf
    rw [hsame] at hfind
    rw [hdeliverers, hreleased]
    rcases hr.absent f hfind with hnew | hclosed
    · exact Or.inl hnew
    · exact Or.inr (hclosed.deliverEpoch h.delivered h.finished)

end Counted

/-- Delivering a marker preserves the invariant. -/
theorem Inv.deliver_marker
    (hr : r.Inv) (hi : i ∉ r.finished)
    (hlt : ∀ d ∈ r.delivered i, d < e)
    {createdAtMs : ℕ} {r' : AlignerRun N}
    (hr' : deliver i r (.marker e createdAtMs) = some r') : r'.Inv := by
  obtain ⟨released, h⟩ := hr.counted hi hlt hr'
  have hmore := h.releasesMore hr hi hlt
  exact
    { inputs := by rw [h.aligner]; exact hr.inputs
      increasing := h.increasing hr hlt
      finished_length := by
        rw [h.aligner, h.finished]
        exact hr.finished_length
      finished_below := by
        intro f
        rw [finishedBelow_deliverEpoch h.delivered h.finished hi, h.aligner]
        exact hr.finished_below f
      pending := fun _ _ => h.pending hr hi hlt
      recorded := fun _ _ => h.recorded hr hi hlt
      absent := fun _ => h.absent hr hi hlt
      delivered_of_released := hmore.delivered_of_released hr
      settled := hmore.settled hr
      at_release := hmore.at_release hr
      nodup := hmore.nodup hr }

end Marker

/-! ## Other messages -/

/-- A message that is no marker leaves the history as it is; it may drop
closed epochs from the map. -/
theorem Inv.of_pruned
    {r r' : AlignerRun N} (hr : r.Inv)
    (hinputs : r'.aligner.inputs = r.aligner.inputs)
    (hended : r'.aligner.finished = r.aligner.finished)
    (hdel : r'.delivered = r.delivered)
    (hfin : r'.finished = r.finished)
    (hrel : r'.releases = r.releases)
    (hfind : ∀ e,
      r'.aligner.epochs.find? e = r.aligner.epochs.find? e ∨
        (r'.aligner.epochs.find? e = none ∧ r.Closed e)) :
    r'.Inv := by
  have hdeliverers : ∀ e, r'.deliverers e = r.deliverers e := by
    intro e
    simp [deliverers, hdel]
  have hbelow : ∀ e, r'.finishedBelow e = r.finishedBelow e := by
    intro e
    simp [finishedBelow, hdel, hfin]
  have hreleased : r'.releasedEpochs = r.releasedEpochs := by
    simp [releasedEpochs, hrel]
  have hclosed : ∀ e, r'.Closed e ↔ r.Closed e := by
    intro e
    simp [Closed, hdel, hfin]
  -- A binding of the new map is a binding of the old one.
  have hbound : ∀ e st, r'.aligner.epochs.find? e = some st →
      r.aligner.epochs.find? e = some st := by
    intro e st h
    rcases hfind e with heq | ⟨hnone, -⟩
    · rw [← heq, h]
    · simp [hnone] at h
  refine
    { inputs := hinputs.trans hr.inputs
      increasing := by rw [hdel]; exact hr.increasing
      finished_length := by rw [hended, hfin]; exact hr.finished_length
      finished_below := ?_
      pending := ?_
      recorded := ?_
      absent := ?_
      delivered_of_released := by
        rw [hreleased, hdel]
        exact hr.delivered_of_released
      settled := by rw [hreleased, hdel, hfin]; exact hr.settled
      at_release := by rw [hrel]; exact hr.at_release
      nodup := by rw [hreleased]; exact hr.nodup }
  · intro e
    rw [hended, hbelow]
    exact hr.finished_below e
  · intro e st h hst
    rw [hdeliverers, hreleased, hinputs, hended]
    exact hr.pending e st (hbound e st h) hst
  · intro e st h hst
    rw [hreleased]
    exact hr.recorded e st (hbound e st h) hst
  · intro e h
    rw [hdeliverers, hreleased, hclosed]
    rcases hfind e with heq | ⟨-, hcl⟩
    · exact hr.absent e (heq ▸ h)
    · exact Or.inr hcl

/-- Delivering any other message preserves the invariant. -/
theorem Inv.deliver_not_marker
    {r r' : AlignerRun N} {i : Fin N} {message : CheckpointMessage}
    (hr : r.Inv) (hnot : message.markerEpoch? = none)
    (hr' : deliver i r message = some r') : r'.Inv := by
  have hsame := observeMessage_inputs_finished r.aligner message
  have hnone := markerEpochs_observeMessage_of_not_marker r.aligner hnot
  simp only [deliver] at hr'
  split at hr'
  next hmay =>
    obtain rfl := Option.some.inj hr'
    refine hr.of_pruned hsame.1 hsame.2 (by simp [deliveredAfter, hnot])
      rfl (by simp [hnone]) ?_
    intro e
    cases message with
    | marker f createdAtMs => simp [CheckpointMessage.markerEpoch?] at hnot
    | ack f sinkId => exact Or.inl rfl
    | sourceComplete source =>
        left
        simp only [observeMessage]
        split <;> rfl
    | finalizer f =>
        -- A finalizer drops the epochs up to `f`, which is released.
        have hf : f ∈ r.releasedEpochs := by
          simp only [mayDeliver, Bool.and_eq_true, decide_eq_true_eq]
            at hmay
          exact hmay.2
        have hpruned : (r.aligner.observeMessage (.finalizer f)).1.epochs =
            r.aligner.epochs.retain fun k _ => decide (f < k) := by
          simp only [observeMessage]
          split <;> rfl
        simp only [hpruned]
        rw [OrderedMap.find?_retain_key _ (fun k => decide (f < k))]
        by_cases hlt : f < e
        · simp [hlt]
        · right
          refine ⟨by simp [hlt], ?_⟩
          exact (closed_of_settled (hr.settled f hf)).mono (not_lt.mp hlt)
  · simp at hr'

theorem Inv.deliver
    {r r' : AlignerRun N} {i : Fin N} {message : CheckpointMessage}
    (hr : r.Inv) (hr' : deliver i r message = some r') : r'.Inv := by
  cases hepoch : message.markerEpoch? with
  | none => exact hr.deliver_not_marker hepoch hr'
  | some e =>
      cases message with
      | marker f createdAtMs =>
          have hmay : r.mayDeliver i (.marker f createdAtMs) = true := by
            by_contra h
            simp [AlignerRun.deliver, h] at hr'
          simp only [mayDeliver, Bool.and_eq_true, decide_eq_true_eq,
            List.all_eq_true] at hmay
          exact hr.deliver_marker hmay.1 hmay.2 hr'
      | ack f sinkId => simp [CheckpointMessage.markerEpoch?] at hepoch
      | finalizer f => simp [CheckpointMessage.markerEpoch?] at hepoch
      | sourceComplete source =>
          simp [CheckpointMessage.markerEpoch?] at hepoch

/-! ## An input that ends -/

section Finish

variable {r : AlignerRun N} {i : Fin N}

/-- The reported watermark is below `e` exactly if every delivery is. -/
theorem finishedBefore_max?
    (es : List CheckpointEpoch) (e : CheckpointEpoch) :
    finishedBefore e es.max? = true ↔ ∀ d ∈ es, d < e := by
  cases hmax : es.max? with
  | none =>
      obtain rfl : es = [] := by simpa using hmax
      simp [finishedBefore]
  | some m =>
      obtain ⟨hmem, hle⟩ := List.max?_eq_some_iff.mp hmax
      simp only [finishedBefore, decide_eq_true_eq]
      constructor
      · intro hlt d hd
        exact lt_of_le_of_lt (hle d hd) hlt
      · intro h
        exact h m hmem

theorem card_finishedBelow_insert
    {r' : AlignerRun N} (hdel : r'.delivered = r.delivered)
    (hfin : r'.finished = insert i r.finished) (hi : i ∉ r.finished)
    (e : CheckpointEpoch) :
    (r'.finishedBelow e).card = (r.finishedBelow e).card +
      if ∀ d ∈ r.delivered i, d < e then 1 else 0 := by
  simp only [finishedBelow, hdel, hfin, Finset.filter_insert]
  split
  · rw [Finset.card_insert_of_notMem]
    simp [hi]
  · simp

theorem Closed.insert_finished
    {r' : AlignerRun N} (hdel : r'.delivered = r.delivered)
    (hfin : r'.finished = insert i r.finished) {e : CheckpointEpoch}
    (h : r.Closed e) : r'.Closed e := by
  intro j
  rcases h j with hj | hd
  · exact Or.inl (hfin ▸ Finset.mem_insert_of_mem hj)
  · exact Or.inr (hdel ▸ hd)

/-- The epochs an ending input releases, in the order they are released. -/
def releasedAtEnd (r : AlignerRun N) (i : Fin N) : List CheckpointEpoch :=
  (r.aligner.epochs.entries.filter fun q =>
    readyWhenDone r.aligner.inputs
      (r.aligner.finished ++ [(r.delivered i).max?]) q.1 q.2).map Prod.fst

theorem mem_releasedAtEnd {e : CheckpointEpoch} :
    e ∈ r.releasedAtEnd i ↔
      ∃ st, r.aligner.epochs.find? e = some st ∧
        readyWhenDone r.aligner.inputs
          (r.aligner.finished ++ [(r.delivered i).max?]) e st = true := by
  simp only [releasedAtEnd, List.mem_map, List.mem_filter, Prod.exists,
    OrderedMap.find?_eq_some_iff]
  constructor
  · rintro ⟨f, st, h, rfl⟩
    exact ⟨st, h⟩
  · rintro ⟨st, h⟩
    exact ⟨e, st, h, rfl⟩

/-- The run after input `i` ends. -/
theorem finish_eq
    {last : Option CheckpointEpoch} {nowMs : ℕ} {r' : AlignerRun N}
    (hr' : finish i last nowMs r = some r') :
    i ∉ r.finished ∧
      r'.aligner.inputs = r.aligner.inputs ∧
      r'.aligner.finished =
        r.aligner.finished ++ [(r.delivered i).max?] ∧
      (∀ e, r'.aligner.epochs.find? e =
        (r.aligner.epochs.find? e).map fun st =>
          if readyWhenDone r.aligner.inputs r'.aligner.finished e st then
            { st with released := true }
          else st) ∧
      r'.delivered = r.delivered ∧
      r'.finished = insert i r.finished ∧
      r'.releases = r.releases ++
        (r.releasedAtEnd i).map fun e =>
          ⟨e, r'.delivered, r'.finished⟩ := by
  simp only [AlignerRun.finish] at hr'
  split at hr'
  next hguard =>
    obtain ⟨hi, rfl⟩ := hguard
    obtain rfl := Option.some.inj hr'
    refine ⟨hi, rfl, rfl, ?_, rfl, rfl, ?_⟩
    · intro e
      exact OrderedMap.find?_mapValues _ _ e
    · rw [markerEpochs_inputDone]
      rfl
  · simp at hr'

/-- The counter of inputs finished below `e` keeps its meaning. -/
theorem finished_below_insert
    {e : CheckpointEpoch}
    (hbelow : (r.aligner.finished.filter (finishedBefore e)).length =
      (r.finishedBelow e).card) (hi : i ∉ r.finished)
    {r' : AlignerRun N} (hdel : r'.delivered = r.delivered)
    (hfin : r'.finished = insert i r.finished) :
    ((r.aligner.finished ++ [(r.delivered i).max?]).filter
      (finishedBefore e)).length = (r'.finishedBelow e).card := by
  rw [List.filter_append, List.length_append, hbelow,
    card_finishedBelow_insert hdel hfin hi]
  by_cases h : ∀ d ∈ r.delivered i, d < e
  · rw [if_pos h]
    have := (finishedBefore_max? (r.delivered i) e).mpr h
    simp [this]
  · rw [if_neg h]
    have : ¬ finishedBefore e (r.delivered i).max? = true :=
      fun hb => h ((finishedBefore_max? _ _).mp hb)
    simp [this]

/-- An epoch released by the end of `i` was pending, and is settled now. -/
theorem Inv.settled_of_releasedAtEnd
    (hr : r.Inv) (hi : i ∉ r.finished) {e : CheckpointEpoch}
    (he : e ∈ r.releasedAtEnd i)
    {r' : AlignerRun N} (hdel : r'.delivered = r.delivered)
    (hfin : r'.finished = insert i r.finished) :
    Settled r'.delivered r'.finished e ∧ e ∉ r.releasedEpochs ∧
      ∃ j, e ∈ r.delivered j := by
  obtain ⟨st, hfind, hready⟩ := mem_releasedAtEnd.mp he
  simp only [readyWhenDone, Bool.and_eq_true, Bool.or_eq_true,
    Bool.not_eq_true', decide_eq_true_eq] at hready
  obtain ⟨hst, hready⟩ := hready
  obtain ⟨hcopies, hpos, -, hnot⟩ := hr.pending e st hfind hst
  refine ⟨?_, hnot, ?_⟩
  · have hinputs := hr.inputs
    rcases hready with hall | hreq
    · left
      have hcard : r'.finished.card = N := by
        apply le_antisymm
        · simpa using Finset.card_le_univ r'.finished
        · rw [hfin, Finset.card_insert_of_notMem hi, ← hr.finished_length]
          simpa [hinputs] using hall
      have huniv : r'.finished = Finset.univ := by
        apply Finset.eq_univ_of_card
        simpa using hcard
      intro j
      rw [huniv]
      exact Finset.mem_univ j
    · right
      apply settled_of_card
      have hsame : r'.deliverers e = r.deliverers e := by
        simp [deliverers, hdel]
      have hbelow := finished_below_insert (hr.finished_below e) hi hdel hfin
      rw [hsame, ← hcopies, ← hbelow]
      simp only [requiredCopies] at hreq
      omega
  · rw [hcopies] at hpos
    obtain ⟨j, hj⟩ := Finset.card_pos.mp hpos
    exact ⟨j, by simpa [deliverers] using hj⟩

/-- The end of an input preserves the invariant. -/
theorem Inv.finish
    (hr : r.Inv) {last : Option CheckpointEpoch} {nowMs : ℕ}
    {r' : AlignerRun N} (hr' : finish i last nowMs r = some r') :
    r'.Inv := by
  obtain ⟨hi, hinputs, hended, hepochs, hdel, hfin, hreleases⟩ :=
    finish_eq hr'
  have hdeliverers : ∀ e, r'.deliverers e = r.deliverers e := by
    intro e
    simp [deliverers, hdel]
  have hmore : ReleasesMore r r' (r.releasedAtEnd i) := by
    have hnew : ∀ e ∈ r.releasedAtEnd i,
        Settled r'.delivered r'.finished e ∧ e ∉ r.releasedEpochs ∧
          ∃ j, e ∈ r.delivered j :=
      fun e he => hr.settled_of_releasedAtEnd hi he hdel hfin
    refine ⟨hreleases, fun e he => (hnew e he).1,
      fun e he => (hnew e he).2.1, ?_, ?_, ?_, ?_⟩
    · rw [hdel]
      exact fun e he => (hnew e he).2.2
    · exact (OrderedMap.pairwise_filterMap_key _ _).imp fun h => ne_of_lt h
    · rw [hdel]
      exact fun _ _ he => he
    · rw [hdel, hfin]
      exact fun e he => settled_insert_finished he
  have hreleased := hmore.releasedEpochs
  refine
    { inputs := hinputs.trans hr.inputs
      increasing := by rw [hdel]; exact hr.increasing
      finished_length := ?_
      finished_below := ?_
      pending := ?_
      recorded := ?_
      absent := ?_
      delivered_of_released := hmore.delivered_of_released hr
      settled := hmore.settled hr
      at_release := hmore.at_release hr
      nodup := hmore.nodup hr }
  · rw [hended, hfin, Finset.card_insert_of_notMem hi,
      ← hr.finished_length]
    simp
  · intro e
    rw [hended]
    exact finished_below_insert (hr.finished_below e) hi hdel hfin
  · intro e st hfind hst
    rw [hepochs, Option.map_eq_some_iff] at hfind
    obtain ⟨old, hold, rfl⟩ := hfind
    split at hst
    · simp at hst
    next hnotready =>
      simp only [hnotready]
      obtain ⟨hcopies, hpos, -, hnot⟩ := hr.pending e old hold hst
      refine ⟨hcopies.trans (by rw [hdeliverers]), hpos, ?_, ?_⟩
      · simp only [readyWhenDone, hst, Bool.not_false, Bool.true_and,
          Bool.or_eq_true, decide_eq_true_eq, not_or, not_le] at hnotready
        rw [hinputs]
        exact hnotready.2
      · rw [hreleased, List.mem_append]
        rintro (h | h)
        · exact hnot h
        · obtain ⟨st', hst', hready⟩ := mem_releasedAtEnd.mp h
          obtain rfl := Option.some.inj (hold.symm.trans hst')
          exact hnotready (hended ▸ hready)
  · intro e st hfind hst
    rw [hepochs, Option.map_eq_some_iff] at hfind
    obtain ⟨old, hold, rfl⟩ := hfind
    rw [hreleased, List.mem_append]
    split at hst
    next hready =>
      exact Or.inr (mem_releasedAtEnd.mpr ⟨old, hold, hended ▸ hready⟩)
    · exact Or.inl (hr.recorded e old hold hst)
  · intro e hfind
    rw [hepochs, Option.map_eq_none_iff] at hfind
    rcases hr.absent e hfind with ⟨hnone, hnot⟩ | hclosed
    · left
      rw [hdeliverers, hreleased, List.mem_append]
      refine ⟨hnone, ?_⟩
      rintro (h | h)
      · exact hnot h
      · obtain ⟨st, hst, -⟩ := mem_releasedAtEnd.mp h
        simp [hfind] at hst
    · exact Or.inr (hclosed.insert_finished hdel hfin)

end Finish

/-! ## Whole runs -/

theorem Inv.step
    {r r' : AlignerRun N} {call : AlignerCall N}
    (hr : r.Inv) (hr' : r.step call = some r') : r'.Inv := by
  cases call with
  | observe i messages =>
      exact Transition.run_invariant
        (fun _ _ _ hs h => Inv.deliver hs h) hr hr'
  | inputDone i last nowMs => exact hr.finish hr'

/-- The invariant holds after every run. -/
theorem inv_run
    {calls : List (AlignerCall N)} {r : AlignerRun N}
    (h : Transition.run step (start N) calls = some r) : r.Inv :=
  Transition.run_invariant (fun _ _ _ hs h => Inv.step hs h)
    (inv_start N) h

end AlignerRun

end Streamling
