import Streamling.Checkpoints.AlignerBarrier

/-!
# Aligners stack

Merge points follow one another in a pipeline: a repartition, a coalesce, the
gate of a sink.  Each aligner relies on its inputs delivering epochs in
increasing order.  If the deliveries moreover leave no gaps, the released
epochs are again increasing and leave no gaps, so the output of an aligner is
a good input of the next one.
-/

namespace Streamling

open MarkerAligner

namespace AlignerRun

variable {N : ℕ}

/-- An input that delivered an epoch delivered every smaller epoch that any
input delivers. -/
def GapFree (r : AlignerRun N) : Prop :=
  ∀ i j, ∀ e ∈ r.delivered i, ∀ d ∈ r.delivered j, d < e →
    d ∈ r.delivered i

instance (r : AlignerRun N) : Decidable r.GapFree :=
  inferInstanceAs (Decidable (∀ i j, ∀ e ∈ r.delivered i,
    ∀ d ∈ r.delivered j, d < e → d ∈ r.delivered i))

/-- What gap-free deliveries add to the invariant: releases come in
increasing order, nothing delivered below a released epoch is skipped, and
the map only forgets what was released. -/
structure Ordered (r : AlignerRun N) : Prop where
  increasing : r.releasedEpochs.Pairwise (· < ·)
  complete : ∀ e ∈ r.releasedEpochs, ∀ i, ∀ d ∈ r.delivered i, d < e →
    d ∈ r.releasedEpochs
  forgotten : ∀ i, ∀ d ∈ r.delivered i,
    r.aligner.epochs.find? d = none → d ∈ r.releasedEpochs

/-! ## Deliveries only grow -/

theorem delivered_prefix_of_deliver
    {i : Fin N} {r r' : AlignerRun N} {message : CheckpointMessage}
    (h : deliver i r message = some r') (j : Fin N) :
    r.delivered j <+: r'.delivered j := by
  simp only [deliver] at h
  split at h
  · obtain rfl := Option.some.inj h
    cases hepoch : message.markerEpoch? with
    | none => simp [deliveredAfter, hepoch]
    | some e =>
        by_cases hj : j = i
        · subst hj
          simp [deliveredAfter, hepoch]
        · simp [deliveredAfter, hepoch, hj]
  · simp at h

/-- An initial part of an increasing list holds everything below its own
elements. -/
theorem mem_of_prefix_of_lt
    {front all : List CheckpointEpoch} {d e : CheckpointEpoch}
    (hall : all.Pairwise (· < ·)) (h : front <+: all)
    (he : e ∈ front) (hd : d ∈ all) (hde : d < e) : d ∈ front := by
  obtain ⟨rest, rfl⟩ := h
  rcases List.mem_append.mp hd with hin | hin
  · exact hin
  · have hed := (List.pairwise_append.mp hall).2.2 e he d hin
    exact absurd hde (not_lt.mpr hed.le)

/-- Gap-free deliveries were gap-free before: each input delivered an initial
part of an increasing list. -/
theorem GapFree.of_prefix
    {r r' : AlignerRun N} (hr' : r'.GapFree)
    (hinc : ∀ i, (r'.delivered i).Pairwise (· < ·))
    (h : ∀ i, r.delivered i <+: r'.delivered i) : r.GapFree := by
  intro i j e he d hd hde
  have hmem : d ∈ r'.delivered i :=
    hr' i j e ((h i).subset he) d ((h j).subset hd) hde
  exact mem_of_prefix_of_lt (hinc i) (h i) he hmem hde

/-! ## What is settled below a settled epoch -/

/-- Every input has delivered `e` or finished below it. -/
def EachSettled (r : AlignerRun N) (e : CheckpointEpoch) : Prop :=
  ∀ i, e ∈ r.delivered i ∨
    (i ∈ r.finished ∧ ∀ d ∈ r.delivered i, d < e)

/-- Under gap-free deliveries, being settled is inherited by the smaller
epochs that anyone delivered. -/
theorem EachSettled.below
    {r : AlignerRun N} {e d : CheckpointEpoch} {j : Fin N}
    (h : r.EachSettled e) (hgap : r.GapFree)
    (hd : d ∈ r.delivered j) (hde : d < e) : r.EachSettled d := by
  intro i
  by_cases hid : d ∈ r.delivered i
  · exact Or.inl hid
  · right
    rcases h i with he | ⟨hfin, -⟩
    · exact absurd (hgap i j e he d hd hde) hid
    · refine ⟨hfin, ?_⟩
      intro x hx
      by_contra hge
      rcases lt_or_eq_of_le (not_lt.mp hge) with hlt | rfl
      · exact hid (hgap i j x hx d hd hlt)
      · exact hid hx

/-- If every input settled `d`, the copies needed for it have arrived. -/
theorem requiredCopies_le_of_eachSettled
    {r : AlignerRun N} {d : CheckpointEpoch}
    {ended : List (Option CheckpointEpoch)}
    (hended : (ended.filter (finishedBefore d)).length =
      (r.finishedBelow d).card)
    (h : r.EachSettled d) {j : Fin N} (hd : d ∈ r.delivered j) :
    requiredCopies N ended d ≤ (r.deliverers d).card := by
  have huniv : r.deliverers d ∪ r.finishedBelow d = Finset.univ := by
    apply Finset.eq_univ_of_forall
    intro i
    rcases h i with hi | hi
    · simp [deliverers, hi]
    · exact Finset.mem_union_right _ (by simpa [finishedBelow] using hi)
  have hcard : (r.deliverers d).card + (r.finishedBelow d).card = N := by
    rw [← Finset.card_union_of_disjoint
      (r.deliverers_disjoint_finishedBelow d), huniv]
    simp
  have hpos : 0 < (r.deliverers d).card := by
    apply Finset.card_pos.mpr
    exact ⟨j, by simpa [deliverers] using hd⟩
  simp only [requiredCopies, hended]
  omega

/-- Nothing that every input settled is still pending. -/
theorem Inv.released_of_eachSettled
    {r : AlignerRun N} (hr : r.Inv) (hord : r.Ordered)
    {d : CheckpointEpoch} (h : r.EachSettled d)
    {j : Fin N} (hd : d ∈ r.delivered j) : d ∈ r.releasedEpochs := by
  cases hfind : r.aligner.epochs.find? d with
  | none => exact hord.forgotten j d hd hfind
  | some st =>
      cases hst : st.released with
      | true => exact hr.recorded d st hfind hst
      | false =>
          obtain ⟨hcopies, -, hlt, -⟩ := hr.pending d st hfind hst
          have hreq := requiredCopies_le_of_eachSettled
            (hr.finished_below d) h hd
          rw [hr.inputs, hcopies] at hlt
          exact absurd hlt (not_lt.mpr hreq)

/-! ## The order of releases -/

theorem Ordered.start (N : ℕ) : (AlignerRun.start N).Ordered where
  increasing := by simp [AlignerRun.start, releasedEpochs]
  complete := by simp [AlignerRun.start, releasedEpochs]
  forgotten := by simp [AlignerRun.start]

section Deliver

variable {r r' : AlignerRun N} {i : Fin N}

/-- A live input has delivered every released epoch. -/
theorem Inv.delivered_of_live
    (hr : r.Inv) (hi : i ∉ r.finished) {f : CheckpointEpoch}
    (hf : f ∈ r.releasedEpochs) : f ∈ r.delivered i := by
  rcases hr.settled f hf with hall | heach
  · exact absurd (hall i) hi
  · rcases heach i with hdel | ⟨hfin, -⟩
    · exact hdel
    · exact absurd hfin hi

theorem Ordered.deliver_marker
    {e : CheckpointEpoch} {createdAtMs : ℕ}
    (hr : r.Inv) (hord : r.Ordered) (hr'inv : r'.Inv)
    (hgap : r'.GapFree) (hi : i ∉ r.finished)
    (hlt : ∀ d ∈ r.delivered i, d < e)
    (hr' : deliver i r (.marker e createdAtMs) = some r') :
    r'.Ordered := by
  obtain ⟨released, h⟩ := hr.counted hi hlt hr'
  have haligner := h.aligner
  have hdel := h.delivered
  have hfin := h.finished
  have hreleased := (h.releasesMore hr hi hlt).releasedEpochs
  -- Released epochs were all delivered by `i`, hence lie below `e`.
  have habove : ∀ f ∈ r.releasedEpochs, f < e :=
    fun f hf => hlt f (hr.delivered_of_live hi hf)
  have hold : ∀ j, ∀ d ∈ r'.delivered j, d ≠ e → d ∈ r.delivered j := by
    intro j d hd hne
    rw [hdel] at hd
    rcases mem_deliverEpoch.mp hd with hd | ⟨-, rfl⟩
    · exact hd
    · exact absurd rfl hne
  refine ⟨?_, ?_, ?_⟩
  · rw [hreleased, List.pairwise_append]
    refine ⟨hord.increasing, ?_, ?_⟩
    · split <;> simp
    · intro f hf x hx
      split at hx
      · obtain rfl : x = e := by simpa using hx
        exact habove f hf
      · simp at hx
  · intro f hf j d hd hdf
    rw [hreleased, List.mem_append] at hf ⊢
    rcases hf with hf | hf
    · have hne : d ≠ e := by
        rintro rfl
        exact absurd (habove f hf) (not_lt.mpr hdf.le)
      exact Or.inl (hord.complete f hf j d (hold j d hd hne) hdf)
    · split at hf
      next hrel =>
        obtain rfl : f = e := by simpa using hf
        have hsettled : r'.EachSettled f := by
          have hmem : f ∈ r'.releasedEpochs := by simp [hreleased, hrel]
          rcases hr'inv.settled f hmem with hall | heach
          · exact absurd (hfin ▸ hall i) hi
          · exact heach
        have hd' := hsettled.below hgap hd hdf
        have hd_r : r.EachSettled d := by
          intro k
          rcases hd' k with hk | ⟨hkfin, hk⟩
          · exact Or.inl (hold k d hk hdf.ne)
          · right
            refine ⟨hfin ▸ hkfin, ?_⟩
            intro x hx
            apply hk x
            rw [hdel]
            exact mem_deliverEpoch.mpr (Or.inl hx)
        exact Or.inl
          (hr.released_of_eachSettled hord hd_r (hold j d hd hdf.ne))
      · simp at hf
  · intro j d hd hfind
    have hne : d ≠ e := by
      rintro rfl
      simp [haligner] at hfind
    rw [hreleased, List.mem_append]
    refine Or.inl (hord.forgotten j d (hold j d hd hne) ?_)
    simpa [haligner, OrderedMap.find?_insert, hne] using hfind

theorem Ordered.deliver_not_marker
    {message : CheckpointMessage} (hord : r.Ordered)
    (hnot : message.markerEpoch? = none)
    (hr' : deliver i r message = some r') : r'.Ordered := by
  have hnone := markerEpochs_observeMessage_of_not_marker r.aligner hnot
  simp only [deliver] at hr'
  split at hr'
  next hmay =>
    obtain rfl := Option.some.inj hr'
    simp only [deliveredAfter, hnot, hnone, List.map_nil, List.append_nil]
    refine ⟨hord.increasing, hord.complete, ?_⟩
    intro j d hd hfind
    cases message with
    | marker f createdAtMs => simp [CheckpointMessage.markerEpoch?] at hnot
    | ack f sinkId => exact hord.forgotten j d hd hfind
    | sourceComplete source =>
        refine hord.forgotten j d hd ?_
        simp only [observeMessage] at hfind
        split at hfind
        · exact hfind
        · exact hfind
    | finalizer f =>
        have hf : f ∈ r.releasedEpochs := by
          simp only [mayDeliver, Bool.and_eq_true, decide_eq_true_eq]
            at hmay
          exact hmay.2
        have hpruned : (r.aligner.observeMessage (.finalizer f)).1.epochs =
            r.aligner.epochs.retain fun k _ => decide (f < k) := by
          simp only [observeMessage]
          split <;> rfl
        simp only [hpruned] at hfind
        rw [OrderedMap.find?_retain_key _ (fun k => decide (f < k))]
          at hfind
        rcases lt_trichotomy d f with hlt | rfl | hgt
        · exact hord.complete f hf j d hd hlt
        · exact hf
        · exact hord.forgotten j d hd (by simpa [hgt] using hfind)
  · simp at hr'

end Deliver

/-- An ending input releases in order, and skips nothing. -/
theorem Ordered.finish
    {r r' : AlignerRun N} {i : Fin N} {last : Option CheckpointEpoch}
    {nowMs : ℕ} (hr : r.Inv) (hord : r.Ordered) (hgap : r'.GapFree)
    (hr' : finish i last nowMs r = some r') : r'.Ordered := by
  obtain ⟨hi, -, -, hepochs, hdel, hfin, hreleases⟩ := finish_eq hr'
  have hreleased : r'.releasedEpochs =
      r.releasedEpochs ++ r.releasedAtEnd i := by
    simp [releasedEpochs, hreleases, Function.comp_def]
  refine ⟨?_, ?_, ?_⟩
  · rw [hreleased, List.pairwise_append]
    refine ⟨hord.increasing, OrderedMap.pairwise_filterMap_key _ _, ?_⟩
    intro f hf e he
    obtain ⟨-, hnot, j, hj⟩ :=
      hr.settled_of_releasedAtEnd hi he hdel hfin
    by_contra hge
    rcases lt_or_eq_of_le (not_lt.mp hge) with hlt | rfl
    · exact hnot (hord.complete f hf j e hj hlt)
    · exact hnot hf
  · intro e he j d hd hde
    rw [hdel] at hd
    rw [hreleased, List.mem_append] at he ⊢
    rcases he with he | he
    · exact Or.inl (hord.complete e he j d hd hde)
    · cases hfind : r.aligner.epochs.find? d with
      | none => exact Or.inl (hord.forgotten j d hd hfind)
      | some st =>
          cases hst : st.released with
          | true => exact Or.inl (hr.recorded d st hfind hst)
          | false =>
              right
              refine mem_releasedAtEnd.mpr ⟨st, hfind, ?_⟩
              simp only [readyWhenDone, hst, Bool.not_false, Bool.true_and,
                Bool.or_eq_true, decide_eq_true_eq]
              obtain ⟨hsettled, -, -⟩ :=
                hr.settled_of_releasedAtEnd hi he hdel hfin
              rcases hsettled with hall | heach
              · left
                have hcard : r'.finished = Finset.univ :=
                  Finset.eq_univ_of_forall hall
                have hlen := Finset.card_insert_of_notMem hi
                rw [← hfin, hcard, Finset.card_univ, Fintype.card_fin,
                  ← hr.finished_length] at hlen
                simp [hr.inputs, hlen]
              · right
                have hd' : r'.EachSettled d :=
                  EachSettled.below heach hgap (hdel ▸ hd) hde
                have hreq := requiredCopies_le_of_eachSettled
                  (finished_below_insert (hr.finished_below d) hi hdel hfin) hd'
                  (hdel ▸ hd)
                rw [hr.inputs, (hr.pending d st hfind hst).1]
                simpa [deliverers, hdel] using hreq
  · intro j d hd hfind
    rw [hdel] at hd
    rw [hepochs, Option.map_eq_none_iff] at hfind
    rw [hreleased, List.mem_append]
    exact Or.inl (hord.forgotten j d hd hfind)

/-! ## Whole runs -/

/-- The invariant of the barrier, and the order of the releases as far as the
deliveries are gap-free. -/
structure StackingInv (r : AlignerRun N) : Prop where
  inv : r.Inv
  ordered : r.GapFree → r.Ordered

theorem StackingInv.deliver
    {r r' : AlignerRun N} {i : Fin N} {message : CheckpointMessage}
    (hr : r.StackingInv) (hr' : deliver i r message = some r') :
    r'.StackingInv := by
  have hinv := hr.inv.deliver hr'
  refine ⟨hinv, ?_⟩
  intro hgap
  have hord := hr.ordered
    (hgap.of_prefix hinv.increasing (delivered_prefix_of_deliver hr'))
  cases message with
  | marker e createdAtMs =>
      have hmay : r.mayDeliver i (.marker e createdAtMs) = true := by
        by_contra h
        simp [AlignerRun.deliver, h] at hr'
      simp only [mayDeliver, Bool.and_eq_true, decide_eq_true_eq,
        List.all_eq_true] at hmay
      exact hord.deliver_marker hr.inv hinv hgap hmay.1 hmay.2 hr'
  | ack e sinkId => exact hord.deliver_not_marker rfl hr'
  | finalizer e => exact hord.deliver_not_marker rfl hr'
  | sourceComplete source => exact hord.deliver_not_marker rfl hr'

theorem StackingInv.step
    {r r' : AlignerRun N} {call : AlignerCall N}
    (hr : r.StackingInv) (hr' : r.step call = some r') :
    r'.StackingInv := by
  cases call with
  | observe i messages =>
      exact Transition.run_invariant
        (fun _ _ _ hs h => StackingInv.deliver hs h) hr hr'
  | inputDone i last nowMs =>
      refine ⟨hr.inv.finish hr', ?_⟩
      intro hgap
      have hdel : r'.delivered = r.delivered :=
        (finish_eq hr').2.2.2.2.1
      have hgap_r : r.GapFree := by
        simpa only [GapFree, hdel] using hgap
      exact (hr.ordered hgap_r).finish hr.inv hgap hr'

theorem stackingInv_run
    {calls : List (AlignerCall N)} {r : AlignerRun N}
    (h : Transition.run step (start N) calls = some r) : r.StackingInv :=
  Transition.run_invariant (fun _ _ _ hs h => StackingInv.step hs h)
    ⟨inv_start N, fun _ => Ordered.start N⟩ h

end AlignerRun

/-- If the deliveries of a run are gap-free, the released epochs are strictly
increasing and gap-free with respect to what the inputs delivered.  Hence the
outputs of any family of aligners whose inputs are together gap-free are
increasing and together gap-free themselves, and a further aligner that reads
them is in a gap-free run. -/
theorem marker_alignment_stacks :
    (∀ (N : ℕ) (calls : List (AlignerCall N)) (r : AlignerRun N),
      Transition.run AlignerRun.step (AlignerRun.start N) calls = some r →
      r.GapFree →
        r.releasedEpochs.Pairwise (· < ·) ∧
        ∀ e ∈ r.releasedEpochs, ∀ i, ∀ d ∈ r.delivered i, d < e →
          d ∈ r.releasedEpochs) ∧
    ∀ (M : ℕ) (N : Fin M → ℕ) (calls : ∀ k, List (AlignerCall (N k)))
      (r : ∀ k, AlignerRun (N k)),
      (∀ k, Transition.run AlignerRun.step (AlignerRun.start (N k))
        (calls k) = some (r k)) →
      (∀ k i k' i', ∀ e ∈ (r k).delivered i, ∀ d ∈ (r k').delivered i',
        d < e → d ∈ (r k).delivered i) →
        (∀ k, (r k).releasedEpochs.Pairwise (· < ·)) ∧
        (∀ k k', ∀ e ∈ (r k).releasedEpochs, ∀ d ∈ (r k').releasedEpochs,
          d < e → d ∈ (r k).releasedEpochs) ∧
        ∀ next : AlignerRun M,
          (∀ k, next.delivered k <+: (r k).releasedEpochs) →
            next.GapFree := by
  constructor
  · intro N calls r h hgap
    have hord := (AlignerRun.stackingInv_run h).ordered hgap
    exact ⟨hord.increasing, hord.complete⟩
  · intro M N calls r h hgap
    have hinv : ∀ k, (r k).StackingInv :=
      fun k => AlignerRun.stackingInv_run (h k)
    have hord : ∀ k, (r k).Ordered :=
      fun k => (hinv k).ordered fun i j => hgap k i k j
    have hgap' : ∀ k k', ∀ e ∈ (r k).releasedEpochs,
        ∀ d ∈ (r k').releasedEpochs, d < e →
          d ∈ (r k).releasedEpochs := by
      intro k k' e he d hd hde
      obtain ⟨i, hi⟩ := (hinv k).inv.delivered_of_released e he
      obtain ⟨j, hj⟩ := (hinv k').inv.delivered_of_released d hd
      exact (hord k).complete e he i d (hgap k i k' j e hi d hj hde) hde
    refine ⟨fun k => (hord k).increasing, hgap', ?_⟩
    intro next hnext k k' e he d hd hde
    have hmem := hgap' k k' e ((hnext k).subset he) d
      ((hnext k').subset hd) hde
    exact AlignerRun.mem_of_prefix_of_lt (hord k).increasing (hnext k) he
      hmem hde

theorem marker_alignment_stacks_two_inputs :
    ∃ r, Transition.run AlignerRun.step (AlignerRun.start 2)
        [.observe 0 [.marker 1 10, .marker 2 11],
          .observe 1 [.marker 1 12], .inputDone 1 (some 1) 13] = some r ∧
      r.releasedEpochs = [1, 2] ∧
      r.releasedEpochs.Pairwise (· < ·) := by
  obtain ⟨r, hr, hrel⟩ := Option.map_eq_some_iff.mp
    (show (Transition.run AlignerRun.step (AlignerRun.start 2)
      [.observe 0 [.marker 1 10, .marker 2 11],
        .observe 1 [.marker 1 12], .inputDone 1 (some 1) 13]).map
      (fun r => (r.releasedEpochs, decide r.GapFree)) =
      some ([1, 2], true) by decide)
  simp only [Prod.mk.injEq, decide_eq_true_eq] at hrel
  exact ⟨r, hr, hrel.1, (marker_alignment_stacks.1 2 _ r hr hrel.2).1⟩

end Streamling
