import Mathlib
import Streamling.Operators.Broadcast

/-!
# A broadcast consumer does not end cleanly over a gap

A registered consumer was sent every item taken from the source, up to the
one being sent.  A slot leaves the registry only when its receiver is gone or
its abandonment flag is set, and at the end of the source; the driver holds
its own sender until the flag is set.  So a consumer that finds its channel
closed without being told that it was abandoned was sent the whole source.
-/

namespace Streamling

namespace Broadcast

variable {n : ℕ} {Batch : Type*}

/-- The copies of the first `k` items of the source. -/
def copies (source : List (DFResult Batch)) (k : ℕ) :
    List (DFResult Batch) :=
  (source.take k).map toSend

theorem copies_succ
    {source : List (DFResult Batch)} {k : ℕ} {item : DFResult Batch}
    (h : source[k]? = some item) :
    copies source (k + 1) = copies source k ++ [toSend item] := by
  simp [copies, List.take_add_one, h]

theorem copies_length (source : List (DFResult Batch)) :
    copies source source.length = source.map toSend := by
  simp [copies]

namespace Consumer

/-- The error the stream yielded for its abandonment. -/
def reports (c : Consumer Batch) : List (DFResult Batch) :=
  if c.abandonmentReported then [.error abandonmentError] else []

/-- What the consumer observed and what is queued are the items sent to it
so far. -/
def Holds (c : Consumer Batch) (items : List (DFResult Batch)) : Prop :=
  c.observed ++ c.queue = items ++ c.reports

/-- The consumer was sent the first `k` items, unless it is gone. -/
def Served (source : List (DFResult Batch)) (c : Consumer Batch) (k : ℕ) :
    Prop :=
  c.dropped = true ∨ c.Holds (copies source k)

/-- The broadcast may do without this consumer. -/
def Lost (c : Consumer Batch) : Prop :=
  c.dropped = true ∨ c.abandoned = true

/-- What a consumer's own steps and the report of its result preserve. -/
structure Grows (c c' : Consumer Batch) : Prop where
  dropped : c.dropped = true → c'.dropped = true
  abandoned : c.abandoned = true → c'.abandoned = true
  holds : ∀ items, c.Holds items → c'.Holds items

theorem Grows.refl (c : Consumer Batch) : Grows c c :=
  ⟨fun h => h, fun h => h, fun _ h => h⟩

theorem Grows.served
    {c c' : Consumer Batch} (h : Grows c c')
    {source : List (DFResult Batch)} {k : ℕ} (hs : c.Served source k) :
    c'.Served source k :=
  hs.imp h.dropped (h.holds _)

theorem Grows.lost
    {c c' : Consumer Batch} (h : Grows c c') (hl : c.Lost) : c'.Lost :=
  hl.imp h.dropped h.abandoned

/-- The four outcomes of a poll: an item, the abandonment, the end, and
nothing yet. -/
theorem pollNext_cases (c : Consumer Batch) (closed : Bool) :
    (∃ item queue, c.queue = item :: queue ∧
        c.pollNext closed =
          { c with queue := queue, observed := c.observed ++ [item] }) ∨
      (c.queue = [] ∧ closed = true ∧ c.abandonmentReported = false ∧
        c.pollNext closed =
          { c with
            abandonmentReported := true
            observed := c.observed ++ [.error abandonmentError] }) ∨
      (c.queue = [] ∧ closed = true ∧
        (c.abandoned = true → c.abandonmentReported = true) ∧
        c.pollNext closed = { c with ended := true }) ∨
      c.pollNext closed = c := by
  unfold pollNext
  split
  · rename_i item queue hqueue
    exact Or.inl ⟨item, queue, hqueue, rfl⟩
  · rename_i hqueue
    right
    split
    · rename_i hclosed
      split
      · rename_i hreport
        simp only [Bool.and_eq_true, Bool.not_eq_true'] at hreport
        exact Or.inl ⟨hqueue, hclosed, hreport.2, rfl⟩
      · rename_i hreport
        refine Or.inr (Or.inl ⟨hqueue, hclosed, ?_, rfl⟩)
        simpa using hreport
    · exact Or.inr (Or.inr rfl)

theorem grows_pollNext (c : Consumer Batch) (closed : Bool) :
    Grows c (c.pollNext closed) := by
  rcases c.pollNext_cases closed with ⟨item, queue, hqueue, heq⟩ |
    ⟨hqueue, -, hnot, heq⟩ | ⟨-, -, -, heq⟩ | heq
  · rw [heq]
    refine ⟨fun h => h, fun h => h, fun items h => ?_⟩
    simpa [Holds, reports, hqueue] using h
  · rw [heq]
    refine ⟨fun h => h, fun h => h, fun items h => ?_⟩
    simpa [Holds, reports, hqueue, hnot] using h
  · rw [heq]
    exact ⟨fun h => h, fun h => h, fun _ h => h⟩
  · rw [heq]
    exact Grows.refl c

theorem grows_drop (c : Consumer Batch) :
    Grows c { c with dropped := true } :=
  ⟨fun _ => rfl, fun h => h, fun _ h => h⟩

theorem grows_abandon (c : Consumer Batch) :
    Grows c { c with abandoned := true } :=
  ⟨fun h => h, fun _ => rfl, fun _ h => h⟩

/-- Queueing the next item serves one item more. -/
theorem Holds.push
    {c : Consumer Batch} {source : List (DFResult Batch)} {k : ℕ}
    {item : DFResult Batch} (h : c.Holds (copies source k))
    (hitem : source[k]? = some item)
    (hreported : c.abandonmentReported = false) :
    Holds { c with queue := c.queue ++ [toSend item] }
      (copies source (k + 1)) := by
  have hold : c.observed ++ c.queue = copies source k := by
    simpa [Holds, reports, hreported] using h
  rw [copies_succ hitem]
  simp only [Holds, reports, hreported]
  rw [← List.append_assoc, hold]
  simp

/-- What was observed is the beginning of what was sent, followed by the
error if the abandonment was reported. -/
theorem Holds.observed_eq
    {c : Consumer Batch} {source : List (DFResult Batch)} {k : ℕ}
    (h : c.Holds (copies source k))
    (hqueue : c.abandonmentReported = true → c.queue = []) :
    ∃ m ≤ k, c.observed = copies source m ++ c.reports := by
  by_cases hreported : c.abandonmentReported = true
  · refine ⟨k, le_refl k, ?_⟩
    simpa [Holds, hqueue hreported] using h
  · have hall : c.observed ++ c.queue = copies source k := by
      simpa [Holds, reports, hreported] using h
    refine ⟨min k c.observed.length, min_le_left _ _, ?_⟩
    have htake : c.observed = (copies source k).take c.observed.length := by
      rw [← hall, List.take_left]
    rw [reports, if_neg hreported, List.append_nil]
    conv_lhs => rw [htake]
    simp only [copies, List.map_take, List.take_take, min_comm]

end Consumer

/-! ## The invariant -/

/-- What the result of a send says of its consumer. -/
def ResultInv (source : List (DFResult Batch)) (taken : ℕ)
    (c : Consumer Batch) : Option SendState → Prop
  | some (.done (.ok _)) => c.Served source taken
  | some (.done (.error .closed)) => c.dropped = true
  | some (.done (.error .stalled)) => True
  | _ => False

/-- A send under way: the consumer has the items before. -/
def SendInv (source : List (DFResult Batch)) (k : ℕ) (c : Consumer Batch)
    (send : Option SendState) : Prop :=
  match send with
  | some (.retrying _) => c.Served source k
  | send => ResultInv source (k + 1) c send

theorem ResultInv.mono
    {source : List (DFResult Batch)} {taken : ℕ} {c c' : Consumer Batch}
    {send : Option SendState} (h : ResultInv source taken c send)
    (hgrows : c.Grows c') : ResultInv source taken c' send := by
  unfold ResultInv at h ⊢
  split at h
  · exact hgrows.served h
  · exact hgrows.dropped h
  · trivial
  · exact h

theorem SendInv.mono
    {source : List (DFResult Batch)} {k : ℕ} {c c' : Consumer Batch}
    {send : Option SendState} (h : SendInv source k c send)
    (hgrows : c.Grows c') : SendInv source k c' send := by
  unfold SendInv at h ⊢
  split at h
  · exact hgrows.served h
  · exact h.mono hgrows

theorem SendInv.resultInv
    {source : List (DFResult Batch)} {k : ℕ} {c : Consumer Batch}
    {send : Option SendState} (h : SendInv source k c send)
    (hdone : BroadcastRun.isRetrying send = false) :
    ResultInv source (k + 1) c send := by
  unfold SendInv at h
  split at h
  · simp [BroadcastRun.isRetrying] at hdone
  · exact h

namespace BroadcastRun

/-- What each phase of the driver knows of the consumers. -/
def PhaseInv (source : List (DFResult Batch)) (s : BroadcastRun n Batch) :
    Phase n Batch → Prop
  | .top | .awaiting =>
      s.held = [] ∧
        (∀ i ∈ s.live, (s.consumers i).Served source s.taken) ∧
        ∀ i ∉ s.live, (s.consumers i).Lost
  | .sending item sends =>
      s.held = s.live ∧
        (∃ k, s.taken = k + 1 ∧ source[k]? = some item ∧
          ∀ i ∈ s.live, SendInv source k (s.consumers i) (sends i)) ∧
        (∀ i ∉ s.live, sends i = none) ∧
        ∀ i ∉ s.live, (s.consumers i).Lost
  | .reporting sends rest failed =>
      s.held = s.live ∧
        (∀ i ∈ rest, ResultInv source s.taken (s.consumers i) (sends i)) ∧
        (∀ i ∈ s.live, i ∈ rest ∨ i ∈ failed ∨
          (s.consumers i).Served source s.taken) ∧
        (∀ i ∈ rest, i ∈ s.live) ∧
        (∀ i ∈ failed, (s.consumers i).Lost) ∧
        ∀ i ∉ s.live, (s.consumers i).Lost
  | .releasing =>
      (∀ i ∈ s.live, (s.consumers i).Served source s.taken) ∧
        ∀ i ∉ s.live, (s.consumers i).Lost
  | .finished =>
      s.held = [] ∧ s.live = [] ∧ s.taken = source.length ∧
        ∀ i, (s.consumers i).Lost ∨ (s.consumers i).Served source s.taken

structure Inv (source : List (DFResult Batch)) (s : BroadcastRun n Batch) :
    Prop where
  running : s.stopped = false
  taken_le : s.taken ≤ source.length
  holds : ∀ i, ∃ k ≤ s.taken, (s.consumers i).Holds (copies source k)
  reported : ∀ i, (s.consumers i).abandonmentReported = true →
    (s.consumers i).queue = [] ∧ i ∉ s.live ∧ i ∉ s.held
  ended : ∀ i, (s.consumers i).ended = true →
    (s.consumers i).queue = [] ∧ i ∉ s.live ∧ i ∉ s.held ∧
      ((s.consumers i).abandoned = true →
        (s.consumers i).abandonmentReported = true)
  phase : PhaseInv source s s.phase

theorem inv_start (source : List (DFResult Batch)) :
    Inv source (start n Batch) where
  running := rfl
  taken_le := Nat.zero_le _
  holds := fun _ => ⟨0, le_refl 0, rfl⟩
  reported := by simp [start, Consumer.new]
  ended := by simp [start, Consumer.new]
  phase := by
    refine ⟨rfl, fun i _ => Or.inr rfl, ?_⟩
    intro i hi
    simp [start] at hi

/-- The consumers' own steps. -/
theorem PhaseInv.mono
    {source : List (DFResult Batch)} {s s' : BroadcastRun n Batch}
    {phase : Phase n Batch} (h : PhaseInv source s phase)
    (hlive : s'.live = s.live) (hheld : s'.held = s.held)
    (htaken : s'.taken = s.taken)
    (hgrows : ∀ i, (s.consumers i).Grows (s'.consumers i)) :
    PhaseInv source s' phase := by
  cases phase with
  | top | awaiting =>
      obtain ⟨hempty, hserved, hlost⟩ := h
      simp only [PhaseInv, hlive, hheld, htaken]
      exact ⟨hempty, fun i hi => (hgrows i).served (hserved i hi),
        fun i hi => (hgrows i).lost (hlost i hi)⟩
  | sending item sends =>
      obtain ⟨hsame, ⟨k, hk, hitem, hsends⟩, hnone, hlost⟩ := h
      simp only [PhaseInv, hlive, hheld, htaken]
      exact ⟨hsame, ⟨k, hk, hitem,
          fun i hi => (hsends i hi).mono (hgrows i)⟩, hnone,
        fun i hi => (hgrows i).lost (hlost i hi)⟩
  | reporting sends rest failed =>
      obtain ⟨hsame, hrest, hserved, hsub, hfailed, hlost⟩ := h
      simp only [PhaseInv, hlive, hheld, htaken]
      refine ⟨hsame, fun i hi => (hrest i hi).mono (hgrows i), ?_, hsub,
        fun i hi => (hgrows i).lost (hfailed i hi),
        fun i hi => (hgrows i).lost (hlost i hi)⟩
      intro i hi
      rcases hserved i hi with hr | hf | hs
      · exact Or.inl hr
      · exact Or.inr (Or.inl hf)
      · exact Or.inr (Or.inr ((hgrows i).served hs))
  | releasing =>
      obtain ⟨hserved, hlost⟩ := h
      simp only [PhaseInv, hlive, htaken]
      exact ⟨fun i hi => (hgrows i).served (hserved i hi),
        fun i hi => (hgrows i).lost (hlost i hi)⟩
  | finished =>
      obtain ⟨hempty, hnone, htotal, hall⟩ := h
      simp only [PhaseInv, hlive, hheld, htaken]
      exact ⟨hempty, hnone, htotal,
        fun i => (hall i).imp (hgrows i).lost (hgrows i).served⟩

section Steps

variable {source : List (DFResult Batch)} {s : BroadcastRun n Batch}

/-! ### The driver between items -/

theorem Inv.next
    (h : Inv source s) {item : DFResult Batch} (hphase : s.phase = .awaiting)
    (hitem : source[s.taken]? = some item) :
    Inv source
      { s with
        held := s.live
        taken := s.taken + 1
        phase := .sending item fun i =>
          if i ∈ s.live then some (.retrying none) else none } := by
  have hinv := h.phase
  rw [hphase] at hinv
  obtain ⟨-, hserved, hlost⟩ := hinv
  obtain ⟨hlt, -⟩ := List.getElem?_eq_some_iff.mp hitem
  refine
    { h with
      taken_le := hlt
      holds := ?_
      reported := ?_
      ended := ?_
      phase := ⟨rfl, ⟨s.taken, rfl, hitem, ?_⟩, ?_, hlost⟩ }
  · intro i
    obtain ⟨k, hk, hholds⟩ := h.holds i
    exact ⟨k, Nat.le_succ_of_le hk, hholds⟩
  · intro i hi
    obtain ⟨hqueue, hlive, -⟩ := h.reported i hi
    exact ⟨hqueue, hlive, hlive⟩
  · intro i hi
    obtain ⟨hqueue, hlive, -, himp⟩ := h.ended i hi
    exact ⟨hqueue, hlive, hlive, himp⟩
  · intro i hi
    simp only [hi, if_true]
    exact hserved i hi
  · intro i hi
    exact if_neg hi

theorem Inv.sourceEnds
    (h : Inv source s) (hphase : s.phase = .awaiting)
    (hend : source[s.taken]? = none) :
    Inv source { s with live := [], phase := .finished } := by
  have hinv := h.phase
  rw [hphase] at hinv
  obtain ⟨hheld, hserved, hlost⟩ := hinv
  have htotal : s.taken = source.length :=
    le_antisymm h.taken_le (List.getElem?_eq_none_iff.mp hend)
  refine
    { h with
      reported := ?_
      ended := ?_
      phase := ⟨hheld, rfl, htotal, ?_⟩ }
  · intro i hi
    obtain ⟨hqueue, -, hnot⟩ := h.reported i hi
    exact ⟨hqueue, List.not_mem_nil, hnot⟩
  · intro i hi
    obtain ⟨hqueue, -, hnot, himp⟩ := h.ended i hi
    exact ⟨hqueue, List.not_mem_nil, hnot, himp⟩
  · intro i
    by_cases hi : i ∈ s.live
    · exact Or.inr (hserved i hi)
    · exact Or.inl (hlost i hi)

/-! ### Sending an item -/

/-- A turn of the retry loop leaves the consumer as it is or queues the item,
and its outcome says what the consumer has. -/
theorem trySendBatch_spec
    (capacity now : ℕ) (shutdown : Bool) (fullSince : Option ℕ)
    {k : ℕ} {item : DFResult Batch} {c : Consumer Batch}
    (hserved : c.Served source k) (hitem : source[k]? = some item)
    (hreported : c.abandonmentReported = false) :
    let result := trySendBatch capacity shutdown now item c fullSince
    (result.1 = c ∨
        result.1 = { c with queue := c.queue ++ [toSend item] } ∧
          result.1.Holds (copies source (k + 1))) ∧
      SendInv source k result.1 (some result.2) := by
  unfold trySendBatch trySend
  by_cases hdropped : c.dropped = true
  · simp [hdropped, SendInv, ResultInv]
  · have hholds : c.Holds (copies source k) := by
      rcases hserved with h | h
      · exact absurd h hdropped
      · exact h
    rw [if_neg hdropped]
    by_cases hroom : c.queue.length < capacity
    · have hpushed := hholds.push hitem hreported
      rw [if_pos hroom]
      exact ⟨Or.inr ⟨rfl, hpushed⟩, Or.inr hpushed⟩
    · rw [if_neg hroom]
      simp only
      split
      · exact ⟨Or.inl rfl, trivial⟩
      · exact ⟨Or.inl rfl, Or.inr hholds⟩

theorem Inv.pollSend
    (h : Inv source s) (capacity : ℕ) {item : DFResult Batch}
    {sends : Fin n → Option SendState} {i : Fin n} {fullSince : Option ℕ}
    (hphase : s.phase = .sending item sends)
    (hsend : sends i = some (.retrying fullSince)) :
    Inv source (s.pollSend capacity item sends i fullSince) := by
  have hinv := h.phase
  rw [hphase] at hinv
  obtain ⟨hheld, ⟨k, hk, hitem, hsends⟩, hnone, hlost⟩ := hinv
  have hlive : i ∈ s.live := by
    by_contra hi
    simp [hnone i hi] at hsend
  have hreported : (s.consumers i).abandonmentReported = false := by
    by_contra hne
    exact (h.reported i (by simpa using hne)).2.1 hlive
  have hended : (s.consumers i).ended = false := by
    by_contra hne
    exact (h.ended i (by simpa using hne)).2.1 hlive
  have hserved : (s.consumers i).Served source k := by
    have hi := hsends i hlive
    rw [hsend] at hi
    exact hi
  obtain ⟨hresult, hsent⟩ :=
    trySendBatch_spec capacity s.now s.shutdown fullSince hserved hitem
      hreported
  unfold BroadcastRun.pollSend
  generalize trySendBatch capacity s.shutdown s.now item (s.consumers i)
    fullSince = result at hresult hsent ⊢
  have hother : ∀ j, j ≠ i →
      Function.update s.consumers i result.1 j = s.consumers j :=
    fun j hj => Function.update_of_ne hj _ _
  have hself : Function.update s.consumers i result.1 i = result.1 :=
    Function.update_self _ _ _
  have hflags : result.1.abandonmentReported = false ∧
      result.1.ended = false := by
    rcases hresult with heq | ⟨heq, -⟩
    · rw [heq]
      exact ⟨hreported, hended⟩
    · rw [heq]
      exact ⟨hreported, hended⟩
  refine
    { h with
      holds := ?_
      reported := ?_
      ended := ?_
      phase := ⟨hheld, ⟨k, hk, hitem, ?_⟩, ?_, ?_⟩ }
  · intro j
    by_cases hj : j = i
    · subst hj
      simp only [hself]
      rcases hresult with heq | ⟨-, hholds⟩
      · rw [heq]
        exact h.holds j
      · exact ⟨k + 1, le_of_eq hk.symm, hholds⟩
    · simp only [hother j hj]
      exact h.holds j
  · intro j hj
    by_cases hji : j = i
    · subst hji
      simp [hflags.1] at hj
    · simp only [hother j hji] at hj ⊢
      exact h.reported j hj
  · intro j hj
    by_cases hji : j = i
    · subst hji
      simp [hflags.2] at hj
    · simp only [hother j hji] at hj ⊢
      exact h.ended j hj
  · intro j hj
    by_cases hji : j = i
    · subst hji
      simp only [hself, Function.update_self]
      exact hsent
    · simp only [hother j hji, Function.update_of_ne hji]
      exact hsends j hj
  · intro j hj
    have hji : j ≠ i := fun heq => hj (heq ▸ hlive)
    rw [Function.update_of_ne hji]
    exact hnone j hj
  · intro j hj
    have hji : j ≠ i := fun heq => hj (heq ▸ hlive)
    simp only [hother j hji]
    exact hlost j hj

/-! ### Reporting the results -/

theorem Inv.joined
    (h : Inv source s) {item : DFResult Batch}
    {sends : Fin n → Option SendState}
    (hphase : s.phase = .sending item sends)
    (hdone : ∀ i, isRetrying (sends i) = false) :
    Inv source { s with phase := .reporting sends s.held [] } := by
  have hinv := h.phase
  rw [hphase] at hinv
  obtain ⟨hheld, ⟨k, hk, -, hsends⟩, -, hlost⟩ := hinv
  refine { h with phase := ⟨hheld, ?_, ?_, ?_, by simp, hlost⟩ }
  · intro i hi
    have hresult := (hsends i (hheld ▸ hi)).resultInv (hdone i)
    simp only [hk]
    exact hresult
  · intro i hi
    left
    rw [hheld]
    exact hi
  · intro i hi
    rw [hheld] at hi
    exact hi

theorem PhaseInv.reported
    {sends : Fin n → Option SendState} {i : Fin n}
    {rest failed failed' : List (Fin n)}
    (h : PhaseInv source s (.reporting sends (i :: rest) failed))
    (hi : i ∈ failed' ∨ (s.consumers i).Served source s.taken)
    (hsub : ∀ j ∈ failed, j ∈ failed')
    (hlost : ∀ j ∈ failed', (s.consumers j).Lost) :
    PhaseInv source s (.reporting sends rest failed') := by
  obtain ⟨hheld, hresults, hserved, hrest, -, hgone⟩ := h
  refine ⟨hheld, fun j hj => hresults j (List.mem_cons_of_mem _ hj), ?_,
    fun j hj => hrest j (List.mem_cons_of_mem _ hj), hlost, hgone⟩
  intro j hj
  rcases hserved j hj with hmem | hmem | hs
  · rcases List.mem_cons.mp hmem with rfl | hmem
    · exact Or.inr hi
    · exact Or.inl hmem
  · exact Or.inr (Or.inl (hsub j hmem))
  · exact Or.inr (Or.inr hs)

/-- A failed slot: the consumer is gone or knows that it was abandoned. -/
theorem PhaseInv.reported_failed
    {sends : Fin n → Option SendState} {i : Fin n}
    {rest failed : List (Fin n)}
    (h : PhaseInv source s (.reporting sends (i :: rest) failed))
    (hi : (s.consumers i).Lost) :
    PhaseInv source s (.reporting sends rest (failed ++ [i])) := by
  obtain ⟨-, -, -, -, hfailed, -⟩ := id h
  refine h.reported (Or.inl (by simp)) (fun j hj => by simp [hj]) ?_
  intro j hj
  rcases List.mem_append.mp hj with hold | hnew
  · exact hfailed j hold
  · obtain rfl := List.mem_singleton.mp hnew
    exact hi

/-- A change of one consumer that the others and the driver do not see. -/
theorem Inv.setConsumer
    (h : Inv source s) {i : Fin n} {c : Consumer Batch}
    (hgrows : (s.consumers i).Grows c)
    (hreported : c.abandonmentReported = true →
      c.queue = [] ∧ i ∉ s.live ∧ i ∉ s.held)
    (hended : c.ended = true → c.queue = [] ∧ i ∉ s.live ∧ i ∉ s.held ∧
      (c.abandoned = true → c.abandonmentReported = true)) :
    Inv source (s.setConsumer i c) := by
  have hall : ∀ j, (s.consumers j).Grows
      (Function.update s.consumers i c j) := by
    intro j
    by_cases hj : j = i
    · subst hj
      rw [Function.update_self]
      exact hgrows
    · rw [Function.update_of_ne hj]
      exact Consumer.Grows.refl _
  unfold BroadcastRun.setConsumer
  refine
    { h with
      holds := ?_
      reported := ?_
      ended := ?_
      phase := h.phase.mono rfl rfl rfl hall }
  · intro j
    obtain ⟨k, hk, hholds⟩ := h.holds j
    exact ⟨k, hk, (hall j).holds _ hholds⟩
  · intro j hj
    by_cases hji : j = i
    · subst hji
      simp only [Function.update_self] at hj ⊢
      exact hreported hj
    · simp only [Function.update_of_ne hji] at hj ⊢
      exact h.reported j hj
  · intro j hj
    by_cases hji : j = i
    · subst hji
      simp only [Function.update_self] at hj ⊢
      exact hended hj
    · simp only [Function.update_of_ne hji] at hj ⊢
      exact h.ended j hj

theorem Inv.report
    (h : Inv source s) {sends : Fin n → Option SendState} {i : Fin n}
    {rest failed : List (Fin n)}
    (hphase : s.phase = .reporting sends (i :: rest) failed) :
    Inv source (s.report sends i rest failed) := by
  have hinv := h.phase
  rw [hphase] at hinv
  obtain ⟨-, hresults, -, hsub, hfailed, -⟩ := id hinv
  have hlive : i ∈ s.live := hsub i List.mem_cons_self
  have hresult := hresults i List.mem_cons_self
  unfold BroadcastRun.report
  split
  · rename_i heq
    rw [heq] at hresult
    exact { h with phase := hinv.reported_failed (Or.inl hresult) }
  · -- the flag is set while the channel is still open
    have habandoned : Inv source
        (s.setConsumer i { s.consumers i with abandoned := true }) := by
      apply h.setConsumer (Consumer.grows_abandon _)
      · intro hr
        exact h.reported i hr
      · intro he
        exact absurd hlive (h.ended i he).2.1
    have hphase' := habandoned.phase
    change PhaseInv source _ s.phase at hphase'
    rw [hphase] at hphase'
    refine { habandoned with phase := hphase'.reported_failed (Or.inr ?_) }
    simp [BroadcastRun.setConsumer]
  · rename_i hclosed hstalled
    have hserved : (s.consumers i).Served source s.taken := by
      unfold ResultInv at hresult
      split at hresult
      · exact hresult
      · rename_i heq
        exact absurd heq hclosed
      · rename_i heq
        exact absurd heq hstalled
      · exact hresult.elim
    exact
      { h with
        phase := hinv.reported (Or.inr hserved) (fun _ hj => hj) hfailed }

theorem Inv.removeFailed
    (h : Inv source s) {sends : Fin n → Option SendState}
    {failed : List (Fin n)} (hphase : s.phase = .reporting sends [] failed) :
    Inv source
      { s with
        live := s.live.filter fun i => decide (i ∉ failed)
        phase := .releasing } := by
  have hinv := h.phase
  rw [hphase] at hinv
  obtain ⟨-, -, hserved, -, hfailed, hlost⟩ := hinv
  have hfilter : ∀ i, i ∉ s.live →
      i ∉ s.live.filter fun i => decide (i ∉ failed) :=
    fun i hi hmem => hi (List.mem_of_mem_filter hmem)
  refine { h with reported := ?_, ended := ?_, phase := ⟨?_, ?_⟩ }
  · intro i hi
    obtain ⟨hqueue, hlive, hheld⟩ := h.reported i hi
    exact ⟨hqueue, hfilter i hlive, hheld⟩
  · intro i hi
    obtain ⟨hqueue, hlive, hheld, himp⟩ := h.ended i hi
    exact ⟨hqueue, hfilter i hlive, hheld, himp⟩
  · intro i hi
    obtain ⟨hlive, hnot⟩ := List.mem_filter.mp hi
    rcases hserved i hlive with hmem | hmem | hs
    · exact absurd hmem List.not_mem_nil
    · simp [hmem] at hnot
    · exact hs
  · intro i hi
    by_cases hlive : i ∈ s.live
    · have hmem : i ∈ failed := by
        by_contra hnot
        exact hi (List.mem_filter.mpr ⟨hlive, by simpa using hnot⟩)
      exact hfailed i hmem
    · exact hlost i hlive

theorem Inv.release
    (h : Inv source s) (hphase : s.phase = .releasing) :
    Inv source { s with held := [], phase := .top } := by
  have hinv := h.phase
  rw [hphase] at hinv
  obtain ⟨hserved, hlost⟩ := hinv
  refine
    { h with
      reported := ?_
      ended := ?_
      phase := ⟨rfl, hserved, hlost⟩ }
  · intro i hi
    obtain ⟨hqueue, hlive, -⟩ := h.reported i hi
    exact ⟨hqueue, hlive, List.not_mem_nil⟩
  · intro i hi
    obtain ⟨hqueue, hlive, -, himp⟩ := h.ended i hi
    exact ⟨hqueue, hlive, List.not_mem_nil, himp⟩

/-! ### The consumers -/

theorem Inv.poll (h : Inv source s) (i : Fin n) :
    Inv source
      (s.setConsumer i ((s.consumers i).pollNext (s.closed i))) := by
  have hclosed : s.closed i = true → i ∉ s.live ∧ i ∉ s.held := by
    simp [closed]
  have hcases := (s.consumers i).pollNext_cases (s.closed i)
  apply h.setConsumer (Consumer.grows_pollNext _ _)
  · intro hr
    rcases hcases with ⟨item, queue, hqueue, heq⟩ | ⟨hqueue, hc, -, heq⟩ |
      ⟨hqueue, hc, -, heq⟩ | heq
    · rw [heq] at hr
      have hempty := (h.reported i hr).1
      simp [hqueue] at hempty
    · rw [heq]
      exact ⟨hqueue, hclosed hc⟩
    · rw [heq]
      exact ⟨hqueue, hclosed hc⟩
    · rw [heq] at hr ⊢
      exact h.reported i hr
  · intro he
    rcases hcases with ⟨item, queue, hqueue, heq⟩ | ⟨hqueue, hc, -, heq⟩ |
      ⟨hqueue, hc, himp, heq⟩ | heq
    · rw [heq] at he
      have hempty := (h.ended i he).1
      simp [hqueue] at hempty
    · obtain ⟨hlive, hheld⟩ := hclosed hc
      rw [heq]
      exact ⟨hqueue, hlive, hheld, fun _ => rfl⟩
    · obtain ⟨hlive, hheld⟩ := hclosed hc
      rw [heq]
      exact ⟨hqueue, hlive, hheld, himp⟩
    · rw [heq] at he ⊢
      exact h.ended i he

theorem Inv.dropReceiver (h : Inv source s) (i : Fin n) :
    Inv source (s.setConsumer i { s.consumers i with dropped := true }) :=
  h.setConsumer (Consumer.grows_drop _) (h.reported i) (h.ended i)

end Steps

theorem inv_step
    {source : List (DFResult Batch)} (capacity : ℕ)
    (s : BroadcastRun n Batch) (action : Action n)
    (s' : BroadcastRun n Batch) (h : Inv source s) (hstop : action ≠ .stop)
    (hstep : step capacity source s action = some s') : Inv source s' := by
  cases action with
  | checkStopped =>
      simp only [step] at hstep
      split at hstep
      · rename_i hphase
        split at hstep
        · rename_i hstopped
          simp [h.running] at hstopped
        · obtain rfl := Option.some.inj hstep
          have hinv := h.phase
          rw [hphase] at hinv
          exact { h with phase := hinv }
      · simp at hstep
  | next =>
      simp only [step] at hstep
      split at hstep
      · rename_i item hphase hitem
        obtain rfl := Option.some.inj hstep
        exact h.next hphase hitem
      · simp at hstep
  | sourceEnds =>
      simp only [step] at hstep
      split at hstep
      · rename_i hphase hend
        obtain rfl := Option.some.inj hstep
        exact h.sourceEnds hphase hend
      · simp at hstep
  | pollSend i =>
      simp only [step] at hstep
      split at hstep
      · rename_i item sends hphase
        split at hstep
        · rename_i fullSince hsend
          obtain rfl := Option.some.inj hstep
          exact h.pollSend capacity hphase hsend
        · simp at hstep
      · simp at hstep
  | joined =>
      simp only [step] at hstep
      split at hstep
      · rename_i item sends hphase
        split at hstep
        · rename_i hdone
          obtain rfl := Option.some.inj hstep
          exact h.joined hphase hdone
        · simp at hstep
      · simp at hstep
  | report =>
      simp only [step] at hstep
      split at hstep
      · rename_i sends i rest failed hphase
        obtain rfl := Option.some.inj hstep
        exact h.report hphase
      · simp at hstep
  | removeFailed =>
      simp only [step] at hstep
      split at hstep
      · rename_i sends failed hphase
        obtain rfl := Option.some.inj hstep
        exact h.removeFailed hphase
      · simp at hstep
  | release =>
      simp only [step] at hstep
      split at hstep
      · rename_i hphase
        obtain rfl := Option.some.inj hstep
        exact h.release hphase
      · simp at hstep
  | poll i =>
      simp only [step] at hstep
      split at hstep
      · simp at hstep
      · obtain rfl := Option.some.inj hstep
        exact h.poll i
  | dropReceiver i =>
      obtain rfl := Option.some.inj hstep
      exact h.dropReceiver i
  | requestShutdown =>
      obtain rfl := Option.some.inj hstep
      have hgrows : ∀ i, (s.consumers i).Grows (s.consumers i) :=
        fun _ => Consumer.Grows.refl _
      exact { h with phase := h.phase.mono rfl rfl rfl hgrows }
  | tick ms =>
      obtain rfl := Option.some.inj hstep
      have hgrows : ∀ i, (s.consumers i).Grows (s.consumers i) :=
        fun _ => Consumer.Grows.refl _
      exact { h with phase := h.phase.mono rfl rfl rfl hgrows }
  | stop => exact absurd rfl hstop

/-! ## Whole runs -/

/-- A consumer that ended, was not dropped and was not told of an abandonment
was sent the whole source. -/
theorem Inv.served_of_ended
    {source : List (DFResult Batch)} {s : BroadcastRun n Batch}
    (h : Inv source s) {i : Fin n}
    (hended : (s.consumers i).ended = true)
    (hdropped : (s.consumers i).dropped = false)
    (hreported : (s.consumers i).abandonmentReported = false) :
    s.taken = source.length ∧
      (s.consumers i).Holds (copies source s.taken) := by
  obtain ⟨-, hlive, -, himp⟩ := h.ended i hended
  have hlost : ¬ (s.consumers i).Lost := by
    rintro (hd | ha)
    · simp [hdropped] at hd
    · simp [himp ha] at hreported
  have hphase := h.phase
  cases hp : s.phase with
  | top | awaiting =>
      rw [hp] at hphase
      exact absurd (hphase.2.2 i hlive) hlost
  | sending item sends =>
      rw [hp] at hphase
      exact absurd (hphase.2.2.2 i hlive) hlost
  | reporting sends rest failed =>
      rw [hp] at hphase
      exact absurd (hphase.2.2.2.2.2 i hlive) hlost
  | releasing =>
      rw [hp] at hphase
      exact absurd (hphase.2 i hlive) hlost
  | finished =>
      rw [hp] at hphase
      obtain ⟨-, -, htotal, hall⟩ := hphase
      refine ⟨htotal, ?_⟩
      rcases hall i with hl | hd | hholds
      · exact absurd hl hlost
      · simp [hdropped] at hd
      · exact hholds

/-- In every run without a stop, a consumer observes the copies of a first
part of the source in order, followed by at most the error of its
abandonment; and if its stream ended without that error and its receiver was
not dropped, it observed all of them. -/
theorem broadcast_never_ends_over_gap
    (capacity : ℕ) (source : List (DFResult Batch))
    (actions : List (Action n)) (s : BroadcastRun n Batch)
    (hstop : ∀ action ∈ actions, action ≠ .stop)
    (hrun : Transition.run (step capacity source) (start n Batch) actions =
      some s) (i : Fin n) :
    (∃ k ≤ source.length,
      (s.consumers i).observed =
        (source.take k).map toSend ++
          if (s.consumers i).abandonmentReported then
            [.error abandonmentError]
          else []) ∧
      ((s.consumers i).ended = true → (s.consumers i).dropped = false →
        (s.consumers i).abandonmentReported = false →
        (s.consumers i).observed = source.map toSend) := by
  have h : Inv source s :=
    Transition.run_invariant_of_forall (inv_step capacity)
      (inv_start source) hstop hrun
  constructor
  · obtain ⟨k, hk, hholds⟩ := h.holds i
    obtain ⟨m, hm, hobserved⟩ :=
      hholds.observed_eq fun hr => (h.reported i hr).1
    exact ⟨m, le_trans hm (le_trans hk h.taken_le), hobserved⟩
  · intro hended hdropped hreported
    obtain ⟨htotal, hholds⟩ :=
      h.served_of_ended hended hdropped hreported
    have hqueue := (h.ended i hended).1
    rw [← copies_length, ← htotal]
    simpa [Consumer.Holds, Consumer.reports, hqueue, hreported] using hholds

/-- Two consumers with room for one item: the first one stalls through the
shutdown, observes what was queued and then the error, the second one gets
everything. -/
theorem broadcast_never_ends_over_gap_stalled :
    ∃ s : BroadcastRun 2 ℕ,
      Transition.run (step 1 [.ok 7, .ok 8]) (start 2 ℕ)
          [.checkStopped, .next, .pollSend 0, .pollSend 1, .joined, .report,
            .report, .removeFailed, .release, .checkStopped, .poll 1, .next,
            .pollSend 0, .pollSend 1, .requestShutdown, .tick 10000,
            .pollSend 0, .joined, .report, .report, .removeFailed, .release,
            .checkStopped, .sourceEnds, .poll 0, .poll 0, .poll 0, .poll 1,
            .poll 1] = some s ∧
        ((s.consumers 0).observed =
            [.ok 7, .error abandonmentError] ∧
          (s.consumers 1).observed = [.ok 7, .ok 8] ∧
          (s.consumers 1).ended = true ∧
          (s.consumers 1).dropped = false ∧
          (s.consumers 1).abandonmentReported = false) ∧
        ((s.consumers 1).ended = true → (s.consumers 1).dropped = false →
          (s.consumers 1).abandonmentReported = false →
          (s.consumers 1).observed = [.ok 7, .ok 8].map toSend) := by
  refine Exists.imp
    (fun s (h : _ ∧ (s.consumers 0).observed =
          [.ok 7, .error abandonmentError] ∧
        (s.consumers 1).observed = [.ok 7, .ok 8] ∧
        (s.consumers 1).ended = true ∧ (s.consumers 1).dropped = false ∧
        (s.consumers 1).abandonmentReported = false) =>
      ⟨h.1, h.2,
        (broadcast_never_ends_over_gap 1 _ _ s (by simp) h.1 1).2⟩)
    (Transition.exists_run_of_decide (by decide +kernel))

end BroadcastRun

end Broadcast

end Streamling
