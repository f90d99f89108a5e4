import Streamling.Operators.Repartition

/-!
# What a router sends

The router is deterministic: what it sends to an output is a function of its
input stream.  The permutation and the running offsets of a hash split come
down to a filter of the rows, provided that the row numbers survive the cast to
`u32`; both placements then hand every output the rows placed on it, in order,
together with all messages.
-/

namespace Streamling

namespace Repartition

variable {ρ : Type*} {N M : ℕ}

/-! ## The split is a filter -/

/-- The rows of a batch that hash to `output`. -/
def hashedTo (hashRow : ρ → UInt64) (outputPartitions : ℕ)
    (rows : List ρ) (output : ℕ) : List ρ :=
  rows.filter fun row => (hashRow row).toNat % outputPartitions = output

theorem takeRows_flatten (rows : List ρ) (indices : List (List ℕ)) :
    takeRows rows indices.flatten =
      (indices.map (takeRows rows)).flatten := by
  induction indices with
  | nil => rfl
  | cons index indices ih =>
      have happend : takeRows rows (index ++ indices.flatten) =
          takeRows rows index ++ takeRows rows indices.flatten :=
        List.filterMap_append
      simp [happend, ih]

/-- Row numbers below `2 ^ 32` are pushed as they are. -/
theorem rowIndices_eq
    (hashRow : ρ → UInt64) (outputPartitions : ℕ) {rows : List ρ}
    (hrows : rows.length ≤ 2 ^ 32) (output : ℕ) :
    rowIndices hashRow outputPartitions rows output =
      (rows.zipIdx.filter fun q =>
        (hashRow q.1).toNat % outputPartitions = output).map Prod.snd := by
  apply List.map_congr_left
  intro q hq
  have hmem : q ∈ rows.zipIdx := (List.mem_filter.mp hq).1
  have hlt : q.2 < rows.length := by
    have := List.snd_lt_add_of_mem_zipIdx hmem
    simpa using this
  exact Nat.mod_eq_of_lt (hlt.trans_le hrows)

theorem takeRows_rowIndices
    (hashRow : ρ → UInt64) (outputPartitions : ℕ) {rows : List ρ}
    (hrows : rows.length ≤ 2 ^ 32) (output : ℕ) :
    takeRows rows (rowIndices hashRow outputPartitions rows output) =
      hashedTo hashRow outputPartitions rows output := by
  have hget : ∀ q ∈ rows.zipIdx, rows[q.2]? = some q.1 := by
    intro q hq
    exact (List.mem_zipIdx_iff_getElem?.mp hq)
  rw [rowIndices_eq hashRow outputPartitions hrows, takeRows,
    List.filterMap_map]
  have hfst : ((rows.zipIdx.filter fun q =>
      (hashRow q.1).toNat % outputPartitions = output).filterMap
        ((fun k => rows[k]?) ∘ Prod.snd)) =
      (rows.zipIdx.filter fun q =>
        (hashRow q.1).toNat % outputPartitions = output).map Prod.fst := by
    rw [← List.filterMap_eq_map]
    apply List.filterMap_congr
    intro q hq
    exact hget q (List.mem_filter.mp hq).1
  rw [hfst, hashedTo]
  have hzip := List.zipIdx_map_fst 0 rows
  conv_rhs => rw [← hzip, List.filter_map]
  rfl

theorem length_rowIndices
    (hashRow : ρ → UInt64) (outputPartitions : ℕ) (rows : List ρ)
    (output : ℕ) :
    (rowIndices hashRow outputPartitions rows output).length =
      (hashedTo hashRow outputPartitions rows output).length := by
  rw [rowIndices, hashedTo, List.length_map]
  have hzip := List.zipIdx_map_fst 0 rows
  conv_rhs => rw [← hzip, List.filter_map, List.length_map]
  rfl

/-- Cutting a concatenation at the lengths of its parts gives the parts
back. -/
theorem sliceOutputs_eq
    {α : Type*} (messages : List CheckpointMessage)
    (index : α → List ℕ) (part : α → List ρ)
    (hlength : ∀ a, (index a).length = (part a).length)
    (before : List ρ) (outputs : List α) :
    sliceOutputs (before ++ (outputs.map part).flatten) messages
        before.length (outputs.map index) =
      outputs.map fun a =>
        if part a = [] then none else some ⟨part a, messages⟩ := by
  induction outputs generalizing before with
  | nil => rfl
  | cons a outputs ih =>
      have hrest := ih (before ++ part a)
      rw [List.length_append, ← hlength a, List.append_assoc] at hrest
      simp only [List.map_cons, List.flatten_cons, sliceOutputs, hrest]
      have hzero : (index a).isEmpty = true ↔ part a = [] := by
        rw [List.isEmpty_iff_length_eq_zero, hlength a,
          List.length_eq_zero_iff]
      congr 1
      by_cases hpart : part a = []
      · rw [if_pos (hzero.mpr hpart), if_pos hpart]
      · rw [if_neg (fun h => hpart (hzero.mp h)), if_neg hpart]
        simp [hlength a]

/-- A hash split gives each output the rows that hash to it, in their
order. -/
theorem splitBatchByHash_eq
    (hashRow : ρ → UInt64) (outputPartitions : ℕ) (batch : RecordBatch ρ)
    (hrows : batch.rows.length ≤ 2 ^ 32) :
    splitBatchByHash hashRow outputPartitions batch =
      (List.range outputPartitions).map fun output =>
        if hashedTo hashRow outputPartitions batch.rows output = [] then
          none
        else
          some ⟨hashedTo hashRow outputPartitions batch.rows output,
            batch.messages⟩ := by
  have hparts : ((List.range outputPartitions).map
      (rowIndices hashRow outputPartitions batch.rows)).map
        (takeRows batch.rows) =
      (List.range outputPartitions).map
        (hashedTo hashRow outputPartitions batch.rows) := by
    rw [List.map_map]
    apply List.map_congr_left
    intro output _
    exact takeRows_rowIndices hashRow outputPartitions hrows output
  rw [splitBatchByHash, takeRows_flatten, hparts]
  exact sliceOutputs_eq batch.messages _ _
    (length_rowIndices hashRow outputPartitions batch.rows) []
    (List.range outputPartitions)

/-! ## What one batch sends to one output -/

/-- The rows of a batch placed on `output`, when the round robin stands at
`nextOutput`. -/
def placedRows (exchange : Exchange ρ) (outputPartitions nextOutput : ℕ)
    (batch : RecordBatch ρ) (output : ℕ) : List ρ :=
  match exchange with
  | .hash hashRow => hashedTo hashRow outputPartitions batch.rows output
  | .roundRobin => if output = nextOutput then batch.rows else []

/-- The row numbers of the batch survive the cast to `u32` in a hash
split. -/
def Fits (exchange : Exchange ρ) (batch : RecordBatch ρ) : Prop :=
  match exchange with
  | .hash _ => batch.rows.length ≤ 2 ^ 32
  | .roundRobin => True

/-- An output is sent the rows placed on it with all messages of the batch,
or nothing if there is nothing to send. -/
def share (exchange : Exchange ρ) (outputPartitions nextOutput : ℕ)
    (batch : RecordBatch ρ) (output : ℕ) : Option (RecordBatch ρ) :=
  let rows := placedRows exchange outputPartitions nextOutput batch output
  if batch.rows ≠ [] ∧ rows = [] ∧ batch.messages = [] then none
  else some ⟨rows, batch.messages⟩

theorem placedRows_of_rows_nil
    {exchange : Exchange ρ} {outputPartitions nextOutput : ℕ}
    {batch : RecordBatch ρ} (h : batch.rows = []) (output : ℕ) :
    placedRows exchange outputPartitions nextOutput batch output = [] := by
  cases exchange with
  | hash hashRow => simp [placedRows, hashedTo, h]
  | roundRobin => simp [placedRows, h]

theorem reattach_eq_share
    {exchange : Exchange ρ} {outputPartitions nextOutput : ℕ}
    {batch : RecordBatch ρ} {output : ℕ} {sub : Option (RecordBatch ρ)}
    (hbatch : batch.rows ≠ [])
    (hsub : sub =
      if placedRows exchange outputPartitions nextOutput batch output = []
        then none
      else some ⟨placedRows exchange outputPartitions nextOutput batch
        output, batch.messages⟩) :
    reattach batch.messages sub =
      share exchange outputPartitions nextOutput batch output := by
  subst hsub
  by_cases hplaced :
      placedRows exchange outputPartitions nextOutput batch output = []
  · by_cases hmessages : batch.messages = []
    · simp [share, reattach, hplaced, hmessages, hbatch]
    · simp [share, reattach, hplaced, hmessages]
  · by_cases hmessages : batch.messages = []
    · simp [share, reattach, hplaced, hmessages]
    · simp [share, reattach, hplaced, hmessages]

/-- Every output is sent its share. -/
theorem routeBatch_eq
    {exchange : Exchange ρ} {batch : RecordBatch ρ}
    (hfits : Fits exchange batch) (outputPartitions nextOutput : ℕ) :
    (routeBatch exchange outputPartitions nextOutput batch).1 =
      (List.range outputPartitions).map
        (share exchange outputPartitions nextOutput batch) := by
  by_cases hbatch : batch.rows = []
  · have hshare (output : ℕ) :
        share exchange outputPartitions nextOutput batch output =
          some batch := by
      simp only [share, placedRows_of_rows_nil hbatch, hbatch]
      simp [← hbatch]
    have hempty : batch.rows.isEmpty = true := by simp [hbatch]
    have hall : share exchange outputPartitions nextOutput batch =
        fun _ => some batch := funext hshare
    simp [routeBatch, hempty, hall]
  · have hempty : ¬ batch.rows.isEmpty = true := by simpa using hbatch
    unfold routeBatch
    rw [if_neg hempty]
    cases exchange with
    | hash hashRow =>
        simp only [splitBatchByHash_eq hashRow outputPartitions batch hfits,
          List.map_map]
        apply List.map_congr_left
        intro output _
        exact reattach_eq_share hbatch rfl
    | roundRobin =>
        simp only [List.map_map]
        apply List.map_congr_left
        intro output _
        apply reattach_eq_share hbatch
        by_cases houtput : output = nextOutput
        · simp [placedRows, houtput, hbatch]
        · simp [placedRows, houtput]

/-- The sends to one output, in order. -/
def sentTo (j : Fin M) (sends : List (Fin M × RecordBatch ρ)) :
    List (RecordBatch ρ) :=
  (sends.filter fun q => q.1 = j).map Prod.snd

theorem sentTo_filterMap
    (f : Fin M → Option (RecordBatch ρ)) (j : Fin M)
    {outputs : List (Fin M)} (hnodup : outputs.Nodup) :
    sentTo j (outputs.filterMap fun k => (f k).map (Prod.mk k)) =
      if j ∈ outputs then (f j).toList else [] := by
  induction outputs with
  | nil => rfl
  | cons k outputs ih =>
      obtain ⟨hk, hrest⟩ := List.nodup_cons.mp hnodup
      have htail := ih hrest
      rw [sentTo] at htail ⊢
      cases hf : f k with
      | none =>
          simp only [List.filterMap_cons, hf, Option.map_none, htail,
            List.mem_cons]
          by_cases hjk : j = k
          · simp [hjk, hk, hf]
          · simp [hjk]
      | some batch =>
          simp only [List.filterMap_cons, hf, Option.map_some,
            List.filter_cons, List.mem_cons]
          by_cases hjk : j = k
          · subst hjk
            simp [htail, hk, hf]
          · simp [Ne.symm hjk, htail, hjk]

theorem sentTo_sendsOf (f : ℕ → Option (RecordBatch ρ)) (j : Fin M) :
    sentTo j (sendsOf M ((List.range M).map f)) = (f j).toList := by
  have hzip : (List.finRange M).zip ((List.range M).map f) =
      (List.finRange M).map fun k : Fin M => (k, f k) := by
    have hrange : (List.range M).map f =
        (List.finRange M).map fun k : Fin M => f k := by
      rw [← List.map_coe_finRange_eq_range, List.map_map]
      rfl
    have hself := List.zip_map' (f := fun k : Fin M => k)
      (g := fun k : Fin M => f k) (l := List.finRange M)
    rw [hrange]
    simpa using hself
  rw [sendsOf, hzip, List.filterMap_map]
  have hnodup := List.nodup_finRange M
  have hsent := sentTo_filterMap (fun k => f k) j hnodup
  simpa using hsent

/-! ## What a whole stream sends to one output -/

/-- What the router sends to output `j` for a stream. -/
def routed (exchange : Exchange ρ) :
    ℕ → List (RecordBatch ρ) → Fin M → List (RecordBatch ρ)
  | _, [], _ => []
  | nextOutput, batch :: stream, j =>
      sentTo j (sendsOf M (routeBatch exchange M nextOutput batch).1) ++
        routed exchange (routeBatch exchange M nextOutput batch).2 stream j

/-- The rows of a stream placed on `output`, in their order. -/
def placed (exchange : Exchange ρ) (outputPartitions : ℕ) :
    ℕ → List (RecordBatch ρ) → ℕ → List ρ
  | _, [], _ => []
  | nextOutput, batch :: stream, output =>
      placedRows exchange outputPartitions nextOutput batch output ++
        placed exchange outputPartitions
          (routeBatch exchange outputPartitions nextOutput batch).2 stream
          output

/-- All rows of a stream. -/
def rowsOf (stream : List (RecordBatch ρ)) : List ρ :=
  stream.flatMap RecordBatch.rows

/-- The epochs of the markers on a stream. -/
def epochsOf (stream : List (RecordBatch ρ)) : List CheckpointEpoch :=
  stream.flatMap fun batch => markerEpochs batch.messages

/-- The batches of a stream up to the first that carries the marker of
`epoch`. -/
def throughMarker (epoch : CheckpointEpoch) :
    List (RecordBatch ρ) → List (RecordBatch ρ)
  | [] => []
  | batch :: stream =>
      if batch.carries epoch then [batch]
      else batch :: throughMarker epoch stream

/-- All batches of the stream fit. -/
def AllFit (exchange : Exchange ρ) (stream : List (RecordBatch ρ)) : Prop :=
  ∀ batch ∈ stream, Fits exchange batch

theorem routed_cons
    {exchange : Exchange ρ} {batch : RecordBatch ρ}
    (hfits : Fits exchange batch) (nextOutput : ℕ)
    (stream : List (RecordBatch ρ)) (j : Fin M) :
    routed exchange nextOutput (batch :: stream) j =
      (share exchange M nextOutput batch j).toList ++
        routed exchange (routeBatch exchange M nextOutput batch).2 stream
          j := by
  rw [routed, routeBatch_eq hfits, sentTo_sendsOf]

theorem share_cases
    (exchange : Exchange ρ) (outputPartitions nextOutput : ℕ)
    (batch : RecordBatch ρ) (output : ℕ) :
    (share exchange outputPartitions nextOutput batch output = none ∧
      placedRows exchange outputPartitions nextOutput batch output = [] ∧
      batch.messages = []) ∨
    share exchange outputPartitions nextOutput batch output =
      some ⟨placedRows exchange outputPartitions nextOutput batch output,
        batch.messages⟩ := by
  simp only [share]
  split
  next h => exact Or.inl ⟨rfl, h.2.1, h.2.2⟩
  next h => exact Or.inr rfl

theorem rowsOf_routed
    {exchange : Exchange ρ} {stream : List (RecordBatch ρ)}
    (hfit : AllFit exchange stream) (nextOutput : ℕ) (j : Fin M) :
    rowsOf (routed exchange nextOutput stream j) =
      placed exchange M nextOutput stream j := by
  induction stream generalizing nextOutput with
  | nil => rfl
  | cons batch stream ih =>
      obtain ⟨hbatch, hrest⟩ := List.forall_mem_cons.mp hfit
      rw [routed_cons hbatch, placed, ← ih hrest, rowsOf, rowsOf,
        List.flatMap_append]
      congr 1
      rcases share_cases exchange M nextOutput batch j with
        ⟨hnone, hrows, -⟩ | hsome
      · simp [hnone, hrows]
      · simp [hsome]

theorem epochsOf_routed
    {exchange : Exchange ρ} {stream : List (RecordBatch ρ)}
    (hfit : AllFit exchange stream) (nextOutput : ℕ) (j : Fin M) :
    epochsOf (routed exchange nextOutput stream j) = epochsOf stream := by
  induction stream generalizing nextOutput with
  | nil => rfl
  | cons batch stream ih =>
      obtain ⟨hbatch, hrest⟩ := List.forall_mem_cons.mp hfit
      have htail := ih hrest (routeBatch exchange M nextOutput batch).2
      rw [epochsOf] at htail ⊢
      rw [routed_cons hbatch, List.flatMap_append, htail, epochsOf,
        epochsOf, List.flatMap_cons]
      congr 1
      rcases share_cases exchange M nextOutput batch j with
        ⟨hnone, -, hmessages⟩ | hsome
      · simp [hnone, hmessages]
      · simp [hsome]

/-- Once the marker of `epoch` has come through to an output, so have the rows
placed there that its input emitted up to that marker. -/
theorem placed_throughMarker_prefix_of_mem
    {exchange : Exchange ρ} {stream : List (RecordBatch ρ)}
    (hfit : AllFit exchange stream) {nextOutput : ℕ} {j : Fin M}
    {front rest : List (RecordBatch ρ)}
    (hfront : routed exchange nextOutput stream j = front ++ rest)
    {epoch : CheckpointEpoch} (hepoch : epoch ∈ epochsOf front) :
    placed exchange M nextOutput (throughMarker epoch stream) j <+:
      rowsOf front := by
  induction stream generalizing nextOutput front with
  | nil =>
      have hnil : front = [] := by
        rw [routed] at hfront
        exact (List.append_eq_nil_iff.mp hfront.symm).1
      simp [hnil, epochsOf] at hepoch
  | cons batch stream ih =>
      obtain ⟨hbatch, hrest⟩ := List.forall_mem_cons.mp hfit
      rw [routed_cons hbatch] at hfront
      rcases share_cases exchange M nextOutput batch j with
        ⟨hnone, hrows, hmessages⟩ | hsome
      · have hcarries : batch.carries epoch = false := by
          simp [RecordBatch.carries, hmessages]
        rw [hnone] at hfront
        have hthrough : throughMarker epoch (batch :: stream) =
            batch :: throughMarker epoch stream := by
          simp [throughMarker, hcarries]
        rw [hthrough, placed, hrows]
        exact ih hrest hfront hepoch
      · rw [hsome] at hfront
        cases front with
        | nil => simp [epochsOf] at hepoch
        | cons first front =>
            obtain ⟨rfl, htail⟩ := List.cons.inj hfront
            by_cases hcarries : batch.carries epoch = true
            · simp [throughMarker, hcarries, placed, rowsOf]
            · have hnot : epoch ∉ markerEpochs batch.messages := by
                simpa [RecordBatch.carries] using hcarries
              have hmem : epoch ∈ epochsOf front := by
                simpa [epochsOf, hnot] using hepoch
              have hinit := ih hrest htail hmem
              rw [throughMarker, if_neg hcarries, placed, rowsOf,
                List.flatMap_cons]
              exact (List.prefix_append_right_inj _).mpr hinit

/-! ## The placement partitions the rows -/

theorem placed_hash
    (hashRow : ρ → UInt64) (outputPartitions nextOutput : ℕ)
    (stream : List (RecordBatch ρ)) (output : ℕ) :
    placed (.hash hashRow) outputPartitions nextOutput stream output =
      hashedTo hashRow outputPartitions (rowsOf stream) output := by
  induction stream generalizing nextOutput with
  | nil => rfl
  | cons batch stream ih =>
      have hrows : rowsOf (batch :: stream) = batch.rows ++ rowsOf stream :=
        List.flatMap_cons
      rw [placed, ih, hrows, hashedTo, hashedTo, List.filter_append]
      rfl

theorem flatMap_ite_eq
    {α β : Type*} [DecidableEq α] {a : α} {xs : List α} (hmem : a ∈ xs)
    (hnodup : xs.Nodup) (ys : List β) :
    (xs.flatMap fun x => if x = a then ys else []) = ys := by
  induction xs with
  | nil => simp at hmem
  | cons x xs ih =>
      obtain ⟨hx, hrest⟩ := List.nodup_cons.mp hnodup
      rw [List.flatMap_cons]
      rcases List.mem_cons.mp hmem with rfl | hrestmem
      · have hnone : (xs.flatMap fun x => if x = a then ys else []) = [] := by
          apply List.flatMap_eq_nil_iff.mpr
          intro x hxs
          rw [if_neg]
          rintro rfl
          exact hx hxs
        simp [hnone]
      · have hne : x ≠ a := by
          rintro rfl
          exact hx hrestmem
        simp [hne, ih hrestmem hrest]

/-- Sorting rows by a class below `M` loses none of them. -/
theorem flatMap_filter_perm
    (classOf : ρ → ℕ) (rows : List ρ) (hclass : ∀ row, classOf row < M) :
    ((List.finRange M).flatMap fun j : Fin M =>
      rows.filter fun row => classOf row = j).Perm rows := by
  induction rows with
  | nil => simp
  | cons row rows ih =>
      have hsplit : (fun j : Fin M =>
          (row :: rows).filter fun row => classOf row = j) =
          fun j : Fin M =>
            (if j = ⟨classOf row, hclass row⟩ then [row] else []) ++
              rows.filter fun row => classOf row = j := by
        funext j
        have hiff : classOf row = (j : ℕ) ↔
            j = ⟨classOf row, hclass row⟩ := by
          rw [Fin.ext_iff]
          exact eq_comm
        by_cases hj : classOf row = (j : ℕ)
        · rw [if_pos (hiff.mp hj), List.filter_cons_of_pos (by simpa)]
          rfl
        · rw [if_neg (fun h => hj (hiff.mpr h)),
            List.filter_cons_of_neg (by simpa)]
          rfl
      rw [hsplit]
      refine (List.flatMap_append_perm _ _ _).symm.trans ?_
      rw [flatMap_ite_eq (List.mem_finRange _) (List.nodup_finRange M)]
      exact ih.cons row

/-- Every row is placed on exactly one output. -/
theorem placed_perm
    (exchange : Exchange ρ) (stream : List (RecordBatch ρ)) {nextOutput : ℕ}
    (hnext : nextOutput < M) :
    ((List.finRange M).flatMap fun j : Fin M =>
      placed exchange M nextOutput stream j).Perm (rowsOf stream) := by
  have hpos : 0 < M := by omega
  cases exchange with
  | hash hashRow =>
      have hplaced (j : Fin M) := placed_hash hashRow M nextOutput stream j
      simp only [hplaced, hashedTo]
      apply flatMap_filter_perm fun row => (hashRow row).toNat % M
      intro row
      exact Nat.mod_lt _ hpos
  | roundRobin =>
      induction stream generalizing nextOutput with
      | nil => simp [placed, rowsOf]
      | cons batch stream ih =>
          have hnext' : (routeBatch .roundRobin M nextOutput batch).2 <
              M := by
            simp only [routeBatch]
            split
            · exact hnext
            · exact Nat.mod_lt _ hpos
          have hhead : ((List.finRange M).flatMap fun j : Fin M =>
              placedRows .roundRobin M nextOutput batch j) =
              batch.rows := by
            have hif : (fun j : Fin M =>
                placedRows .roundRobin M nextOutput batch j) =
                fun j => if j = ⟨nextOutput, hnext⟩ then batch.rows
                  else [] := by
              funext j
              simp only [placedRows, Fin.ext_iff]
            rw [hif, flatMap_ite_eq (List.mem_finRange _)
              (List.nodup_finRange M)]
          simp only [placed]
          refine (List.flatMap_append_perm _ _ _).symm.trans ?_
          rw [hhead, rowsOf, List.flatMap_cons]
          exact (ih hnext').append_left batch.rows

end Repartition

end Streamling
