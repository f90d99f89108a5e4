import Mathlib
import Streamling.Operators.RepartitionExchange
import Streamling.Sinks.ParallelSink

/-!
# The write streams of a parallel sink

Whatever a write stream does, what it has written, taken and not read yet is
its input, in order; and the last marker on record is the last one among what
it took.  Every row it has written was taken in by the destination at least
once, unless it was skipped.
-/

namespace Streamling

namespace ParallelSink

open PluginSink (streamEpochs)

variable {ρ : Type}

/-! ## Rows and epochs of batches -/

@[simp] theorem rowsOf_nil : rowsOf ([] : List (RecordBatch ρ)) = [] := rfl

@[simp] theorem rowsOf_append (xs ys : List (RecordBatch ρ)) :
    rowsOf (xs ++ ys) = rowsOf xs ++ rowsOf ys :=
  List.flatMap_append

@[simp] theorem streamEpochs_append (xs ys : List (RecordBatch ρ)) :
    streamEpochs (xs ++ ys) = streamEpochs xs ++ streamEpochs ys :=
  List.flatMap_append

theorem markerEpochs_flatMap (stream : List (RecordBatch ρ)) :
    markerEpochs (stream.flatMap RecordBatch.messages) =
      streamEpochs stream := by
  induction stream with
  | nil => rfl
  | cons batch rest ih =>
      rw [List.flatMap_cons, markerEpochs_append, ih]
      rfl

theorem mem_streamEpochs
    {stream : List (RecordBatch ρ)} {epoch : CheckpointEpoch} :
    epoch ∈ streamEpochs stream ↔
      RecordBatch.Carried epoch stream := by
  simp [streamEpochs, RecordBatch.Carried, RecordBatch.carries]

@[simp] theorem batches_append (xs ys : List (Item ρ)) :
    batches (xs ++ ys) = batches xs ++ batches ys :=
  List.filterMap_append

@[simp] theorem batches_map_ok (stream : List (RecordBatch ρ)) :
    batches (stream.map Except.ok) = stream := by
  simp [batches, List.filterMap_map, Function.comp_def, Except.toOption]

/-- Items that are all batches. -/
theorem eq_map_ok_of_mapM
    {items : List (Item ρ)} {stream : List (RecordBatch ρ)}
    (h : items.mapM Except.toOption = some stream) :
    items = stream.map Except.ok := by
  induction items generalizing stream with
  | nil =>
      obtain rfl : stream = [] := by simpa using h.symm
      rfl
  | cons item items ih =>
      cases item with
      | error e => simp [Except.toOption] at h
      | ok batch =>
          simp only [List.mapM_cons, Except.toOption, Option.pure_def,
            Option.bind_eq_bind, Option.bind_some] at h
          obtain ⟨rest, hrest, hstream⟩ := Option.bind_eq_some_iff.mp h
          obtain rfl := Option.some.inj hstream
          rw [ih hrest, List.map_cons]

/-! ## What a write comes to -/

/-- What a write that does not succeed leaves behind is of its rows. -/
theorem Destination.of_leaves
    [DecidableEq ρ] {destination : Destination ρ} {request rows : List ρ}
    (h : destination.leaves request rows = true) :
    rows ⊆ request ∧ (destination.remote = false → rows = []) := by
  unfold Destination.leaves at h
  split at h
  next hremote =>
    exact ⟨of_decide_eq_true h, fun hlocal => by simp [hremote] at hlocal⟩
  next hremote =>
    rw [List.isEmpty_iff.mp h]
    exact ⟨List.nil_subset _, fun _ => rfl⟩

/-- What a write of `rows` comes to if nothing is lost or made up. -/
structure Accounts (destination : Destination ρ) (rows : List ρ)
    (receipt : Receipt ρ) : Prop where
  complete : (rows : Multiset ρ) ≤ receipt.taken + receipt.skipped
  taken_subset : receipt.taken ⊆ rows
  skipped_le : (receipt.skipped : Multiset ρ) ≤ rows
  skipped_eq_nil : destination.skips = false → receipt.skipped = []
  once : destination.remote = false → receipt.taken = rows

namespace Accounts

variable {destination : Destination ρ}

theorem nil : Accounts destination [] ⟨[], []⟩ where
  complete := le_refl _
  taken_subset := List.Subset.refl _
  skipped_le := le_refl _
  skipped_eq_nil := fun _ => rfl
  once := fun _ => rfl

theorem append
    {xs ys : List ρ} {r q : Receipt ρ} (hr : Accounts destination xs r)
    (hq : Accounts destination ys q) :
    Accounts destination (xs ++ ys)
      ⟨r.taken ++ q.taken, r.skipped ++ q.skipped⟩ where
  complete := by
    have hsum := add_le_add hr.complete hq.complete
    rw [add_add_add_comm] at hsum
    simpa only [Multiset.coe_add] using hsum
  taken_subset := by
    intro row hrow
    rcases List.mem_append.mp hrow with hrow | hrow
    · exact List.mem_append_left _ (hr.taken_subset hrow)
    · exact List.mem_append_right _ (hq.taken_subset hrow)
  skipped_le := by
    simpa only [Multiset.coe_add] using
      add_le_add hr.skipped_le hq.skipped_le
  skipped_eq_nil := by
    intro h
    simp [hr.skipped_eq_nil h, hq.skipped_eq_nil h]
  once := by
    intro h
    simp [hr.once h, hq.once h]

/-- A request that ended well. -/
theorem of_allows
    [DecidableEq ρ] {request : List ρ} {sent : Sent ρ}
    (h : destination.allows request sent = true) :
    Accounts destination request
      ⟨sent.taken request, sent.givenUp request⟩ := by
  obtain ⟨hleaves, hskipped⟩ := Bool.and_eq_true_iff.mp h
  have hretried := Destination.of_leaves hleaves
  have hskips : sent.skipped = true → destination.skips = true := by
    cases destination with
    | http sink =>
        exact fun hs => by simpa [hs, Destination.skips] using hskipped
    | blackhole | memory | clickHouse =>
        exact fun hs => by simp [hs] at hskipped
  have hlocal : destination.remote = false → sent.skipped = false := by
    cases destination with
    | http sink => exact fun hremote => by cases hremote
    | blackhole | memory | clickHouse =>
        exact fun _ => by simpa using hskipped
  cases hs : sent.skipped with
  | true =>
      refine ⟨?_, ?_, ?_, ?_, ?_⟩
      · simp only [Sent.taken, Sent.givenUp, hs, if_true, List.append_nil,
          Multiset.coe_add, Multiset.coe_le]
        exact (List.sublist_append_right _ _).subperm
      · simpa [Sent.taken, hs] using hretried.1
      · simp [Sent.givenUp, hs]
      · intro hnot
        rw [hskips hs] at hnot
        cases hnot
      · intro hremote
        rw [hlocal hremote] at hs
        cases hs
  | false =>
      refine ⟨?_, ?_, ?_, ?_, ?_⟩
      · simp only [Sent.taken, Sent.givenUp, hs, Bool.false_eq_true,
          if_false, Multiset.coe_nil, add_zero, Multiset.coe_le]
        exact (List.sublist_append_right _ _).subperm
      · simpa [Sent.taken, hs] using hretried.1
      · simp [Sent.givenUp, hs]
      · intro _
        simp [Sent.givenUp, hs]
      · intro hremote
        simp [Sent.taken, hs, hretried.2 hremote]

theorem of_forall₂
    [DecidableEq ρ] {requests : List (List ρ)} {sent : List (Sent ρ)}
    (h : List.Forall₂
      (fun request sent => destination.allows request sent = true)
      requests sent) :
    Accounts destination requests.flatten
      ⟨(List.zipWith Sent.taken requests sent).flatten,
        (List.zipWith Sent.givenUp requests sent).flatten⟩ := by
  induction h with
  | nil => exact nil
  | cons hallows _ ih => exact (of_allows hallows).append ih

end Accounts

namespace Destination

variable {destination : Destination ρ}

/-- A batch consists of its requests and of what is dropped. -/
theorem requests_add_dropped
    {rows : List ρ} {sends : List (List ρ)}
    (h : destination.requests rows = some sends) :
    (sends.flatten : Multiset ρ) + destination.dropped rows = rows := by
  cases destination with
  | blackhole | memory =>
      obtain rfl := Option.some.inj h
      simp [dropped]
  | http sink =>
      simp only [requests] at h
      split_ifs at h with hone hempty hcount
      · obtain rfl := Option.some.inj h
        simp [dropped, ← List.flatMap_def]
      · obtain rfl := Option.some.inj h
        simp [dropped, List.isEmpty_iff.mp hempty]
      · obtain rfl := Option.some.inj h
        simp [dropped, flatten_chunks (Nat.pos_of_ne_zero hcount)]
  | clickHouse appendOnlyMode primaryKeys isDelete =>
      cases appendOnlyMode with
      | true =>
          obtain rfl := Option.some.inj h
          by_cases hempty : rows.isEmpty = true
          · simp [dropped, List.isEmpty_iff.mp hempty]
          · simp [dropped, hempty]
      | false =>
          obtain rfl := Option.some.inj h
          have hsplit :
              (rows.filter fun row => !isDelete row : Multiset ρ) +
                rows.filter isDelete = rows := by
            rw [add_comm, Multiset.coe_add, Multiset.coe_eq_coe]
            exact List.filter_append_perm isDelete rows
          by_cases hkeys : primaryKeys.isEmpty = true
          · simpa [dropped, hkeys, List.flatten_filter_not_isEmpty]
              using hsplit
          · simpa [dropped, hkeys, List.flatten_filter_not_isEmpty]
              using hsplit

/-- Only the ClickHouse sink drops rows, and then it counts as skipping. -/
theorem dropped_eq_nil (h : destination.skips = false) (rows : List ρ) :
    destination.dropped rows = [] := by
  cases destination with
  | blackhole | memory | http sink => rfl
  | clickHouse appendOnlyMode primaryKeys isDelete =>
      cases appendOnlyMode with
      | true => rfl
      | false =>
          have hkeys : primaryKeys.isEmpty = false := by
            simpa [skips] using h
          simp [dropped, hkeys]

theorem requests_of_not_remote
    {rows : List ρ} (h : destination.remote = false) :
    destination.requests rows = some [rows] := by
  cases destination with
  | blackhole | memory => rfl
  | http sink | clickHouse => cases h

/-- The requests of batches. -/
theorem flatten_requests
    {stream : List (RecordBatch ρ)} {sends : List (List (List ρ))}
    (h : (stream.mapM fun batch => destination.requests batch.rows) =
      some sends) :
    (sends.flatten.flatten : Multiset ρ) +
        (stream.flatMap fun batch => destination.dropped batch.rows) =
      rowsOf stream ∧
    (destination.remote = false → sends.flatten.flatten = rowsOf stream) := by
  induction stream generalizing sends with
  | nil =>
      obtain rfl : sends = [] := by simpa using h.symm
      simp
  | cons batch rest ih =>
      rw [List.mapM_cons] at h
      obtain ⟨first, hfirst, hmore⟩ := Option.bind_eq_some_iff.mp h
      obtain ⟨more, hrest, hsends⟩ := Option.bind_eq_some_iff.mp hmore
      obtain rfl := Option.some.inj hsends
      obtain ⟨hrows, honce⟩ := ih hrest
      refine ⟨?_, ?_⟩
      · have hbatch := requests_add_dropped hfirst
        have hsum := congrArg₂ (· + ·) hbatch hrows
        simp only [add_add_add_comm _ (_ : Multiset ρ)] at hsum
        simpa [rowsOf] using hsum
      · intro hremote
        rw [requests_of_not_remote hremote] at hfirst
        obtain rfl := Option.some.inj hfirst
        simp [honce hremote, rowsOf]

/-- The write of batches accounts for their rows. -/
theorem accounts_of_receipt
    [DecidableEq ρ] {stream : List (RecordBatch ρ)} {sent : List (Sent ρ)}
    {receipt : Receipt ρ}
    (h : destination.receipt stream sent = some receipt) :
    Accounts destination (rowsOf stream) receipt := by
  unfold Destination.receipt at h
  split at h
  next sends hsends =>
    split at h
    next hallows =>
      obtain rfl := Option.some.inj h
      have hsent := Accounts.of_forall₂ hallows
      obtain ⟨hrows, honce⟩ := flatten_requests hsends
      refine ⟨?_, ?_, ?_, ?_, ?_⟩
      · rw [← hrows, ← Multiset.coe_add, add_left_comm, add_comm]
        exact add_le_add_right hsent.complete _
      · intro row hrow
        have hle : (sends.flatten.flatten : Multiset ρ) ≤ rowsOf stream := by
          rw [← hrows]
          exact Multiset.le_add_right _ _
        exact Multiset.mem_coe.mp
          (Multiset.mem_of_le hle (hsent.taken_subset hrow))
      · rw [← hrows, ← Multiset.coe_add, add_comm]
        exact add_le_add_left hsent.skipped_le _
      · intro hskips
        have hdropped :
            (stream.flatMap fun batch => destination.dropped batch.rows) =
              [] := by
          simp [dropped_eq_nil hskips]
        rw [hdropped]
        exact hsent.skipped_eq_nil hskips
      · intro hremote
        exact (hsent.once hremote).trans (honce hremote)
    · cases h
  · cases h

end Destination

/-! ## The last marker -/

theorem recordMarker_eq
    (stream : List (RecordBatch ρ)) (item : Item ρ) :
    WriteStream.recordMarker (streamEpochs stream).max? item =
      (streamEpochs (stream ++ batches [item])).max? := by
  cases item with
  | error e =>
      have hnone : batches [(Except.error e : Item ρ)] = [] := rfl
      rw [hnone, List.append_nil]
      rfl
  | ok batch =>
      have hbatch : streamEpochs (batches [Except.ok batch]) =
          markerEpochs batch.messages := by
        simp [batches, Except.toOption, streamEpochs]
      rw [streamEpochs_append, hbatch, ← Repartition.laterEpoch_max?]
      rfl

/-! ## What holds of a stream -/

namespace WriteStream

/-- What a stream of some input has done. -/
structure Streaming (destination : Destination ρ) (input : List (Item ρ))
    (x : WriteStream ρ) : Prop where
  taken : x.flushed.map Except.ok ++ x.ready ++ x.channel ++
    x.forwarding.toList ++ x.upstream = input
  lastMarker : x.lastMarker =
    (streamEpochs (x.flushed ++ batches x.ready)).max?
  rowCount : x.rowCount = (rowsOf x.flushed).length
  complete : (rowsOf x.flushed : Multiset ρ) ≤ x.written + x.skipped
  of_input : ∀ row ∈ x.written, row ∈ rowsOf (batches input)
  skipped_le : x.skipped ≤ rowsOf x.flushed
  skipped_eq_zero : destination.skips = false → x.skipped = 0
  once : destination.remote = false →
    x.written = (rowsOf x.flushed : Multiset ρ)
  ready_nil : x.phase ≠ .reading → x.phase ≠ .failed →
    x.phase ≠ .aborted → x.ready = []

theorem streaming_start
    (destination : Destination ρ) (input : List (Item ρ)) :
    Streaming destination input (start input) where
  taken := by simp [start]
  lastMarker := rfl
  rowCount := rfl
  complete := le_refl _
  of_input := fun _ hrow => absurd hrow (Multiset.notMem_zero _)
  skipped_le := le_refl _
  skipped_eq_zero := fun _ => rfl
  once := fun _ => rfl
  ready_nil := fun _ _ _ => rfl

variable {destination : Destination ρ} {settings : SinkSettings ρ}
  {input : List (Item ρ)} {x x' : WriteStream ρ}

/-- The rows that a stream has taken and those that it has written are rows
of its input. -/
theorem Streaming.rowsOf_input
    (hx : Streaming destination input x) :
    ∃ rest, rowsOf (batches input) =
      rowsOf x.flushed ++ rowsOf (batches x.ready) ++ rest := by
  refine ⟨rowsOf (batches (x.channel ++ (x.forwarding.toList ++
    x.upstream))), ?_⟩
  rw [← hx.taken]
  simp only [batches_append, batches_map_ok, rowsOf_append,
    List.append_assoc]

/-- A step of the prefetch task leaves the write alone. -/
structure Prefetched (x x' : WriteStream ρ) : Prop where
  ready : x'.ready = x.ready
  lastMarker : x'.lastMarker = x.lastMarker
  phase : x'.phase = x.phase
  rowCount : x'.rowCount = x.rowCount
  written : x'.written = x.written
  skipped : x'.skipped = x.skipped
  flushed : x'.flushed = x.flushed
  pending : x'.channel ++ x'.forwarding.toList ++ x'.upstream =
    x.channel ++ x.forwarding.toList ++ x.upstream

theorem prefetched_of_read (h : x.read = some x') : Prefetched x x' := by
  unfold read at h
  split at h
  next item rest hforwarding hupstream =>
    obtain rfl := Option.some.inj h
    refine ⟨rfl, rfl, rfl, rfl, rfl, rfl, rfl, ?_⟩
    simp [hforwarding, hupstream]
  · cases h

theorem prefetched_of_forward (h : x.forward = some x') :
    Prefetched x x' := by
  unfold forward at h
  split at h
  next item hforwarding =>
    split at h
    · obtain rfl := Option.some.inj h
      refine ⟨rfl, rfl, rfl, rfl, rfl, rfl, rfl, ?_⟩
      simp [hforwarding]
    · cases h
  · cases h

theorem Streaming.prefetch
    (hx : Streaming destination input x) (h : Prefetched x x') :
    Streaming destination input x' where
  taken := by
    have htaken := hx.taken
    have hpending := h.pending
    rw [h.flushed, h.ready]
    simp only [List.append_assoc] at htaken hpending ⊢
    rw [hpending, htaken]
  lastMarker := by rw [h.lastMarker, h.flushed, h.ready, hx.lastMarker]
  rowCount := by rw [h.rowCount, h.flushed, hx.rowCount]
  complete := by rw [h.flushed, h.written, h.skipped]; exact hx.complete
  of_input := by rw [h.written]; exact hx.of_input
  skipped_le := by rw [h.flushed, h.skipped]; exact hx.skipped_le
  skipped_eq_zero := by rw [h.skipped]; exact hx.skipped_eq_zero
  once := by rw [h.flushed, h.written]; exact hx.once
  ready_nil := by rw [h.phase, h.ready]; exact hx.ready_nil

/-- The sink takes an item while it reads. -/
theorem of_take (h : x.take settings = some x') :
    x.phase = .reading ∧ ∃ item rest, x.channel = item :: rest ∧
      x' =
        { x with
          channel := rest
          ready := x.ready ++ [item]
          lastMarker := recordMarker x.lastMarker item } := by
  unfold take at h
  split at h
  next item rest hphase hchannel =>
    split at h
    · exact ⟨hphase, item, rest, hchannel, (Option.some.inj h).symm⟩
    · cases h
  · cases h

theorem Streaming.take
    (hx : Streaming destination input x) (h : x.take settings = some x') :
    Streaming destination input x' := by
  obtain ⟨hphase, item, rest, hchannel, rfl⟩ := of_take h
  refine ⟨?_, ?_, hx.rowCount, hx.complete, hx.of_input, hx.skipped_le,
    hx.skipped_eq_zero, hx.once, ?_⟩
  · rw [← hx.taken, hchannel]
    simp
  · simp only [hx.lastMarker, recordMarker_eq, batches_append,
      List.append_assoc]
  · exact fun hreading => absurd hphase hreading

/-- A write that accounts for the rows that were ready. -/
theorem Streaming.wrote
    {stream : List (RecordBatch ρ)} {receipt : Receipt ρ}
    (hx : Streaming destination input x)
    (hready : x.ready = stream.map Except.ok)
    (hreceipt : Accounts destination (rowsOf stream) receipt) (total : ℕ) :
    Streaming destination input (x.wrote stream receipt total) := by
  refine ⟨?_, ?_, ?_, ?_, ?_, ?_, ?_, ?_, fun _ _ _ => rfl⟩
  · rw [← hx.taken, hready]
    simp [WriteStream.wrote]
  · change x.lastMarker =
      (streamEpochs (x.flushed ++ stream ++ batches [])).max?
    rw [hx.lastMarker, hready, batches_map_ok]
    simp [batches]
  · simp [WriteStream.wrote, hx.rowCount]
  · have hsum := add_le_add hx.complete hreceipt.complete
    rw [add_add_add_comm, Multiset.coe_add, ← rowsOf_append] at hsum
    exact hsum
  · obtain ⟨rest, hrest⟩ := hx.rowsOf_input
    rw [hready, batches_map_ok] at hrest
    intro row hrow
    rcases Multiset.mem_add.mp hrow with hrow | hrow
    · exact hx.of_input row hrow
    · rw [hrest]
      exact List.mem_append_left _ (List.mem_append_right _
        (hreceipt.taken_subset hrow))
  · have hsum := add_le_add hx.skipped_le hreceipt.skipped_le
    rw [Multiset.coe_add, ← rowsOf_append] at hsum
    exact hsum
  · intro hskips
    simp [WriteStream.wrote, hx.skipped_eq_zero hskips,
      hreceipt.skipped_eq_nil hskips]
  · intro hremote
    simp [WriteStream.wrote, hx.once hremote, hreceipt.once hremote]

/-- A write that stops behind attempts that did not succeed. -/
theorem Streaming.unfinished
    [DecidableEq ρ] {rows : List ρ} {phase : Phase}
    (hx : Streaming destination input x)
    (hrows : destination.leaves (rowsOf (batches x.ready)) rows = true)
    (hphase : phase = .failed ∨ phase = .aborted) :
    Streaming destination input (x.unfinished rows phase) := by
  obtain ⟨hsubset, hlocal⟩ := Destination.of_leaves hrows
  refine ⟨hx.taken, hx.lastMarker, hx.rowCount, ?_, ?_, hx.skipped_le,
    hx.skipped_eq_zero, ?_, ?_⟩
  · refine hx.complete.trans ?_
    exact add_le_add_left (Multiset.le_add_right _ _) _
  · obtain ⟨rest, hrest⟩ := hx.rowsOf_input
    intro row hrow
    rcases Multiset.mem_add.mp hrow with hrow | hrow
    · exact hx.of_input row hrow
    · rw [hrest]
      exact List.mem_append_left _ (List.mem_append_right _
        (hsubset hrow))
  · intro hremote
    simp [WriteStream.unfinished, hlocal hremote, hx.once hremote]
  · rcases hphase with rfl | rfl
    · exact fun _ hfailed => absurd rfl hfailed
    · exact fun _ _ haborted => absurd rfl haborted

/-- A write fails while it reads. -/
theorem of_fails
    [DecidableEq ρ] {rows : List ρ} (h : x.fails settings rows = some x') :
    x.phase = .reading ∧
      settings.destination.leaves (rowsOf (batches x.ready)) rows = true ∧
      x' = x.unfinished rows .failed := by
  unfold fails at h
  split at h
  next hphase =>
    split at h
    next hfails => exact ⟨hphase, hfails.2, (Option.some.inj h).symm⟩
    · cases h
  · cases h

/-- A write returns at the end of the input when it has written all of it. -/
theorem of_ends (h : x.ends = some x') :
    x.phase = .reading ∧ x.ready = [] ∧ x.channel = [] ∧
      x.forwarding = none ∧ x.upstream = [] ∧
      x' = { x with phase := .returned } := by
  unfold ends at h
  split at h
  next hphase =>
    split at h
    next hend =>
      obtain ⟨hready, hchannel, hforwarding, hupstream⟩ := hend
      exact ⟨hphase, hready, hchannel, Option.isNone_iff_eq_none.mp
        hforwarding, hupstream, (Option.some.inj h).symm⟩
    · cases h
  · cases h

theorem Streaming.of_phase
    {phase : Phase} (hx : Streaming destination input x)
    (hready : phase ≠ .reading → phase ≠ .failed → phase ≠ .aborted →
      x.ready = []) :
    Streaming destination input { x with phase := phase } :=
  ⟨hx.taken, hx.lastMarker, hx.rowCount, hx.complete, hx.of_input,
    hx.skipped_le, hx.skipped_eq_zero, hx.once, hready⟩

/-- A write is cancelled before it ends. -/
theorem of_abort
    [DecidableEq ρ] {rows : List ρ} (h : x.abort settings rows = some x') :
    (x.phase = .reading ∨ ∃ messages rows total,
      x.phase = .acking messages rows total) ∧
      settings.destination.leaves (rowsOf (batches x.ready)) rows = true ∧
      x' = x.unfinished rows .aborted := by
  unfold abort at h
  split at h
  next hphase =>
    split at h
    next hleaves => exact ⟨Or.inl hphase, hleaves, (Option.some.inj h).symm⟩
    · cases h
  next messages rows' total hphase =>
    split at h
    next hleaves =>
      exact ⟨Or.inr ⟨messages, rows', total, hphase⟩, hleaves,
        (Option.some.inj h).symm⟩
    · cases h
  · cases h

end WriteStream

end ParallelSink

end Streamling
