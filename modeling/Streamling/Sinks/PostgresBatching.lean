import Streamling.Sinks.Postgres

/-!
# How the Postgres sink depends on its batches

Deduplication keeps the last event of each key, whatever the hash, so that a
batch does to the row of a key what its last event for that key does.  The
final table is then the same for every cut of the events into batches exactly
if, for each key, the last event does the same to every row that the earlier
events of the key can leave behind.  A conflict clause that always takes the
incoming row guarantees this; one that may keep the existing row does not.
-/

namespace Streamling

namespace Postgres

open KeyedBatches (IsLast filterMap_isLast keepLast eventsOf batchAt batchesAt
  Settled)

/-! ## Deduplication keeps the last event of a key -/

section Dedup

variable {κ ε : Type*} [DecidableEq κ] {hash : κ → ℕ} {keyAt : ℕ → κ}

theorem mem_addToBucket
    {bucket : List ℕ} {row x : ℕ}
    (hdistinct : (bucket.map keyAt).Nodup) :
    x ∈ addToBucket hash keyAt bucket row ↔
      x = row ∨ x ∈ bucket ∧ keyAt x ≠ keyAt row := by
  induction bucket with
  | nil => simp [addToBucket]
  | cons existing bucket ih =>
      have htail := (List.nodup_cons.mp hdistinct).2
      have hfresh := (List.nodup_cons.mp hdistinct).1
      rw [addToBucket]
      split_ifs with hsame
      · have hother : ∀ y ∈ bucket, keyAt y ≠ keyAt row := by
          intro y hy heq
          apply hfresh
          rw [hsame.2, ← heq]
          exact List.mem_map_of_mem hy
        simp only [List.mem_cons]
        constructor
        · rintro (rfl | hx)
          · exact .inl rfl
          · exact .inr ⟨.inr hx, hother x hx⟩
        · rintro (rfl | ⟨rfl | hx, hne⟩)
          · exact .inl rfl
          · exact absurd hsame.2 hne
          · exact .inr hx
      · have hne : keyAt existing ≠ keyAt row :=
          fun heq => hsame ⟨congrArg hash heq, heq⟩
        simp only [List.mem_cons, ih htail]
        constructor
        · rintro (rfl | rfl | ⟨hx, hxne⟩)
          · exact .inr ⟨.inl rfl, hne⟩
          · exact .inl rfl
          · exact .inr ⟨.inr hx, hxne⟩
        · rintro (rfl | ⟨rfl | hx, hxne⟩)
          · exact .inr (.inl rfl)
          · exact .inl rfl
          · exact .inr (.inr ⟨hx, hxne⟩)

theorem addToBucket_distinct
    {bucket : List ℕ} {row : ℕ} (hdistinct : (bucket.map keyAt).Nodup) :
    ((addToBucket hash keyAt bucket row).map keyAt).Nodup := by
  induction bucket with
  | nil => simp [addToBucket]
  | cons existing bucket ih =>
      have htail := (List.nodup_cons.mp hdistinct).2
      have hfresh := (List.nodup_cons.mp hdistinct).1
      rw [addToBucket]
      split_ifs with hsame
      · simpa [hsame.2] using hdistinct
      · have hne : keyAt existing ≠ keyAt row :=
          fun heq => hsame ⟨congrArg hash heq, heq⟩
        rw [List.map_cons, List.nodup_cons]
        refine ⟨?_, ih htail⟩
        intro hmem
        obtain ⟨x, hx, heq⟩ := List.mem_map.mp hmem
        rcases (mem_addToBucket htail).mp hx with rfl | ⟨hxmem, -⟩
        · exact hne heq.symm
        · apply hfresh
          rw [← heq]
          exact List.mem_map_of_mem hxmem

/-- After the rows before `n`, the buckets hold the rows that no later row
shares its key with. -/
theorem foldl_addToBucket (hash : κ → ℕ) (keyAt : ℕ → κ) (n : ℕ) :
    let buckets := (List.range n).foldl (addToBucket hash keyAt) []
    (buckets.map keyAt).Nodup ∧
      ∀ x, x ∈ buckets ↔
        x < n ∧ ∀ y, x < y → y < n → keyAt y ≠ keyAt x := by
  induction n with
  | zero => simp
  | succ n ih =>
      obtain ⟨hdistinct, hmem⟩ := ih
      rw [List.range_succ, List.foldl_append]
      refine ⟨addToBucket_distinct hdistinct, ?_⟩
      intro x
      simp only [List.foldl_cons, List.foldl_nil, mem_addToBucket hdistinct,
        hmem]
      constructor
      · rintro (rfl | ⟨⟨hlt, hlater⟩, hne⟩)
        · exact ⟨by omega, fun y hxy hy => by omega⟩
        · refine ⟨by omega, fun y hxy hy => ?_⟩
          rcases Nat.lt_succ_iff_lt_or_eq.mp hy with hy | rfl
          · exact hlater y hxy hy
          · exact hne.symm
      · rintro ⟨hlt, hlater⟩
        rcases Nat.lt_succ_iff_lt_or_eq.mp hlt with hlt | rfl
        · right
          refine ⟨⟨hlt, fun y hxy hy => hlater y hxy (by omega)⟩, ?_⟩
          exact (hlater n hlt (by omega)).symm
        · exact .inl rfl

omit [DecidableEq κ] in
/-- The last row of its key, read from the list of keys. -/
theorem isLast_iff_getD
    {key : ε → κ} {batch : List ε} {row : ℕ} (fallback : κ)
    (hrow : row < batch.length) :
    IsLast key batch row ↔
      ∀ y, row < y → y < batch.length →
        (batch.map key).getD y fallback ≠
          (batch.map key).getD row fallback := by
  have hkey : ∀ y < batch.length, (batch[y]?).map key =
      some ((batch.map key).getD y fallback) := by
    intro y hy
    simp [List.getD_eq_getElem?_getD, hy]
  constructor
  · intro hlast y hxy hy heq
    apply hlast y hy hxy
    rw [hkey y hy, hkey row hrow, heq]
  · intro hlast y hy hxy heq
    rw [hkey y hy, hkey row hrow] at heq
    exact hlast y hxy hy (Option.some.inj heq)

theorem uniqueIndices_eq (key : ε → κ) (batch : List ε) (fallback : κ) :
    uniqueIndices hash (batch.map key) fallback =
      (List.range batch.length).filter fun row => IsLast key batch row := by
  obtain ⟨hdistinct, hmem⟩ := foldl_addToBucket hash
    (fun row => (batch.map key).getD row fallback) batch.length
  have hnodup := List.Nodup.of_map _ hdistinct
  have hperm : ((List.range batch.length).foldl
      (addToBucket hash fun row => (batch.map key).getD row fallback)
      []).Perm
      ((List.range batch.length).filter fun row =>
        IsLast key batch row) := by
    rw [List.perm_ext_iff_of_nodup hnodup
      (List.nodup_range.filter _)]
    intro row
    rw [hmem, List.mem_filter, List.mem_range, decide_eq_true_iff]
    exact and_congr_right fun hrow => (isLast_iff_getD fallback hrow).symm
  unfold uniqueIndices
  rw [List.length_map]
  have hsorted := List.pairwise_mergeSort' (· ≤ ·)
    ((List.range batch.length).foldl
      (addToBucket hash fun row => (batch.map key).getD row fallback) [])
  exact List.Perm.eq_of_pairwise
    (fun a b _ _ (hab : a ≤ b) (hba : b ≤ a) => Nat.le_antisymm hab hba)
    hsorted (List.Pairwise.filter _ List.pairwise_le_range)
    ((List.mergeSort_perm _ _).trans hperm)

theorem range_filterMap_getElem? {α : Type*} (l : List α) :
    (List.range l.length).filterMap (fun i => l[i]?) = l := by
  induction l with
  | nil => rfl
  | cons a l ih =>
      rw [List.length_cons, List.range_succ_eq_map, List.filterMap_cons,
        List.filterMap_map]
      simpa [Function.comp_def] using ih

/-- Deduplication keeps the last event of each key. -/
theorem deduplicateRecordBatch_eq (key : ε → κ) (batch : List ε) :
    deduplicateRecordBatch hash key batch = keepLast key batch := by
  cases batch with
  | nil => rfl
  | cons first rest =>
      simp only [deduplicateRecordBatch, uniqueIndices_eq]
      split_ifs with hall
      · -- every row survived: the batch is returned as it is
        have hlast : ∀ row ∈ List.range (first :: rest).length,
            decide (IsLast key (first :: rest) row) = true := by
          rw [← List.length_filter_eq_length_iff, hall, List.length_range]
        rw [← filterMap_isLast, List.filter_eq_self.mpr hlast]
        exact (range_filterMap_getElem? _).symm
      · exact filterMap_isLast key (first :: rest)

end Dedup

namespace SinkConfig

section

variable {V : Type*} {config : SinkConfig V}

/-! ## What a batch does to the row of a key -/

/-- What an event does to the row of its key. -/
def act (config : SinkConfig V) (e : config.Event)
    (existing : Option config.Row) : Option config.Row :=
  match e.kind with
  | .delete => none
  | .insert | .update => config.upsertRow e.row existing

theorem act_of_delete
    {e : config.Event} (h : e.kind = .delete) (existing : Option config.Row) :
    config.act e existing = none := by
  simp [act, h]

theorem act_of_ne_delete
    {e : config.Event} (h : e.kind ≠ .delete)
    (existing : Option config.Row) :
    config.act e existing = config.upsertRow e.row existing := by
  unfold act
  cases hkind : e.kind with
  | insert => rfl
  | update => rfl
  | delete => exact absurd hkind h

end

section

variable {V : Type*} [DecidableEq V] {config : SinkConfig V}

theorem executeInsert_apply
    (table : config.Table) (batch : List config.Event) (k : config.Key) :
    config.executeInsert table (batch.map Event.row) k =
      (eventsOf Event.key k batch).foldl
        (fun existing e => config.upsertRow e.row existing) (table k) := by
  rw [executeInsert, List.foldl_map]
  exact KeyedBatches.foldl_update_apply
    (fun e existing => config.upsertRow e.row existing) table k batch

theorem executeDelete_apply
    (table : config.Table) (batch : List config.Event) (k : config.Key) :
    config.executeDelete table (batch.map Event.row) k =
      if eventsOf Event.key k batch = [] then table k else none := by
  have hmem : k ∈ (batch.map Event.row).map config.keyOf ↔
      k ∈ batch.map Event.key := by
    rw [List.map_map]
    rfl
  simp only [executeDelete, hmem, KeyedBatches.eventsOf_eq_nil_iff, ite_not]

/-- A batch writes its inserts and updates and then removes its deletes. -/
theorem processBatch_apply
    (table : config.Table) (batch : List config.Event) (k : config.Key) :
    config.processBatch table batch k =
      let events := eventsOf Event.key k batch
      if (events.filter fun e => e.kind == .delete) = [] then
        (events.filter fun e => e.kind != .delete).foldl
          (fun existing e => config.upsertRow e.row existing) (table k)
      else none := by
  have hinsert : ∀ inserts : List config.Event,
      (if inserts.isEmpty then table
        else config.executeInsert table (inserts.map Event.row)) =
        config.executeInsert table (inserts.map Event.row) := by
    intro inserts
    cases inserts <;> rfl
  have hdelete : ∀ (table : config.Table) (deletes : List config.Event),
      (if deletes.isEmpty then table
        else config.executeDelete table (deletes.map Event.row)) =
        config.executeDelete table (deletes.map Event.row) := by
    intro table deletes
    cases deletes with
    | nil =>
        funext k
        simp [executeDelete]
    | cons e deletes => rfl
  simp only [processBatch, hinsert, hdelete, executeDelete_apply,
    executeInsert_apply, eventsOf, List.filter_filter, Bool.and_comm]

/-- A deduplicated batch does to the row of a key what the last event of the
key in the batch does. -/
theorem processBatch_keepLast
    (table : config.Table) (batch : List config.Event) (k : config.Key) :
    config.processBatch table (keepLast Event.key batch) k =
      batchAt Event.key config.act k (table k) batch := by
  rw [processBatch_apply, KeyedBatches.eventsOf_keepLast, batchAt]
  cases (eventsOf Event.key k batch).getLast? with
  | none => rfl
  | some e =>
      by_cases hkind : e.kind = .delete
      · simp [hkind, act_of_delete hkind]
      · simp [hkind, act_of_ne_delete hkind]

theorem writeAll_apply
    (hash : config.Key → ℕ) (table : config.Table)
    (batches : List (List config.Event)) (k : config.Key) :
    config.writeAll hash table batches k =
      batchesAt Event.key config.act k (table k) batches := by
  induction batches generalizing table with
  | nil => rfl
  | cons batch batches ih =>
      rw [writeAll, List.foldl_cons, ← writeAll, ih,
        deduplicateRecordBatch_eq, processBatch_keepLast]
      rfl

/-! ## Independence of the cut -/

/-- The table after the events does not depend on how they are cut into
batches: every cut gives what one row per batch gives. -/
def BatchIndependent (config : SinkConfig V) (hash : config.Key → ℕ)
    (table : config.Table) (events : List config.Event) : Prop :=
  ∀ batches : List (List config.Event), batches.flatten = events →
    config.writeAll hash table batches =
      config.writeAll hash table (events.map fun e => [e])

/-- For every key, the last event of the key does the same to the stored row
and to every row that the earlier events of the key can leave behind when some
of them are dropped. -/
def KeysSettled (config : SinkConfig V) (table : config.Table)
    (events : List config.Event) : Prop :=
  ∀ k, Settled config.act (table k) (eventsOf Event.key k events)

theorem batchIndependent_iff_keysSettled
    (config : SinkConfig V) (hash : config.Key → ℕ) (table : config.Table)
    (events : List config.Event) :
    config.BatchIndependent hash table events ↔
      config.KeysSettled table events := by
  have hkeys : config.BatchIndependent hash table events ↔
      ∀ k, ∀ batches : List (List config.Event),
        batches.flatten = events →
          batchesAt Event.key config.act k (table k) batches =
            batchesAt Event.key config.act k (table k)
              (events.map fun e => [e]) := by
    constructor
    · intro h k batches hflat
      rw [← writeAll_apply hash, ← writeAll_apply hash, h batches hflat]
    · intro h batches hflat
      funext k
      rw [writeAll_apply, writeAll_apply]
      exact h k batches hflat
  rw [hkeys]
  exact forall_congr' fun k => KeyedBatches.batchesAt_eq_iff_settled events

end

/-! ## Conflict clauses -/

section

variable {V : Type*} {config : SinkConfig V}

/-- Every row is stored under its own key. -/
def WellKeyed (config : SinkConfig V) (table : config.Table) : Prop :=
  ∀ k, ∀ row ∈ table k, config.keyOf row = k

/-- The conflict clause replaces any row of the same key by the incoming
one. -/
def TakesIncoming (config : SinkConfig V) : Prop :=
  ∀ existing incoming, config.keyOf existing = config.keyOf incoming →
    config.onConflictRow existing incoming = incoming

/-- An unconditional `DO UPDATE` takes the incoming row, and so does any
clause on a table without other columns than the key. -/
theorem takesIncoming_of_unconditional
    (hclause : config.updateColumns = [] ∨
      config.onConflict ≠ "nothing" ∧ config.updateWhereConditions = []) :
    config.TakesIncoming := by
  intro existing incoming hkey
  have hsame : ∀ column : { column // column ∈ config.columnNames },
      column.1 ∉ config.updateColumns → existing column = incoming column := by
    intro column hcolumn
    have hmem : column.1 ∈ config.primaryKeyColumns := by
      simpa [updateColumns, column.2] using hcolumn
    exact congrFun hkey ⟨column.1, hmem⟩
  funext column
  rcases hclause with hnone | ⟨hmode, hwhere⟩
  · have hexisting := hsame column (by simp [hnone])
    simp [onConflictRow, doNothing, hnone, hexisting]
  · by_cases hcolumn : column.1 ∈ config.updateColumns
    · have hne : config.updateColumns ≠ [] :=
        List.ne_nil_of_mem hcolumn
      simp [onConflictRow, doNothing, hmode, hne, updateWhereHolds, hwhere,
        hcolumn]
    · have hexisting := hsame column hcolumn
      unfold onConflictRow
      split_ifs <;> simp [hexisting, hcolumn]

theorem act_insert (row : config.Row) (existing : Option config.Row) :
    config.act ⟨some "i", row⟩ existing = config.upsertRow row existing := by
  have hkind : RowKind.ofColumn (some "i") = .insert := by decide +kernel
  apply act_of_ne_delete
  rw [Event.kind, hkind]
  decide

theorem act_eq_of_takesIncoming
    {e : config.Event} {existing : Option config.Row}
    (htakes : config.TakesIncoming)
    (hkeyed : ∀ row ∈ existing, config.keyOf row = e.key) :
    config.act e existing = config.act e none := by
  by_cases hkind : e.kind = .delete
  · rw [act_of_delete hkind, act_of_delete hkind]
  · rw [act_of_ne_delete hkind, act_of_ne_delete hkind]
    cases existing with
    | none => rfl
    | some row => exact congrArg some (htakes row e.row (hkeyed row rfl))

theorem keyOf_of_mem_act_none
    {e : config.Event} {row : config.Row} (hrow : row ∈ config.act e none) :
    config.keyOf row = e.key := by
  by_cases hkind : e.kind = .delete
  · simp [act_of_delete hkind] at hrow
  · rw [act_of_ne_delete hkind] at hrow
    obtain rfl := Option.some.inj hrow
    rfl

end

section

variable {V : Type*} [DecidableEq V] {config : SinkConfig V}

/-- A clause that takes the incoming row settles every key. -/
theorem keysSettled_of_takesIncoming
    {table : config.Table} (htakes : config.TakesIncoming)
    (htable : config.WellKeyed table) (events : List config.Event) :
    config.KeysSettled table events := by
  intro k e he x hx
  have hkeyOf : ∀ d ∈ eventsOf Event.key k events, d.key = k := by
    intro d hd
    simpa [eventsOf] using (List.mem_filter.mp hd).2
  have hekey : e.key = k := hkeyOf e (List.mem_of_getLast? he)
  have hkeyed : ∀ x ∈ KeyedBatches.reachable config.act (table k)
      (eventsOf Event.key k events).dropLast,
      ∀ row ∈ x, config.keyOf row = k := by
    refine KeyedBatches.reachable_induction
      (P := fun x => ∀ row ∈ x, config.keyOf row = k) (htable k) ?_
    intro d hd x hx row hrow
    have hdkey := hkeyOf d (List.mem_of_mem_dropLast hd)
    rw [act_eq_of_takesIncoming htakes (hdkey ▸ hx)] at hrow
    exact (keyOf_of_mem_act_none hrow).trans hdkey
  calc config.act e x
      = config.act e none :=
        act_eq_of_takesIncoming htakes (hekey ▸ hkeyed x hx)
    _ = config.act e (table k) :=
        (act_eq_of_takesIncoming htakes (hekey ▸ htable k)).symm

/-- The two rows of a conflict, inserted one after the other into an empty
table, show what the clause does. -/
theorem takesIncoming_of_keysSettled
    (h : ∀ events, config.KeysSettled (fun _ => none) events) :
    config.TakesIncoming := by
  intro existing incoming hkey
  have hsettled := h [⟨some "i", existing⟩, ⟨some "i", incoming⟩]
    (config.keyOf incoming)
  have hevents : eventsOf Event.key (config.keyOf incoming)
      [⟨some "i", existing⟩, ⟨some "i", incoming⟩] =
        [⟨some "i", existing⟩, (⟨some "i", incoming⟩ : config.Event)] := by
    simp [eventsOf, Event.key, hkey]
  rw [hevents] at hsettled
  have hexisting : config.act ⟨some "i", existing⟩ none = some existing :=
    act_insert existing none
  have hlast := hsettled ⟨some "i", incoming⟩ rfl (some existing)
    (by simp [KeyedBatches.reachable, hexisting])
  rw [act_insert, act_insert] at hlast
  exact Option.some.inj hlast

/-! ## The result -/

/-- For every table and sequence of events, the table written is independent
of the cut into batches exactly if the keys are settled.  It is so for all
tables and sequences exactly if the conflict clause takes the incoming row. -/
theorem postgres_sink_batch_independent_iff
    (config : SinkConfig V) (hash : config.Key → ℕ) :
    (∀ (table : config.Table) (events : List config.Event),
      config.BatchIndependent hash table events ↔
        config.KeysSettled table events) ∧
    ((∀ table, config.WellKeyed table → ∀ events : List config.Event,
        config.BatchIndependent hash table events) ↔
      config.TakesIncoming) := by
  refine ⟨batchIndependent_iff_keysSettled config hash, ?_⟩
  simp only [batchIndependent_iff_keysSettled]
  constructor
  · intro h
    apply takesIncoming_of_keysSettled
    intro events
    exact h _ (by simp [WellKeyed]) events
  · intro htakes table htable events
    exact keysSettled_of_takesIncoming htakes htable events

end

/-- A sink that takes only newer rows. -/
def newerRowsConfig : SinkConfig ℤ where
  columnNames := ["id", "timestamp"]
  primaryKeyColumns := ["id"]
  key_ne := by decide
  key_mem := by decide
  onConflict := "update"
  updateWhere := some [("timestamp", ">")]
  compare := fun a b => some (Ord.compare a b)

/-- The row of key one with a timestamp. -/
def newerRow (timestamp : ℤ) : newerRowsConfig.Row :=
  fun column => if column.1 = "id" then 1 else timestamp

/-- Timestamp 200 and then 50 for one key: written in one batch the older row
is stored, written in two the newer one stays. -/
theorem postgres_sink_stores_older_row :
    ¬ newerRowsConfig.BatchIndependent (fun _ => 0) (fun _ => none)
      [⟨some "i", newerRow 200⟩, ⟨some "i", newerRow 50⟩] := by
  intro h
  have hcut := congrFun (h
    [[⟨some "i", newerRow 200⟩, ⟨some "i", newerRow 50⟩]] rfl) fun _ => 1
  rw [writeAll_apply, writeAll_apply] at hcut
  have htimestamp := congrArg
    (Option.map fun row : newerRowsConfig.Row =>
      row ⟨"timestamp", by decide⟩) hcut
  revert htimestamp
  decide +kernel

end SinkConfig

end Postgres

end Streamling
