import Streamling.Sinks.PostgresAggregate

/-!
# When the aggregation sink counts each event once

The target table is always the total of the rows the trigger was given.  A
row of the landing table that the current run wrote, or read over, is
truncated only after the position behind it has become durable, because its
tag is at least the epoch of every marker that came before it in the run.  A
row that an earlier run left behind has no such protection: its tag is from
another numbering of the epochs.  The events are counted once exactly if no
such row is truncated before the run has read its event again.
-/

namespace Streamling

namespace PostgresAggregate

variable {Key Group Column : Type}

/-! ## The target table -/

section Target

variable [DecidableEq Group] {config : AggregateConfig Group Column}

/-- The target table for rows that are each counted once. -/
def AggregateConfig.totals (config : AggregateConfig Group Column)
    (rows : List (SourceRow Key Group Column)) : Target Group :=
  fun group =>
    if config.rowsOf group rows = [] then none
    else
      some (config.aggregates.map fun aggregate =>
        ((config.rowsOf group rows).map aggregate.rowValue).reduceOption.sum)

theorem rowsOf_append
    (group : Group) (rows more : List (SourceRow Key Group Column)) :
    config.rowsOf group (rows ++ more) =
      config.rowsOf group rows ++ config.rowsOf group more :=
  List.filter_append ..

theorem totals_perm
    {rows more : List (SourceRow Key Group Column)} (h : rows.Perm more) :
    config.totals rows = config.totals more := by
  funext group
  have hgroup : (config.rowsOf group rows).Perm
      (config.rowsOf group more) := h.filter _
  have hempty : config.rowsOf group rows = [] ↔
      config.rowsOf group more = [] := by
    constructor
    · intro hnil
      rw [hnil] at hgroup
      exact hgroup.nil_eq.symm
    · intro hnil
      rw [hnil] at hgroup
      exact hgroup.eq_nil
  have hsum : ∀ aggregate : AggregateFn Column,
      ((config.rowsOf group rows).map aggregate.rowValue).reduceOption.sum =
        ((config.rowsOf group more).map
          aggregate.rowValue).reduceOption.sum := by
    intro aggregate
    exact ((hgroup.map _).filterMap _).sum_eq
  simp only [AggregateConfig.totals, hempty, hsum]

theorem sqlSum_eq_some
    {values : List (Option ℤ)} {total : ℤ} (h : sqlSum values = some total) :
    values ≠ [] ∧ total = values.reduceOption.sum := by
  unfold sqlSum at h
  split_ifs at h with hempty
  refine ⟨?_, (Option.some.inj h).symm⟩
  rintro rfl
  exact hempty rfl

theorem mapM_eq_some_imp
    {α β : Type*} {f : α → Option β} {g : α → β}
    (hf : ∀ a b, f a = some b → b = g a) {l : List α} {bs : List β}
    (h : l.mapM f = some bs) : bs = l.map g := by
  induction l generalizing bs with
  | nil => simpa using h.symm
  | cons a l ih =>
      simp only [List.mapM_cons, Option.bind_eq_bind, Option.pure_def,
        Option.bind_eq_some_iff, Option.some.injEq] at h
      obtain ⟨b, hb, rest, hrest, rfl⟩ := h
      rw [hf a b hb, ih hrest, List.map_cons]

/-- A delta has no `NULL`: its group has rows, and it is their totals. -/
theorem delta_eq_some
    {newTable : List (SourceRow Key Group Column)} {group : Group}
    {delta : List ℤ} (h : config.delta newTable group = some delta) :
    config.rowsOf group newTable ≠ [] ∧
      delta = config.aggregates.map fun aggregate =>
        ((config.rowsOf group newTable).map
          aggregate.rowValue).reduceOption.sum := by
  unfold AggregateConfig.delta at h
  constructor
  · obtain ⟨aggregate, rest, haggregates⟩ :=
      List.exists_cons_of_ne_nil config.aggregates_ne
    rw [haggregates, List.mapM_cons] at h
    obtain ⟨total, htotal, -⟩ := Option.bind_eq_some_iff.mp h
    have hvalues := (sqlSum_eq_some htotal).1
    simpa using hvalues
  · exact mapM_eq_some_imp (fun _ _ htotal => (sqlSum_eq_some htotal).2) h

theorem totals_append_of_rowsOf_eq_nil
    {rows newTable : List (SourceRow Key Group Column)} {group : Group}
    (h : config.rowsOf group newTable = []) :
    config.totals (rows ++ newTable) group = config.totals rows group := by
  simp only [AggregateConfig.totals, rowsOf_append, h, List.append_nil]

theorem totals_append_of_ne_nil
    {rows newTable : List (SourceRow Key Group Column)} {group : Group}
    (h : config.rowsOf group newTable ≠ []) :
    config.totals (rows ++ newTable) group =
      some (config.aggregates.map fun aggregate =>
        ((config.rowsOf group rows).map
            aggregate.rowValue).reduceOption.sum +
          ((config.rowsOf group newTable).map
            aggregate.rowValue).reduceOption.sum) := by
  simp [AggregateConfig.totals, rowsOf_append, h, List.reduceOption_append]

theorem addDelta_eq_some
    {newTable : List (SourceRow Key Group Column)}
    {rows : List (SourceRow Key Group Column)} {target : Target Group}
    {target' : Target Group} {group : Group}
    (hgroup : target group = config.totals rows group)
    (h : config.addDelta newTable target group = some target') :
    target' = Function.update target group
      (config.totals (rows ++ newTable) group) := by
  simp only [AggregateConfig.addDelta, Option.bind_eq_bind, Option.pure_def,
    Option.bind_eq_some_iff, Option.some.injEq] at h
  obtain ⟨delta, hdelta, rfl⟩ := h
  obtain ⟨hne, rfl⟩ := delta_eq_some hdelta
  rw [totals_append_of_ne_nil hne, hgroup]
  by_cases hrows : config.rowsOf group rows = []
  · simp [AggregateConfig.totals, hrows]
  · simp [AggregateConfig.totals, hrows, List.zipWith_map]

/-- The groups are added up one after the other. -/
theorem foldlM_addDelta
    {rows newTable : List (SourceRow Key Group Column)}
    {groups : List Group} (hgroups : groups.Nodup)
    {target target' : Target Group}
    (hrows : ∀ group ∈ groups, target group = config.totals rows group)
    (h : groups.foldlM (config.addDelta newTable) target = some target')
    (group : Group) :
    target' group =
      if group ∈ groups then config.totals (rows ++ newTable) group
      else target group := by
  induction groups generalizing target with
  | nil =>
      obtain rfl : target = target' := by simpa using h
      simp
  | cons first groups ih =>
      simp only [List.foldlM_cons, Option.bind_eq_bind,
        Option.bind_eq_some_iff] at h
      obtain ⟨middle, hmiddle, h⟩ := h
      have hfirst := addDelta_eq_some (hrows first List.mem_cons_self) hmiddle
      obtain ⟨hnotin, hgroups⟩ := List.nodup_cons.mp hgroups
      subst hfirst
      rw [ih hgroups ?_ h]
      · by_cases heq : group = first
        · subst heq
          simp [hnotin]
        · simp [heq]
      · intro other hother
        have hne : other ≠ first := by
          rintro rfl
          exact hnotin hother
        rw [Function.update_of_ne hne]
        exact hrows other (List.mem_cons_of_mem _ hother)

theorem groups_nodup (newTable : List (SourceRow Key Group Column)) :
    (config.groups newTable).Nodup := by
  unfold AggregateConfig.groups
  split
  · exact List.nodup_singleton _
  · exact List.nodup_dedup _

theorem rowsOf_eq_nil_of_notMem_groups
    {newTable : List (SourceRow Key Group Column)} {group : Group}
    (h : group ∉ config.groups newTable) :
    config.rowsOf group newTable = [] := by
  rw [AggregateConfig.rowsOf, List.filter_eq_nil_iff]
  intro row hrow hgroup
  apply h
  have hgroup : config.groupOf row = group := by simpa using hgroup
  unfold AggregateConfig.groups
  cases hsentinel : config.sentinel with
  | some sentinel =>
      simp [← hgroup, AggregateConfig.groupOf, hsentinel]
  | none =>
      exact List.mem_dedup.mpr (List.mem_map.mpr ⟨row, hrow, hgroup⟩)

/-- The trigger adds the rows of its transition table to the totals. -/
theorem trigger_totals
    {rows newTable : List (SourceRow Key Group Column)}
    {target : Target Group}
    (h : config.trigger (config.totals rows) newTable = some target) :
    target = config.totals (rows ++ newTable) := by
  funext group
  rw [foldlM_addDelta (groups_nodup newTable) (fun _ _ => rfl) h group]
  split_ifs with hmem
  · rfl
  · have hnil := rowsOf_eq_nil_of_notMem_groups hmem
    exact (totals_append_of_rowsOf_eq_nil hnil).symm

end Target

/-! ## Writing a batch -/

/-- The events of a batch. -/
theorem mem_batch_iff
    {events : List (SourceRow Key Group Column)} {position rows : ℕ}
    {row : SourceRow Key Group Column} :
    row ∈ (events.drop position).take rows ↔
      ∃ i, position ≤ i ∧ i < position + rows ∧ events[i]? = some row := by
  simp only [List.mem_iff_getElem?, List.getElem?_take, List.getElem?_drop]
  constructor
  · rintro ⟨i, hi⟩
    split_ifs at hi with hlt
    exact ⟨position + i, by omega, by omega, hi⟩
  · rintro ⟨i, hposition, hlt, hi⟩
    refine ⟨i - position, ?_⟩
    rw [if_pos (by omega), Nat.add_sub_cancel' hposition]
    exact hi

theorem index_eq_of_landingKey_eq
    {events : List (SourceRow Key Group Column)}
    (hdistinct : (events.map SourceRow.landingKey).Nodup)
    {i j : ℕ} {row other : SourceRow Key Group Column}
    (hi : events[i]? = some row) (hj : events[j]? = some other)
    (hkey : row.landingKey = other.landingKey) : i = j := by
  have hlt : i < (events.map SourceRow.landingKey).length := by
    obtain ⟨hlt, -⟩ := List.getElem?_eq_some_iff.mp hi
    simpa using hlt
  apply (List.getElem?_inj hlt hdistinct).mp
  rw [List.getElem?_map, List.getElem?_map, hi, hj]
  simp [hkey]

theorem row_eq_of_landingKey_eq
    {events : List (SourceRow Key Group Column)}
    (hdistinct : (events.map SourceRow.landingKey).Nodup)
    {row other : SourceRow Key Group Column}
    (hrow : row ∈ events) (hother : other ∈ events)
    (hkey : row.landingKey = other.landingKey) : row = other :=
  List.inj_on_of_nodup_map hdistinct hrow hother hkey

theorem landing_foldl_cases
    [DecidableEq Key] (epoch : ℕ) (rows : List (SourceRow Key Group Column))
    (landing : Key × String → Option (LandingRow Key Group Column))
    (key : Key × String) :
    let landing' : Key × String → Option (LandingRow Key Group Column) :=
      rows.foldl
        (fun landing row =>
          Function.update landing row.landingKey (some ⟨row, epoch⟩))
        landing
    (key ∉ rows.map SourceRow.landingKey ∧ landing' key = landing key) ∨
      ∃ row ∈ rows, row.landingKey = key ∧
        landing' key = some ⟨row, epoch⟩ := by
  induction rows using List.reverseRecOn with
  | nil => simp
  | append_singleton rows row ih =>
      simp only [List.foldl_append, List.foldl_cons, List.foldl_nil]
      by_cases hkey : row.landingKey = key
      · right
        exact ⟨row, by simp, hkey, by simp [hkey]⟩
      · rw [Function.update_of_ne (Ne.symm hkey)]
        rcases ih with ⟨hnotin, heq⟩ | ⟨other, hother, hotherKey, heq⟩
        · left
          refine ⟨?_, heq⟩
          rw [List.map_append, List.mem_append, not_or]
          exact ⟨hnotin, by simpa using Ne.symm hkey⟩
        · right
          exact ⟨other, by simp [hother], hotherKey, heq⟩

section Write

variable [DecidableEq Group]

/-- What writing a batch does to the tables. -/
structure Wrote (config : AggregateConfig Group Column) (epoch : ℕ)
    (rows : List (SourceRow Key Group Column))
    (db db' : Database Key Group Column) : Prop where
  inserted_eq : db'.inserted = db.inserted ++
    rows.filter fun row => (db.landing row.landingKey).isNone
  target_eq : db.target = config.totals db.inserted →
    db'.target = config.totals db'.inserted
  landing_cases : ∀ key,
    (key ∉ rows.map SourceRow.landingKey ∧
        db'.landing key = db.landing key) ∨
      ∃ row ∈ rows, row.landingKey = key ∧
        db'.landing key = some ⟨row, epoch⟩

variable {config : AggregateConfig Group Column} {epoch : ℕ}
variable {rows : List (SourceRow Key Group Column)}
variable {db db' : Database Key Group Column}

theorem wrote_of_insertRows
    [DecidableEq Key] (h : db.insertRows config epoch rows = some db') :
    Wrote config epoch rows db db' := by
  simp only [Database.insertRows, Option.bind_eq_bind, Option.pure_def,
    Option.bind_eq_some_iff, Option.some.injEq] at h
  obtain ⟨target, htarget, rfl⟩ := h
  constructor
  · rfl
  · intro hbefore
    rw [hbefore] at htarget
    exact trigger_totals htarget
  · exact landing_foldl_cases epoch rows db.landing

theorem wrote_nil (config : AggregateConfig Group Column) (epoch : ℕ)
    (db : Database Key Group Column) : Wrote config epoch [] db db := by
  constructor
  · simp
  · exact id
  · intro key
    left
    simp

namespace Wrote

variable (h : Wrote config epoch rows db db')

include h

theorem inserted_mono
    {row : SourceRow Key Group Column} (hrow : row ∈ db.inserted) :
    row ∈ db'.inserted := by
  rw [h.inserted_eq]
  exact List.mem_append_left _ hrow

theorem isSome_of_mem
    {row : SourceRow Key Group Column} (hrow : row ∈ rows) :
    (db'.landing row.landingKey).isSome := by
  rcases h.landing_cases row.landingKey with ⟨hnotin, -⟩ | ⟨_, _, _, heq⟩
  · exact absurd (List.mem_map_of_mem hrow) hnotin
  · rw [heq]
    rfl

theorem isSome_mono
    {key : Key × String} (hkey : (db.landing key).isSome) :
    (db'.landing key).isSome := by
  rcases h.landing_cases key with ⟨-, heq⟩ | ⟨_, _, _, heq⟩
  · rwa [heq]
  · rw [heq]
    rfl

theorem landing_of_notMem
    {key : Key × String} (hkey : key ∉ rows.map SourceRow.landingKey) :
    db'.landing key = db.landing key := by
  rcases h.landing_cases key with ⟨-, heq⟩ | ⟨row, hrow, rfl, -⟩
  · exact heq
  · exact absurd (List.mem_map_of_mem hrow) hkey

end Wrote

end Write

/-! ## Sound states -/

section Sound

variable [DecidableEq Group] (config : AggregateConfig Group Column)
variable (events : List (SourceRow Key Group Column))

/-- What holds in every state: the target table is the total of the rows the
trigger was given, the rows between the durable position and that of the run
are in the landing table, and those behind a marker of the run are tagged with
its epoch at least. -/
structure Sound (s : Sink Key Group Column) : Prop where
  durable_le : s.durable ≤ s.process.position
  position_le : s.process.position ≤ events.length
  target_eq : s.db.target = config.totals s.db.inserted
  inserted_mem : ∀ row ∈ s.db.inserted, row ∈ events
  read_inserted : ∀ i row, i < s.process.position →
    events[i]? = some row → row ∈ s.db.inserted
  landing_row : ∀ key entry, s.db.landing key = some entry →
    entry.row.landingKey = key ∧ entry.row ∈ s.db.inserted
  landing_recent : ∀ i row, s.durable ≤ i → i < s.process.position →
    events[i]? = some row → (s.db.landing row.landingKey).isSome
  landing_tagged : ∀ marker ∈ s.process.markers, ∀ i row entry,
    marker.2 ≤ i → i < s.process.position → events[i]? = some row →
    s.db.landing row.landingKey = some entry → marker.1 ≤ entry.epoch
  marker_le : ∀ marker ∈ s.process.markers,
    marker.1 ≤ s.process.epoch ∧ marker.2 ≤ s.process.position
  markers_pairwise : s.process.markers.Pairwise
    fun earlier later => earlier.1 < later.1 ∧ earlier.2 ≤ later.2
  durable_le_marker : ∀ marker ∈ s.process.markers,
    (∀ epoch ∈ s.process.finalized, epoch < marker.1) →
    s.durable ≤ marker.2
  finalized_marker : ∀ epoch ∈ s.process.finalized,
    ∃ marker ∈ s.process.markers, marker.1 = epoch ∧ marker.2 ≤ s.durable
  finalizer_finalized : ∀ epoch,
    Message.finalizer epoch ∈ s.process.unhandled →
    epoch ∈ s.process.finalized

theorem sound_start : Sound config events Sink.start where
  durable_le := le_rfl
  position_le := Nat.zero_le _
  target_eq := rfl
  inserted_mem := by simp [Sink.start, Database.empty]
  read_inserted := by simp [Sink.start, Process.startAt]
  landing_row := by simp [Sink.start, Database.empty]
  landing_recent := by simp [Sink.start, Process.startAt]
  landing_tagged := by simp [Sink.start, Process.startAt]
  marker_le := by simp [Sink.start, Process.startAt]
  markers_pairwise := List.Pairwise.nil
  durable_le_marker := by simp [Sink.start, Process.startAt]
  finalized_marker := by simp [Sink.start, Process.startAt]
  finalizer_finalized := by simp [Sink.start, Process.startAt]

end Sound

/-! ## The steps -/

section Steps

variable [DecidableEq Group] {config : AggregateConfig Group Column}
variable {events : List (SourceRow Key Group Column)}
variable {s s' : Sink Key Group Column}

/-- A step with a batch writes its events, with an epoch that no marker of the
run exceeds. -/
theorem processBatch_eq_some
    [DecidableEq Key] {rows : ℕ} {messages : List Message}
    (hle : ∀ marker ∈ s.process.markers, marker.1 ≤ s.process.epoch)
    (h : s.processBatch config events rows messages = some s') :
    ∃ db epoch,
      s.process.position + rows ≤ events.length ∧
      s.process.Allows rows messages ∧
      (∀ marker ∈
        s.process.markers ++ messages.filterMap Message.asMarker,
        marker.1 ≤ epoch) ∧
      Wrote config epoch ((events.drop s.process.position).take rows)
        s.db db ∧
      s' =
        { s with
          db := db
          process :=
            { s.process with
              position := s.process.position + rows
              epoch := epoch
              unhandled := messages
              markers := s.process.markers ++
                messages.filterMap Message.asMarker } } := by
  simp only [Sink.processBatch, Option.bind_eq_bind, Option.pure_def] at h
  by_cases hguard : s.process.unhandled = [] ∧
      s.process.position + rows ≤ events.length ∧
      s.process.Allows rows messages
  case neg => simp [if_neg hguard] at h
  rw [if_pos hguard] at h
  obtain ⟨-, hlength, hallows⟩ := hguard
  have hepoch : ∀ marker ∈
      s.process.markers ++ messages.filterMap Message.asMarker,
      marker.1 ≤ (((messages.filterMap Message.asMarker).getLast?.map
        Prod.fst).getD s.process.epoch) := by
    rcases List.eq_nil_or_concat (messages.filterMap Message.asMarker) with
      hnil | ⟨front, last, hlast⟩
    · rw [hnil, List.append_nil]
      exact hle
    · rw [List.concat_eq_append] at hlast
      have hpairwise := hallows.1
      rw [hlast, ← List.append_assoc] at hpairwise ⊢
      have hbefore := (List.pairwise_append.mp hpairwise).2.2
      intro marker hmarker
      rw [List.getLast?_concat, Option.map_some, Option.getD_some]
      rcases List.mem_append.mp hmarker with hmarker | hmarker
      · exact (hbefore marker hmarker last (by simp)).1.le
      · rw [List.mem_singleton.mp hmarker]
  by_cases hrows : rows = 0
  · subst hrows
    rw [if_pos rfl, Option.bind_some, Option.some.injEq] at h
    exact ⟨s.db, _, hlength, hallows, hepoch, wrote_nil config _ s.db,
      h.symm⟩
  · rw [if_neg hrows, Option.bind_eq_some_iff] at h
    obtain ⟨db, hdb, h⟩ := h
    exact ⟨db, _, hlength, hallows, hepoch, wrote_of_insertRows hdb,
      (Option.some.inj h).symm⟩

theorem Sound.processBatch
    [DecidableEq Key] (hdistinct : (events.map SourceRow.landingKey).Nodup)
    {rows : ℕ} {messages : List Message}
    (hs : Sound config events s)
    (h : s.processBatch config events rows messages = some s') :
    Sound config events s' := by
  obtain ⟨db, epoch, hlength, ⟨hpairwise, hcuts, hfinalizers⟩, hepoch,
    hwrote, rfl⟩ := processBatch_eq_some (fun m hm => (hs.marker_le m hm).1) h
  have hinserted : ∀ row ∈ (events.drop s.process.position).take rows,
      row ∈ db.inserted := by
    intro row hrow
    obtain ⟨i, -, -, hi⟩ := mem_batch_iff.mp hrow
    have hevent : row ∈ events := List.mem_of_getElem? hi
    rw [hwrote.inserted_eq, List.mem_append, List.mem_filter]
    cases hlanding : s.db.landing row.landingKey with
    | none => exact .inr ⟨hrow, by simp⟩
    | some entry =>
        obtain ⟨hkey, hentry⟩ := hs.landing_row _ _ hlanding
        left
        rwa [← row_eq_of_landingKey_eq hdistinct
          (hs.inserted_mem _ hentry) hevent hkey]
  constructor
  case durable_le => exact hs.durable_le.trans (Nat.le_add_right ..)
  case position_le => exact hlength
  case target_eq => exact hwrote.target_eq hs.target_eq
  case inserted_mem =>
    intro row hrow
    change row ∈ db.inserted at hrow
    rw [hwrote.inserted_eq] at hrow
    rcases List.mem_append.mp hrow with hrow | hrow
    · exact hs.inserted_mem row hrow
    · have hbatch := List.mem_of_mem_filter hrow
      exact List.mem_of_mem_drop (List.mem_of_mem_take hbatch)
  case read_inserted =>
    intro i row hlt hi
    by_cases hold : i < s.process.position
    · exact hwrote.inserted_mono (hs.read_inserted i row hold hi)
    · exact hinserted row (mem_batch_iff.mpr ⟨i, by omega, hlt, hi⟩)
  case landing_row =>
    intro key entry hentry
    rcases hwrote.landing_cases key with ⟨-, heq⟩ | ⟨row, hrow, rfl, heq⟩
    · obtain ⟨hkey, hmem⟩ := hs.landing_row key entry (heq ▸ hentry)
      exact ⟨hkey, hwrote.inserted_mono hmem⟩
    · obtain rfl : (⟨row, epoch⟩ : LandingRow Key Group Column) = entry :=
        Option.some.inj (heq.symm.trans hentry)
      exact ⟨rfl, hinserted row hrow⟩
  case landing_recent =>
    intro i row hdurable hlt hi
    by_cases hold : i < s.process.position
    · exact hwrote.isSome_mono (hs.landing_recent i row hdurable hold hi)
    · exact hwrote.isSome_of_mem
        (mem_batch_iff.mpr ⟨i, by omega, hlt, hi⟩)
  case landing_tagged =>
    intro marker hmarker i row entry hcut hlt hi hentry
    rcases hwrote.landing_cases row.landingKey with
      ⟨hnotin, heq⟩ | ⟨other, hother, hkey, heq⟩
    · -- the row was not in the batch, so neither was the marker
      have hold : i < s.process.position := by
        by_contra hnew
        apply hnotin
        apply List.mem_map_of_mem
        exact mem_batch_iff.mpr ⟨i, by omega, hlt, hi⟩
      have hmarker : marker ∈ s.process.markers := by
        rcases List.mem_append.mp hmarker with hmarker | hmarker
        · exact hmarker
        · have := (hcuts marker hmarker).2.1
          omega
      exact hs.landing_tagged marker hmarker i row entry hcut hold hi
        (heq ▸ hentry)
    · obtain rfl : (⟨other, epoch⟩ : LandingRow Key Group Column) = entry :=
        Option.some.inj (heq.symm.trans hentry)
      exact hepoch marker hmarker
  case marker_le =>
    intro marker hmarker
    refine ⟨hepoch marker hmarker, ?_⟩
    rcases List.mem_append.mp hmarker with hmarker | hmarker
    · exact (hs.marker_le marker hmarker).2.trans (Nat.le_add_right ..)
    · exact (hcuts marker hmarker).2.2
  case markers_pairwise => exact hpairwise
  case durable_le_marker =>
    intro marker hmarker hlater
    rcases List.mem_append.mp hmarker with hmarker | hmarker
    · exact hs.durable_le_marker marker hmarker hlater
    · exact hs.durable_le.trans (hcuts marker hmarker).2.1
  case finalized_marker =>
    intro n hn
    obtain ⟨marker, hmarker, hrest⟩ := hs.finalized_marker n hn
    exact ⟨marker, List.mem_append_left _ hmarker, hrest⟩
  case finalizer_finalized =>
    intro n hn
    exact hfinalizers _ hn

theorem Sound.cut_le_of_epoch_lt
    (hs : Sound config events s) {marker other : ℕ × ℕ}
    (hmarker : marker ∈ s.process.markers)
    (hother : other ∈ s.process.markers) (hlt : marker.1 < other.1) :
    marker.2 ≤ other.2 := by
  have hforward : s.process.markers.Pairwise
      fun a b : ℕ × ℕ => a.1 < b.1 → a.2 ≤ b.2 :=
    hs.markers_pairwise.imp fun h _ => h.2
  have hbackward : s.process.markers.Pairwise
      (flip fun a b : ℕ × ℕ => a.1 < b.1 → a.2 ≤ b.2) :=
    hs.markers_pairwise.imp fun h hflip => absurd h.1 (not_lt.mpr hflip.le)
  exact List.Pairwise.forall_of_forall_of_flip
    (fun _ _ h => absurd h (lt_irrefl _)) hforward hbackward
    hmarker hother hlt

omit [DecidableEq Group] in
/-- Handling a message only takes it off the list, or also truncates for a
finalizer. -/
theorem handleMessage_eq_some
    {succeeds : Bool} (h : s.handleMessage succeeds = some s') :
    ∃ message rest acked,
      s.process.unhandled = message :: rest ∧
      ∃ db, s' =
          { s with
            db := db
            process :=
              { s.process with unhandled := rest, acked := acked } } ∧
        ((db = s.db ∧
            ¬(succeeds ∧ ∃ epoch, message = .finalizer epoch ∧ 0 < epoch)) ∨
          ∃ epoch, message = .finalizer epoch ∧ 0 < epoch ∧ succeeds ∧
            db = s.db.truncateFinalizedCheckpointData (epoch - 1)) := by
  unfold Sink.handleMessage at h
  split at h
  case h_1 => cases h
  case h_2 epoch cut rest hunhandled =>
    refine ⟨_, rest, _, hunhandled, s.db, (Option.some.inj h).symm,
      .inl ⟨rfl, ?_⟩⟩
    rintro ⟨-, _, hmessage, -⟩
    cases hmessage
  case h_3 epoch rest hunhandled =>
    refine ⟨_, rest, s.process.acked, hunhandled, _,
      (Option.some.inj h).symm, ?_⟩
    by_cases htruncates : 0 < epoch ∧ succeeds
    · rw [if_pos htruncates]
      exact .inr ⟨epoch, rfl, htruncates.1, htruncates.2, rfl⟩
    · rw [if_neg htruncates]
      refine .inl ⟨rfl, ?_⟩
      rintro ⟨hsucceeds, _, hmessage, hpos⟩
      cases hmessage
      exact htruncates ⟨hpos, hsucceeds⟩

omit [DecidableEq Group] in
theorem landing_truncate_eq_some
    {db : Database Key Group Column} {n : ℕ} {key : Key × String}
    {entry : LandingRow Key Group Column} :
    (db.truncateFinalizedCheckpointData n).landing key = some entry ↔
      db.landing key = some entry ∧ n < entry.epoch := by
  simp [Database.truncateFinalizedCheckpointData, Option.filter_eq_some_iff]

omit [DecidableEq Group] in
theorem isSome_truncate
    {db : Database Key Group Column} {n : ℕ} {key : Key × String} :
    ((db.truncateFinalizedCheckpointData n).landing key).isSome ↔
      ∃ entry, db.landing key = some entry ∧ n < entry.epoch := by
  simp only [Option.isSome_iff_exists, landing_truncate_eq_some]

/-- The rows that were read since the durable position carry a tag that the
finalizers of the run do not reach. -/
theorem Sound.tag_of_finalized
    (hs : Sound config events s) {epoch i : ℕ}
    (hepoch : epoch ∈ s.process.finalized) (hpos : 0 < epoch)
    {row : SourceRow Key Group Column} (hdurable : s.durable ≤ i)
    (hlt : i < s.process.position) (hi : events[i]? = some row) :
    ∃ entry, s.db.landing row.landingKey = some entry ∧
      epoch - 1 < entry.epoch := by
  obtain ⟨entry, hentry⟩ := Option.isSome_iff_exists.mp
    (hs.landing_recent i row hdurable hlt hi)
  obtain ⟨marker, hmarker, rfl, hcut⟩ := hs.finalized_marker epoch hepoch
  have htag := hs.landing_tagged marker hmarker i row entry
    (hcut.trans hdurable) hlt hi hentry
  exact ⟨entry, hentry, by omega⟩

theorem Sound.handleMessage
    {succeeds : Bool} (hs : Sound config events s)
    (h : s.handleMessage succeeds = some s') : Sound config events s' := by
  obtain ⟨message, rest, acked, hunhandled, db, rfl, hdb⟩ :=
    handleMessage_eq_some h
  have hrest : ∀ epoch, Message.finalizer epoch ∈ rest →
      epoch ∈ s.process.finalized := by
    intro epoch hepoch
    apply hs.finalizer_finalized
    rw [hunhandled]
    exact List.mem_cons_of_mem _ hepoch
  rcases hdb with ⟨rfl, -⟩ | ⟨epoch, rfl, hpos, -, rfl⟩
  · exact { hs with finalizer_finalized := hrest }
  · have hepoch : epoch ∈ s.process.finalized := by
      apply hs.finalizer_finalized
      rw [hunhandled]
      exact List.mem_cons_self
    refine
      { hs with
        landing_row := ?_
        landing_recent := ?_
        landing_tagged := ?_
        finalizer_finalized := hrest }
    · intro key entry hentry
      exact hs.landing_row key entry (landing_truncate_eq_some.mp hentry).1
    · intro i row hdurable hlt hi
      rw [isSome_truncate]
      exact hs.tag_of_finalized hepoch hpos hdurable hlt hi
    · intro marker hmarker i row entry hcut hlt hi hentry
      exact hs.landing_tagged marker hmarker i row entry hcut hlt hi
        (landing_truncate_eq_some.mp hentry).1

theorem Sound.finalize
    {epoch : ℕ} (hs : Sound config events s)
    (h : s.finalize epoch = some s') : Sound config events s' := by
  unfold Sink.finalize at h
  split_ifs at h with hguard
  obtain ⟨-, hlater⟩ := hguard
  split at h
  case h_1 => cases h
  case h_2 marker hfind =>
    obtain rfl := Option.some.inj h
    have hmarker := List.mem_of_find?_eq_some hfind
    have hepoch : marker.1 = epoch := by simpa using List.find?_some hfind
    subst hepoch
    have hdurable := hs.durable_le_marker marker hmarker hlater
    refine
      { hs with
        durable_le := (hs.marker_le marker hmarker).2
        landing_recent := ?_
        durable_le_marker := ?_
        finalized_marker := ?_
        finalizer_finalized := ?_ }
    · intro i row hle
      exact hs.landing_recent i row (hdurable.trans hle)
    · intro other hother hlatest
      have hlt : marker.1 < other.1 := hlatest _ (by simp)
      exact hs.cut_le_of_epoch_lt hmarker hother hlt
    · intro n hn
      rcases List.mem_append.mp hn with hn | hn
      · obtain ⟨other, hother, hn, hcut⟩ := hs.finalized_marker n hn
        exact ⟨other, hother, hn, hcut.trans hdurable⟩
      · exact ⟨marker, hmarker, (List.mem_singleton.mp hn).symm, le_rfl⟩
    · intro n hn
      exact List.mem_append_left _ (hs.finalizer_finalized n hn)

theorem Sound.crash (hs : Sound config events s) :
    Sound config events
      { s with process := Process.startAt s.durable } where
  durable_le := le_rfl
  position_le := hs.durable_le.trans hs.position_le
  target_eq := hs.target_eq
  inserted_mem := hs.inserted_mem
  read_inserted := fun i row hlt =>
    hs.read_inserted i row (hlt.trans_le hs.durable_le)
  landing_row := hs.landing_row
  landing_recent := fun i row hle hlt => absurd hlt (not_lt.mpr hle)
  landing_tagged := by simp [Process.startAt]
  marker_le := by simp [Process.startAt]
  markers_pairwise := List.Pairwise.nil
  durable_le_marker := by simp [Process.startAt]
  finalized_marker := by simp [Process.startAt]
  finalizer_finalized := by simp [Process.startAt]

theorem Sound.step
    [DecidableEq Key] (hdistinct : (events.map SourceRow.landingKey).Nodup)
    {action : Action} (hs : Sound config events s)
    (h : s.step config events action = some s') :
    Sound config events s' := by
  cases action with
  | batch rows messages => exact hs.processBatch hdistinct h
  | handle succeeds => exact hs.handleMessage h
  | finalize epoch => exact hs.finalize h
  | crash =>
      obtain rfl := Option.some.inj h
      exact hs.crash

end Steps

/-! ## Counting once -/

section Once

variable {events : List (SourceRow Key Group Column)}
variable {s s' : Sink Key Group Column}

/-- The step truncates no landing row of an event that the run has still to
read.  It is a condition on the successful handling of a finalizer. -/
def SparesUnread (events : List (SourceRow Key Group Column))
    (s : Sink Key Group Column) : Action → Prop
  | .handle true =>
      match s.process.unhandled with
      | .finalizer epoch :: _ =>
          0 < epoch → ∀ row ∈ events.drop s.process.position,
            ∀ entry ∈ s.db.landing row.landingKey, epoch - 1 < entry.epoch
      | _ => True
  | _ => True

instance (events : List (SourceRow Key Group Column))
    (s : Sink Key Group Column) (action : Action) :
    Decidable (SparesUnread events s action) :=
  match action with
  | .handle true =>
      match h : s.process.unhandled with
      | [] => isTrue (by simp [SparesUnread, h])
      | .marker _ _ :: _ => isTrue (by simp [SparesUnread, h])
      | .finalizer epoch :: _ =>
          decidable_of_iff
            (0 < epoch → ∀ row ∈ events.drop s.process.position,
              ∀ entry ∈ s.db.landing row.landingKey, epoch - 1 < entry.epoch)
            (by simp [SparesUnread, h])
  | .handle false => isTrue trivial
  | .batch _ _ => isTrue trivial
  | .finalize _ => isTrue trivial
  | .crash => isTrue trivial

/-- No event was given to the trigger twice, and none that the run has still
to read will be. -/
def CountedOnce (events : List (SourceRow Key Group Column))
    (s : Sink Key Group Column) : Prop :=
  s.db.inserted.Nodup ∧
    ∀ row ∈ events.drop s.process.position, row ∈ s.db.inserted →
      (s.db.landing row.landingKey).isSome

theorem mem_drop_iff
    {position : ℕ} {row : SourceRow Key Group Column} :
    row ∈ events.drop position ↔
      ∃ i, position ≤ i ∧ events[i]? = some row := by
  simp only [List.mem_iff_getElem?, List.getElem?_drop]
  constructor
  · rintro ⟨i, hi⟩
    exact ⟨position + i, by omega, hi⟩
  · rintro ⟨i, hposition, hi⟩
    exact ⟨i - position, by rwa [Nat.add_sub_cancel' hposition]⟩

theorem landingKey_notMem_batch
    (hdistinct : (events.map SourceRow.landingKey).Nodup)
    {position rows : ℕ} {row : SourceRow Key Group Column}
    (hrow : row ∈ events.drop (position + rows)) :
    row.landingKey ∉
      ((events.drop position).take rows).map SourceRow.landingKey := by
  intro hmem
  obtain ⟨other, hother, hkey⟩ := List.mem_map.mp hmem
  obtain ⟨i, hle, hi⟩ := mem_drop_iff.mp hrow
  obtain ⟨j, -, hlt, hj⟩ := mem_batch_iff.mp hother
  have hij := index_eq_of_landingKey_eq hdistinct hj hi hkey
  omega

variable [DecidableEq Group] {config : AggregateConfig Group Column}

theorem countedOnce_processBatch
    [DecidableEq Key]
    (hdistinct : (events.map SourceRow.landingKey).Nodup)
    {rows : ℕ} {messages : List Message}
    (hs : Sound config events s)
    (h : s.processBatch config events rows messages = some s') :
    CountedOnce events s' ↔ CountedOnce events s := by
  obtain ⟨db, epoch, -, -, -, hwrote, rfl⟩ :=
    processBatch_eq_some (fun m hm => (hs.marker_le m hm).1) h
  have hevents : events.Nodup := List.Nodup.of_map _ hdistinct
  have hbatch : ∀ row ∈ (events.drop s.process.position).take rows,
      row ∈ events.drop s.process.position := fun row hrow =>
    List.mem_of_mem_take hrow
  have hlater : ∀ row ∈ events.drop (s.process.position + rows),
      row ∈ events.drop s.process.position := by
    intro row hrow
    rw [← List.drop_drop] at hrow
    exact List.mem_of_mem_drop hrow
  simp only [CountedOnce, hwrote.inserted_eq, List.nodup_append]
  constructor
  · rintro ⟨⟨hnodup, -, hdisjoint⟩, hunread⟩
    refine ⟨hnodup, ?_⟩
    intro row hrow hmem
    rw [← List.take_append_drop rows (events.drop s.process.position),
      List.mem_append, List.drop_drop] at hrow
    rcases hrow with hrow | hrow
    · -- otherwise the batch gives the row to the trigger again
      by_contra hnone
      refine hdisjoint row hmem row ?_ rfl
      rw [List.mem_filter]
      exact ⟨hrow, by simpa using hnone⟩
    · have hsome := hunread row hrow (List.mem_append_left _ hmem)
      rwa [hwrote.landing_of_notMem
        (landingKey_notMem_batch hdistinct hrow)] at hsome
  · rintro ⟨hnodup, hunread⟩
    refine ⟨⟨hnodup, ?_, ?_⟩, ?_⟩
    · exact ((hevents.sublist (List.drop_sublist ..)).sublist
        (List.take_sublist ..)).filter _
    · rintro row hmem _ hnew rfl
      obtain ⟨hrow, hnone⟩ := List.mem_filter.mp hnew
      have hsome := hunread row (hbatch row hrow) hmem
      simp [Option.isNone_iff_eq_none.mp hnone] at hsome
    · intro row hrow hmem
      apply hwrote.isSome_mono
      apply hunread row (hlater row hrow)
      rcases List.mem_append.mp hmem with hmem | hnew
      · exact hmem
      · have hin := List.mem_of_mem_filter hnew
        exact absurd (List.mem_map_of_mem hin)
          (landingKey_notMem_batch hdistinct hrow)

/-- Truncating takes away what keeps an unread row from being counted
again. -/
theorem countedOnce_truncate
    (hdistinct : (events.map SourceRow.landingKey).Nodup)
    (hs : Sound config events s) {n : ℕ} {rest : List Message}
    {acked : List ℕ} :
    CountedOnce events
        { s with
          db := s.db.truncateFinalizedCheckpointData n
          process := { s.process with unhandled := rest, acked := acked } } ↔
      CountedOnce events s ∧
        ∀ row ∈ events.drop s.process.position,
          ∀ entry ∈ s.db.landing row.landingKey, n < entry.epoch := by
  simp only [CountedOnce, isSome_truncate]
  constructor
  · rintro ⟨hnodup, hunread⟩
    refine ⟨⟨hnodup, ?_⟩, ?_⟩
    · intro row hrow hmem
      obtain ⟨entry, hentry, -⟩ := hunread row hrow hmem
      rw [hentry]
      rfl
    · intro row hrow entry hentry
      obtain ⟨hkey, hmem⟩ := hs.landing_row _ _ hentry
      have heq : entry.row = row :=
        row_eq_of_landingKey_eq hdistinct (hs.inserted_mem _ hmem)
          (List.mem_of_mem_drop hrow) hkey
      obtain ⟨other, hother, hlt⟩ := hunread row hrow (heq ▸ hmem)
      obtain rfl : other = entry :=
        Option.some.inj (hother.symm.trans hentry)
      exact hlt
  · rintro ⟨⟨hnodup, hunread⟩, htags⟩
    refine ⟨hnodup, ?_⟩
    intro row hrow hmem
    obtain ⟨entry, hentry⟩ :=
      Option.isSome_iff_exists.mp (hunread row hrow hmem)
    exact ⟨entry, hentry, htags row hrow entry hentry⟩

theorem countedOnce_handleMessage
    (hdistinct : (events.map SourceRow.landingKey).Nodup)
    {succeeds : Bool} (hs : Sound config events s)
    (h : s.handleMessage succeeds = some s') :
    CountedOnce events s' ↔
      CountedOnce events s ∧ SparesUnread events s (.handle succeeds) := by
  obtain ⟨message, rest, acked, hunhandled, db, rfl, hdb⟩ :=
    handleMessage_eq_some h
  rcases hdb with ⟨rfl, hkeeps⟩ | ⟨epoch, rfl, hpos, rfl, rfl⟩
  · have hspares : SparesUnread events s (.handle succeeds) := by
      cases succeeds with
      | false => trivial
      | true =>
          cases message with
          | marker _ _ => simp [SparesUnread, hunhandled]
          | finalizer epoch =>
              have hzero : ¬0 < epoch := fun hpos =>
                hkeeps ⟨rfl, epoch, rfl, hpos⟩
              simp [SparesUnread, hunhandled, hzero]
    exact (and_iff_left hspares).symm
  · rw [countedOnce_truncate hdistinct hs]
    simp [SparesUnread, hunhandled, hpos]

/-- Going back to the durable position is harmless: what was read since is
still in the landing table. -/
theorem countedOnce_crash (hs : Sound config events s) :
    CountedOnce events { s with process := Process.startAt s.durable } ↔
      CountedOnce events s := by
  constructor
  · rintro ⟨hnodup, hunread⟩
    refine ⟨hnodup, ?_⟩
    intro row hrow
    obtain ⟨i, hle, hi⟩ := mem_drop_iff.mp hrow
    exact hunread row (mem_drop_iff.mpr ⟨i, hs.durable_le.trans hle, hi⟩)
  · rintro ⟨hnodup, hunread⟩
    refine ⟨hnodup, ?_⟩
    intro row hrow hmem
    obtain ⟨i, hle, hi⟩ := mem_drop_iff.mp hrow
    by_cases hlt : i < s.process.position
    · exact hs.landing_recent i row hle hlt hi
    · exact hunread row (mem_drop_iff.mpr ⟨i, not_lt.mp hlt, hi⟩) hmem

theorem countedOnce_step
    [DecidableEq Key]
    (hdistinct : (events.map SourceRow.landingKey).Nodup)
    {action : Action} (hs : Sound config events s)
    (h : s.step config events action = some s') :
    CountedOnce events s' ↔
      CountedOnce events s ∧ SparesUnread events s action := by
  cases action with
  | batch rows messages =>
      rw [countedOnce_processBatch hdistinct hs h]
      exact (and_iff_left trivial).symm
  | handle succeeds => exact countedOnce_handleMessage hdistinct hs h
  | finalize epoch =>
      have hsame : s'.db = s.db ∧
          s'.process.position = s.process.position := by
        change s.finalize epoch = some s' at h
        unfold Sink.finalize at h
        split_ifs at h
        split at h
        · cases h
        · obtain rfl := Option.some.inj h
          exact ⟨rfl, rfl⟩
      rw [CountedOnce, hsame.1, hsame.2]
      exact (and_iff_left trivial).symm
  | crash =>
      obtain rfl := Option.some.inj h
      rw [countedOnce_crash hs]
      exact (and_iff_left trivial).symm

/-- Whenever the whole sequence of events has been consumed, every event was
given to the trigger exactly once if and only if no landing row of an unread
event was truncated on the way.  The counts and sums of the target table are
then those of the events. -/
theorem postgres_aggregate_counts_once_iff
    [DecidableEq Key] (config : AggregateConfig Group Column)
    (events : List (SourceRow Key Group Column))
    (hdistinct : (events.map SourceRow.landingKey).Nodup)
    (actions : List Action) (t : Sink Key Group Column)
    (hrun : Transition.run (Sink.step config events) Sink.start actions =
      some t)
    (hconsumed : t.process.position = events.length) :
    (t.db.inserted.Perm events ↔
        Transition.AllSteps (Sink.step config events) (SparesUnread events)
          Sink.start actions) ∧
      (Transition.AllSteps (Sink.step config events) (SparesUnread events)
          Sink.start actions →
        t.db.target = config.totals events) := by
  have hsound : Sound config events t :=
    Transition.run_invariant
      (fun _ _ _ hs hstep => hs.step hdistinct hstep)
      (sound_start config events) hrun
  have hstart : CountedOnce events (Sink.start : Sink Key Group Column) := by
    simp [CountedOnce, Sink.start, Database.empty]
  have honce : CountedOnce events t ↔
      Transition.AllSteps (Sink.step config events) (SparesUnread events)
        Sink.start actions :=
    Transition.allSteps_iff_of_run
      (fun _ _ _ hs hstep => hs.step hdistinct hstep)
      (fun _ _ _ hs hstep => countedOnce_step hdistinct hs hstep)
      (sound_start config events) hstart hrun
  have hevents : events.Nodup := List.Nodup.of_map _ hdistinct
  have hperm : t.db.inserted.Perm events ↔ CountedOnce events t := by
    constructor
    · intro hperm
      refine ⟨hperm.nodup_iff.mpr hevents, ?_⟩
      simp [hconsumed]
    · rintro ⟨hnodup, -⟩
      rw [List.perm_ext_iff_of_nodup hnodup hevents]
      intro row
      refine ⟨hsound.inserted_mem row, ?_⟩
      intro hrow
      obtain ⟨i, hi⟩ := List.mem_iff_getElem?.mp hrow
      obtain ⟨hlt, -⟩ := List.getElem?_eq_some_iff.mp hi
      exact hsound.read_inserted i row (hconsumed ▸ hlt) hi
  refine ⟨hperm.trans honce, ?_⟩
  intro hall
  rw [hsound.target_eq]
  exact totals_perm (hperm.mpr (honce.mpr hall))

end Once

/-- `COUNT(*)` for each group. -/
def countByGroup : AggregateConfig ℕ Unit where
  sentinel := none
  aggregates := [.count]
  aggregates_ne := by simp

def insertOf (key : ℕ) : SourceRow ℕ ℕ Unit :=
  ⟨key, "i", 0, fun _ => none⟩

def replayAfterCheckpoint : List Action :=
  [.batch 1 [], .batch 1 [.marker 1 1], .handle true, .finalize 1,
    .batch 0 [.finalizer 1], .handle true, .crash, .batch 2 []]

/-- A checkpoint behind the first of three events becomes durable, and its
finalizer removes the landing row of that event.  After the crash the second
event comes again, in one batch with the third. -/
theorem postgres_aggregate_counts_replayed_once :
    ∃ t : Sink ℕ ℕ Unit,
      Transition.run
          (Sink.step countByGroup [insertOf 1, insertOf 2, insertOf 3])
          Sink.start replayAfterCheckpoint = some t ∧
        t.db.inserted.Perm [insertOf 1, insertOf 2, insertOf 3] ∧
        t.db.target =
          countByGroup.totals [insertOf 1, insertOf 2, insertOf 3] := by
  have hall : Transition.AllSteps
      (Sink.step countByGroup [insertOf 1, insertOf 2, insertOf 3])
      (SparesUnread [insertOf 1, insertOf 2, insertOf 3]) Sink.start
      replayAfterCheckpoint := by
    decide +kernel
  obtain ⟨t, hrun, hconsumed⟩ : ∃ t,
      Transition.run
          (Sink.step countByGroup [insertOf 1, insertOf 2, insertOf 3])
          Sink.start replayAfterCheckpoint = some t ∧
        t.process.position = 3 :=
    Transition.exists_run_of_decide (by decide +kernel)
  have hcounts := postgres_aggregate_counts_once_iff countByGroup
    [insertOf 1, insertOf 2, insertOf 3] (by decide) _ t hrun hconsumed
  exact ⟨t, hrun, hcounts.1.mpr hall, hcounts.2 hall⟩

/-- The only event is written by a run that crashes before it is in a
checkpoint.  The next run finalizes an empty checkpoint first, which removes
the leftover, and counts the event again. -/
theorem postgres_aggregate_counts_leftover_twice :
    ∃ t : Sink ℕ ℕ Unit,
      Transition.run (Sink.step countByGroup [insertOf 1]) Sink.start
          [.batch 1 [], .crash, .batch 0 [.marker 1 0], .handle true,
            .finalize 1, .batch 0 [.finalizer 1], .handle true,
            .batch 1 []] = some t ∧
        t.process.position = [insertOf 1].length ∧
        t.db.target 0 = some [2] ∧
        countByGroup.totals [insertOf 1] 0 = some [1] := by
  exact Transition.exists_run_of_decide (by decide +kernel)

end PostgresAggregate

end Streamling
