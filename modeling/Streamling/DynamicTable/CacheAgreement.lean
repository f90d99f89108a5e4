import Streamling.DynamicTable.PostgresCache
import Streamling.Support.Run

/-!
# The cache of a dynamic table agrees with the table

Tasks are reasoned about one at a time.  What any other task or process can do
to the shared state is captured by `Grows`: rows are added with later times,
the cache only gains keys, and whoever holds the write lock finds the cache
and the returned appends unchanged.  Each phase of a task has an assertion
that survives such changes, and each step of a task leads from the assertion
of one phase to that of the next.
-/

namespace Streamling

namespace DynamicTable

/-! ## Assertions -/

def Committed (table : List Row) (key : String) : Prop :=
  ∃ row ∈ table, row.key = key

/-- The watermark is the time of a committed row. -/
def Seen (table : List Row) (watermark : Option ℕ) : Prop :=
  ∀ w ∈ watermark, ∃ row ∈ table, row.time = w

/-- The set has all keys up to a watermark. -/
structure Covers (table : List Row) (values : ArrowKeySet)
    (watermark : Option ℕ) : Prop where
  seen : Seen table watermark
  contains : ∀ w ∈ watermark, ∀ row ∈ table, row.time ≤ w →
    values.contains row.key

/-- No more calls were over than later. -/
structure Past.Within (before after : Past) : Prop where
  returned : before.returned ⊆ after.returned
  observed : before.observed ⊆ after.observed

theorem Past.Within.refl (past : Past) : past.Within past :=
  ⟨List.Subset.refl _, List.Subset.refl _⟩

theorem Past.Within.trans
    {before middle after : Past} (h : before.Within middle)
    (h' : middle.Within after) : before.Within after :=
  ⟨List.Subset.trans h.returned h'.returned,
    List.Subset.trans h.observed h'.observed⟩

theorem Past.within_return (s : Shared) (values : List String) :
    s.past.Within (s.return values).past :=
  ⟨List.subset_append_left .., List.Subset.refl _⟩

theorem Past.within_answer (s : Shared) (observed : Option (Option ℕ)) :
    s.past.Within (s.answer observed).past :=
  ⟨List.Subset.refl _, List.subset_append_left ..⟩

/-- The cache has only committed keys, all of them up to its watermark and up
to every watermark that was observed, and those of every append that
returned. -/
structure SharedSound (s : Shared) : Prop where
  cached_committed : ∀ cache ∈ s.cache, ∀ key,
    cache.values.contains key → Committed s.table key
  cached_covers : ∀ cache ∈ s.cache,
    Covers s.table cache.values cache.updatedAt
  cached_returned : ∀ cache ∈ s.cache, ∀ key ∈ s.past.returned,
    cache.values.contains key
  returned_committed : ∀ key ∈ s.past.returned, Committed s.table key
  cached_observed : ∀ cache ∈ s.cache, ∀ w ∈ s.past.observed,
    Covers s.table cache.values (some w)
  observed_cached : s.cache = none → s.past.observed = []

/-- The task holds the write lock to load what is newer than the cache. -/
structure Holds (s : Shared) (id : ℕ) (observed updatedSince : Option ℕ) :
    Prop where
  writer_eq : s.writer = some id
  since_eq : updatedSince = s.cache.bind fun cache => cache.updatedAt
  observed_seen : Seen s.table observed

/-- A snapshot for the cache: its keys are committed and, with those up to
the watermark of the cache, are all up to the new watermark. -/
structure SnapshotSound (s : Shared)
    (observed updatedSince updatedAt : Option ℕ) (keys : List String) :
    Prop where
  committed : ∀ key ∈ keys, Committed s.table key
  seen : Seen s.table updatedAt
  reaches : ∀ w ∈ observed, ∃ u ∈ updatedAt, w ≤ u
  covers : ∀ u ∈ updatedAt, ∀ row ∈ s.table, row.time ≤ u →
    row.key ∈ keys ∨ ∃ v ∈ updatedSince, row.time ≤ v
  full : s.cache = none → ∀ key ∈ s.past.returned, key ∈ keys

/-- What an answer says about the table. -/
structure AnswerSound (table : List Row) (needles : List (Option String))
    (before : Past) (observed : Option (Option ℕ))
    (answer : String → Bool) : Prop where
  committed : ∀ key, some key ∈ needles → answer key → Committed table key
  returned : ∀ key ∈ before.returned, some key ∈ needles → answer key
  seen : ∀ w ∈ observed, Seen table w
  covers : ∀ watermark ∈ observed, ∀ w ∈ watermark, ∀ row ∈ table,
    row.time ≤ w → some row.key ∈ needles → answer row.key
  seen_before : ∀ w ∈ before.observed, Seen table (some w)
  covers_before : ∀ w ∈ before.observed, ∀ row ∈ table, row.time ≤ w →
    some row.key ∈ needles → answer row.key

def ContainsSound (s : Shared) (id : ℕ) (needles : List (Option String))
    (before : Past) : ContainsPhase → Prop
  | .begun => True
  | .checked populated => populated → s.cache.isSome
  | .claiming populated _ _ => populated → s.cache.isSome
  | .storing _ => True
  | .probing => True
  | .compared observed => Seen s.table observed
  | .waiting observed => Seen s.table observed
  | .loading observed updatedSince => Holds s id observed updatedSince
  | .fetching observed updatedSince updatedAt keys rest =>
      Holds s id observed updatedSince ∧
        SnapshotSound s observed updatedSince updatedAt (keys ++ rest)
  | .loaded observed updatedSince updatedAt keys =>
      Holds s id observed updatedSince ∧
        SnapshotSound s observed updatedSince updatedAt keys
  | .refreshed observed =>
      ∃ cache ∈ s.cache, ∀ w ∈ observed, Covers s.table cache.values w
  | .answered observed result =>
      ∃ answer : String → Bool,
        result = needles.map (fun needle => needle.map answer) ∧
          AnswerSound s.table needles before observed answer
  | .failed => True

/-- A value of an append is in a batch, and a reported batch is committed. -/
def AppendSound (s : Shared) (values : List String) : AppendPhase → Prop
  | .committing batches =>
      (∀ value ∈ values, ∃ batch ∈ batches, value ∈ batch.1) ∧
        ∀ batch ∈ batches, batch.2 → ∀ value ∈ batch.1,
          Committed s.table value
  | .committed => ∀ value ∈ values, Committed s.table value
  | .returned => True
  | .failed => True

def TaskSound (s : Shared) (id : ℕ) : Task → Prop
  | .contains needles before phase =>
      before.Within s.past ∧ ContainsSound s id needles before phase
  | .append values phase => AppendSound s values phase

/-! ## What others can do -/

/-- The change another actor can make. -/
structure Grows (actor : Option ℕ) (s s' : Shared) : Prop where
  table_eq : ∃ rows, s'.table = s.table ++ rows ∧
    Later s.table (rows.map Row.time)
  cache_grows : ∀ cache ∈ s.cache, ∃ cache' ∈ s'.cache, ∀ key,
    cache.values.contains key → cache'.values.contains key
  past_within : s.past.Within s'.past
  locked : ∀ holder, s.writer = some holder → some holder ≠ actor →
    s'.writer = some holder ∧ s'.cache = s.cache ∧ s'.past = s.past

theorem grows_of_eq
    {actor : Option ℕ} {s s' : Shared} (htable : s'.table = s.table)
    (hcache : s'.cache = s.cache) (hpast : s'.past = s.past)
    (hwriter : ∀ holder, s.writer = some holder → some holder ≠ actor →
      s'.writer = some holder) : Grows actor s s' where
  table_eq := ⟨[], by simpa using htable, by simp [Later]⟩
  cache_grows := by
    intro cache hmem
    exact ⟨cache, hcache ▸ hmem, fun _ h => h⟩
  past_within := hpast ▸ Past.Within.refl _
  locked := fun holder hholder hne =>
    ⟨hwriter holder hholder hne, hcache, hpast⟩

theorem Grows.refl (actor : Option ℕ) (s : Shared) : Grows actor s s :=
  grows_of_eq rfl rfl rfl fun _ h _ => h

/-- Without a writer, the cache may be extended and a call may end. -/
theorem grows_of_unlocked
    {actor : Option ℕ} {s s' : Shared} (hwriter : s.writer = none)
    (htable : s'.table = s.table) (hpast : s.past.Within s'.past)
    (hcache : ∀ cache ∈ s.cache, ∃ cache' ∈ s'.cache, ∀ key,
      cache.values.contains key → cache'.values.contains key) :
    Grows actor s s' where
  table_eq := ⟨[], by simpa using htable, by simp [Later]⟩
  cache_grows := hcache
  past_within := hpast
  locked := by
    intro holder hholder
    rw [hwriter] at hholder
    cases hholder

section Stable

variable {actor : Option ℕ} {s s' : Shared} (h : Grows actor s s')

include h

theorem Grows.committed {key : String} (hkey : Committed s.table key) :
    Committed s'.table key := by
  obtain ⟨rows, heq, -⟩ := h.table_eq
  obtain ⟨row, hrow, hkey⟩ := hkey
  exact ⟨row, by simp [heq, hrow], hkey⟩

theorem Grows.seen {watermark : Option ℕ} (hseen : Seen s.table watermark) :
    Seen s'.table watermark := by
  obtain ⟨rows, heq, -⟩ := h.table_eq
  intro w hw
  obtain ⟨row, hrow, htime⟩ := hseen w hw
  exact ⟨row, by simp [heq, hrow], htime⟩

/-- A row no later than one that was seen is not new. -/
theorem Grows.mem_of_time_le
    {watermark : Option ℕ} (hseen : Seen s.table watermark) {w : ℕ}
    (hw : w ∈ watermark) {row : Row} (hrow : row ∈ s'.table)
    (htime : row.time ≤ w) : row ∈ s.table := by
  obtain ⟨rows, heq, hlater⟩ := h.table_eq
  obtain ⟨old, hold, holdTime⟩ := hseen w hw
  rw [heq] at hrow
  rcases List.mem_append.mp hrow with hrow | hrow
  · exact hrow
  · have hlt := hlater row.time (List.mem_map_of_mem hrow) old hold
    omega

theorem Grows.covers
    {values values' : ArrowKeySet} {watermark : Option ℕ}
    (hvalues : ∀ key, values.contains key → values'.contains key)
    (hcovers : Covers s.table values watermark) :
    Covers s'.table values' watermark where
  seen := h.seen hcovers.seen
  contains := by
    intro w hw row hrow htime
    have hold := h.mem_of_time_le hcovers.seen hw hrow htime
    exact hvalues _ (hcovers.contains w hw row hold htime)

theorem Grows.holds
    {id : ℕ} (hne : some id ≠ actor) {observed updatedSince : Option ℕ}
    (hholds : Holds s id observed updatedSince) :
    Holds s' id observed updatedSince := by
  obtain ⟨hwriter, hcache, -⟩ := h.locked id hholds.writer_eq hne
  exact ⟨hwriter, hcache ▸ hholds.since_eq, h.seen hholds.observed_seen⟩

theorem Grows.snapshotSound
    {id : ℕ} (hne : some id ≠ actor) (hwriter : s.writer = some id)
    {observed updatedSince updatedAt : Option ℕ} {keys : List String}
    (hload : SnapshotSound s observed updatedSince updatedAt keys) :
    SnapshotSound s' observed updatedSince updatedAt keys := by
  obtain ⟨-, hcache, hpast⟩ := h.locked id hwriter hne
  constructor
  · exact fun key hkey => h.committed (hload.committed key hkey)
  · exact h.seen hload.seen
  · exact hload.reaches
  · intro u hu row hrow htime
    have hold := h.mem_of_time_le hload.seen hu hrow htime
    exact hload.covers u hu row hold htime
  · rw [hcache, hpast]
    exact hload.full

theorem Grows.answerSound
    {needles : List (Option String)} {before : Past}
    {observed : Option (Option ℕ)} {answer : String → Bool}
    (hanswer : AnswerSound s.table needles before observed answer) :
    AnswerSound s'.table needles before observed answer := by
  constructor
  · exact fun key hkey htrue =>
      h.committed (hanswer.committed key hkey htrue)
  · exact hanswer.returned
  · exact fun w hw => h.seen (hanswer.seen w hw)
  · intro watermark hwatermark w hw row hrow htime
    have hold :=
      h.mem_of_time_le (hanswer.seen _ hwatermark) hw hrow htime
    exact hanswer.covers watermark hwatermark w hw row hold htime
  · exact fun w hw => h.seen (hanswer.seen_before w hw)
  · intro w hw row hrow htime
    have hold :=
      h.mem_of_time_le (hanswer.seen_before w hw) rfl hrow htime
    exact hanswer.covers_before w hw row hold htime

theorem Grows.cache_isSome (hsome : s.cache.isSome) : s'.cache.isSome := by
  obtain ⟨cache, hcache⟩ := Option.isSome_iff_exists.mp hsome
  obtain ⟨cache', hcache', -⟩ := h.cache_grows cache hcache
  exact Option.isSome_iff_exists.mpr ⟨cache', hcache'⟩

/-- The assertion of a task is stable under the steps of the others. -/
theorem Grows.taskSound
    {id : ℕ} (hne : some id ≠ actor) {task : Task}
    (htask : TaskSound s id task) : TaskSound s' id task := by
  cases task with
  | append values phase =>
      cases phase with
      | committing batches =>
          exact ⟨htask.1, fun batch hbatch hreported value hvalue =>
            h.committed (htask.2 batch hbatch hreported value hvalue)⟩
      | committed => exact fun value hvalue => h.committed (htask value hvalue)
      | returned => trivial
      | failed => trivial
  | contains needles before phase =>
      obtain ⟨hbefore, hphase⟩ := htask
      refine ⟨hbefore.trans h.past_within, ?_⟩
      cases phase with
      | begun => trivial
      | storing nowMs => trivial
      | probing => trivial
      | failed => trivial
      | checked populated => exact fun hp => h.cache_isSome (hphase hp)
      | claiming populated nowMs last =>
          exact fun hp => h.cache_isSome (hphase hp)
      | compared observed => exact h.seen hphase
      | waiting observed => exact h.seen hphase
      | loading observed updatedSince => exact h.holds hne hphase
      | fetching observed updatedSince updatedAt keys rest =>
          exact ⟨h.holds hne hphase.1,
            h.snapshotSound hne hphase.1.writer_eq hphase.2⟩
      | loaded observed updatedSince updatedAt keys =>
          exact ⟨h.holds hne hphase.1,
            h.snapshotSound hne hphase.1.writer_eq hphase.2⟩
      | refreshed observed =>
          obtain ⟨cache, hcache, hcovers⟩ := hphase
          obtain ⟨cache', hcache', hvalues⟩ := h.cache_grows cache hcache
          exact ⟨cache', hcache', fun w hw =>
            h.covers hvalues (hcovers w hw)⟩
      | answered observed result =>
          obtain ⟨answer, hresult, hanswer⟩ := hphase
          exact ⟨answer, hresult, h.answerSound hanswer⟩

end Stable

/-! ## Queries -/

theorem latestUpdate_seen (table : List Row) :
    Seen table (latestUpdate table) := by
  intro w hw
  obtain ⟨hmem, -⟩ := List.max?_eq_some_iff.mp hw
  exact List.mem_map.mp hmem

theorem time_le_latestUpdate
    {table : List Row} {row : Row} (hrow : row ∈ table) :
    ∃ u ∈ latestUpdate table, row.time ≤ u := by
  have hmem : row.time ∈ table.map Row.time := List.mem_map_of_mem hrow
  cases hmax : latestUpdate table with
  | none =>
      have hnil := List.max?_eq_none_iff.mp hmax
      rw [hnil] at hmem
      exact absurd hmem List.not_mem_nil
  | some u => exact ⟨u, rfl, (List.max?_eq_some_iff.mp hmax).2 _ hmem⟩

theorem committed_of_mem_keysSince
    {table : List Row} {updatedSince : Option ℕ} {key : String}
    (h : key ∈ keysSince table updatedSince) : Committed table key := by
  cases updatedSince with
  | none => exact List.mem_map.mp h
  | some time =>
      obtain ⟨row, hrow, hkey⟩ := List.mem_map.mp h
      exact ⟨row, List.mem_of_mem_filter hrow, hkey⟩

theorem mem_keysSince
    {table : List Row} {row : Row} (hrow : row ∈ table)
    (updatedSince : Option ℕ) :
    row.key ∈ keysSince table updatedSince ∨
      ∃ v ∈ updatedSince, row.time ≤ v := by
  cases updatedSince with
  | none => exact .inl (List.mem_map_of_mem hrow)
  | some time =>
      by_cases hlater : time < row.time
      · left
        apply List.mem_map_of_mem
        exact List.mem_filter.mpr ⟨hrow, by simpa using hlater⟩
      · exact .inr ⟨time, rfl, not_lt.mp hlater⟩

/-- The snapshot of a load, at the moment it is taken. -/
theorem snapshotSound_of_holds
    {s : Shared} (hs : SharedSound s) {id : ℕ}
    {observed updatedSince : Option ℕ}
    (hholds : Holds s id observed updatedSince) :
    SnapshotSound s observed updatedSince (latestUpdate s.table)
      (keysSince s.table updatedSince) := by
  constructor
  · exact fun key hkey => committed_of_mem_keysSince hkey
  · exact latestUpdate_seen s.table
  · intro w hw
    obtain ⟨row, hrow, rfl⟩ := hholds.observed_seen w hw
    exact time_le_latestUpdate hrow
  · exact fun u hu row hrow htime => mem_keysSince hrow updatedSince
  · intro hnone key hkey
    obtain ⟨row, hrow, rfl⟩ := hs.returned_committed key hkey
    have hsince : updatedSince = none := by
      rw [hholds.since_eq, hnone]
      rfl
    rw [hsince]
    exact List.mem_map_of_mem hrow

/-! ## The steps of a contains call -/

/-- What a step of a task has to establish. -/
structure StepSound (id : ℕ) (s s' : Shared) (task : Task) : Prop where
  shared : SharedSound s'
  task : TaskSound s' id task
  grows : Grows (some id) s s'

theorem SharedSound.congr
    {s s' : Shared} (hs : SharedSound s) (htable : s'.table = s.table)
    (hcache : s'.cache = s.cache) (hpast : s'.past = s.past) :
    SharedSound s' := by
  constructor
  · rw [hcache, htable]
    exact hs.cached_committed
  · rw [hcache, htable]
    exact hs.cached_covers
  · rw [hcache, hpast]
    exact hs.cached_returned
  · rw [hpast, htable]
    exact hs.returned_committed
  · rw [hcache, hpast, htable]
    exact hs.cached_observed
  · rw [hcache, hpast]
    exact hs.observed_cached

theorem SharedSound.seen_observed
    {s : Shared} (hs : SharedSound s) (w : ℕ) (hw : w ∈ s.past.observed) :
    Seen s.table (some w) := by
  cases hcache : s.cache with
  | none =>
      rw [hs.observed_cached hcache] at hw
      cases hw
  | some cache => exact (hs.cached_observed cache hcache w hw).seen

section ContainsStep

variable {s : Shared} {id : ℕ} {needles : List (Option String)}
variable {before : Past}

/-- A step that leaves the shared state alone. -/
theorem stepSound_of_same
    {task : Task} (hs : SharedSound s) (htask : TaskSound s id task) :
    StepSound id s s task :=
  ⟨hs, htask, Grows.refl _ s⟩

/-- A step that only sets the debounce clock. -/
theorem stepSound_of_clock
    {phase : ContainsPhase} {nowMs : ℕ} (hs : SharedSound s)
    (hbefore : before.Within s.past)
    (hphase : ContainsSound { s with lastFreshnessCheckMs := nowMs } id
      needles before phase) :
    StepSound id s { s with lastFreshnessCheckMs := nowMs }
      (.contains needles before phase) :=
  ⟨hs.congr rfl rfl rfl, ⟨hbefore, hphase⟩,
    grows_of_eq rfl rfl rfl fun _ h _ => h⟩

/-- A fresh cache has all keys up to the watermark that was observed. -/
theorem refreshed_of_isFresh
    {observed : Option ℕ} (hs : SharedSound s)
    (hfresh : s.isFresh observed) :
    ContainsSound s id needles before (.refreshed (some observed)) := by
  unfold Shared.isFresh at hfresh
  split at hfresh
  case h_1 => cases hfresh
  case h_2 cache hcache =>
    have heq : cache.updatedAt = observed := by simpa using hfresh
    refine ⟨cache, hcache, ?_⟩
    rintro w hw
    obtain rfl : observed = w := Option.some.inj hw
    rw [← heq]
    exact hs.cached_covers cache hcache

theorem Covers.of_reaches
    {table : List Row} {values : ArrowKeySet} {updatedAt observed : Option ℕ}
    (hcovers : Covers table values updatedAt) (hseen : Seen table observed)
    (hreaches : ∀ w ∈ observed, ∃ u ∈ updatedAt, w ≤ u) :
    Covers table values observed where
  seen := hseen
  contains := by
    intro w hw row hrow htime
    obtain ⟨u, hu, hle⟩ := hreaches w hw
    exact hcovers.contains u hu row hrow (htime.trans hle)

theorem SharedSound.setCache
    (hs : SharedSound s) {cache : PostgresDynamicTableCache}
    (hcommitted : ∀ key, cache.values.contains key → Committed s.table key)
    (hcovers : Covers s.table cache.values cache.updatedAt)
    (hreturned : ∀ key ∈ s.past.returned, cache.values.contains key)
    (hobserved : ∀ w ∈ s.past.observed,
      Covers s.table cache.values (some w))
    (writer : Option ℕ) :
    SharedSound { s with cache := some cache, writer := writer } := by
  constructor
  · rintro _ ⟨⟩
    exact hcommitted
  · rintro _ ⟨⟩
    exact hcovers
  · rintro _ ⟨⟩
    exact hreturned
  · exact hs.returned_committed
  · rintro _ ⟨⟩
    exact hobserved
  · intro hnone
    cases hnone

theorem Covers.extendFrom
    {table : List Row} {values : ArrowKeySet} {watermark : Option ℕ}
    (h : Covers table values watermark) (keys : List String) :
    Covers table (values.extendFrom keys).1 watermark where
  seen := h.seen
  contains := fun w hw row hrow htime =>
    ArrowKeySet.contains_extendFrom_of_contains
      (h.contains w hw row hrow htime)

/-- Extending the cached keys by committed ones. -/
theorem SharedSound.extendFrom
    (hs : SharedSound s) {cache : PostgresDynamicTableCache}
    (hcache : s.cache = some cache) {keys : List String}
    (hkeys : ∀ key ∈ keys, Committed s.table key) {updatedAt : Option ℕ}
    (hcovers : Covers s.table (cache.values.extendFrom keys).1 updatedAt)
    (writer : Option ℕ) :
    SharedSound
      { s with
        cache := some ⟨updatedAt, (cache.values.extendFrom keys).1⟩
        writer := writer } := by
  apply hs.setCache
  · intro key hkey
    rcases ArrowKeySet.contains_of_contains_extendFrom hkey with hold | hnew
    · exact hs.cached_committed cache hcache key hold
    · exact hkeys key hnew
  · exact hcovers
  · intro key hkey
    exact ArrowKeySet.contains_extendFrom_of_contains
      (hs.cached_returned cache hcache key hkey)
  · exact fun w hw => (hs.cached_observed cache hcache w hw).extendFrom keys

/-- With the keys of a load, the cached keys reach the new watermark. -/
theorem SnapshotSound.covers_extendFrom
    {observed updatedSince updatedAt : Option ℕ} {keys : List String}
    (hs : SharedSound s) (hholds : Holds s id observed updatedSince)
    (hload : SnapshotSound s observed updatedSince updatedAt keys)
    {cache : PostgresDynamicTableCache} (hcache : s.cache = some cache)
    (hok : (cache.values.extendFrom keys).2) :
    Covers s.table (cache.values.extendFrom keys).1 updatedAt where
  seen := hload.seen
  contains := by
    intro u hu row hrow htime
    rcases hload.covers u hu row hrow htime with hkey | ⟨v, hv, hle⟩
    · exact ArrowKeySet.contains_extendFrom_of_mem hok hkey
    · have hsince : updatedSince = cache.updatedAt := by
        rw [hholds.since_eq, hcache]
        rfl
      rw [hsince] at hv
      exact ArrowKeySet.contains_extendFrom_of_contains
        ((hs.cached_covers cache hcache).contains v hv row hrow hle)

/-- Whoever holds the write lock may extend the cache and release it. -/
theorem grows_of_writer
    (hwriter : s.writer = some id) {s' : Shared}
    (htable : s'.table = s.table) (hpast : s'.past = s.past)
    (hcache : ∀ cache ∈ s.cache, ∃ cache' ∈ s'.cache, ∀ key,
      cache.values.contains key → cache'.values.contains key) :
    Grows (some id) s s' where
  table_eq := ⟨[], by simpa using htable, by simp [Later]⟩
  cache_grows := hcache
  past_within := hpast ▸ Past.Within.refl _
  locked := by
    intro holder hholder hne
    exact absurd (hholder.symm.trans hwriter) hne

/-- The watermark of an answer is one that the cache covers. -/
theorem SharedSound.answer
    (hs : SharedSound s) {cache : PostgresDynamicTableCache}
    (hcache : s.cache = some cache) {observed : Option (Option ℕ)}
    (hcovers : ∀ w ∈ observed, Covers s.table cache.values w) :
    SharedSound (s.answer observed) := by
  constructor
  · exact hs.cached_committed
  · exact hs.cached_covers
  · exact hs.cached_returned
  · exact hs.returned_committed
  · intro cache' hcache' w hw
    obtain rfl : cache = cache' :=
      Option.some.inj (hcache.symm.trans hcache')
    rcases List.mem_append.mp hw with hw | hw
    · exact hs.cached_observed cache hcache w hw
    · exact hcovers _ (Option.join_eq_some_iff.mp (Option.mem_toList.mp hw))
  · exact fun hnone => absurd (hcache.symm.trans hnone) (by simp)

/-- Publishing a load keeps the shared state sound and, if it succeeds, the
cache has all keys up to the watermark that was observed. -/
theorem publish_sound
    {observed updatedSince updatedAt : Option ℕ} {keys : List String}
    (hs : SharedSound s) (hholds : Holds s id observed updatedSince)
    (hload : SnapshotSound s observed updatedSince updatedAt keys) :
    SharedSound (s.publish updatedAt keys).1 ∧
      Grows (some id) s (s.publish updatedAt keys).1 ∧
      (s.publish updatedAt keys).1.past = s.past ∧
      ((s.publish updatedAt keys).2 →
        ContainsSound (s.publish updatedAt keys).1 id needles before
          (.refreshed (some observed))) := by
  cases hcache : s.cache with
  | some cache =>
      have hgrows : ∀ updatedAt, Grows (some id) s
          { s with
            cache := some ⟨updatedAt, (cache.values.extendFrom keys).1⟩
            writer := none } := by
        intro updatedAt
        refine grows_of_writer hholds.writer_eq rfl rfl ?_
        intro cache' hcache'
        obtain rfl : cache = cache' :=
          Option.some.inj (hcache.symm.trans hcache')
        exact ⟨_, rfl, fun key hkey =>
          ArrowKeySet.contains_extendFrom_of_contains hkey⟩
      simp only [Shared.publish, hcache, PostgresDynamicTableCache.append]
      split_ifs with hok
      · have hcovers := hload.covers_extendFrom hs hholds hcache hok
        refine ⟨hs.extendFrom hcache hload.committed hcovers none,
          hgrows updatedAt, trivial, ?_⟩
        rintro -
        refine ⟨_, rfl, ?_⟩
        rintro _ ⟨⟩
        exact hcovers.of_reaches hholds.observed_seen hload.reaches
      · have hcovers := (hs.cached_covers cache hcache).extendFrom keys
        exact ⟨hs.extendFrom hcache hload.committed hcovers none,
          hgrows cache.updatedAt, trivial, by simp⟩
  | none =>
      have hgrows : ∀ cache', Grows (some id) s
          { s with cache := cache', writer := none } := by
        intro cache'
        refine grows_of_writer hholds.writer_eq rfl rfl ?_
        simp [hcache]
      simp only [Shared.publish, hcache]
      split_ifs with hok
      · have hmem := ArrowKeySet.contains_fromKeys hok
        have hcovers : Covers s.table (ArrowKeySet.fromKeys keys).1
            updatedAt := by
          refine ⟨hload.seen, ?_⟩
          intro u hu row hrow htime
          rcases hload.covers u hu row hrow htime with hkey | ⟨v, hv, -⟩
          · exact (hmem _).mpr hkey
          · simp [hholds.since_eq, hcache] at hv
        refine ⟨hs.setCache ?_ hcovers ?_ ?_ none, hgrows _, rfl, ?_⟩
        · exact fun key hkey => hload.committed key ((hmem key).mp hkey)
        · exact fun key hkey => (hmem key).mpr (hload.full hcache key hkey)
        · simp [hs.observed_cached hcache]
        · rintro -
          refine ⟨_, rfl, ?_⟩
          rintro _ ⟨⟩
          exact hcovers.of_reaches hholds.observed_seen hload.reaches
      · exact ⟨hs.congr rfl hcache.symm rfl, hgrows none, rfl, by simp⟩

variable {config : BackendConfig} {succeeds : Bool} {nowMs : ℕ}
variable {phase' : ContainsPhase} {s' : Shared}

theorem begun_sound
    (hs : SharedSound s) (hbefore : before.Within s.past)
    (h : containsStep config s id needles succeeds nowMs .begun =
      some (s', phase')) :
    StepSound id s s' (.contains needles before phase') := by
  simp only [containsStep] at h
  split_ifs at h with hnull hwriter
  · obtain ⟨rfl, rfl⟩ := Prod.mk.inj (Option.some.inj h)
    refine stepSound_of_same hs ⟨hbefore, fun _ => false, ?_, ?_⟩
    · apply List.map_congr_left
      intro needle hneedle
      have hnone := List.all_eq_true.mp hnull needle hneedle
      rw [Option.isNone_iff_eq_none.mp hnone]
      rfl
    · have habsent : ∀ key, some key ∉ needles := by
        intro key hkey
        exact absurd (List.all_eq_true.mp hnull _ hkey) (by simp)
      constructor
      · exact fun key hkey => absurd hkey (habsent key)
      · exact fun key _ hkey => absurd hkey (habsent key)
      · simp
      · simp
      · exact fun w hw => hs.seen_observed w (hbefore.observed hw)
      · exact fun _ _ row _ _ hkey => absurd hkey (habsent row.key)
  · obtain ⟨rfl, rfl⟩ := Prod.mk.inj (Option.some.inj h)
    exact stepSound_of_same hs ⟨hbefore, fun hp => hp⟩

theorem checked_sound
    {populated : Bool} (hs : SharedSound s) (hbefore : before.Within s.past)
    (hphase : ContainsSound s id needles before (.checked populated))
    (h : containsStep config s id needles succeeds nowMs (.checked populated) =
      some (s', phase')) :
    StepSound id s s' (.contains needles before phase') := by
  simp only [containsStep] at h
  split_ifs at h
  · obtain ⟨rfl, rfl⟩ := Prod.mk.inj (Option.some.inj h)
    exact stepSound_of_same hs ⟨hbefore, trivial⟩
  · obtain ⟨rfl, rfl⟩ := Prod.mk.inj (Option.some.inj h)
    exact stepSound_of_same hs ⟨hbefore, hphase⟩

theorem claiming_sound
    {populated : Bool} {startMs last : ℕ} (hs : SharedSound s)
    (hbefore : before.Within s.past)
    (hphase : ContainsSound s id needles before
      (.claiming populated startMs last))
    (h : containsStep config s id needles succeeds nowMs
      (.claiming populated startMs last) = some (s', phase')) :
    StepSound id s s' (.contains needles before phase') := by
  -- a populated cache is good enough if the check is not claimed
  have hpopulated : populated →
      ContainsSound s id needles before (.refreshed none) := by
    intro hp
    obtain ⟨cache, hcache⟩ := Option.isSome_iff_exists.mp (hphase hp)
    exact ⟨cache, hcache, by simp⟩
  simp only [containsStep] at h
  split_ifs at h with hwindow hp hclaim
  · obtain ⟨rfl, rfl⟩ := Prod.mk.inj (Option.some.inj h)
    exact stepSound_of_same hs ⟨hbefore, hpopulated hwindow.1⟩
  · obtain ⟨rfl, rfl⟩ := Prod.mk.inj (Option.some.inj h)
    exact stepSound_of_clock hs hbefore trivial
  · obtain ⟨rfl, rfl⟩ := Prod.mk.inj (Option.some.inj h)
    exact stepSound_of_same hs ⟨hbefore, hpopulated hp⟩
  · obtain ⟨rfl, rfl⟩ := Prod.mk.inj (Option.some.inj h)
    exact stepSound_of_same hs ⟨hbefore, trivial⟩

theorem storing_sound
    {startMs : ℕ} (hs : SharedSound s) (hbefore : before.Within s.past)
    (h : containsStep config s id needles succeeds nowMs (.storing startMs) =
      some (s', phase')) :
    StepSound id s s' (.contains needles before phase') := by
  obtain ⟨rfl, rfl⟩ := Prod.mk.inj (Option.some.inj h)
  exact stepSound_of_clock hs hbefore trivial

theorem probing_sound
    (hs : SharedSound s) (hbefore : before.Within s.past)
    (h : containsStep config s id needles succeeds nowMs .probing =
      some (s', phase')) :
    StepSound id s s' (.contains needles before phase') := by
  simp only [containsStep] at h
  split_ifs at h
  · obtain ⟨rfl, rfl⟩ := Prod.mk.inj (Option.some.inj h)
    exact stepSound_of_same hs ⟨hbefore, latestUpdate_seen _⟩
  · obtain ⟨rfl, rfl⟩ := Prod.mk.inj (Option.some.inj h)
    exact stepSound_of_same hs ⟨hbefore, trivial⟩

theorem compared_sound
    {observed : Option ℕ} (hs : SharedSound s)
    (hbefore : before.Within s.past)
    (hphase : ContainsSound s id needles before (.compared observed))
    (h : containsStep config s id needles succeeds nowMs (.compared observed) =
      some (s', phase')) :
    StepSound id s s' (.contains needles before phase') := by
  simp only [containsStep] at h
  split_ifs at h with hwriter hfresh
  · obtain ⟨rfl, rfl⟩ := Prod.mk.inj (Option.some.inj h)
    exact stepSound_of_same hs ⟨hbefore, refreshed_of_isFresh hs hfresh⟩
  · obtain ⟨rfl, rfl⟩ := Prod.mk.inj (Option.some.inj h)
    exact stepSound_of_same hs ⟨hbefore, hphase⟩

theorem waiting_sound
    {observed : Option ℕ} (hs : SharedSound s)
    (hbefore : before.Within s.past)
    (hphase : ContainsSound s id needles before (.waiting observed))
    (h : containsStep config s id needles succeeds nowMs (.waiting observed) =
      some (s', phase')) :
    StepSound id s s' (.contains needles before phase') := by
  simp only [containsStep] at h
  split_ifs at h with hwriter hfresh
  · obtain ⟨rfl, rfl⟩ := Prod.mk.inj (Option.some.inj h)
    exact stepSound_of_same hs ⟨hbefore, refreshed_of_isFresh hs hfresh⟩
  · obtain ⟨rfl, rfl⟩ := Prod.mk.inj (Option.some.inj h)
    refine ⟨hs.congr rfl rfl rfl, ⟨hbefore, rfl, rfl, hphase⟩, ?_⟩
    refine grows_of_eq rfl rfl rfl ?_
    intro holder hholder
    rw [hwriter] at hholder
    cases hholder

theorem loading_sound
    {observed updatedSince : Option ℕ} (hs : SharedSound s)
    (hbefore : before.Within s.past)
    (hphase : ContainsSound s id needles before
      (.loading observed updatedSince))
    (h : containsStep config s id needles succeeds nowMs
      (.loading observed updatedSince) = some (s', phase')) :
    StepSound id s s' (.contains needles before phase') := by
  simp only [containsStep] at h
  split_ifs at h
  · obtain ⟨rfl, rfl⟩ := Prod.mk.inj (Option.some.inj h)
    exact stepSound_of_same hs
      ⟨hbefore, hphase, snapshotSound_of_holds hs hphase⟩
  · obtain ⟨rfl, rfl⟩ := Prod.mk.inj (Option.some.inj h)
    exact stepSound_of_same hs ⟨hbefore, hphase⟩

theorem fetching_sound
    {observed updatedSince updatedAt : Option ℕ} {keys rest : List String}
    (hs : SharedSound s) (hbefore : before.Within s.past)
    (hphase : ContainsSound s id needles before
      (.fetching observed updatedSince updatedAt keys rest))
    (h : containsStep config s id needles succeeds nowMs
      (.fetching observed updatedSince updatedAt keys rest) =
        some (s', phase')) :
    StepSound id s s' (.contains needles before phase') := by
  simp only [containsStep] at h
  split_ifs at h with hsucceeds hrest
  · obtain ⟨rfl, rfl⟩ := Prod.mk.inj (Option.some.inj h)
    subst hrest
    rw [ContainsSound, List.append_nil] at hphase
    exact stepSound_of_same hs ⟨hbefore, hphase⟩
  · obtain ⟨rfl, rfl⟩ := Prod.mk.inj (Option.some.inj h)
    refine stepSound_of_same hs ⟨hbefore, hphase.1, ?_⟩
    rw [List.append_assoc, List.take_append_drop]
    exact hphase.2
  · obtain ⟨rfl, rfl⟩ := Prod.mk.inj (Option.some.inj h)
    exact stepSound_of_same hs ⟨hbefore, hphase.1⟩

theorem loaded_sound
    {observed updatedSince updatedAt : Option ℕ} {keys : List String}
    (hs : SharedSound s) (hbefore : before.Within s.past)
    (hphase : ContainsSound s id needles before
      (.loaded observed updatedSince updatedAt keys))
    (h : containsStep config s id needles succeeds nowMs
      (.loaded observed updatedSince updatedAt keys) = some (s', phase')) :
    StepSound id s s' (.contains needles before phase') := by
  obtain ⟨hshared, hgrows, hpast, hrefreshed⟩ :=
    @publish_sound s id needles before _ _ _ _ hs hphase.1 hphase.2
  simp only [containsStep] at h
  split_ifs at h with hok
  · obtain ⟨rfl, rfl⟩ := Prod.mk.inj (Option.some.inj h)
    exact ⟨hshared, ⟨hpast ▸ hbefore, hrefreshed hok⟩, hgrows⟩
  · obtain ⟨rfl, rfl⟩ := Prod.mk.inj (Option.some.inj h)
    exact ⟨hshared, ⟨hpast ▸ hbefore, trivial⟩, hgrows⟩

theorem refreshed_sound
    {observed : Option (Option ℕ)} (hs : SharedSound s)
    (hbefore : before.Within s.past)
    (hphase : ContainsSound s id needles before (.refreshed observed))
    (h : containsStep config s id needles succeeds nowMs (.refreshed observed) =
      some (s', phase')) :
    StepSound id s s' (.contains needles before phase') := by
  obtain ⟨cache, hcache, hcovers⟩ := hphase
  have hcache : s.cache = some cache := hcache
  simp only [containsStep, hcache] at h
  split_ifs at h with hwriter
  obtain ⟨rfl, rfl⟩ := Prod.mk.inj (Option.some.inj h)
  have hwithin := Past.within_answer s observed
  refine ⟨hs.answer hcache hcovers,
    ⟨hbefore.trans hwithin, cache.values.contains, rfl, ?_⟩,
    grows_of_unlocked hwriter rfl hwithin fun cache hcache =>
      ⟨cache, hcache, fun _ h => h⟩⟩
  constructor
  · exact fun key _ => hs.cached_committed cache hcache key
  · exact fun key hkey _ =>
      hs.cached_returned cache hcache key (hbefore.returned hkey)
  · exact fun w hw => (hcovers w hw).seen
  · exact fun watermark hwatermark w hw row hrow htime _ =>
      (hcovers watermark hwatermark).contains w hw row hrow htime
  · exact fun w hw =>
      (hs.cached_observed cache hcache w (hbefore.observed hw)).seen
  · exact fun w hw row hrow htime _ =>
      (hs.cached_observed cache hcache w
        (hbefore.observed hw)).contains w rfl row hrow htime

theorem containsStep_sound
    {phase : ContainsPhase} (hs : SharedSound s)
    (hbefore : before.Within s.past)
    (hphase : ContainsSound s id needles before phase)
    (h : containsStep config s id needles succeeds nowMs phase =
      some (s', phase')) :
    StepSound id s s' (.contains needles before phase') := by
  cases phase with
  | begun => exact begun_sound hs hbefore h
  | checked populated => exact checked_sound hs hbefore hphase h
  | claiming populated nowMs last => exact claiming_sound hs hbefore hphase h
  | storing nowMs => exact storing_sound hs hbefore h
  | probing => exact probing_sound hs hbefore h
  | compared observed => exact compared_sound hs hbefore hphase h
  | waiting observed => exact waiting_sound hs hbefore hphase h
  | loading observed updatedSince => exact loading_sound hs hbefore hphase h
  | fetching observed updatedSince updatedAt keys rest =>
      exact fetching_sound hs hbefore hphase h
  | loaded observed updatedSince updatedAt keys =>
      exact loaded_sound hs hbefore hphase h
  | refreshed observed => exact refreshed_sound hs hbefore hphase h
  | answered observed result => cases h
  | failed => cases h

end ContainsStep

/-! ## The steps of an append call -/

section AppendStep

variable {s s' : Shared} {id : ℕ} {values : List String}

theorem SharedSound.return
    (hs : SharedSound s) (hvalues : ∀ value ∈ values, Committed s.table value)
    (hcached : ∀ cache ∈ s.cache, ∀ value ∈ values,
      cache.values.contains value) :
    SharedSound (s.return values) := by
  constructor
  · exact hs.cached_committed
  · exact hs.cached_covers
  · intro cache hcache key hkey
    rcases List.mem_append.mp hkey with hkey | hkey
    · exact hs.cached_returned cache hcache key hkey
    · exact hcached cache hcache key hkey
  · intro key hkey
    rcases List.mem_append.mp hkey with hkey | hkey
    · exact hs.returned_committed key hkey
    · exact hvalues key hkey
  · exact hs.cached_observed
  · exact hs.observed_cached

theorem appendStep_sound
    {phase phase' : AppendPhase} (hs : SharedSound s)
    (hphase : AppendSound s values phase)
    (h : appendStep s values phase = some (s', phase')) :
    StepSound id s s' (.append values phase') := by
  cases phase with
  | committing batches =>
      simp only [appendStep] at h
      split_ifs at h with hall
      obtain ⟨rfl, rfl⟩ := Prod.mk.inj (Option.some.inj h)
      refine stepSound_of_same hs ?_
      intro value hvalue
      obtain ⟨batch, hbatch, hmem⟩ := hphase.1 value hvalue
      exact hphase.2 batch hbatch (List.all_eq_true.mp hall batch hbatch)
        value hmem
  | committed =>
      simp only [appendStep] at h
      split_ifs at h with hwriter
      split at h
      case h_1 hcache =>
        obtain ⟨rfl, rfl⟩ := Prod.mk.inj (Option.some.inj h)
        refine ⟨hs.return hphase (by simp [hcache]), trivial, ?_⟩
        refine grows_of_unlocked hwriter rfl (Past.within_return s values) ?_
        simp [hcache]
      case h_2 cache hcache =>
        have hextended : SharedSound
            { s with
              cache := some
                ⟨cache.updatedAt, (cache.values.extendFrom values).1⟩ } :=
          hs.extendFrom hcache hphase
            ((hs.cached_covers cache hcache).extendFrom values) s.writer
        have hgrows : ∀ cache' ∈ s.cache, ∃ cache'' ∈
            some (⟨cache.updatedAt, (cache.values.extendFrom values).1⟩ :
              PostgresDynamicTableCache),
            ∀ key, cache'.values.contains key →
              cache''.values.contains key := by
          intro cache' hcache'
          obtain rfl : cache = cache' :=
            Option.some.inj (hcache.symm.trans hcache')
          exact ⟨_, rfl, fun key hkey =>
            ArrowKeySet.contains_extendFrom_of_contains hkey⟩
        split_ifs at h with hok
        · obtain ⟨rfl, rfl⟩ := Prod.mk.inj (Option.some.inj h)
          refine ⟨hextended.return hphase ?_, trivial,
            grows_of_unlocked hwriter rfl (Past.within_return s values)
              hgrows⟩
          rintro _ ⟨⟩ value hvalue
          exact ArrowKeySet.contains_extendFrom_of_mem hok hvalue
        · obtain ⟨rfl, rfl⟩ := Prod.mk.inj (Option.some.inj h)
          exact ⟨hextended, trivial,
            grows_of_unlocked hwriter rfl (Past.Within.refl _) hgrows⟩
  | returned => cases h
  | failed => cases h

/-! ## Commits -/

/-- New rows keep the shared state sound. -/
theorem SharedSound.of_grows_table
    (hs : SharedSound s) {actor : Option ℕ} (hgrows : Grows actor s s')
    (hcache : s'.cache = s.cache) (hpast : s'.past = s.past) :
    SharedSound s' := by
  constructor
  · rw [hcache]
    exact fun cache hmem key hkey =>
      hgrows.committed (hs.cached_committed cache hmem key hkey)
  · rw [hcache]
    exact fun cache hmem =>
      hgrows.covers (fun _ h => h) (hs.cached_covers cache hmem)
  · rw [hcache, hpast]
    exact hs.cached_returned
  · rw [hpast]
    exact fun key hkey => hgrows.committed (hs.returned_committed key hkey)
  · rw [hcache, hpast]
    exact fun cache hmem w hw =>
      hgrows.covers (fun _ h => h) (hs.cached_observed cache hmem w hw)
  · rw [hcache, hpast]
    exact hs.observed_cached

theorem grows_of_rows
    (actor : Option ℕ) (s : Shared) {rows : List Row}
    (hlater : Later s.table (rows.map Row.time)) :
    Grows actor s { s with table := s.table ++ rows } where
  table_eq := ⟨rows, rfl, hlater⟩
  cache_grows := fun cache hcache => ⟨cache, hcache, fun _ h => h⟩
  past_within := Past.Within.refl _
  locked := fun _ hholder _ => ⟨hholder, rfl, rfl⟩

theorem map_time_zipWith
    {keys : List String} {times : List ℕ} (h : times.length = keys.length) :
    (List.zipWith Row.mk keys times).map Row.time = times := by
  induction keys generalizing times with
  | nil => simpa using h
  | cons key keys ih =>
      cases times with
      | nil => simp at h
      | cons time times =>
          simp [ih (Nat.succ.inj h)]

theorem map_key_zipWith
    {keys : List String} {times : List ℕ} (h : times.length = keys.length) :
    (List.zipWith Row.mk keys times).map Row.key = keys := by
  induction keys generalizing times with
  | nil => simp
  | cons key keys ih =>
      cases times with
      | nil => simp at h
      | cons time times =>
          simp [ih (Nat.succ.inj h)]

/-- After the insert all its values are committed, those that were there
before as well. -/
theorem committed_of_insert
    {table : List Row} {times : List ℕ}
    (hlength : times.length = (newKeys table values).length)
    {value : String} (hvalue : value ∈ values) :
    Committed
      (table ++ List.zipWith Row.mk (newKeys table values) times) value := by
  by_cases hold : value ∈ table.map Row.key
  · obtain ⟨row, hrow, hkey⟩ := List.mem_map.mp hold
    exact ⟨row, List.mem_append_left _ hrow, hkey⟩
  · have hnew : value ∈ newKeys table values :=
      List.mem_filter.mpr ⟨List.mem_dedup.mpr hvalue, by simpa using hold⟩
    rw [← map_key_zipWith hlength] at hnew
    obtain ⟨row, hrow, hkey⟩ := List.mem_map.mp hnew
    exact ⟨row, List.mem_append_right _ hrow, hkey⟩

theorem commitBatch_sound
    {batch : ℕ} {times : List ℕ} {reported : Bool}
    {phase phase' : AppendPhase} (hs : SharedSound s)
    (hphase : AppendSound s values phase)
    (h : commitBatch s batch times reported phase = some (s', phase')) :
    StepSound id s s' (.append values phase') := by
  unfold commitBatch at h
  split at h
  case h_2 => cases h
  case h_1 batches =>
    split at h
    case h_2 => cases h
    case h_1 chunk hchunk =>
      dsimp only at h
      split_ifs at h with hcommit
      obtain ⟨hlength, hlater⟩ := hcommit
      obtain ⟨rfl, rfl⟩ := Prod.mk.inj (Option.some.inj h)
      rw [← map_time_zipWith hlength] at hlater
      have hgrows := grows_of_rows (some id) s hlater
      refine ⟨hs.of_grows_table hgrows rfl rfl, ⟨?_, ?_⟩, hgrows⟩
      · -- the values stay in their batches
        intro value hvalue
        obtain ⟨other, hother, hmem⟩ := hphase.1 value hvalue
        obtain ⟨i, hi⟩ := List.mem_iff_getElem?.mp hother
        obtain ⟨hlt, -⟩ := List.getElem?_eq_some_iff.mp hi
        by_cases heq : batch = i
        · subst heq
          obtain rfl : (chunk, false) = other :=
            Option.some.inj (hchunk.symm.trans hi)
          refine ⟨(chunk, reported), ?_, hmem⟩
          exact List.mem_of_getElem? (List.getElem?_set_self hlt)
        · refine ⟨other, ?_, hmem⟩
          apply List.mem_of_getElem?
          rw [List.getElem?_set_ne heq]
          exact hi
      · intro other hother hreported value hmem
        rcases List.mem_or_eq_of_mem_set hother with hother | rfl
        · exact hgrows.committed
            (hphase.2 other hother hreported value hmem)
        · exact committed_of_insert hlength hmem

end AppendStep

/-! ## Runs -/

section Runs

variable {config : BackendConfig} {s s' : Shared} {id : ℕ}

theorem release_sound
    {task : Task} (hs : SharedSound s)
    (htask : TaskSound (s.release id) id task) :
    StepSound id s (s.release id) task := by
  unfold Shared.release at htask ⊢
  split_ifs at htask ⊢ with hwriter
  · refine ⟨hs.congr rfl rfl rfl, htask, ?_⟩
    exact grows_of_writer hwriter rfl rfl fun cache hcache =>
      ⟨cache, hcache, fun _ h => h⟩
  · exact stepSound_of_same hs htask

theorem taskStep_sound
    {task task' : Task} {action : Action} (hs : SharedSound s)
    (htask : TaskSound s id task)
    (h : taskStep config s id task action = some (s', task')) :
    StepSound id s s' task' := by
  have hpast : (s.release id).past = s.past := by
    unfold Shared.release
    split_ifs <;> rfl
  unfold taskStep at h
  split at h
  case h_1 =>
    cases task with
    | contains needles before phase =>
        obtain ⟨⟨s'', phase'⟩, hstep, heq⟩ := Option.map_eq_some_iff.mp h
        obtain ⟨rfl, rfl⟩ := Prod.mk.inj heq
        exact containsStep_sound hs htask.1 htask.2 hstep
    | append values phase =>
        obtain ⟨⟨s'', phase'⟩, hstep, heq⟩ := Option.map_eq_some_iff.mp h
        obtain ⟨rfl, rfl⟩ := Prod.mk.inj heq
        exact appendStep_sound hs htask hstep
  case h_2 =>
    cases task with
    | contains needles before phase => cases h
    | append values phase =>
        obtain ⟨⟨s'', phase'⟩, hstep, heq⟩ := Option.map_eq_some_iff.mp h
        obtain ⟨rfl, rfl⟩ := Prod.mk.inj heq
        exact commitBatch_sound hs htask hstep
  case h_3 =>
    split at h
    case h_1 => cases h
    case h_2 => cases h
    case h_3 needles before phase _ =>
      obtain ⟨rfl, rfl⟩ := Prod.mk.inj (Option.some.inj h)
      exact release_sound hs ⟨hpast ▸ htask.1, trivial⟩
    case h_4 values phase _ =>
      obtain ⟨rfl, rfl⟩ := Prod.mk.inj (Option.some.inj h)
      exact release_sound hs trivial
  case h_4 => cases h

theorem mem_chunks
    {size : ℕ} (hsize : 0 < size) {values : List String} {value : String}
    (hvalue : value ∈ values) :
    ∃ chunk ∈ chunks size values, value ∈ chunk := by
  obtain ⟨j, hj⟩ := List.mem_iff_getElem?.mp hvalue
  obtain ⟨hlt, -⟩ := List.getElem?_eq_some_iff.mp hj
  have hindex : j / size < (values.length + size - 1) / size := by
    have hdiv := Nat.div_add_mod (values.length + size - 1) size
    have hmod := Nat.mod_lt (values.length + size - 1) hsize
    rw [Nat.div_lt_iff_lt_mul hsize, Nat.mul_comm]
    omega
  refine ⟨_, List.mem_map_of_mem (List.mem_range.mpr hindex), ?_⟩
  apply List.mem_of_getElem? (i := j % size)
  have hsum : j / size * size + j % size = j := Nat.div_add_mod' j size
  rw [List.getElem?_take_of_lt (Nat.mod_lt j hsize), List.getElem?_drop, hsum]
  exact hj

theorem mem_appendBatches
    {values : List String} {batches : List (List String)}
    (h : appendBatches config values = some batches) {value : String}
    (hvalue : value ∈ values) : ∃ batch ∈ batches, value ∈ batch := by
  unfold appendBatches at h
  split_ifs at h with hsmall hzero
  · obtain rfl := Option.some.inj h
    exact ⟨values, List.mem_singleton_self _, hvalue⟩
  · obtain rfl := Option.some.inj h
    exact mem_chunks (Nat.pos_of_ne_zero hzero) hvalue

theorem newTask_sound
    {task : Task} {action : Action}
    (h : newTask config s action = some task) : TaskSound s id task := by
  unfold newTask at h
  split at h
  case h_1 =>
    obtain rfl := Option.some.inj h
    exact ⟨Past.Within.refl _, trivial⟩
  case h_2 values =>
    dsimp only at h
    split_ifs at h with hempty
    · obtain rfl := Option.some.inj h
      trivial
    · split at h
      case h_1 =>
        obtain rfl := Option.some.inj h
        trivial
      case h_2 batches hbatches =>
        obtain rfl := Option.some.inj h
        constructor
        · intro value hvalue
          obtain ⟨batch, hbatch, hmem⟩ := mem_appendBatches hbatches hvalue
          exact ⟨(batch, false), List.mem_map_of_mem hbatch, hmem⟩
        · intro batch hbatch hreported
          obtain ⟨_, -, rfl⟩ := List.mem_map.mp hbatch
          cases hreported
  case h_3 => cases h

/-- The shared state is sound and so is every task. -/
structure Sound (b : Backend) : Prop where
  shared : SharedSound b.shared
  tasks : ∀ id task, b.tasks id = some task → TaskSound b.shared id task

theorem sound_start (table : List Row) : Sound (Backend.start table) where
  shared := by
    constructor
    · simp [Backend.start]
    · simp [Backend.start]
    · simp [Backend.start]
    · simp [Backend.start]
    · simp [Backend.start]
    · exact fun _ => rfl
  tasks := by simp [Backend.start]

theorem Sound.step
    {b b' : Backend} {action : Action} (hb : Sound b)
    (h : b.step config action = some b') : Sound b' := by
  unfold Backend.step at h
  split at h
  case h_1 rows =>
    split_ifs at h with hlater
    obtain rfl := Option.some.inj h
    have hgrows := grows_of_rows none b.shared hlater
    exact ⟨hb.shared.of_grows_table hgrows rfl rfl, fun id task htask =>
      hgrows.taskSound (by simp) (hb.tasks id task htask)⟩
  case h_2 =>
    obtain ⟨id, -, h⟩ := Option.bind_eq_some_iff.mp h
    split at h
    case h_1 =>
      obtain ⟨task, htask, h⟩ := Option.bind_eq_some_iff.mp h
      obtain rfl := Option.some.inj h
      refine ⟨hb.shared, ?_⟩
      intro other otherTask hother
      by_cases heq : other = id
      · subst heq
        obtain rfl : task = otherTask := by simpa using hother
        exact newTask_sound htask
      · simp only [Function.update_of_ne heq] at hother
        exact hb.tasks other otherTask hother
    case h_2 task htask =>
      obtain ⟨⟨shared, task'⟩, hstep, h⟩ := Option.bind_eq_some_iff.mp h
      obtain rfl := Option.some.inj h
      have hsound := taskStep_sound hb.shared (hb.tasks id task htask) hstep
      refine ⟨hsound.shared, ?_⟩
      intro other otherTask hother
      by_cases heq : other = id
      · subst heq
        obtain rfl : task' = otherTask := by simpa using hother
        exact hsound.task
      · simp only [Function.update_of_ne heq] at hother
        exact hsound.grows.taskSound (by simpa using heq)
          (hb.tasks other otherTask hother)

/-- Every answer of a `contains` call, at every later moment of every run: it
is true only for committed keys, and it is true for the keys whose appends had
returned when the call began, for those committed up to a watermark that an
earlier call observed before it answered, and for those committed up to the
watermark that the call's own freshness check observed. -/
theorem dynamic_table_cache_agrees
    (config : BackendConfig) (table : List Row) (actions : List Action)
    (b : Backend)
    (hrun : Transition.run (Backend.step config) (Backend.start table)
      actions = some b)
    (id : ℕ) (needles : List (Option String)) (before : Past)
    (observed : Option (Option ℕ)) (result : List (Option Bool))
    (htask : b.tasks id =
      some (.contains needles before (.answered observed result)))
    (i : ℕ) (key : String) (hkey : needles[i]? = some (some key)) :
    ∃ answer, result[i]? = some (some answer) ∧
      (answer = true → ∃ row ∈ b.shared.table, row.key = key) ∧
      (key ∈ before.returned → answer = true) ∧
      (∀ w ∈ before.observed, ∀ row ∈ b.shared.table,
        row.key = key → row.time ≤ w → answer = true) ∧
      ∀ w, observed = some (some w) → ∀ row ∈ b.shared.table,
        row.key = key → row.time ≤ w → answer = true := by
  have hsound : Sound b :=
    Transition.run_invariant (fun _ _ _ hb hstep => hb.step hstep)
      (sound_start table) hrun
  obtain ⟨-, answer, rfl, hanswer⟩ := hsound.tasks id _ htask
  have hneedle : some key ∈ needles := List.mem_of_getElem? hkey
  refine ⟨answer key, by simp [hkey], ?_, ?_, ?_, ?_⟩
  · exact hanswer.committed key hneedle
  · exact fun hbefore => hanswer.returned key hbefore hneedle
  · rintro w hw row hrow rfl htime
    exact hanswer.covers_before w hw row hrow htime hneedle
  · rintro w rfl row hrow rfl htime
    exact hanswer.covers _ rfl w rfl row hrow htime hneedle

end Runs

/-- The first call populates the cache, with a failed load and a commit of
another process on the way.  An append commits without being told so and
inserts again; the next call probes and loads again, and the last one comes
within the debounce window. -/
def populateAppendRefresh : List Action :=
  [.contains 0 [some "a", none], .proceed 0 true 0, .proceed 0 true 5,
    .proceed 0 true 5, .proceed 0 true 5, .proceed 0 true 5,
    .proceed 0 true 5, .proceed 0 true 5, .proceed 0 false 5,
    .external [⟨"c", 2⟩], .proceed 0 true 5, .proceed 0 true 5,
    .proceed 0 true 5, .proceed 0 true 5, .proceed 0 true 5,
    .append 1 [some "b", none], .commit 1 0 [3] false, .commit 1 0 [] true,
    .proceed 1 true 6, .proceed 1 true 6,
    .contains 2 [some "b"], .proceed 2 true 7, .proceed 2 true 2000,
    .proceed 2 true 2000, .proceed 2 true 2000, .proceed 2 true 2000,
    .proceed 2 true 2000, .proceed 2 true 2000, .proceed 2 true 2000,
    .proceed 2 true 2000, .proceed 2 true 2000, .proceed 2 true 2000,
    .proceed 2 true 2000,
    .contains 3 [some "c"], .proceed 3 true 2100, .proceed 3 true 2100,
    .proceed 3 true 2100, .proceed 3 true 2100]

theorem dynamic_table_cache_agrees_after_append :
    ∃ b : Backend,
      Transition.run (Backend.step ⟨1000, 1000⟩) (Backend.start [⟨"a", 1⟩])
          populateAppendRefresh = some b ∧
        b.tasks 2 = some (.contains [some "b"] ⟨["b"], [1]⟩
          (.answered (some (some 3)) [some true])) ∧
        b.tasks 3 = some (.contains [some "c"] ⟨["b"], [1, 3]⟩
          (.answered none [some true])) ∧
        ∃ answer, [some true][0]? = some (some answer) ∧
          (answer = true → ∃ row ∈ b.shared.table, row.key = "c") ∧
          ("c" ∈ ["b"] → answer = true) ∧
          (∀ w ∈ [1, 3], ∀ row ∈ b.shared.table,
            row.key = "c" → row.time ≤ w → answer = true) ∧
          ∀ w, none = some (some w) → ∀ row ∈ b.shared.table,
            row.key = "c" → row.time ≤ w → answer = true := by
  obtain ⟨b, hrun, hprobed, hdebounced⟩ : ∃ b,
      Transition.run (Backend.step ⟨1000, 1000⟩) (Backend.start [⟨"a", 1⟩])
          populateAppendRefresh = some b ∧
        b.tasks 2 = some (.contains [some "b"] ⟨["b"], [1]⟩
          (.answered (some (some 3)) [some true])) ∧
        b.tasks 3 = some (.contains [some "c"] ⟨["b"], [1, 3]⟩
          (.answered none [some true])) :=
    Transition.exists_run_of_decide (by decide +kernel)
  exact ⟨b, hrun, hprobed, hdebounced,
    dynamic_table_cache_agrees ⟨1000, 1000⟩ _ _ b hrun 3 _ _ _ _ hdebounced
      0 "c" rfl⟩

end DynamicTable

end Streamling
