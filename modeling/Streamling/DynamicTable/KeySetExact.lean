import Mathlib
import Streamling.DynamicTable.HashedKeySet
import Streamling.Support.ExceptLists

/-!
# The key set is exact

Every index in the table is that of a key, filed under its hash, and no key is
there twice.  Probing, inserting and growing rely on this and keep it, so that
membership is that of the keys offered so far.
-/

namespace Streamling

namespace DynamicTable

open HashIndex

/-- The hashes of an array are those of its strings. -/
structure HashesStrings (hash : String → UInt64)
    (withHashes : List (Option String) → List UInt64) : Prop where
  length : ∀ xs, (withHashes xs).length = xs.length
  valid : ∀ xs (i : ℕ) key, xs[i]? = some (some key) →
    (withHashes xs)[i]? = some (hash key)

variable {layout : Layout} {hash : String → UInt64}
  {withHashes : List (Option String) → List UInt64}
  {keys : List (Option String)} {hashes : List UInt64} {table : HashTable ℕ}

/-! ## The table -/

/-- Every index in the table is that of a key, filed under its hash. -/
def Stored (hash : String → UInt64) (keys : List (Option String))
    (table : HashTable ℕ) : Prop :=
  ∀ e ∈ table.entries, ∃ key, keys[e.2]? = some (some key) ∧ e.1 = hash key

def storedKeys (keys : List (Option String)) (table : HashTable ℕ) :
    List String :=
  table.entries.filterMap fun e => (keys[e.2]?).join

theorem mem_storedKeys {key : String} :
    key ∈ storedKeys keys table ↔
      ∃ e ∈ table.entries, keys[e.2]? = some (some key) := by
  simp [storedKeys, List.mem_filterMap, Option.join_eq_some_iff]

theorem length_storedKeys (h : Stored hash keys table) :
    (storedKeys keys table).length = table.entries.length := by
  rcases table with ⟨entries⟩
  induction entries with
  | nil => simp [storedKeys]
  | cons e entries ih =>
      obtain ⟨key, hkey, -⟩ := h e List.mem_cons_self
      have hrest := ih fun e he => h e (List.mem_cons_of_mem _ he)
      simp only [storedKeys] at hrest ⊢
      rw [List.filterMap_cons_some (by rw [hkey]; rfl), List.length_cons,
        List.length_cons, hrest]

/-- A lookup tells whether the key is in the table. -/
theorem find_stored
    (layout : Layout) (h : Stored hash keys table) (key : String) :
    table.find layout (hash key) (keyMatches keys key) =
      some (decide (key ∈ storedKeys keys table)) := by
  have hfind := @HashTable.find_eq ℕ layout table (hash key)
    (keyMatches keys key) (fun i => decide (keys[i]? = some (some key))) ?_ ?_
  · rw [hfind, Option.some.injEq, Bool.eq_iff_iff, decide_eq_true_iff,
      mem_storedKeys, List.any_eq_true]
    simp only [decide_eq_true_eq]
  · intro e he
    obtain ⟨stored, hstored, -⟩ := h e he
    simp [keyMatches, hstored, Bool.beq_eq_decide_eq]
  · intro e he hp
    obtain ⟨stored, hstored, hfiled⟩ := h e he
    obtain rfl : stored = key := by simpa [hstored] using hp
    exact hfiled

theorem insertUnique_stored
    (layout : Layout) (h : Stored hash keys table)
    (hhashes : ∀ (i : ℕ) key, keys[i]? = some (some key) →
      hashes[i]? = some (hash key)) (filed : UInt64) (i : ℕ) :
    table.insertUnique layout filed i (fun j => hashes[j]?) =
      some ⟨table.entries ++ [(filed, i)]⟩ := by
  apply HashTable.insertUnique_eq
  intro e he
  obtain ⟨key, hkey, hfiled⟩ := h e he
  rw [hfiled]
  exact hhashes e.2 key hkey

theorem Stored.insert
    (h : Stored hash keys table) {i : ℕ} {key : String}
    (hkey : keys[i]? = some (some key)) :
    Stored hash keys ⟨table.entries ++ [(hash key, i)]⟩ := by
  intro e he
  rcases List.mem_append.mp he with he | he
  · exact h e he
  · obtain rfl := List.mem_singleton.mp he
    exact ⟨key, hkey, rfl⟩

theorem storedKeys_insert
    (table : HashTable ℕ) {i : ℕ} {key : String} (filed : UInt64)
    (hkey : keys[i]? = some (some key)) :
    storedKeys keys ⟨table.entries ++ [(filed, i)]⟩ =
      storedKeys keys table ++ [key] := by
  simp [storedKeys, List.filterMap_append, hkey]

/-- The non-null keys at the indices of a range. -/
def keysAt (keys : List (Option String)) (range : List ℕ) : List String :=
  range.filterMap fun i => (keys[i]?).join

/-- What a run over a range leaves behind. -/
structure Entered (hash : String → UInt64) (keys : List (Option String))
    (table : HashTable ℕ) (range : List ℕ)
    (result : HashTable ℕ × Option KeySetError) : Prop where
  stored : Stored hash keys result.1
  distinct : (storedKeys keys result.1).Nodup
  keeps : ∀ key ∈ storedKeys keys table, key ∈ storedKeys keys result.1
  adds : ∀ key ∈ storedKeys keys result.1,
    key ∈ storedKeys keys table ∨ key ∈ keysAt keys range
  all : result.2 = none →
    ∀ key ∈ keysAt keys range, key ∈ storedKeys keys result.1
  fails : ∀ e, result.2 = some e →
    ∃ i ∈ range, maxIndex < i ∧ e = .tooManyKeys i

theorem mem_keysAt {range : List ℕ} {key : String} :
    key ∈ keysAt keys range ↔ ∃ i ∈ range, keys[i]? = some (some key) := by
  simp [keysAt, List.mem_filterMap, Option.join_eq_some_iff]

/-- An index that enters at most its own key, and leaves it in the table. -/
theorem Entered.cons
    {table' : HashTable ℕ} {i : ℕ} {range : List ℕ}
    {result : HashTable ℕ × Option KeySetError}
    (h : Entered hash keys table' range result)
    (hkeeps : ∀ key ∈ storedKeys keys table, key ∈ storedKeys keys table')
    (hadds : ∀ key ∈ storedKeys keys table',
      key ∈ storedKeys keys table ∨ keys[i]? = some (some key))
    (hall : ∀ key, keys[i]? = some (some key) →
      key ∈ storedKeys keys table') :
    Entered hash keys table (i :: range) result where
  stored := h.stored
  distinct := h.distinct
  keeps key hkey := h.keeps key (hkeeps key hkey)
  adds key hkey := by
    rw [mem_keysAt]
    rcases h.adds key hkey with hold | hnew
    · exact (hadds key hold).imp_right fun hi => ⟨i, List.mem_cons_self, hi⟩
    · obtain ⟨j, hj, heq⟩ := mem_keysAt.mp hnew
      exact Or.inr ⟨j, List.mem_cons_of_mem _ hj, heq⟩
  all hok key hkey := by
    obtain ⟨j, hj, heq⟩ := mem_keysAt.mp hkey
    rcases List.mem_cons.mp hj with rfl | hj
    · exact h.keeps key (hall key heq)
    · exact h.all hok key (mem_keysAt.mpr ⟨j, hj, heq⟩)
  fails e he := by
    obtain ⟨j, hj, hfails⟩ := h.fails e he
    exact ⟨j, List.mem_cons_of_mem _ hj, hfails⟩

theorem insertRange_entered
    (layout : Layout) (hhashes : ∀ (i : ℕ) key, keys[i]? = some (some key) →
      hashes[i]? = some (hash key))
    (range : List ℕ) (hrange : ∀ i ∈ range, i < keys.length)
    (hstored : Stored hash keys table)
    (hdistinct : (storedKeys keys table).Nodup) :
    Entered hash keys table range
      (insertRange layout keys hashes table range) := by
  induction range generalizing table with
  | nil =>
      exact ⟨hstored, hdistinct, fun _ h => h, fun _ h => Or.inl h,
        by simp [keysAt], by simp [insertRange]⟩
  | cons i range ih =>
      rw [List.forall_mem_cons] at hrange
      have hslot := List.getElem?_eq_getElem hrange.1
      rcases hkey : keys[i] with _ | key
      · -- a null slot is passed over
        rw [hkey] at hslot
        have hrun : insertRange layout keys hashes table (i :: range) =
            insertRange layout keys hashes table range := by
          simp [insertRange, hslot]
        rw [hrun]
        apply (ih hrange.2 hstored hdistinct).cons
        · exact fun _ h => h
        · exact fun _ h => Or.inl h
        · simp [hslot]
      · rw [hkey] at hslot
        have hhash := hhashes i key hslot
        have hfind := find_stored layout hstored key
        by_cases hlarge : maxIndex < i
        · have hrun : insertRange layout keys hashes table (i :: range) =
              (table, some (.tooManyKeys i)) := by
            simp [insertRange, hslot, hhash, hlarge]
          rw [hrun]
          refine ⟨hstored, hdistinct, fun _ h => h, fun _ h => Or.inl h,
            by simp, ?_⟩
          intro e he
          exact ⟨i, List.mem_cons_self, hlarge,
            (Option.some.inj he).symm⟩
        · by_cases hmem : key ∈ storedKeys keys table
          · -- the key is held already
            have hrun : insertRange layout keys hashes table (i :: range) =
                insertRange layout keys hashes table range := by
              simp [insertRange, hslot, hhash, hlarge, hfind, hmem]
            rw [hrun]
            apply (ih hrange.2 hstored hdistinct).cons
            · exact fun _ h => h
            · exact fun _ h => Or.inl h
            · intro other hother
              obtain rfl : key = other := by simpa [hslot] using hother
              exact hmem
          · have hinsert := insertUnique_stored layout hstored
              hhashes (hash key) i
            have hkeys := storedKeys_insert table (hash key) hslot
            have hrun : insertRange layout keys hashes table (i :: range) =
                insertRange layout keys hashes
                  ⟨table.entries ++ [(hash key, i)]⟩ range := by
              simp [insertRange, hslot, hhash, hlarge, hfind, hmem, hinsert]
            have hnodup : (storedKeys keys table ++ [key]).Nodup :=
              List.concat_eq_append ▸ hdistinct.concat hmem
            rw [hrun]
            apply (ih hrange.2 (hstored.insert hslot) (hkeys ▸ hnodup)).cons
            · intro other hother
              rw [hkeys]
              exact List.mem_append_left _ hother
            · intro other hother
              rw [hkeys, List.mem_append, List.mem_singleton] at hother
              refine hother.imp_right ?_
              rintro rfl
              exact hslot
            · intro other hother
              obtain rfl : key = other := by simpa [hslot] using hother
              rw [hkeys]
              exact List.mem_append_right _ (List.mem_singleton_self _)

/-! ## The set -/

namespace HashedKeySet

/-- The keys that the table holds. -/
def held (set : HashedKeySet) : List String :=
  storedKeys set.keys set.table

structure Exact (hash : String → UInt64) (set : HashedKeySet) : Prop where
  length : set.hashes.length = set.keys.length
  hashed : ∀ (i : ℕ) key, set.keys[i]? = some (some key) →
    set.hashes[i]? = some (hash key)
  stored : Stored hash set.keys set.table
  distinct : set.held.Nodup

theorem mapM_eq_some_map
    {α β : Type} {f : α → Option β} {g : α → β} {xs : List α}
    (h : ∀ x ∈ xs, f x = some (g x)) : xs.mapM f = some (xs.map g) := by
  induction xs with
  | nil => rfl
  | cons x xs ih =>
      rw [List.forall_mem_cons] at h
      rw [List.mapM_cons, h.1, ih h.2]
      rfl

/-- A probe tells of every needle whether it is held. -/
theorem probe_eq
    (layout : Layout) (hhash : HashesStrings hash withHashes)
    {set : HashedKeySet} (h : set.Exact hash)
    (needles : List (Option String)) :
    set.probe layout withHashes needles =
      some (needles.map fun needle =>
        needle.map fun key => decide (key ∈ set.held)) := by
  have hzip : (needles.zip (withHashes needles)).map
      (fun pair => pair.1.map fun key => decide (key ∈ set.held)) =
      needles.map fun needle =>
        needle.map fun key => decide (key ∈ set.held) := by
    rw [← Function.comp_def (fun needle : Option String =>
      needle.map fun key => decide (key ∈ set.held)) Prod.fst,
      ← List.map_map, List.map_fst_zip (hhash.length needles).ge]
  rw [← hzip]
  apply mapM_eq_some_map
  rintro ⟨needle, h'⟩ hmem
  rcases needle with _ | key
  · rfl
  · obtain ⟨i, hi, hget⟩ := List.mem_iff_getElem.mp hmem
    rw [List.getElem_zip, Prod.mk.injEq] at hget
    obtain ⟨hi₁, hi₂⟩ := lt_min_iff.mp (List.length_zip ▸ hi)
    have hvalid := hhash.valid needles i key
      (by rw [List.getElem?_eq_getElem hi₁, hget.1])
    rw [List.getElem?_eq_getElem hi₂, hget.2, Option.some.injEq] at hvalid
    simp only [hvalid, find_stored layout h.stored key, Option.bind_eq_bind,
      Option.bind_some]
    rfl

/-- Once a range is hashed, every key has its hash beside it. -/
theorem hashed_range
    (hhash : HashesStrings hash withHashes) {start : ℕ}
    (hstart : start ≤ keys.length) (hlength : hashes.length = keys.length)
    (hhashed : ∀ i < start, ∀ key, keys[i]? = some (some key) →
      hashes[i]? = some (hash key)) (i : ℕ) (key : String)
    (hkey : keys[i]? = some (some key)) :
    (hashes.take start ++ withHashes (keys.drop start))[i]? =
      some (hash key) := by
  have htake : (hashes.take start).length = start := by
    rw [List.length_take]
    omega
  by_cases hi : i < start
  · rw [List.getElem?_append_left (by omega), List.getElem?_take_of_lt hi]
    exact hhashed i hi key hkey
  · rw [List.getElem?_append_right (by omega), htake]
    apply hhash.valid
    rw [List.getElem?_drop, Nat.add_sub_cancel' (not_lt.mp hi)]
    exact hkey

/-- The keys before an index have their hashes beside them, and the table
holds some of these keys. -/
structure Ready (hash : String → UInt64) (set : HashedKeySet) (start : ℕ) :
    Prop where
  start_le : start ≤ set.keys.length
  length : set.hashes.length = set.keys.length
  hashed : ∀ i < start, ∀ key, set.keys[i]? = some (some key) →
    set.hashes[i]? = some (hash key)
  stored : Stored hash set.keys set.table
  distinct : set.held.Nodup

/-- Hashing and entering the rest of the keys. -/
theorem hashAndInsertRange_spec
    (layout : Layout) (hhash : HashesStrings hash withHashes)
    {set : HashedKeySet} {start : ℕ} (h : Ready hash set start) :
    let result := set.hashAndInsertRange layout withHashes start
    result.1.keys = set.keys ∧ result.1.Exact hash ∧
      Entered hash set.keys set.table
        (List.range' start (set.keys.length - start))
        (result.1.table, result.2) := by
  unfold hashAndInsertRange
  by_cases hempty : start = set.keys.length
  · simp only [if_pos hempty]
    refine ⟨trivial, ⟨h.length, ?_, h.stored, h.distinct⟩, ?_⟩
    · intro i key hkey
      obtain ⟨hi, -⟩ := List.getElem?_eq_some_iff.mp hkey
      exact h.hashed i (hempty ▸ hi) key hkey
    · rw [hempty, Nat.sub_self]
      exact ⟨h.stored, h.distinct, fun _ h => h, fun _ h => Or.inl h,
        by simp [keysAt], by simp⟩
  · have hnew : (withHashes (set.keys.drop start)).length =
        set.keys.length - start := by
      rw [hhash.length, List.length_drop]
    simp only [if_neg hempty, if_neg (not_not.mpr hnew)]
    have hhashes := hashed_range hhash h.start_le h.length h.hashed
    have hentered := insertRange_entered layout hhashes
      (List.range' start (set.keys.length - start)) (by
        intro i hi
        have hbounds := List.mem_range'_1.mp hi
        omega) h.stored h.distinct
    refine ⟨trivial, ⟨?_, hhashes, hentered.stored, hentered.distinct⟩,
      hentered⟩
    have hstart := h.start_le
    show (set.hashes.take start ++ _).length = set.keys.length
    rw [List.length_append, List.length_take, hnew, h.length]
    omega

theorem zip_map_filter
    {α β : Type} (f : α → β) (p : β → Bool) (xs : List α) :
    ((xs.zip (xs.map f)).filter fun (_, y) => p y).map Prod.fst =
      xs.filter fun x => p (f x) := by
  induction xs with
  | nil => rfl
  | cons x xs ih =>
      rw [List.map_cons, List.zip_cons_cons, List.filter_cons,
        List.filter_cons]
      by_cases hp : p (f x) = true
      · rw [if_pos hp, if_pos hp, List.map_cons, ih]
      · rw [if_neg hp, if_neg hp, ih]

/-- The keys of an extension that the table does not hold. -/
def missing (set : HashedKeySet) (extra : List (Option String)) :
    List (Option String) :=
  extra.filter fun needle =>
    needle.map (fun key => decide (key ∈ set.held)) = some false

theorem mem_missing {set : HashedKeySet} {extra : List (Option String)}
    {needle : Option String} :
    needle ∈ set.missing extra ↔
      ∃ key, needle = some key ∧ some key ∈ extra ∧ key ∉ set.held := by
  rw [missing, List.mem_filter]
  rcases needle with _ | key
  · simp
  · simp

/-- Append keys and enter them. -/
def appendKeys (layout : Layout)
    (withHashes : List (Option String) → List UInt64) (set : HashedKeySet)
    (misses : List (Option String)) : HashedKeySet × Option KeySetError :=
  let keys := set.keys ++ misses
  let hashes := set.hashes.take keys.length ++
    List.replicate (keys.length - set.hashes.length) 0
  (⟨keys, hashes, set.table⟩ : HashedKeySet).hashAndInsertRange layout
    withHashes set.keys.length

theorem extendFrom_eq
    (layout : Layout) (hhash : HashesStrings hash withHashes)
    {set : HashedKeySet} (h : set.Exact hash)
    (extra : List (Option String)) :
    set.extendFrom layout withHashes extra =
      if set.missing extra = [] then (set, none)
      else set.appendKeys layout withHashes (set.missing extra) := by
  unfold extendFrom
  split_ifs with hempty hmissing hmissing
  · rfl
  · obtain rfl := List.isEmpty_iff.mp hempty
    exact absurd rfl hmissing
  · rw [probe_eq layout hhash h]
    have hnone : ¬ (extra.map fun needle => needle.map fun key =>
        decide (key ∈ set.held)).any (fun answer => answer = some false) := by
      intro hany
      obtain ⟨answer, hanswer, hfalse⟩ := List.any_eq_true.mp hany
      obtain ⟨needle, hneedle, rfl⟩ := List.mem_map.mp hanswer
      have hmem : needle ∈ set.missing extra :=
        List.mem_filter.mpr ⟨hneedle, hfalse⟩
      rw [hmissing] at hmem
      exact List.not_mem_nil hmem
    simp only [if_pos hnone]
  · rw [probe_eq layout hhash h]
    have hany : (extra.map fun needle => needle.map fun key =>
        decide (key ∈ set.held)).any (fun answer => answer = some false) := by
      obtain ⟨needle, hneedle⟩ := List.exists_mem_of_ne_nil _ hmissing
      obtain ⟨hextra, hfalse⟩ := List.mem_filter.mp hneedle
      exact List.any_eq_true.mpr
        ⟨_, List.mem_map.mpr ⟨needle, hextra, rfl⟩, hfalse⟩
    have hmisses := zip_map_filter (fun needle : Option String =>
      needle.map fun key => decide (key ∈ set.held))
      (fun answer => answer = some false) extra
    simp only [if_neg (not_not.mpr hany), hmisses]
    rfl

theorem storedKeys_append
    (h : Stored hash keys table) (misses : List (Option String)) :
    storedKeys (keys ++ misses) table = storedKeys keys table := by
  unfold storedKeys
  apply List.filterMap_congr
  intro e he
  obtain ⟨key, hkey, -⟩ := h e he
  obtain ⟨hlt, -⟩ := List.getElem?_eq_some_iff.mp hkey
  rw [List.getElem?_append_left hlt]

theorem keysAt_append
    (keys : List (Option String)) {misses : List (Option String)}
    {key : String} :
    key ∈ keysAt (keys ++ misses) (List.range' keys.length misses.length) ↔
      some key ∈ misses := by
  rw [mem_keysAt, List.mem_iff_getElem?]
  constructor
  · rintro ⟨i, hi, hkey⟩
    have hbounds := List.mem_range'_1.mp hi
    rw [List.getElem?_append_right hbounds.1] at hkey
    exact ⟨i - keys.length, hkey⟩
  · rintro ⟨i, hi⟩
    obtain ⟨hlt, -⟩ := List.getElem?_eq_some_iff.mp hi
    refine ⟨keys.length + i, List.mem_range'_1.mpr (by omega), ?_⟩
    rw [List.getElem?_append_right (by omega), Nat.add_sub_cancel_left]
    exact hi

/-- The set with keys appended to it and not hashed yet. -/
def withKeys (set : HashedKeySet) (misses : List (Option String)) :
    HashedKeySet :=
  ⟨set.keys ++ misses, set.hashes ++ List.replicate misses.length 0,
    set.table⟩

theorem appendKeys_eq
    (layout : Layout) (withHashes : List (Option String) → List UInt64)
    {set : HashedKeySet} (h : set.Exact hash)
    (misses : List (Option String)) :
    set.appendKeys layout withHashes misses =
      (set.withKeys misses).hashAndInsertRange layout withHashes
        set.keys.length := by
  have hlength : (set.keys ++ misses).length =
      set.hashes.length + misses.length := by
    rw [List.length_append, h.length]
  unfold appendKeys withKeys
  simp only [hlength]
  rw [List.take_of_length_le (Nat.le_add_right _ _),
    Nat.add_sub_cancel_left]

theorem withKeys_ready
    {set : HashedKeySet} (h : set.Exact hash)
    (misses : List (Option String)) :
    Ready hash (set.withKeys misses) set.keys.length where
  start_le := by
    rw [withKeys, List.length_append]
    exact Nat.le_add_right _ _
  length := by
    rw [withKeys, List.length_append, List.length_replicate,
      List.length_append, h.length]
  hashed i hi key hkey := by
    rw [withKeys, List.getElem?_append_left hi] at hkey
    rw [withKeys, List.getElem?_append_left (h.length.symm ▸ hi)]
    exact h.hashed i key hkey
  stored := by
    intro e he
    obtain ⟨key, hkey, hfiled⟩ := h.stored e he
    obtain ⟨hlt, -⟩ := List.getElem?_eq_some_iff.mp hkey
    refine ⟨key, ?_, hfiled⟩
    rw [withKeys, List.getElem?_append_left hlt]
    exact hkey
  distinct := by
    rw [held, withKeys, storedKeys_append h.stored]
    exact h.distinct

/-- What an extension leaves behind. -/
structure Extended (hash : String → UInt64) (set : HashedKeySet)
    (extra : List (Option String))
    (result : HashedKeySet × Option KeySetError) : Prop where
  exact : result.1.Exact hash
  keeps : ∀ key ∈ set.held, key ∈ result.1.held
  adds : ∀ key ∈ result.1.held, key ∈ set.held ∨ some key ∈ extra
  all : result.2 = none → ∀ key, some key ∈ extra → key ∈ result.1.held
  grows : result.1.keys.length ≤ set.keys.length + extra.length
  fails : ∀ e, result.2 = some e →
    maxIndex + 1 < set.keys.length + extra.length

theorem extendFrom_extended
    (layout : Layout) (hhash : HashesStrings hash withHashes)
    {set : HashedKeySet} (h : set.Exact hash)
    (extra : List (Option String)) :
    Extended hash set extra (set.extendFrom layout withHashes extra) := by
  rw [extendFrom_eq layout hhash h]
  have hheld {key : String} (hkey : some key ∈ extra) :
      key ∈ set.held ∨ some key ∈ set.missing extra := by
    by_cases hmem : key ∈ set.held
    · exact Or.inl hmem
    · exact Or.inr (mem_missing.mpr ⟨key, rfl, hkey, hmem⟩)
  split_ifs with hmissing
  · refine ⟨h, fun _ h => h, fun _ h => Or.inl h, ?_, Nat.le_add_right _ _,
      by simp⟩
    intro _ key hkey
    refine (hheld hkey).resolve_right ?_
    rw [hmissing]
    exact List.not_mem_nil
  · have hspec := hashAndInsertRange_spec layout hhash
      (withKeys_ready h (set.missing extra))
    rw [appendKeys_eq layout withHashes h]
    generalize (set.withKeys (set.missing extra)).hashAndInsertRange layout
      withHashes set.keys.length = result at hspec
    have hcount : (set.withKeys (set.missing extra)).keys.length -
        set.keys.length = (set.missing extra).length := by
      rw [withKeys, List.length_append, Nat.add_sub_cancel_left]
    rw [hcount] at hspec
    obtain ⟨hkeys, hexact, hentered⟩ := hspec
    change result.1.keys = set.keys ++ set.missing extra at hkeys
    change Entered hash (set.keys ++ set.missing extra) set.table _ _
      at hentered
    have hle : (set.missing extra).length ≤ extra.length :=
      List.length_filter_le _ _
    have hold : storedKeys (set.keys ++ set.missing extra) set.table =
        set.held := storedKeys_append h.stored _
    have hnew : result.1.held = storedKeys (set.keys ++ set.missing extra)
        result.1.table := by
      rw [held, hkeys]
    refine ⟨hexact, ?_, ?_, ?_, ?_, ?_⟩
    · intro key hkey
      rw [hnew]
      exact hentered.keeps key (hold ▸ hkey)
    · intro key hkey
      rw [hnew] at hkey
      rcases hentered.adds key hkey with hkey | hkey
      · exact Or.inl (hold ▸ hkey)
      · obtain ⟨_, heq, hextra, -⟩ :=
          mem_missing.mp ((keysAt_append _).mp hkey)
        obtain rfl := Option.some.inj heq
        exact Or.inr hextra
    · intro hok key hkey
      rw [hnew]
      rcases hheld hkey with hmem | hmem
      · exact hentered.keeps key (hold ▸ hmem)
      · exact hentered.all hok key ((keysAt_append _).mpr hmem)
    · rw [hkeys, List.length_append]
      omega
    · intro e he
      obtain ⟨i, hi, hlarge, -⟩ := hentered.fails e he
      have hbounds := List.mem_range'_1.mp hi
      omega

/-! ## Runs -/

/-- The keys of an array that are not null. -/
def validKeys (xs : List (Option String)) : List String :=
  xs.reduceOption

theorem mem_validKeys {xs : List (Option String)} {key : String} :
    key ∈ validKeys xs ↔ some key ∈ xs :=
  List.reduceOption_mem_iff

/-- What a set holds against the arrays offered to it so far. -/
structure Holds (hash : String → UInt64) (set : HashedKeySet)
    (offered : List (Option String)) (ok : Bool) : Prop where
  exact : set.Exact hash
  sound : ∀ key ∈ set.held, some key ∈ offered
  complete : ok = true → ∀ key, some key ∈ offered → key ∈ set.held
  size : set.keys.length ≤ offered.length
  succeeds : offered.length ≤ maxIndex + 1 → ok = true

theorem blank_ready (initial : List (Option String)) :
    Ready hash ⟨initial, List.replicate initial.length 0, ⟨[]⟩⟩ 0 where
  start_le := Nat.zero_le _
  length := List.length_replicate ..
  hashed i hi := absurd hi (Nat.not_lt_zero i)
  stored := by simp [Stored]
  distinct := by simp [held, storedKeys]

theorem fromKeys_holds
    (layout : Layout) (hhash : HashesStrings hash withHashes)
    (initial : List (Option String)) :
    (∀ set, fromKeys layout withHashes initial = .ok set →
      Holds hash set initial true) ∧
    (initial.length ≤ maxIndex + 1 →
      ∃ set, fromKeys layout withHashes initial = .ok set) := by
  have hspec := hashAndInsertRange_spec layout hhash (blank_ready initial)
  rcases hinserted : hashAndInsertRange layout withHashes
    ⟨initial, List.replicate initial.length 0, ⟨[]⟩⟩ 0 with ⟨set, failure⟩
  have hfrom : fromKeys layout withHashes initial =
      failure.elim (.ok set) .error := by
    simp only [fromKeys, hinserted]
    cases failure with
    | none => rfl
    | some e => rfl
  rw [hinserted] at hspec
  rw [hfrom]
  obtain ⟨hkeys, hexact, hentered⟩ := hspec
  have hheld : set.held = storedKeys initial set.table := by
    rw [held, hkeys]
  have hat {key : String} : key ∈ keysAt initial
      (List.range' 0 (initial.length - 0)) ↔ some key ∈ initial := by
    have happend : key ∈ keysAt ([] ++ initial)
        (List.range' ([] : List (Option String)).length initial.length) ↔
        some key ∈ initial := keysAt_append []
    simpa using happend
  constructor
  · intro set' hset
    rcases failure with _ | e
    · obtain rfl := Except.ok.inj hset
      refine ⟨hexact, ?_, ?_, hkeys ▸ le_refl _, fun _ => rfl⟩
      · intro key hkey
        rw [hheld] at hkey
        rcases hentered.adds key hkey with hold | hnew
        · simp [storedKeys] at hold
        · exact hat.mp hnew
      · intro _ key hkey
        rw [hheld]
        exact hentered.all rfl key (hat.mpr hkey)
    · simp at hset
  · intro hle
    rcases failure with _ | e
    · exact ⟨set, rfl⟩
    · obtain ⟨i, hi, hlarge, -⟩ := hentered.fails e rfl
      have hbounds : 0 ≤ i ∧ i < 0 + (initial.length - 0) :=
        List.mem_range'_1.mp hi
      omega

/-- One more extension. -/
theorem Holds.extendFrom
    (layout : Layout) (hhash : HashesStrings hash withHashes)
    {set : HashedKeySet} {offered : List (Option String)} {ok : Bool}
    (h : Holds hash set offered ok) (extra : List (Option String)) :
    let result := set.extendFrom layout withHashes extra
    Holds hash result.1 (offered ++ extra) (ok && result.2.isNone) := by
  have hextended := extendFrom_extended layout hhash h.exact extra
  have hsize := h.size
  refine ⟨hextended.exact, ?_, ?_, ?_, ?_⟩
  · intro key hkey
    rcases hextended.adds key hkey with hold | hnew
    · exact List.mem_append_left _ (h.sound key hold)
    · exact List.mem_append_right _ hnew
  · intro hok key hkey
    obtain ⟨hok, hnone⟩ := Bool.and_eq_true_iff.mp hok
    rcases List.mem_append.mp hkey with hold | hnew
    · exact hextended.keeps key (h.complete hok key hold)
    · exact hextended.all (Option.isNone_iff_eq_none.mp hnone) key hnew
  · have hgrows := hextended.grows
    rw [List.length_append]
    omega
  · rw [List.length_append]
    intro hle
    rw [h.succeeds (by omega), Bool.true_and, Option.isNone_iff_eq_none,
      Option.eq_none_iff_forall_ne_some]
    intro e he
    have hfails := hextended.fails e he
    omega

theorem Holds.extendAll
    (layout : Layout) (hhash : HashesStrings hash withHashes)
    (extras : List (List (Option String))) {set : HashedKeySet}
    {offered : List (Option String)} {ok : Bool}
    (h : Holds hash set offered ok) :
    let result := set.extendAll layout withHashes extras
    Holds hash result.1 (offered ++ extras.flatten) (ok && result.2) := by
  induction extras generalizing set offered ok with
  | nil => simpa [HashedKeySet.extendAll] using h
  | cons extra extras ih =>
      have hrest := ih (h.extendFrom layout hhash extra)
      rw [List.flatten_cons, ← List.append_assoc]
      simpa [HashedKeySet.extendAll, Bool.and_assoc] using hrest

theorem Holds.length_eq
    {set : HashedKeySet} {offered : List (Option String)}
    (h : Holds hash set offered true) :
    set.len = (validKeys offered).dedup.length := by
  have hperm : set.held.Perm (validKeys offered).dedup := by
    rw [List.perm_ext_iff_of_nodup h.exact.distinct (List.nodup_dedup _)]
    intro key
    rw [List.mem_dedup, mem_validKeys]
    exact ⟨h.sound key, h.complete rfl key⟩
  rw [len, ← length_storedKeys h.exact.stored]
  exact hperm.length_eq

/-- An extension by keys that are held, and nulls, changes nothing. -/
theorem extendFrom_of_held
    (layout : Layout) (hhash : HashesStrings hash withHashes)
    {set : HashedKeySet} (h : set.Exact hash)
    {extra : List (Option String)}
    (hextra : ∀ key, some key ∈ extra → key ∈ set.held) :
    set.extendFrom layout withHashes extra = (set, none) := by
  rw [extendFrom_eq layout hhash h, if_pos]
  rw [List.eq_nil_iff_forall_not_mem]
  intro needle hneedle
  obtain ⟨key, rfl, hkey, hnot⟩ := mem_missing.mp hneedle
  exact hnot (hextra key hkey)

/-- The answer to a needle: null for a null, and otherwise whether the key is
among those offered. -/
def Answers (offered : List (Option String)) (needle : Option String)
    (answer : Option Bool) : Prop :=
  (answer = none ↔ needle = none) ∧
    (answer = some true ↔ ∃ key, needle = some key ∧ some key ∈ offered)

theorem Holds.answers
    (layout : Layout) (hhash : HashesStrings hash withHashes)
    {set : HashedKeySet} {offered : List (Option String)}
    (h : Holds hash set offered true) (needles : List (Option String)) :
    ∃ answers, set.containsArray layout withHashes needles = some answers ∧
      List.Forall₂ (Answers offered) needles answers := by
  refine ⟨_, probe_eq layout hhash h.exact needles, ?_⟩
  rw [List.forall₂_map_right_iff, List.forall₂_same]
  rintro (_ | key) -
  · simp [Answers]
  · have hmem : key ∈ set.held ↔ some key ∈ offered :=
      ⟨h.sound key, h.complete rfl key⟩
    simp [Answers, hmem]

end HashedKeySet

open HashedKeySet

/-- However hashes collide and whenever the table grows, membership is exact
over every sequence of extensions that succeed, which all do up to the last
index that the table can hold.  Whether or not they succeed, the table refers
to keys with their hashes beside them, nothing else is found, and an extension
by held keys changes nothing. -/
theorem key_set_exact
    (layout : Layout) (hhash : HashesStrings hash withHashes)
    (initial : List (Option String)) :
    (initial.length ≤ maxIndex + 1 →
      ∃ set, fromKeys layout withHashes initial = .ok set) ∧
    ∀ set₀, fromKeys layout withHashes initial = .ok set₀ →
    ∀ extras : List (List (Option String)),
      let offered := initial ++ extras.flatten
      let result := set₀.extendAll layout withHashes extras
      (offered.length ≤ maxIndex + 1 → result.2 = true) ∧
      (result.2 = true →
        (∀ needles, ∃ answers,
          result.1.containsArray layout withHashes needles = some answers ∧
            List.Forall₂ (Answers offered) needles answers) ∧
        result.1.len = (validKeys offered).dedup.length) ∧
      (∀ needles answers,
        result.1.containsArray layout withHashes needles = some answers →
        List.Forall₂ (fun needle answer => answer = some true →
          ∃ key, needle = some key ∧ some key ∈ offered) needles answers) ∧
      (∀ e ∈ result.1.table.entries, ∃ key,
        result.1.keys[e.2]? = some (some key) ∧
          result.1.hashes[e.2]? = some (hash key)) ∧
      ∀ extra, (∀ key, some key ∈ extra → key ∈ result.1.held) →
        result.1.extendFrom layout withHashes extra = (result.1, none) := by
  obtain ⟨hfrom, hsucceeds⟩ := fromKeys_holds layout hhash initial
  refine ⟨hsucceeds, ?_⟩
  intro set₀ hset extras offered result
  have h : Holds hash result.1 offered result.2 :=
    (hfrom set₀ hset).extendAll layout hhash extras
  refine ⟨h.succeeds, ?_, ?_, ?_, ?_⟩
  · intro hok
    rw [hok] at h
    exact ⟨h.answers layout hhash, h.length_eq⟩
  · intro needles answers hanswers
    obtain rfl := Option.some.inj
      ((probe_eq layout hhash h.exact needles).symm.trans hanswers)
    rw [List.forall₂_map_right_iff, List.forall₂_same]
    rintro (_ | key) - hfound
    · simp at hfound
    · exact ⟨key, rfl, h.sound key (by simpa using hfound)⟩
  · intro e he
    obtain ⟨key, hkey, -⟩ := h.exact.stored e he
    exact ⟨key, hkey, h.exact.hashed e.2 key hkey⟩
  · intro extra hextra
    exact extendFrom_of_held layout hhash h.exact hextra

/-- A table in which everything collides and every insertion grows. -/
def crowded : Layout where
  passes _ _ := true
  grows _ := true
  passes_self _ := rfl

theorem key_set_exact_crowded :
    let zeros := fun xs : List (Option String) => xs.map fun _ => (0 : UInt64)
    ∃ set, fromKeys crowded zeros [some "a", none, some "a"] = .ok set ∧
      (set.extendAll crowded zeros [[some "b", none, some "a"]]).1.len =
        2 := by
  intro zeros
  have hhash : HashesStrings (fun _ => 0) zeros :=
    ⟨fun xs => List.length_map _, fun xs i key hkey => by
      rw [List.getElem?_map, hkey, Option.map_some]⟩
  obtain ⟨hfrom, hruns⟩ := key_set_exact crowded hhash
    [some "a", none, some "a"]
  obtain ⟨set, hset⟩ := hfrom (by decide)
  obtain ⟨hsucceeds, hexact, -⟩ :=
    hruns set hset [[some "b", none, some "a"]]
  refine ⟨set, hset, ?_⟩
  rw [(hexact (hsucceeds (by decide))).2]
  decide

end DynamicTable

end Streamling
