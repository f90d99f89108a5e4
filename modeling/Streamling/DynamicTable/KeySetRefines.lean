import Mathlib
import Streamling.DynamicTable.KeySetExact

/-!
# Key sets with and without hashes

The caches are modelled over a key set without hashes and nulls.  Over keys
that are not null the set with its hashes goes through the same steps.
-/

namespace Streamling

namespace DynamicTable

open HashIndex

variable {hash : String → UInt64}
  {withHashes : List (Option String) → List UInt64}

/-- The indices of a table, and whether an insertion succeeded. -/
def forgetHashes (result : HashTable ℕ × Option KeySetError) :
    List ℕ × Bool :=
  (result.1.entries.map Prod.snd, result.2.isNone)

theorem find_forget
    {keys : List String} {table : HashTable ℕ} {key : String} :
    ArrowKeySet.find keys (table.entries.map Prod.snd) key ↔
      key ∈ storedKeys (keys.map some) table := by
  rw [ArrowKeySet.find_iff, mem_storedKeys]
  constructor
  · rintro ⟨_, hi, hkey⟩
    obtain ⟨e, he, rfl⟩ := List.mem_map.mp hi
    exact ⟨e, he, by rw [List.getElem?_map, hkey, Option.map_some]⟩
  · rintro ⟨e, he, hkey⟩
    refine ⟨e.2, List.mem_map.mpr ⟨e, he, rfl⟩, ?_⟩
    simpa [List.getElem?_map] using hkey

theorem insertRange_forget
    (layout : Layout) {keys : List String} {hashes : List UInt64}
    {table : HashTable ℕ}
    (hhashes : ∀ (i : ℕ) key, (keys.map some)[i]? = some (some key) →
      hashes[i]? = some (hash key))
    {range : List ℕ} (hrange : ∀ i ∈ range, i < keys.length)
    (hstored : Stored hash (keys.map some) table) :
    forgetHashes (insertRange layout (keys.map some) hashes table range) =
      ArrowKeySet.hashAndInsertRange keys (table.entries.map Prod.snd)
        range := by
  induction range generalizing table with
  | nil => rfl
  | cons i range ih =>
      rw [List.forall_mem_cons] at hrange
      have hslot := List.getElem?_eq_getElem hrange.1
      generalize keys[i] = key at hslot
      have hkey : (keys.map some)[i]? = some (some key) := by
        rw [List.getElem?_map, hslot, Option.map_some]
      have hfind := find_stored layout hstored key
      rw [insertRange, hkey, hhashes i key hkey,
        ArrowKeySet.hashAndInsertRange, hslot]
      by_cases hlarge : maxIndex < i
      · simp only [if_pos hlarge]
        rfl
      · simp only [if_neg hlarge, hfind]
        by_cases hmem : key ∈ storedKeys (keys.map some) table
        · rw [if_pos (find_forget.mpr hmem)]
          simp only [hmem, decide_true]
          exact ih hrange.2 hstored
        · rw [if_neg (mt find_forget.mp hmem)]
          simp only [hmem, decide_false,
            insertUnique_stored layout hstored hhashes]
          rw [ih hrange.2 (hstored.insert hkey), List.map_append]
          rfl

namespace HashedKeySet

/-- The set without its hashes. -/
def forget (set : HashedKeySet) : ArrowKeySet :=
  ⟨validKeys set.keys, set.table.entries.map Prod.snd⟩

theorem validKeys_map_some (keys : List String) :
    validKeys (keys.map some) = keys := by
  simp [validKeys, List.reduceOption]

theorem hashAndInsertRange_forget
    (layout : Layout) (hhash : HashesStrings hash withHashes)
    {set : HashedKeySet} {start : ℕ} (h : Ready hash set start)
    {keys : List String} (hkeys : set.keys = keys.map some) :
    let result := set.hashAndInsertRange layout withHashes start
    let inserted := ArrowKeySet.hashAndInsertRange keys
      (set.table.entries.map Prod.snd)
      (List.range' start (keys.length - start))
    (result.1.forget, result.2.isNone) = (⟨keys, inserted.1⟩, inserted.2) := by
  have hcount : set.keys.length = keys.length := by
    rw [hkeys, List.length_map]
  unfold hashAndInsertRange
  by_cases hempty : start = set.keys.length
  · simp only [if_pos hempty]
    rw [hempty, hcount, Nat.sub_self]
    simp [forget, hkeys, validKeys_map_some, ArrowKeySet.hashAndInsertRange]
  · have hnew : (withHashes (set.keys.drop start)).length =
        set.keys.length - start := by
      rw [hhash.length, List.length_drop]
    have hhashes := hashed_range hhash h.start_le h.length h.hashed
    have hstored := h.stored
    rw [hkeys] at hhashes hstored
    have hrange : ∀ i ∈ List.range' start (keys.length - start),
        i < keys.length := by
      intro i hi
      have hbounds := List.mem_range'_1.mp hi
      omega
    have hinserted := insertRange_forget layout hhashes hrange hstored
    simp only [if_neg hempty, if_neg (not_not.mpr hnew)]
    rw [← hinserted]
    simp only [forget, forgetHashes, hkeys, validKeys_map_some,
      List.length_map]

/-- A set built from keys that are not null. -/
theorem fromKeys_forget
    (layout : Layout) (hhash : HashesStrings hash withHashes)
    (keys : List String) :
    (∀ set, fromKeys layout withHashes (keys.map some) = .ok set →
      ArrowKeySet.fromKeys keys = (set.forget, true)) ∧
    ∀ e, fromKeys layout withHashes (keys.map some) = .error e →
      (ArrowKeySet.fromKeys keys).2 = false := by
  have hresult := hashAndInsertRange_forget layout hhash
    (blank_ready (keys.map some)) rfl
  rcases hinserted : hashAndInsertRange layout withHashes
    ⟨keys.map some, List.replicate (keys.map some).length 0, ⟨[]⟩⟩ 0 with
    ⟨set, failure⟩
  have hfrom : fromKeys layout withHashes (keys.map some) =
      failure.elim (.ok set) .error := by
    simp only [fromKeys, hinserted]
    cases failure with
    | none => rfl
    | some e => rfl
  have hplain : ArrowKeySet.fromKeys keys =
      (⟨keys, (ArrowKeySet.hashAndInsertRange keys [] (List.range' 0
        (keys.length - 0))).1⟩, (ArrowKeySet.hashAndInsertRange keys []
          (List.range' 0 (keys.length - 0))).2) := by
    rw [ArrowKeySet.fromKeys, List.range_eq_range', Nat.sub_zero]
  rw [hfrom, hplain]
  rw [hinserted] at hresult
  rcases failure with _ | e
  · refine ⟨?_, by simp⟩
    rintro _ ⟨⟩
    exact hresult.symm
  · refine ⟨by simp, ?_⟩
    intro _ _
    exact (congrArg Prod.snd hresult).symm

/-- An extension by keys that are not null. -/
theorem extendFrom_forget
    (layout : Layout) (hhash : HashesStrings hash withHashes)
    {set : HashedKeySet} (h : set.Exact hash) {keys : List String}
    (hkeys : set.keys = keys.map some) (extra : List String) :
    let result := set.extendFrom layout withHashes (extra.map some)
    (result.1.forget, result.2.isNone) = set.forget.extendFrom extra := by
  have hcontains (key : String) :
      set.forget.contains key = true ↔ key ∈ set.held := by
    rw [held, hkeys, ← find_forget, ArrowKeySet.contains, forget, hkeys,
      validKeys_map_some]
  have hmissing : set.missing (extra.map some) =
      (extra.filter fun key => !set.forget.contains key).map some := by
    rw [missing, List.filter_map]
    congr 1
    apply List.filter_congr
    intro key _
    have hkey := hcontains key
    by_cases hmem : key ∈ set.held
    · simp [hmem, hkey.mpr hmem]
    · simp [hmem, mt hkey.mp hmem]
  rw [extendFrom_eq layout hhash h, hmissing, ArrowKeySet.extendFrom]
  generalize (extra.filter fun key => !set.forget.contains key) = misses
  simp only [List.map_eq_nil_iff]
  split_ifs with hempty
  · rfl
  · have hwith : (set.withKeys (misses.map some)).keys =
        (keys ++ misses).map some := by
      rw [withKeys, hkeys, List.map_append]
    have hcount : set.keys.length = keys.length := by
      rw [hkeys, List.length_map]
    have hinserted := hashAndInsertRange_forget layout hhash
      (withKeys_ready h (misses.map some)) hwith
    rw [appendKeys_eq layout withHashes h]
    rw [List.length_append, hcount, Nat.add_sub_cancel_left] at hinserted
    rw [hcount, hinserted]
    simp only [forget, hkeys, validKeys_map_some]
    rfl

end HashedKeySet

end DynamicTable

end Streamling
