import Mathlib

/-!
# The key set of the dynamic table cache

Keys are appended to a buffer, and a hash table holds the index of each
distinct one.  Indices have 32 bits: inserting fails at the first one that
does not fit, with the keys before it in the table.
-/

namespace Streamling

namespace DynamicTable

/-- The largest index the hash table can hold. -/
def maxIndex : ℕ := 2 ^ 32 - 1

/-- The buffer of keys and the indices in the hash table. -/
structure ArrowKeySet where
  keys : List String
  table : List ℕ
  deriving DecidableEq

namespace ArrowKeySet

/-- The lookup of the hash table: equality with a stored key decides. -/
def find (keys : List String) (table : List ℕ) (key : String) : Bool :=
  table.any fun i => keys[i]? = some key

def contains (set : ArrowKeySet) (key : String) : Bool :=
  find set.keys set.table key

/-- Null needles stay null. -/
def containsArray (set : ArrowKeySet) (needles : List (Option String)) :
    List (Option Bool) :=
  needles.map fun needle => needle.map set.contains

/-- Enter the indices of a range one after the other, and report whether all
of them fit. -/
def hashAndInsertRange (keys : List String) :
    List ℕ → List ℕ → List ℕ × Bool
  | table, [] => (table, true)
  | table, i :: range =>
      match keys[i]? with
      | none => hashAndInsertRange keys table range
      | some key =>
          if maxIndex < i then (table, false)
          else if find keys table key then
            hashAndInsertRange keys table range
          else hashAndInsertRange keys (table ++ [i]) range

def fromKeys (keys : List String) : ArrowKeySet × Bool :=
  let inserted := hashAndInsertRange keys [] (List.range keys.length)
  (⟨keys, inserted.1⟩, inserted.2)

/-- Append the keys that are not in the set yet. -/
def extendFrom (set : ArrowKeySet) (extra : List String) :
    ArrowKeySet × Bool :=
  let misses := extra.filter fun key => !set.contains key
  if misses = [] then (set, true)
  else
    let start := set.keys.length
    let keys := set.keys ++ misses
    let inserted := hashAndInsertRange keys set.table
      (List.range' start misses.length)
    (⟨keys, inserted.1⟩, inserted.2)

/-! ## Membership -/

theorem find_iff {keys : List String} {table : List ℕ} {key : String} :
    find keys table key ↔ ∃ i ∈ table, keys[i]? = some key := by
  simp [find]

theorem find_append
    {keys : List String} {table : List ℕ} {key : String} {i : ℕ} :
    find keys (table ++ [i]) key ↔
      find keys table key ∨ keys[i]? = some key := by
  simp [find]

theorem contains_iff {set : ArrowKeySet} {key : String} :
    set.contains key ↔ ∃ i ∈ set.table, set.keys[i]? = some key :=
  find_iff

/-- Inserting a range keeps what is found, adds only keys of the range and,
if it succeeds, all of them. -/
theorem hashAndInsertRange_spec
    (keys : List String) (table range : List ℕ) (key : String) :
    let inserted := hashAndInsertRange keys table range
    (find keys table key → find keys inserted.1 key) ∧
      (find keys inserted.1 key →
        find keys table key ∨ ∃ i ∈ range, keys[i]? = some key) ∧
      (inserted.2 → (∃ i ∈ range, keys[i]? = some key) →
        find keys inserted.1 key) := by
  induction range generalizing table with
  | nil => simp [hashAndInsertRange]
  | cons i range ih =>
      simp only [hashAndInsertRange]
      cases hkey : keys[i]? with
      | none => simpa [hkey] using ih table
      | some other =>
          simp only
          split_ifs with hfits hfound
          · exact ⟨id, .inl, by simp⟩
          · -- the key is found already
            obtain ⟨hkeeps, honly, hall⟩ := ih table
            refine ⟨hkeeps, ?_, ?_⟩
            · intro h
              exact (honly h).imp_right fun ⟨j, hj, heq⟩ =>
                ⟨j, List.mem_cons_of_mem _ hj, heq⟩
            · rintro hok ⟨j, hj, heq⟩
              rcases List.mem_cons.mp hj with rfl | hj
              · obtain rfl : other = key :=
                  Option.some.inj (hkey.symm.trans heq)
                exact hkeeps hfound
              · exact hall hok ⟨j, hj, heq⟩
          · obtain ⟨hkeeps, honly, hall⟩ := ih (table ++ [i])
            refine ⟨fun h => hkeeps (find_append.mpr (.inl h)), ?_, ?_⟩
            · intro h
              rcases honly h with h | ⟨j, hj, heq⟩
              · exact (find_append.mp h).imp_right fun heq =>
                  ⟨i, List.mem_cons_self, heq⟩
              · exact .inr ⟨j, List.mem_cons_of_mem _ hj, heq⟩
            · rintro hok ⟨j, hj, heq⟩
              rcases List.mem_cons.mp hj with rfl | hj
              · exact hkeeps (find_append.mpr (.inr heq))
              · exact hall hok ⟨j, hj, heq⟩

/-- A set built from keys holds exactly these. -/
theorem contains_fromKeys
    {keys : List String} (hok : (fromKeys keys).2) (key : String) :
    (fromKeys keys).1.contains key ↔ key ∈ keys := by
  have hspec := hashAndInsertRange_spec keys [] (List.range keys.length) key
  have hmem : key ∈ keys ↔
      ∃ i ∈ List.range keys.length, keys[i]? = some key := by
    rw [List.mem_iff_getElem?]
    constructor
    · rintro ⟨i, hi⟩
      obtain ⟨hlt, -⟩ := List.getElem?_eq_some_iff.mp hi
      exact ⟨i, List.mem_range.mpr hlt, hi⟩
    · rintro ⟨i, -, hi⟩
      exact ⟨i, hi⟩
  rw [hmem]
  constructor
  · intro h
    rcases hspec.2.1 h with h | h
    · simp [find] at h
    · exact h
  · exact hspec.2.2 hok

theorem contains_extendFrom_of_contains
    {set : ArrowKeySet} {extra : List String} {key : String}
    (h : set.contains key) : (set.extendFrom extra).1.contains key := by
  simp only [extendFrom]
  split_ifs with hmisses
  · exact h
  · apply (hashAndInsertRange_spec _ _ _ key).1
    obtain ⟨i, hi, heq⟩ := contains_iff.mp h
    refine find_iff.mpr ⟨i, hi, ?_⟩
    obtain ⟨hlt, -⟩ := List.getElem?_eq_some_iff.mp heq
    rwa [List.getElem?_append_left hlt]

theorem getElem?_append_eq_some
    {keys misses : List String} {i : ℕ} {key : String}
    (h : (keys ++ misses)[i]? = some key) :
    keys[i]? = some key ∨ key ∈ misses := by
  rw [List.getElem?_append] at h
  split_ifs at h
  · exact .inl h
  · exact .inr (List.mem_of_getElem? h)

/-- Extending adds only the given keys, also if it fails. -/
theorem contains_of_contains_extendFrom
    {set : ArrowKeySet} {extra : List String} {key : String}
    (h : (set.extendFrom extra).1.contains key) :
    set.contains key ∨ key ∈ extra := by
  simp only [extendFrom] at h
  split_ifs at h with hmisses
  · exact .inl h
  · have hmiss : ∀ {i : ℕ},
        (set.keys ++ extra.filter fun key => !set.contains key)[i]? =
          some key → set.keys[i]? = some key ∨ key ∈ extra := fun hi =>
      (getElem?_append_eq_some hi).imp_right List.mem_of_mem_filter
    rcases (hashAndInsertRange_spec _ _ _ key).2.1 h with h | ⟨i, hi, heq⟩
    · obtain ⟨i, hi, heq⟩ := find_iff.mp h
      exact (hmiss heq).imp_left fun heq => contains_iff.mpr ⟨i, hi, heq⟩
    · rcases hmiss heq with heq | hextra
      · obtain ⟨hlt, -⟩ := List.getElem?_eq_some_iff.mp heq
        have hle := (List.mem_range'_1.mp hi).1
        omega
      · exact .inr hextra

/-- A successful extension holds all the given keys. -/
theorem contains_extendFrom_of_mem
    {set : ArrowKeySet} {extra : List String}
    (hok : (set.extendFrom extra).2) {key : String} (hkey : key ∈ extra) :
    (set.extendFrom extra).1.contains key := by
  by_cases hold : set.contains key
  · exact contains_extendFrom_of_contains hold
  · have hmiss : key ∈ extra.filter fun key => !set.contains key :=
      List.mem_filter.mpr ⟨hkey, by simpa using hold⟩
    have hne : (extra.filter fun key => !set.contains key) ≠ [] :=
      List.ne_nil_of_mem hmiss
    simp only [extendFrom, if_neg hne] at hok ⊢
    apply (hashAndInsertRange_spec _ _ _ key).2.2 hok
    obtain ⟨i, hi⟩ := List.mem_iff_getElem?.mp hmiss
    obtain ⟨hlt, -⟩ := List.getElem?_eq_some_iff.mp hi
    refine ⟨set.keys.length + i, ?_, ?_⟩
    · rw [List.mem_range'_1]
      omega
    · rw [List.getElem?_append_right (by omega), Nat.add_sub_cancel_left]
      exact hi

end ArrowKeySet

end DynamicTable

end Streamling
