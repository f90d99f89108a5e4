import Mathlib.Data.List.Pairwise
import Mathlib.Order.Lattice

/-!
# Finite maps with ordered iteration

A finite map is a list of entries whose keys strictly increase, so two maps
with the same bindings are equal and iteration visits the keys in ascending
order.  The order is a field of the structure: no operation can build a map
that binds a key twice.
-/

/-- A finite map given by its entries in ascending key order. -/
@[ext] structure OrderedMap (κ ν : Type*) [LinearOrder κ] where
  entries : List (κ × ν)
  sorted : entries.Pairwise fun a b => a.1 < b.1

namespace OrderedMap

variable {κ ν : Type*} [LinearOrder κ]

/-- The map with no entry. -/
def empty : OrderedMap κ ν where
  entries := []
  sorted := List.Pairwise.nil

instance : EmptyCollection (OrderedMap κ ν) := ⟨empty⟩

instance [DecidableEq ν] : DecidableEq (OrderedMap κ ν) := fun m n =>
  decidable_of_iff (m.entries = n.entries) OrderedMap.ext_iff.symm

/-- The value bound to `k`. -/
def find? (m : OrderedMap κ ν) (k : κ) : Option ν :=
  (m.entries.find? fun p => p.1 = k).map Prod.snd

/-- Bind `k` to `v`, replacing an earlier binding. -/
def insert (m : OrderedMap κ ν) (k : κ) (v : ν) : OrderedMap κ ν where
  entries :=
    m.entries.filter (fun p => p.1 < k) ++
      (k, v) :: m.entries.filter (fun p => k < p.1)
  sorted := by
    simp only [List.pairwise_append, List.pairwise_cons, List.mem_cons,
      List.mem_filter, decide_eq_true_eq]
    refine ⟨m.sorted.filter _, ⟨fun a ha => ha.2, m.sorted.filter _⟩, ?_⟩
    rintro a ⟨-, ha⟩ b (rfl | ⟨-, hb⟩)
    · exact ha
    · exact lt_trans ha hb

/-- Keep the entries that satisfy `p`. -/
def retain (m : OrderedMap κ ν) (p : κ → ν → Bool) : OrderedMap κ ν where
  entries := m.entries.filter fun q => p q.1 q.2
  sorted := m.sorted.filter _

/-- Remove the binding of `k`. -/
def remove (m : OrderedMap κ ν) (k : κ) : OrderedMap κ ν :=
  m.retain fun k' _ => k' ≠ k

/-- Replace every value, the key being known. -/
def mapValues {ν' : Type*} (m : OrderedMap κ ν) (f : κ → ν → ν') :
    OrderedMap κ ν' where
  entries := m.entries.map fun q => (q.1, f q.1 q.2)
  sorted := List.pairwise_map.mpr m.sorted

/-- The entry with the greatest key. -/
def last? (m : OrderedMap κ ν) : Option (κ × ν) :=
  m.entries.getLast?

/-- Remove entries from the front as long as they satisfy `p`. -/
def dropWhile (m : OrderedMap κ ν) (p : κ → ν → Bool) :
    OrderedMap κ ν where
  entries := m.entries.dropWhile fun q => p q.1 q.2
  sorted := m.sorted.sublist (List.dropWhile_sublist _)

/-! ## Lookup is membership -/

theorem eq_of_mem_of_mem
    {m : OrderedMap κ ν} {k : κ} {v w : ν}
    (hv : (k, v) ∈ m.entries) (hw : (k, w) ∈ m.entries) : v = w := by
  by_contra hne
  have hkeys : m.entries.Pairwise fun a b => a.1 ≠ b.1 :=
    m.sorted.imp fun h => ne_of_lt h
  have hsymm : Std.Symm fun a b : κ × ν => a.1 ≠ b.1 :=
    ⟨fun _ _ h => h.symm⟩
  exact hkeys.forall hv hw (fun h => hne (Prod.mk.inj h).2) rfl

theorem find?_eq_some_iff
    {m : OrderedMap κ ν} {k : κ} {v : ν} :
    m.find? k = some v ↔ (k, v) ∈ m.entries := by
  constructor
  · intro h
    obtain ⟨p, hp, rfl⟩ := Option.map_eq_some_iff.mp h
    have hk : p.1 = k := by simpa using List.find?_some hp
    subst hk
    exact List.mem_of_find?_eq_some hp
  · intro h
    cases hfind : m.entries.find? fun p => p.1 = k with
    | none =>
        have := List.find?_eq_none.mp hfind (k, v) h
        simp at this
    | some p =>
        have hk : p.1 = k := by simpa using List.find?_some hfind
        subst hk
        have hv := eq_of_mem_of_mem (List.mem_of_find?_eq_some hfind) h
        simp [find?, hfind, hv]

@[simp] theorem find?_empty (k : κ) :
    (∅ : OrderedMap κ ν).find? k = none := rfl

@[simp] theorem find?_insert_self (m : OrderedMap κ ν) (k : κ) (v : ν) :
    (m.insert k v).find? k = some v := by
  simp [find?_eq_some_iff, insert]

theorem find?_insert_of_ne
    (m : OrderedMap κ ν) {k k' : κ} (v : ν) (h : k' ≠ k) :
    (m.insert k v).find? k' = m.find? k' := by
  apply Option.ext
  intro w
  simp only [find?_eq_some_iff, insert, List.mem_append, List.mem_filter,
    List.mem_cons, Prod.mk.injEq, decide_eq_true_eq]
  constructor
  · rintro (⟨hw, -⟩ | ⟨hk, -⟩ | ⟨hw, -⟩)
    · exact hw
    · exact absurd hk h
    · exact hw
  · intro hw
    rcases lt_or_gt_of_ne h with hlt | hgt
    · exact Or.inl ⟨hw, hlt⟩
    · exact Or.inr (Or.inr ⟨hw, hgt⟩)

theorem find?_insert (m : OrderedMap κ ν) (k k' : κ) (v : ν) :
    (m.insert k v).find? k' = if k' = k then some v else m.find? k' := by
  by_cases h : k' = k
  · subst h
    simp
  · rw [find?_insert_of_ne m v h, if_neg h]

/-- Binding every key of a list to one value. -/
theorem find?_foldl_insert
    (keys : List κ) (m : OrderedMap κ ν) (v : ν) (k : κ) :
    (keys.foldl (fun m k => m.insert k v) m).find? k =
      if k ∈ keys then some v else m.find? k := by
  induction keys generalizing m with
  | nil => simp
  | cons k' keys ih =>
      rw [List.foldl_cons, ih, find?_insert]
      by_cases hmem : k ∈ keys
      · simp [hmem]
      · by_cases heq : k = k'
        · simp [heq]
        · simp [hmem, heq]

theorem find?_retain_eq_some_iff
    {m : OrderedMap κ ν} {p : κ → ν → Bool} {k : κ} {v : ν} :
    (m.retain p).find? k = some v ↔ m.find? k = some v ∧ p k v = true := by
  simp [find?_eq_some_iff, retain]

theorem find?_retain_key (m : OrderedMap κ ν) (p : κ → Bool) (k : κ) :
    (m.retain fun k' _ => p k').find? k =
      if p k = true then m.find? k else none := by
  apply Option.ext
  intro v
  rw [find?_retain_eq_some_iff]
  by_cases h : p k = true
  · simp [h]
  · simp [h]

theorem find?_mapValues {ν' : Type*}
    (m : OrderedMap κ ν) (f : κ → ν → ν') (k : κ) :
    (m.mapValues f).find? k = (m.find? k).map (f k) := by
  apply Option.ext
  intro w
  rw [find?_eq_some_iff, Option.map_eq_some_iff]
  simp only [mapValues, List.mem_map, Prod.mk.injEq]
  constructor
  · rintro ⟨⟨k', v⟩, hmem, rfl, rfl⟩
    exact ⟨v, find?_eq_some_iff.mpr hmem, rfl⟩
  · rintro ⟨v, hfind, rfl⟩
    exact ⟨(k, v), find?_eq_some_iff.mp hfind, rfl, rfl⟩

/-- Entries picked from a map by a partial function of key and value come out
in ascending key order. -/
theorem pairwise_filterMap_key
    (m : OrderedMap κ ν) (p : κ → ν → Bool) :
    ((m.entries.filter fun q => p q.1 q.2).map Prod.fst).Pairwise (· < ·) :=
  List.pairwise_map.mpr (m.sorted.filter _)

end OrderedMap
