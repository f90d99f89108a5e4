import Mathlib

/-!
# Hash tables of indices

A table keeps values, each filed under a hash.  A lookup passes the values
filed under its hash, and maybe others, and asks of each whether it is the one;
an insertion into a full table files every value anew under the hash that the
hasher gives for it.  Both fail if the function they are given does.
-/

namespace HashIndex

/-- What a lookup passes and when an insertion grows the table. -/
structure Layout where
  passes : UInt64 → UInt64 → Bool
  grows : ℕ → Bool
  passes_self : ∀ hash, passes hash hash = true

structure HashTable (α : Type) where
  entries : List (UInt64 × α)
  deriving DecidableEq, Repr

namespace HashTable

variable {α : Type}

def find (layout : Layout) (t : HashTable α) (hash : UInt64)
    (eq : α → Option Bool) : Option Bool :=
  (t.entries.filter fun e => layout.passes hash e.1).anyM fun e => eq e.2

def insertUnique (layout : Layout) (t : HashTable α) (hash : UInt64)
    (value : α) (hasher : α → Option UInt64) : Option (HashTable α) := do
  let entries ←
    if layout.grows t.entries.length then
      t.entries.mapM fun e => do return (← hasher e.2, e.2)
    else some t.entries
  return ⟨entries ++ [(hash, value)]⟩

theorem anyM_eq_some
    {β : Type} {xs : List β} {eq : β → Option Bool} {p : β → Bool}
    (h : ∀ x ∈ xs, eq x = some (p x)) : xs.anyM eq = some (xs.any p) := by
  induction xs with
  | nil => rfl
  | cons x xs ih =>
      rw [List.forall_mem_cons] at h
      cases hp : p x with
      | true => simp [List.anyM, h.1, hp]
      | false => simp [List.anyM, h.1, hp, ih h.2]

/-- A lookup finds whether some value is the one, if that is filed under the
hash. -/
theorem find_eq
    (layout : Layout) {t : HashTable α} {hash : UInt64}
    {eq : α → Option Bool} {p : α → Bool}
    (heq : ∀ e ∈ t.entries, eq e.2 = some (p e.2))
    (hfiled : ∀ e ∈ t.entries, p e.2 = true → e.1 = hash) :
    t.find layout hash eq = some (t.entries.any fun e => p e.2) := by
  have hany : t.find layout hash eq = some ((t.entries.filter fun e =>
      layout.passes hash e.1).any fun e => p e.2) := by
    apply anyM_eq_some
    intro e he
    exact heq e (List.mem_of_mem_filter he)
  rw [hany, Option.some.injEq, Bool.eq_iff_iff, List.any_eq_true,
    List.any_eq_true]
  constructor
  · rintro ⟨e, he, hp⟩
    exact ⟨e, List.mem_of_mem_filter he, hp⟩
  · rintro ⟨e, he, hp⟩
    refine ⟨e, List.mem_filter.mpr ⟨he, ?_⟩, hp⟩
    rw [hfiled e he hp]
    exact layout.passes_self hash

/-- A hasher that gives the hashes under which the values are filed keeps them
there. -/
theorem insertUnique_eq
    (layout : Layout) {t : HashTable α} (hash : UInt64) (value : α)
    {hasher : α → Option UInt64}
    (hhasher : ∀ e ∈ t.entries, hasher e.2 = some e.1) :
    t.insertUnique layout hash value hasher =
      some ⟨t.entries ++ [(hash, value)]⟩ := by
  have hsame : (t.entries.mapM fun e => do
      return (← hasher e.2, e.2)) = some t.entries := by
    generalize t.entries = entries at hhasher
    induction entries with
    | nil => rfl
    | cons e entries ih =>
        rw [List.forall_mem_cons] at hhasher
        rw [List.mapM_cons, ih hhasher.2, hhasher.1]
        rfl
  unfold insertUnique
  rw [hsame, ite_self]
  rfl

end HashTable

end HashIndex
