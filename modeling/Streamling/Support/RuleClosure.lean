import Mathlib

/-!
# Closure of a finite set under rules

A rule adds one element to a set once its test holds of the set.  Rules with
monotone tests have a least closed superset of every set, and passing over
the rules until the set stops growing reaches it.
-/

namespace Streamling

namespace RuleClosure

variable {α : Type} [DecidableEq α]

/-! ## Rules -/

/-- An element and the test under which it is added. -/
abbrev Rule (α : Type) : Type := α × (Finset α → Bool)

def Rule.apply (set : Finset α) (rule : Rule α) : Finset α :=
  if rule.2 set then insert rule.1 set else set

/-- One pass over the rules, each applied to what the earlier ones made. -/
def pass (rules : List (Rule α)) (set : Finset α) : Finset α :=
  rules.foldl Rule.apply set

/-- Passes until the set does not grow, or at most `fuel` of them. -/
def saturate (rules : List (Rule α)) : ℕ → Finset α → Finset α
  | 0, set => set
  | fuel + 1, set =>
      if (pass rules set).card = set.card then pass rules set
      else saturate rules fuel (pass rules set)

def keys (rules : List (Rule α)) : Finset α :=
  (rules.map Prod.fst).toFinset

/-- No rule can add anything. -/
def Closed (rules : List (Rule α)) (set : Finset α) : Prop :=
  ∀ rule ∈ rules, rule.2 set = true → rule.1 ∈ set

/-- Every test that holds of a set holds of the larger sets. -/
def MonotoneTests (rules : List (Rule α)) : Prop :=
  ∀ rule ∈ rules, ∀ ⦃small large : Finset α⦄, small ⊆ large →
    rule.2 small = true → rule.2 large = true

section Pass

variable {rules : List (Rule α)} {set : Finset α}

theorem subset_apply (set : Finset α) (rule : Rule α) :
    set ⊆ rule.apply set := by
  unfold Rule.apply
  split_ifs
  · exact Finset.subset_insert _ _
  · exact Finset.Subset.refl _

theorem apply_subset
    {rule : Rule α} {bound : Finset α}
    (hset : set ⊆ bound) (hrule : rule.2 set = true → rule.1 ∈ bound) :
    rule.apply set ⊆ bound := by
  unfold Rule.apply
  split_ifs with h
  · exact Finset.insert_subset (hrule h) hset
  · exact hset

theorem subset_pass (rules : List (Rule α)) (set : Finset α) :
    set ⊆ pass rules set := by
  induction rules generalizing set with
  | nil => exact Finset.Subset.refl _
  | cons rule rules ih =>
      exact (subset_apply set rule).trans (ih (rule.apply set))

theorem pass_subset_union_keys (rules : List (Rule α)) (set : Finset α) :
    pass rules set ⊆ set ∪ keys rules := by
  induction rules generalizing set with
  | nil => simp [pass]
  | cons rule rules ih =>
      have happly : rule.apply set ⊆ insert rule.1 set :=
        apply_subset (Finset.subset_insert _ _)
          (fun _ => Finset.mem_insert_self _ _)
      refine (ih (rule.apply set)).trans ?_
      intro x hx
      rw [Finset.mem_union] at hx
      have hkeys : keys (rule :: rules) = insert rule.1 (keys rules) := by
        simp [keys]
      rw [hkeys]
      rcases hx with hx | hx
      · rcases Finset.mem_insert.mp (happly hx) with rfl | hx
        · simp
        · simp [hx]
      · simp [hx]

theorem pass_subset_of_closed
    (hmono : MonotoneTests rules) {bound : Finset α}
    (hclosed : Closed rules bound) (hset : set ⊆ bound) :
    pass rules set ⊆ bound := by
  induction rules generalizing set with
  | nil => exact hset
  | cons rule rules ih =>
      apply ih (fun r hr => hmono r (List.mem_cons_of_mem _ hr))
        (fun r hr => hclosed r (List.mem_cons_of_mem _ hr))
      apply apply_subset hset
      intro htest
      exact hclosed rule List.mem_cons_self
        (hmono rule List.mem_cons_self hset htest)

/-- A pass that adds nothing has tried every rule on the same set. -/
theorem closed_of_pass_eq (h : pass rules set = set) : Closed rules set := by
  induction rules with
  | nil => exact fun _ hrule => absurd hrule List.not_mem_nil
  | cons rule rules ih =>
      have hfirst : rule.apply set = set := by
        apply Finset.Subset.antisymm
        · have hle := subset_pass rules (rule.apply set)
          rwa [show pass rules (rule.apply set) = set from h] at hle
        · exact subset_apply set rule
      have hrest : pass rules set = set := by
        have hpass : pass rules (rule.apply set) = set := h
        rwa [hfirst] at hpass
      intro r hr htest
      rcases List.mem_cons.mp hr with rfl | hr
      · rw [← hfirst]
        simp [Rule.apply, htest]
      · exact ih hrest r hr htest

theorem pass_eq_of_card (h : (pass rules set).card = set.card) :
    pass rules set = set :=
  (Finset.eq_of_subset_of_card_le (subset_pass rules set) h.le).symm

end Pass

section Saturate

variable {rules : List (Rule α)}

theorem subset_saturate (fuel : ℕ) (set : Finset α) :
    set ⊆ saturate rules fuel set := by
  induction fuel generalizing set with
  | zero => exact Finset.Subset.refl _
  | succ fuel ih =>
      unfold saturate
      split_ifs
      · exact subset_pass rules set
      · exact (subset_pass rules set).trans (ih _)

theorem saturate_subset_of_closed
    (hmono : MonotoneTests rules) {bound : Finset α}
    (hclosed : Closed rules bound) (fuel : ℕ) {set : Finset α}
    (hset : set ⊆ bound) :
    saturate rules fuel set ⊆ bound := by
  induction fuel generalizing set with
  | zero => exact hset
  | succ fuel ih =>
      unfold saturate
      have hpass := pass_subset_of_closed hmono hclosed hset
      split_ifs
      · exact hpass
      · exact ih hpass

/-- Enough fuel: each pass but the last adds one of the keys. -/
theorem closed_saturate
    {fuel : ℕ} {set : Finset α} (h : (keys rules \ set).card < fuel) :
    Closed rules (saturate rules fuel set) := by
  induction fuel generalizing set with
  | zero => exact absurd h (Nat.not_lt_zero _)
  | succ fuel ih =>
      unfold saturate
      split_ifs with hcard
      · have heq := pass_eq_of_card hcard
        rw [heq]
        exact closed_of_pass_eq heq
      · apply ih
        have hne : pass rules set ≠ set := fun heq => hcard (by rw [heq])
        obtain ⟨x, hx, hnew⟩ := Finset.exists_of_ssubset
          (Finset.ssubset_iff_subset_ne.mpr
            ⟨subset_pass rules set, hne.symm⟩)
        have hkey : x ∈ keys rules \ set := by
          have hmem := pass_subset_union_keys rules set hx
          simp only [Finset.mem_union] at hmem
          exact Finset.mem_sdiff.mpr ⟨hmem.resolve_left hnew, hnew⟩
        have hless : (keys rules \ pass rules set).card <
            (keys rules \ set).card := by
          apply Finset.card_lt_card
          rw [Finset.ssubset_iff_of_subset
            (Finset.sdiff_subset_sdiff (Finset.Subset.refl _)
              (subset_pass rules set))]
          exact ⟨x, hkey, by simp [hx]⟩
        omega

/-- Saturation is the least closed set above where it starts. -/
theorem isLeast_saturate
    (hmono : MonotoneTests rules) (set : Finset α) {fuel : ℕ}
    (h : (keys rules).card < fuel) :
    IsLeast {bound | set ⊆ bound ∧ Closed rules bound}
      (saturate rules fuel set) := by
  constructor
  · exact ⟨subset_saturate fuel set, closed_saturate
      (lt_of_le_of_lt (Finset.card_le_card Finset.sdiff_subset) h)⟩
  · rintro bound ⟨hset, hclosed⟩
    exact saturate_subset_of_closed hmono hclosed fuel hset

end Saturate

end RuleClosure

end Streamling
