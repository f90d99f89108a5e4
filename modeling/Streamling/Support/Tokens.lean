import Mathlib.Data.List.Nodup

/-!
# Tokens that are in one place at a time

A system hands out tokens and moves them between places.  If every token is
minted once and a step never copies one, each token is in at most one place.
The places are given as one list, the concatenation of what each of them
holds.
-/

namespace Tokens

variable {ε : Type*}

section Places

variable [DecidableEq ε]

/-- Every token was minted and is in one place at a time. -/
structure Once (minted places : List ε) : Prop where
  count_le_one : ∀ token, places.count token ≤ 1
  subset : ∀ token ∈ places, token ∈ minted

theorem once_nil (minted : List ε) : Once minted [] where
  count_le_one := fun _ => Nat.zero_le 1
  subset := by simp

/-- A step that moves or discards tokens. -/
theorem Once.of_count_le
    {minted places places' : List ε} (h : Once minted places)
    (hcount : ∀ token, places'.count token ≤ places.count token) :
    Once minted places' where
  count_le_one := fun token =>
    Nat.le_trans (hcount token) (h.count_le_one token)
  subset := by
    intro token hmem
    have hpos : 0 < places.count token :=
      Nat.lt_of_lt_of_le (List.count_pos_iff.mpr hmem) (hcount token)
    exact h.subset token (List.count_pos_iff.mp hpos)

/-- A step that mints a token. -/
theorem Once.mint
    {minted places places' : List ε} (h : Once minted places)
    (new : Option ε) (hfresh : ∀ token ∈ new, token ∉ minted)
    (hperm : places'.Perm (new.toList ++ places)) :
    Once (minted ++ new.toList) places' := by
  have hcount (token : ε) : places'.count token =
      new.toList.count token + places.count token := by
    rw [hperm.count_eq, List.count_append]
  refine ⟨fun token => ?_, fun token hmem => ?_⟩
  · rw [hcount]
    by_cases hnew : token ∈ new
    · have hnot : token ∉ places := fun hmem =>
        hfresh token hnew (h.subset token hmem)
      simp [Option.mem_def.mp hnew, List.count_eq_zero_of_not_mem hnot]
    · have hnot : token ∉ new.toList := by simpa using hnew
      simpa [List.count_eq_zero_of_not_mem hnot] using h.count_le_one token
  · rcases List.mem_append.mp (hperm.subset hmem) with hmem | hmem
    · exact List.mem_append_right _ hmem
    · exact List.mem_append_left _ (h.subset token hmem)

/-- A token found in one of two places is not in the other. -/
theorem Once.not_mem_of_mem
    {minted places xs ys : List ε} (h : Once minted places)
    (hcount : ∀ token, xs.count token + ys.count token ≤
      places.count token)
    {token : ε} (hmem : token ∈ xs) : token ∉ ys := by
  intro hmem'
  have hxs := List.count_pos_iff.mpr hmem
  have hys := List.count_pos_iff.mpr hmem'
  have := h.count_le_one token
  have := hcount token
  omega

end Places

/-! ## Tokens held by owners -/

section Owners

variable {ι : Type*} {minted spent : List ε} {held held' : ι → List ε}

/-- Every token was minted, and is spent once or held by one owner. -/
structure Owned (minted spent : List ε) (held : ι → List ε) : Prop where
  spent_nodup : spent.Nodup
  held_nodup : ∀ owner, (held owner).Nodup
  unspent : ∀ owner, ∀ token ∈ held owner, token ∉ spent
  distinct : ∀ owner owner' token, token ∈ held owner →
    token ∈ held owner' → owner = owner'
  spent_minted : ∀ token ∈ spent, token ∈ minted
  held_minted : ∀ owner, ∀ token ∈ held owner, token ∈ minted

theorem owned_nil : Owned ([] : List ε) [] fun _ : ι => [] := by
  constructor <;> simp

/-- Owners keep or lose their tokens. -/
theorem Owned.lose
    (h : Owned minted spent held)
    (hheld : ∀ owner, (held' owner).Sublist (held owner)) :
    Owned minted spent held' where
  spent_nodup := h.spent_nodup
  held_nodup := fun owner => (h.held_nodup owner).sublist (hheld owner)
  unspent := fun owner token hmem =>
    h.unspent owner token ((hheld owner).subset hmem)
  distinct := fun owner owner' token hmem hmem' =>
    h.distinct owner owner' token ((hheld owner).subset hmem)
      ((hheld owner').subset hmem')
  spent_minted := h.spent_minted
  held_minted := fun owner token hmem =>
    h.held_minted owner token ((hheld owner).subset hmem)

/-- Tokens are minted for one owner, in the place of those it held. -/
theorem Owned.mint
    (h : Owned minted spent held) (owner : ι) {new : List ε}
    (hnew : (minted ++ new).Nodup) (howner : held' owner = new)
    (hother : ∀ other, other ≠ owner → held' other = held other) :
    Owned (minted ++ new) spent held' := by
  subst howner
  have hfresh : ∀ token ∈ held' owner, token ∉ minted := fun token hmem h =>
    (List.nodup_append.mp hnew).2.2 token h token hmem rfl
  refine ⟨h.spent_nodup, ?_, ?_, ?_, ?_, ?_⟩
  · intro other
    by_cases heq : other = owner
    · exact heq ▸ (List.nodup_append.mp hnew).2.1
    · exact hother other heq ▸ h.held_nodup other
  · intro other token hmem hspent
    by_cases heq : other = owner
    · exact hfresh token (heq ▸ hmem) (h.spent_minted token hspent)
    · exact h.unspent other token (hother other heq ▸ hmem) hspent
  · intro a b token ha hb
    by_cases hao : a = owner <;> by_cases hbo : b = owner
    · exact hao.trans hbo.symm
    · rw [hother b hbo] at hb
      exact absurd (h.held_minted b token hb) (hfresh token (hao ▸ ha))
    · rw [hother a hao] at ha
      exact absurd (h.held_minted a token ha) (hfresh token (hbo ▸ hb))
    · rw [hother a hao] at ha
      rw [hother b hbo] at hb
      exact h.distinct a b token ha hb
  · exact fun token hmem =>
      List.mem_append_left _ (h.spent_minted token hmem)
  · intro other token hmem
    by_cases heq : other = owner
    · exact List.mem_append_right _ (heq ▸ hmem)
    · exact List.mem_append_left _
        (h.held_minted other token (hother other heq ▸ hmem))

/-- An owner spends its first token. -/
theorem Owned.spend
    (h : Owned minted spent held) (owner : ι) {token : ε}
    (howner : held owner = token :: held' owner)
    (hother : ∀ other, other ≠ owner → held' other = held other) :
    Owned minted (spent ++ [token]) held' := by
  have hmem : token ∈ held owner := by simp [howner]
  have hnot : token ∉ held' owner := by
    have := h.held_nodup owner
    rw [howner] at this
    exact (List.nodup_cons.mp this).1
  have hheld (other : ι) : (held' other).Sublist (held other) := by
    by_cases heq : other = owner
    · rw [heq, howner]
      exact List.sublist_cons_self _ _
    · rw [hother other heq]
  have hrest := h.lose hheld
  refine ⟨?_, hrest.held_nodup, ?_, hrest.distinct, ?_, hrest.held_minted⟩
  · refine List.nodup_append.mpr ⟨h.spent_nodup, by simp, ?_⟩
    rintro a ha b hb rfl
    exact h.unspent owner token hmem (List.mem_singleton.mp hb ▸ ha)
  · intro other t ht hspent
    rcases List.mem_append.mp hspent with hspent | hspent
    · exact hrest.unspent other t ht hspent
    · obtain rfl := List.mem_singleton.mp hspent
      have howner := h.distinct other owner t ((hheld other).subset ht) hmem
      exact hnot (howner ▸ ht)
  · intro t ht
    rcases List.mem_append.mp ht with ht | ht
    · exact h.spent_minted t ht
    · exact List.mem_singleton.mp ht ▸ h.held_minted owner token hmem

end Owners

end Tokens
