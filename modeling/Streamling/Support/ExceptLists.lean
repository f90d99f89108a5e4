import Mathlib

/-!
# Lists of fallible computations

A list is mapped by a function that may fail: the whole fails exactly if an
entry does, and otherwise every entry of the result is that of its own entry.
-/

namespace ExceptLists

variable {α β γ ε : Type*}

theorem mapM_eq_ok_iff
    {f : α → Except ε β} {xs : List α} {ys : List β} :
    xs.mapM f = .ok ys ↔ List.Forall₂ (fun x y => f x = .ok y) xs ys := by
  induction xs generalizing ys with
  | nil =>
      rw [List.forall₂_nil_left_iff, List.mapM_nil]
      exact ⟨fun h => (Except.ok.inj h).symm, fun h => by rw [h]; rfl⟩
  | cons x xs ih =>
      rw [List.mapM_cons, List.forall₂_cons_left_iff]
      constructor
      · intro h
        cases hx : f x with
        | error e => simp [hx, bind, Except.bind] at h
        | ok y =>
            cases hxs : xs.mapM f with
            | error e => simp [hx, hxs, bind, Except.bind] at h
            | ok rest =>
                obtain rfl : y :: rest = ys := by
                  simpa [hx, hxs, bind, Except.bind, pure, Except.pure] using h
                exact ⟨y, rest, rfl, ih.mp hxs, rfl⟩
      · rintro ⟨y, rest, hx, hxs, rfl⟩
        rw [hx, ih.mpr hxs]
        rfl

/-- A list is mapped exactly if every entry is. -/
theorem exists_mapM_eq_ok_iff {f : α → Except ε β} {xs : List α} :
    (∃ ys, xs.mapM f = .ok ys) ↔ ∀ x ∈ xs, ∃ y, f x = .ok y := by
  induction xs with
  | nil => exact ⟨fun _ _ hx => by simp at hx, fun _ => ⟨[], rfl⟩⟩
  | cons x xs ih =>
      simp only [mapM_eq_ok_iff, List.forall₂_cons_left_iff,
        List.forall_mem_cons] at ih ⊢
      constructor
      · rintro ⟨_, y, rest, hx, hxs, rfl⟩
        exact ⟨⟨y, hx⟩, ih.mp ⟨rest, hxs⟩⟩
      · rintro ⟨⟨y, hx⟩, hxs⟩
        obtain ⟨rest, hrest⟩ := ih.mpr hxs
        exact ⟨y :: rest, y, rest, hx, hrest, rfl⟩

theorem mapM_eq_ok_of_forall
    {f : α → Except ε β} {g : α → β} {xs : List α}
    (h : ∀ x ∈ xs, f x = .ok (g x)) : xs.mapM f = .ok (xs.map g) := by
  rw [mapM_eq_ok_iff, List.forall₂_map_right_iff]
  exact List.forall₂_same.mpr h

/-- The error of a list is that of one of its entries. -/
theorem exists_mem_of_mapM_eq_error
    {f : α → Except ε β} {xs : List α} {e : ε}
    (h : xs.mapM f = .error e) : ∃ x ∈ xs, f x = .error e := by
  induction xs with
  | nil =>
      rw [List.mapM_nil] at h
      exact absurd h (by simp [pure, Except.pure])
  | cons x xs ih =>
      rw [List.mapM_cons] at h
      cases hx : f x with
      | error e' =>
          rw [hx] at h
          obtain rfl := Except.error.inj h
          exact ⟨x, List.mem_cons_self, hx⟩
      | ok y =>
          cases hxs : xs.mapM f with
          | error e' =>
              rw [hx, hxs] at h
              obtain rfl := Except.error.inj h
              obtain ⟨x', hmem, hx'⟩ := ih hxs
              exact ⟨x', List.mem_cons_of_mem x hmem, hx'⟩
          | ok ys =>
              rw [hx, hxs] at h
              exact absurd h (by simp [bind, Except.bind, pure, Except.pure])

/-- Relations that agree on the entries of a list relate it to the same
lists. -/
theorem forall₂_congr_of_mem
    {R S : α → β → Prop} {xs : List α} {ys : List β}
    (h : ∀ x ∈ xs, ∀ y, R x y ↔ S x y) :
    List.Forall₂ R xs ys ↔ List.Forall₂ S xs ys := by
  induction xs generalizing ys with
  | nil => rw [List.forall₂_nil_left_iff, List.forall₂_nil_left_iff]
  | cons x xs ih =>
      simp only [List.forall₂_cons_left_iff]
      have htail (zs : List β) : List.Forall₂ R xs zs ↔
          List.Forall₂ S xs zs :=
        ih fun x' hx' => h x' (List.mem_cons_of_mem x hx')
      simp only [h x List.mem_cons_self, htail]

/-- A list is related to some list exactly if every entry is related to some
entry. -/
theorem exists_forall₂_iff {R : α → β → Prop} {xs : List α} :
    (∃ ys, List.Forall₂ R xs ys) ↔ ∀ x ∈ xs, ∃ y, R x y := by
  induction xs with
  | nil => simp
  | cons x xs ih =>
      simp only [List.forall₂_cons_left_iff, List.forall_mem_cons, ← ih]
      constructor
      · rintro ⟨_, y, ys, hy, hys, -⟩
        exact ⟨⟨y, hy⟩, ys, hys⟩
      · rintro ⟨⟨y, hy⟩, ys, hys⟩
        exact ⟨_, y, ys, hy, hys, rfl⟩

/-- Along related lists, a second relation that is a property of the entries
of the first list. -/
theorem forall₂_iff_of_forall₂
    {R S : α → β → Prop} {P : α → Prop} {xs : List α} {ys : List β}
    (h : List.Forall₂ R xs ys) (hstep : ∀ x y, R x y → (S x y ↔ P x)) :
    List.Forall₂ S xs ys ↔ ∀ x ∈ xs, P x := by
  induction h with
  | nil => simp
  | cons hxy _ ih =>
      rw [List.forall₂_cons, List.forall_mem_cons, ih, hstep _ _ hxy]

theorem forall_mem_iff_of_forall₂
    {R : α → β → Prop} {P : α → Prop} {Q : β → Prop} {xs : List α}
    {ys : List β} (h : List.Forall₂ R xs ys)
    (hstep : ∀ x y, R x y → (Q y ↔ P x)) :
    (∀ y ∈ ys, Q y) ↔ ∀ x ∈ xs, P x := by
  induction h with
  | nil => simp
  | cons hxy _ ih =>
      rw [List.forall_mem_cons, List.forall_mem_cons, ih, hstep _ _ hxy]

theorem map_eq_map_of_forall₂
    {R : α → β → Prop} {f : α → γ} {g : β → γ} {xs : List α} {ys : List β}
    (h : List.Forall₂ R xs ys) (hstep : ∀ x y, R x y → f x = g y) :
    xs.map f = ys.map g := by
  induction h with
  | nil => rfl
  | cons hxy _ ih => rw [List.map_cons, List.map_cons, hstep _ _ hxy, ih]

theorem exists_of_mem_right
    {R : α → β → Prop} {xs : List α} {ys : List β}
    (h : List.Forall₂ R xs ys) {y : β} (hy : y ∈ ys) : ∃ x ∈ xs, R x y := by
  induction h with
  | nil => simp at hy
  | cons hxy _ ih =>
      rcases List.mem_cons.mp hy with rfl | hy
      · exact ⟨_, List.mem_cons_self, hxy⟩
      · obtain ⟨x, hx, hr⟩ := ih hy
        exact ⟨x, List.mem_cons_of_mem _ hx, hr⟩

/-- Entries of related lists are related. -/
theorem exists_getElem?_of_forall₂
    {R : α → β → Prop} {xs : List α} {ys : List β}
    (h : List.Forall₂ R xs ys) {i : ℕ} {x : α} (hx : xs[i]? = some x) :
    ∃ y, ys[i]? = some y ∧ R x y := by
  induction h generalizing i with
  | nil => simp at hx
  | @cons x' y _ _ hxy _ ih =>
      cases i with
      | zero =>
          obtain rfl : x' = x := by simpa using hx
          exact ⟨y, rfl, hxy⟩
      | succ i => exact ih (by simpa using hx)

theorem forall₂_replicate {R : α → β → Prop} {x : α} {y : β} (n : ℕ)
    (h : R x y) : List.Forall₂ R (List.replicate n x) (List.replicate n y) := by
  induction n with
  | zero => exact .nil
  | succ n ih => exact .cons h ih

theorem forall₂_of_mem
    {R S : β → γ → Prop} {xs : List β} {ys : List γ}
    (h : List.Forall₂ R xs ys) (hstep : ∀ x ∈ xs, ∀ y, R x y → S x y) :
    List.Forall₂ S xs ys := by
  induction h with
  | nil => exact .nil
  | cons hxy _ ih =>
      exact .cons (hstep _ List.mem_cons_self _ hxy)
        (ih fun x hx => hstep x (List.mem_cons_of_mem _ hx))

theorem forall₂_comp_of_mem
    {δ : Type*} {R : β → γ → Prop} {S : γ → δ → Prop}
    {T : β → δ → Prop} {xs : List β} {ys : List γ} {zs : List δ}
    (hR : List.Forall₂ R xs ys) (hS : List.Forall₂ S ys zs)
    (hstep : ∀ x ∈ xs, ∀ y z, R x y → S y z → T x z) :
    List.Forall₂ T xs zs := by
  induction hR generalizing zs with
  | nil =>
      cases hS
      exact .nil
  | @cons x y xs ys hxy _ ih =>
      cases hS with
      | @cons _ z _ zs hyz hrest =>
          exact .cons (hstep x List.mem_cons_self y z hxy hyz)
            (ih hrest fun x hx =>
              hstep x (List.mem_cons_of_mem _ hx))

/-- Related lists, index by index. -/
theorem getElem?_zipIdx_forall₂
    {R : β × ℕ → γ → Prop} {xs : List β} {ys : List γ}
    (h : List.Forall₂ R xs.zipIdx ys) (i : ℕ) :
    (xs[i]? = none ∧ ys[i]? = none) ∨
      ∃ x y, xs[i]? = some x ∧ ys[i]? = some y ∧ R (x, i) y := by
  cases hx : xs[i]? with
  | none =>
      refine .inl ⟨rfl, ?_⟩
      rw [List.getElem?_eq_none_iff] at hx ⊢
      rw [← h.length_eq, List.length_zipIdx]
      exact hx
  | some x =>
      have hentry : xs.zipIdx[i]? = some (x, i) := by
        rw [List.getElem?_zipIdx, hx, Nat.zero_add]
        rfl
      obtain ⟨y, hy, hR⟩ := exists_getElem?_of_forall₂ h hentry
      exact .inr ⟨x, y, rfl, hy, hR⟩

theorem forall₂_flatMap
    {δ ζ : Type*} {P : β → γ → Prop} {R : δ → ζ → Prop}
    {xs : List β} {ys : List γ} {f : β → List δ} {g : γ → List ζ}
    (h : List.Forall₂ P xs ys)
    (hstep : ∀ x y, P x y → List.Forall₂ R (f x) (g y)) :
    List.Forall₂ R (xs.flatMap f) (ys.flatMap g) := by
  induction h with
  | nil => exact .nil
  | cons hxy _ ih =>
      rw [List.flatMap_cons, List.flatMap_cons]
      exact List.rel_append (hstep _ _ hxy) ih

theorem forall₂_zipIdx
    {R : β → γ → Prop} {xs : List β} {ys : List γ}
    (h : List.Forall₂ R xs ys) (k : ℕ) :
    List.Forall₂ (fun (x : β × ℕ) (y : γ × ℕ) => x.2 = y.2 ∧ R x.1 y.1)
      (xs.zipIdx k) (ys.zipIdx k) := by
  induction h generalizing k with
  | nil => exact .nil
  | cons hxy _ ih => exact .cons ⟨rfl, hxy⟩ (ih (k + 1))

theorem flatten_map_of_forall₂
    {δ : Type*} {f : γ → δ} {g : β → List δ} {xs : List β}
    {parts : List (List γ)}
    (h : List.Forall₂ (fun x part => part.map f = g x) xs parts) :
    parts.flatten.map f = xs.flatMap g := by
  induction h with
  | nil => rfl
  | cons hxy _ ih =>
      rw [List.flatten_cons, List.map_append, hxy, ih,
        List.flatMap_cons]

/-- A computation fails exactly if it has no result. -/
theorem exists_error_iff {x : Except ε α} :
    (∃ e, x = .error e) ↔ ¬ ∃ a, x = .ok a := by
  cases x with
  | error e => simp
  | ok a => simp

end ExceptLists
