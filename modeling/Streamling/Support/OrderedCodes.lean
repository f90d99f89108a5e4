import Mathlib

/-!
# Ordered codes

Lists over an ordered alphabet are compared at the first place where they
differ.  A list of which the other is no beginning keeps its place whatever is
appended to both, so codes of which none is a proper beginning of another can
be put one behind the other: what is written for a row compares as the row
does, entry by entry.
-/

namespace OrderedCodes

variable {α β γ ι : Type*}

/-! ## Comparing concatenations -/

section Comparison

variable [LinearOrder α]

/-- Lists of one length are compared before what follows them. -/
theorem append_lt_append_iff_of_length
    {x y s t : List α} (h : x.length = y.length) :
    x ++ s < y ++ t ↔ x < y ∨ x = y ∧ s < t := by
  induction x generalizing y with
  | nil =>
      obtain rfl := List.length_eq_zero_iff.mp h.symm
      simp
  | cons a x ih =>
      obtain ⟨b, y, rfl⟩ := List.exists_cons_of_length_eq_add_one h.symm
      have htail : x.length = y.length := by simpa using h
      rw [List.cons_append, List.cons_append, List.cons_lt_cons_iff,
        List.cons_lt_cons_iff, ih htail, List.cons.injEq]
      tauto

/-- A list that is smaller, but no beginning, stays smaller. -/
theorem append_lt_append
    {x y : List α} (h : x < y) (hne : ¬ x <+: y) (s t : List α) :
    x ++ s < y ++ t := by
  induction x generalizing y with
  | nil => exact absurd List.nil_prefix hne
  | cons a x ih =>
      rcases y with _ | ⟨b, y⟩
      · exact absurd h (List.not_lt_nil _)
      · rw [List.cons_append, List.cons_append, List.cons_lt_cons_iff]
        rcases List.cons_lt_cons_iff.mp h with hlt | ⟨rfl, hlt⟩
        · exact Or.inl hlt
        · refine Or.inr ⟨rfl, ih hlt ?_⟩
          intro hinitial
          exact hne (List.cons_prefix_cons.mpr ⟨rfl, hinitial⟩)

/-- An order-reversing map of the letters reverses lists of which the smaller
is no beginning of the other. -/
theorem map_lt_map_of_strictAnti
    [LinearOrder β] {f : α → β} (hf : StrictAnti f)
    {x y : List α} (h : x < y) (hne : ¬ x <+: y) :
    y.map f < x.map f := by
  induction x generalizing y with
  | nil => exact absurd List.nil_prefix hne
  | cons a x ih =>
      rcases y with _ | ⟨b, y⟩
      · exact absurd h (List.not_lt_nil _)
      · rw [List.map_cons, List.map_cons, List.cons_lt_cons_iff]
        rcases List.cons_lt_cons_iff.mp h with hlt | ⟨rfl, hlt⟩
        · exact Or.inl (hf hlt)
        · refine Or.inr ⟨rfl, ih hlt ?_⟩
          intro hinitial
          exact hne (List.cons_prefix_cons.mpr ⟨rfl, hinitial⟩)

end Comparison

/-! ## Codes without proper beginnings -/

/-- No code is a proper beginning of another. -/
def Separate (codes : Set (List α)) : Prop :=
  ∀ x ∈ codes, ∀ y ∈ codes, x <+: y → x = y

theorem Separate.mono
    {codes codes' : Set (List α)} (h : Separate codes)
    (hsub : codes' ⊆ codes) : Separate codes' :=
  fun x hx y hy => h x (hsub hx) y (hsub hy)

/-- A header of fixed length that determines the length of what follows. -/
theorem eq_of_header_prefix
    {x y s t : List α} (hheader : x.length = y.length)
    (hlength : x = y → s.length = t.length) (h : x ++ s <+: y ++ t) :
    x ++ s = y ++ t := by
  obtain ⟨rest, hrest⟩ := h
  rw [List.append_assoc] at hrest
  obtain ⟨heq, htail⟩ := List.append_inj hrest hheader
  apply List.IsPrefix.eq_of_length ⟨rest, by rw [List.append_assoc, hrest]⟩
  rw [List.length_append, List.length_append, hheader, hlength heq]

theorem Separate.append_lt_append_iff
    [LinearOrder α] {codes : Set (List α)} (h : Separate codes)
    {x y : List α} (hx : x ∈ codes) (hy : y ∈ codes) (s t : List α) :
    x ++ s < y ++ t ↔ x < y ∨ x = y ∧ s < t := by
  rcases lt_trichotomy x y with hlt | rfl | hgt
  · have happend := append_lt_append hlt
      (fun hinitial => hlt.ne (h x hx y hy hinitial)) s t
    exact ⟨fun _ => Or.inl hlt, fun _ => happend⟩
  · exact append_lt_append_iff_of_length (Eq.refl x.length)
  · have happend := append_lt_append hgt
      (fun hinitial => hgt.ne (h y hy x hx hinitial)) t s
    constructor
    · intro hst
      exact absurd hst happend.asymm
    · rintro (hlt | ⟨rfl, -⟩)
      · exact absurd hlt hgt.asymm
      · exact absurd hgt (lt_irrefl _)

/-! ## Codes that order -/

/-- A separate code that compares as the measures of what is encoded do. -/
structure Orders [LinearOrder α] [LinearOrder γ]
    (domain : Set β) (code : β → List α) (measure : β → γ) : Prop where
  lt_iff : ∀ x ∈ domain, ∀ y ∈ domain,
    code x < code y ↔ measure x < measure y
  separate : Separate (code '' domain)

section Rows

variable [LinearOrder α] [LinearOrder γ]

theorem Orders.eq_iff
    {domain : Set β} {code : β → List α} {measure : β → γ}
    (h : Orders domain code measure)
    {x y : β} (hx : x ∈ domain) (hy : y ∈ domain) :
    code x = code y ↔ measure x = measure y := by
  have hxy := h.lt_iff x hx y hy
  have hyx := h.lt_iff y hy x hx
  constructor
  · intro heq
    rw [heq] at hxy hyx
    exact le_antisymm (not_lt.mp fun hlt => lt_irrefl _ (hyx.mpr hlt))
      (not_lt.mp fun hlt => lt_irrefl _ (hxy.mpr hlt))
  · intro heq
    rw [heq] at hxy hyx
    exact le_antisymm (not_lt.mp fun hlt => lt_irrefl _ (hyx.mp hlt))
      (not_lt.mp fun hlt => lt_irrefl _ (hxy.mp hlt))

/-- The codes of the entries of a row, each by the code of its column. -/
def row (code : ι → β → List α) (columns : List ι) (entries : List β) :
    List α :=
  (List.zipWith code columns entries).flatten

/-- Rows are ordered by their first columns that differ. -/
theorem row_lt_row_iff
    {domain : ι → Set β} {code : ι → β → List α} {measure : β → γ}
    (h : ∀ i, Orders (domain i) (code i) measure)
    {columns : List ι} {a b : List β}
    (ha : List.Forall₂ (fun i entry => entry ∈ domain i) columns a)
    (hb : List.Forall₂ (fun i entry => entry ∈ domain i) columns b) :
    row code columns a < row code columns b ↔
      a.map measure < b.map measure := by
  induction ha generalizing b with
  | nil =>
      obtain rfl := List.forall₂_nil_left_iff.mp hb
      simp [row]
  | @cons i x columns a hx ha ih =>
      obtain ⟨y, b, hy, hrest, rfl⟩ := List.forall₂_cons_left_iff.mp hb
      have hstep (z : β) (rest : List β) :
          row code (i :: columns) (z :: rest) =
            code i z ++ row code columns rest := rfl
      rw [hstep, hstep, List.map_cons, List.map_cons,
        List.cons_lt_cons_iff, ← ih hrest, ← (h i).lt_iff x hx y hy,
        ← (h i).eq_iff hx hy]
      exact (h i).separate.append_lt_append_iff (Set.mem_image_of_mem _ hx)
        (Set.mem_image_of_mem _ hy) _ _

end Rows

end OrderedCodes
