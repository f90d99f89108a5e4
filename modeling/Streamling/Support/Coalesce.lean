import Mathlib.Data.List.Chain
import Mathlib.Data.List.Sort
import Mathlib.Order.Basic

/-!
# Coalescing intervals over marked points

Intervals are sorted by their first points and merged with the one before if
they overlap it or no marked point lies between.  The result covers the same
marked points, has a marked point between every two neighbours, and is the
only list of the kind, so that intervals inside it do not change it.
-/

namespace Coalesce

variable {α : Type*} [LinearOrder α]

/-- An interval with both its ends. -/
structure Span (α : Type*) [LE α] where
  first : α
  last : α
  ordered : first ≤ last
  deriving DecidableEq

namespace Span

def Contains (s : Span α) (x : α) : Prop :=
  s.first ≤ x ∧ x ≤ s.last

instance (s : Span α) (x : α) : Decidable (s.Contains x) :=
  inferInstanceAs (Decidable (_ ∧ _))

def single (x : α) : Span α :=
  ⟨x, x, le_refl x⟩

/-- Extend an interval to the end of another one, if that is further. -/
def extend (s t : Span α) : Span α where
  first := s.first
  last := if s.last < t.last then t.last else s.last
  ordered := by
    split_ifs with h
    · exact s.ordered.trans h.le
    · exact s.ordered

/-- An interval is part of another one. -/
def Inside (s r : Span α) : Prop :=
  r.first ≤ s.first ∧ s.last ≤ r.last

theorem Inside.contains
    {s r : Span α} (h : s.Inside r) {x : α} (hx : s.Contains x) :
    r.Contains x :=
  ⟨h.1.trans hx.1, hx.2.trans h.2⟩

theorem last_le_extend
    (s t : Span α) :
    s.last ≤ (s.extend t).last ∧ t.last ≤ (s.extend t).last := by
  simp only [extend]
  split_ifs with h
  · exact ⟨h.le, le_refl _⟩
  · exact ⟨le_refl _, not_lt.mp h⟩

end Span

/-- Add an interval to those coalesced so far. -/
def add (apart : α → α → Bool) (coalesced : List (Span α)) (span : Span α) :
    List (Span α) :=
  match coalesced.getLast? with
  | some previous =>
      if span.first ≤ previous.last ∨
          apart previous.last span.first = false then
        coalesced.dropLast ++ [previous.extend span]
      else
        coalesced ++ [span]
  | none => coalesced ++ [span]

def coalesce (apart : α → α → Bool) (spans : List (Span α)) :
    List (Span α) :=
  (spans.insertionSort fun a b => a.first ≤ b.first).foldl (add apart) []

/-! ## What the result is -/

section Result

variable {marked : α → Prop}

/-- A marked point lies between two intervals. -/
def Apart (marked : α → Prop) (a b : Span α) : Prop :=
  ∃ x, marked x ∧ a.last < x ∧ x < b.first

/-- The intervals are those given, merged over gaps without marked points. -/
structure IsCoalesced (marked : α → Prop) (spans result : List (Span α)) :
    Prop where
  separated : result.IsChain (Apart marked)
  first : ∀ r ∈ result, ∃ s ∈ spans, s.first = r.first
  last : ∀ r ∈ result, ∃ s ∈ spans, s.last = r.last
  inside : ∀ s ∈ spans, ∃ r ∈ result, s.Inside r
  exact : ∀ r ∈ result, ∀ x, marked x → r.Contains x →
    ∃ s ∈ spans, s.Contains x

/-- The same marked points are covered. -/
theorem IsCoalesced.covers_iff
    {spans result : List (Span α)} (h : IsCoalesced marked spans result)
    {x : α} (hx : marked x) :
    (∃ r ∈ result, r.Contains x) ↔ ∃ s ∈ spans, s.Contains x := by
  constructor
  · rintro ⟨r, hr, hcontains⟩
    exact h.exact r hr x hx hcontains
  · rintro ⟨s, hs, hcontains⟩
    obtain ⟨r, hr, hinside⟩ := h.inside s hs
    exact ⟨r, hr, hinside.contains hcontains⟩

theorem Apart.trans
    {a b c : Span α} (hab : Apart marked a b) (hbc : Apart marked b c) :
    Apart marked a c := by
  obtain ⟨x, hx, hax, hxb⟩ := hab
  obtain ⟨y, -, hby, hyc⟩ := hbc
  exact ⟨x, hx, hax, hxb.trans (b.ordered.trans_lt (hby.trans hyc))⟩

theorem pairwise_of_isChain
    {result : List (Span α)} (h : result.IsChain (Apart marked)) :
    result.Pairwise (Apart marked) := by
  have : IsTrans (Span α) (Apart marked) := ⟨fun _ _ _ => Apart.trans⟩
  exact List.isChain_iff_pairwise.mp h

theorem IsCoalesced.sorted
    {spans result : List (Span α)} (h : IsCoalesced marked spans result) :
    result.Pairwise fun a b => a.last < b.first := by
  refine (pairwise_of_isChain h.separated).imp ?_
  rintro a b ⟨x, -, hax, hxb⟩
  exact hax.trans hxb

theorem IsCoalesced.before_or_after
    {spans result : List (Span α)} (h : IsCoalesced marked spans result)
    {a b : Span α} (ha : a ∈ result) (hb : b ∈ result) :
    a = b ∨ a.last < b.first ∨ b.last < a.first := by
  by_cases heq : a = b
  · exact Or.inl heq
  · have hsymm : Std.Symm fun a b : Span α =>
        a.last < b.first ∨ b.last < a.first := ⟨fun _ _ => Or.symm⟩
    have hpair : result.Pairwise fun a b : Span α =>
        a.last < b.first ∨ b.last < a.first :=
      h.sorted.imp fun hlt => Or.inl hlt
    exact Or.inr (hpair.forall ha hb heq)

/-! ## Adding an interval -/

variable {apart : α → α → Bool}

theorem IsCoalesced.add
    (hapart : ∀ a b, apart a b = true ↔ ∃ x, marked x ∧ a < x ∧ x < b)
    {spans result : List (Span α)} (h : IsCoalesced marked spans result)
    {span : Span α} (hsorted : ∀ s ∈ spans, s.first ≤ span.first) :
    IsCoalesced marked (spans ++ [span]) (add apart result span) := by
  have hspan : span ∈ spans ++ [span] := by simp
  have hold (s : Span α) (hs : s ∈ spans) : s ∈ spans ++ [span] :=
    List.mem_append_left _ hs
  obtain rfl | ⟨front, previous, rfl⟩ := List.eq_nil_or_concat' result
  · have hnone : spans = [] := by
      refine List.eq_nil_iff_forall_not_mem.mpr ?_
      intro s hs
      obtain ⟨r, hr, -⟩ := h.inside s hs
      cases hr
    subst hnone
    simp only [Coalesce.add, List.getLast?_nil, List.nil_append]
    refine ⟨List.isChain_singleton _, ?_, ?_, ?_, ?_⟩
    · exact fun r hr => ⟨r, hr, rfl⟩
    · exact fun r hr => ⟨r, hr, rfl⟩
    · exact fun s hs => ⟨s, hs, le_refl _, le_refl _⟩
    · exact fun r hr x _ hx => ⟨r, hr, hx⟩
  · have hprevious : previous ∈ front ++ [previous] := by simp
    simp only [Coalesce.add, List.getLast?_concat, List.dropLast_concat]
    split_ifs with hjoin
    · have hlast := previous.last_le_extend span
      refine ⟨?_, ?_, ?_, ?_, ?_⟩
      · -- the new interval starts where the last one did
        refine List.isChain_append.mpr ⟨?_, List.isChain_singleton _, ?_⟩
        · exact (List.isChain_append.mp h.separated).1
        · intro a ha b hb
          obtain rfl := Option.some.inj hb
          exact (List.isChain_append.mp h.separated).2.2 a ha previous rfl
      · intro r hr
        rcases List.mem_append.mp hr with hr | hr
        · obtain ⟨s, hs, heq⟩ := h.first r (List.mem_append_left _ hr)
          exact ⟨s, hold s hs, heq⟩
        · obtain rfl := List.mem_singleton.mp hr
          obtain ⟨s, hs, heq⟩ := h.first previous hprevious
          exact ⟨s, hold s hs, heq⟩
      · intro r hr
        rcases List.mem_append.mp hr with hr | hr
        · obtain ⟨s, hs, heq⟩ := h.last r (List.mem_append_left _ hr)
          exact ⟨s, hold s hs, heq⟩
        · obtain rfl := List.mem_singleton.mp hr
          by_cases hfurther : previous.last < span.last
          · exact ⟨span, hspan, by simp [Span.extend, hfurther]⟩
          · obtain ⟨s, hs, heq⟩ := h.last previous hprevious
            exact ⟨s, hold s hs, by simp [Span.extend, hfurther, heq]⟩
      · intro s hs
        rcases List.mem_append.mp hs with hs | hs
        · obtain ⟨r, hr, hinside⟩ := h.inside s hs
          rcases List.mem_append.mp hr with hr | hr
          · exact ⟨r, List.mem_append_left _ hr, hinside⟩
          · obtain rfl := List.mem_singleton.mp hr
            exact ⟨r.extend span, by simp, hinside.1,
              hinside.2.trans hlast.1⟩
        · obtain rfl := List.mem_singleton.mp hs
          obtain ⟨t, ht, heq⟩ := h.first previous hprevious
          exact ⟨previous.extend s, by simp, heq ▸ hsorted t ht, hlast.2⟩
      · intro r hr x hx hcontains
        rcases List.mem_append.mp hr with hr | hr
        · obtain ⟨s, hs, hin⟩ :=
            h.exact r (List.mem_append_left _ hr) x hx hcontains
          exact ⟨s, hold s hs, hin⟩
        · obtain rfl := List.mem_singleton.mp hr
          by_cases hbefore : x ≤ previous.last
          · obtain ⟨s, hs, hin⟩ :=
              h.exact previous hprevious x hx ⟨hcontains.1, hbefore⟩
            exact ⟨s, hold s hs, hin⟩
          · have hafter := not_le.mp hbefore
            have hend : x ≤ span.last := by
              have hle := hcontains.2
              simp only [Span.extend] at hle
              split_ifs at hle
              · exact hle
              · exact absurd hle hbefore
            have hstart : span.first ≤ x := by
              by_contra hlt
              have hlt := not_le.mp hlt
              rcases hjoin with hjoin | hjoin
              · exact absurd (hafter.trans hlt) (not_lt.mpr hjoin)
              · have htrue := (hapart _ _).mpr ⟨x, hx, hafter, hlt⟩
                rw [hjoin] at htrue
                cases htrue
            exact ⟨span, hspan, hstart, hend⟩
    · have hgap : Apart marked previous span := by
        have htrue : apart previous.last span.first = true := by
          simpa using (not_or.mp hjoin).2
        exact (hapart _ _).mp htrue
      refine ⟨?_, ?_, ?_, ?_, ?_⟩
      · refine List.isChain_append.mpr
          ⟨h.separated, List.isChain_singleton _, ?_⟩
        intro a ha b hb
        rw [List.getLast?_concat] at ha
        obtain rfl := Option.some.inj ha
        obtain rfl := Option.some.inj hb
        exact hgap
      · intro r hr
        rcases List.mem_append.mp hr with hr | hr
        · obtain ⟨s, hs, heq⟩ := h.first r hr
          exact ⟨s, hold s hs, heq⟩
        · exact ⟨r, List.mem_append_right _ hr, rfl⟩
      · intro r hr
        rcases List.mem_append.mp hr with hr | hr
        · obtain ⟨s, hs, heq⟩ := h.last r hr
          exact ⟨s, hold s hs, heq⟩
        · exact ⟨r, List.mem_append_right _ hr, rfl⟩
      · intro s hs
        rcases List.mem_append.mp hs with hs | hs
        · obtain ⟨r, hr, hinside⟩ := h.inside s hs
          exact ⟨r, List.mem_append_left _ hr, hinside⟩
        · exact ⟨s, List.mem_append_right _ hs, le_refl _, le_refl _⟩
      · intro r hr x hx hcontains
        rcases List.mem_append.mp hr with hr | hr
        · obtain ⟨s, hs, hin⟩ := h.exact r hr x hx hcontains
          exact ⟨s, hold s hs, hin⟩
        · exact ⟨r, List.mem_append_right _ hr, hcontains⟩

theorem isCoalesced_foldl
    (hapart : ∀ a b, apart a b = true ↔ ∃ x, marked x ∧ a < x ∧ x < b)
    {spans seen result : List (Span α)} (h : IsCoalesced marked seen result)
    (hsorted : (seen ++ spans).Pairwise fun a b => a.first ≤ b.first) :
    IsCoalesced marked (seen ++ spans) (spans.foldl (add apart) result) := by
  induction spans generalizing seen result with
  | nil => simpa using h
  | cons span spans ih =>
      rw [List.append_cons] at hsorted ⊢
      rw [List.foldl_cons]
      refine ih (h.add hapart ?_) hsorted
      intro s hs
      have hall := (List.pairwise_append.mp hsorted).1
      exact (List.pairwise_append.mp hall).2.2 s hs span List.mem_cons_self

theorem isCoalesced_coalesce
    (hapart : ∀ a b, apart a b = true ↔ ∃ x, marked x ∧ a < x ∧ x < b)
    (spans : List (Span α)) :
    IsCoalesced marked spans (coalesce apart spans) := by
  have : Std.Total fun a b : Span α => a.first ≤ b.first :=
    ⟨fun a b => le_total a.first b.first⟩
  have : IsTrans (Span α) fun a b => a.first ≤ b.first :=
    ⟨fun _ _ _ => le_trans⟩
  have hstart : IsCoalesced marked ([] : List (Span α)) [] :=
    ⟨List.isChain_nil, by simp, by simp, by simp, by simp⟩
  have hsorted := List.pairwise_insertionSort
    (fun a b : Span α => a.first ≤ b.first) spans
  have h := isCoalesced_foldl hapart hstart (by simpa using hsorted)
  change IsCoalesced marked ([] ++ _) (coalesce apart spans) at h
  have hmem (s : Span α) :
      s ∈ spans.insertionSort (fun a b => a.first ≤ b.first) ↔ s ∈ spans :=
    List.mem_insertionSort _
  rw [List.nil_append] at h
  refine ⟨h.separated, ?_, ?_, ?_, ?_⟩
  · simpa only [hmem] using h.first
  · simpa only [hmem] using h.last
  · simpa only [hmem] using h.inside
  · simpa only [hmem] using h.exact

/-! ## There is one result -/

/-- Between two intervals of the result there is a marked point outside all
of them. -/
theorem exists_gap
    {result : List (Span α)} (h : result.Pairwise (Apart marked))
    {a b : Span α} (ha : a ∈ result) (hb : b ∈ result)
    (hlt : a.last < b.first) :
    ∃ x, marked x ∧ a.last < x ∧ x < b.first ∧
      ∀ r ∈ result, ¬ r.Contains x := by
  induction result with
  | nil => cases ha
  | cons first rest ih =>
      obtain ⟨hfirst, hrest⟩ := List.pairwise_cons.mp h
      have hafter : ∀ r ∈ rest, first.last < r.first := by
        intro r hr
        obtain ⟨x, -, hax, hxr⟩ := hfirst r hr
        exact hax.trans hxr
      have hb' : b ∈ rest := by
        rcases List.mem_cons.mp hb with rfl | hb
        · rcases List.mem_cons.mp ha with rfl | ha
          · exact absurd hlt (not_lt.mpr a.ordered)
          · have hle := (b.ordered.trans_lt (hafter a ha)).le
            exact absurd (hle.trans a.ordered) (not_le.mpr hlt)
        · exact hb
      rcases List.mem_cons.mp ha with rfl | ha'
      · -- the point before the next interval lies before all that follow
        cases rest with
        | nil => cases hb'
        | cons next rest =>
            obtain ⟨x, hx, hax, hxn⟩ := hfirst next List.mem_cons_self
            have hnext : ∀ r ∈ next :: rest, x < r.first := by
              intro r hr
              rcases List.mem_cons.mp hr with rfl | hr
              · exact hxn
              · obtain ⟨y, -, hny, hyr⟩ :=
                  (List.pairwise_cons.mp hrest).1 r hr
                exact hxn.trans (next.ordered.trans_lt (hny.trans hyr))
            refine ⟨x, hx, hax, hnext b hb', ?_⟩
            intro r hr hcontains
            rcases List.mem_cons.mp hr with rfl | hr
            · exact absurd hcontains.2 (not_le.mpr hax)
            · exact absurd hcontains.1 (not_le.mpr (hnext r hr))
      · obtain ⟨x, hx, hax, hxb, hout⟩ := ih hrest ha' hb'
        refine ⟨x, hx, hax, hxb, ?_⟩
        intro r hr hcontains
        rcases List.mem_cons.mp hr with rfl | hr
        · have hlt := (hafter a ha').trans_le (a.ordered.trans hax.le)
          exact absurd hcontains.2 (not_le.mpr hlt)
        · exact hout r hr hcontains

section Unique

variable {spans result other : List (Span α)}
  (h : IsCoalesced marked spans result) (h' : IsCoalesced marked spans other)

include h h'

/-- A gap of one result is a gap of the other one. -/
theorem not_contains_gap
    {a b : Span α} (ha : a ∈ result) (hb : b ∈ result)
    (hlt : a.last < b.first) {r : Span α} (hr : r ∈ other)
    (hfirst : r.first ≤ a.last) (hlast : b.first ≤ r.last) :
    False := by
  obtain ⟨x, hx, hax, hxb, hout⟩ :=
    exists_gap (pairwise_of_isChain h.separated) ha hb hlt
  obtain ⟨s, hs, hcontains⟩ := h'.exact r hr x hx
    ⟨hfirst.trans hax.le, hxb.le.trans hlast⟩
  obtain ⟨t, ht, hinside⟩ := h.inside s hs
  exact hout t ht (hinside.contains hcontains)

theorem first_le
    {r r' : Span α} (hr : r ∈ result) (hr' : r' ∈ other)
    (hle : r'.first ≤ r.first) (hlast : r.first ≤ r'.last) :
    r.first ≤ r'.first := by
  obtain ⟨s, hs, hfirst⟩ := h'.first r' hr'
  obtain ⟨t, ht, hinside⟩ := h.inside s hs
  by_contra hlt
  have hlt := not_le.mp hlt
  have hbefore : t.first < r.first :=
    (hinside.1.trans_eq hfirst).trans_lt hlt
  -- the interval around `r'.first` ends before `r`
  have hsep : t.last < r.first := by
    rcases h.before_or_after ht hr with rfl | hsep | hsep
    · exact absurd hbefore (lt_irrefl _)
    · exact hsep
    · have hlt := (r.ordered.trans_lt hsep).trans hbefore
      exact absurd hlt (lt_irrefl _)
  refine not_contains_gap h h' ht hr hsep hr' ?_ hlast
  exact hfirst.symm.le.trans (s.ordered.trans hinside.2)

theorem last_le
    {r r' : Span α} (hr : r ∈ result) (hr' : r' ∈ other)
    (hfirst : r'.first = r.first) :
    r'.last ≤ r.last := by
  obtain ⟨s, hs, hlast⟩ := h'.last r' hr'
  obtain ⟨t, ht, hinside⟩ := h.inside s hs
  rcases h.before_or_after ht hr with rfl | hsep | hsep
  · exact hlast.symm.trans_le hinside.2
  · have hlt : r'.last < r'.first :=
      (hlast.symm.trans_le hinside.2).trans_lt (hsep.trans_eq hfirst.symm)
    exact absurd hlt (not_lt.mpr r'.ordered)
  · refine (not_contains_gap h h' hr ht hsep hr' ?_ ?_).elim
    · exact hfirst.trans_le r.ordered
    · exact hinside.1.trans (s.ordered.trans hlast.le)

theorem mem_other
    {r : Span α} (hr : r ∈ result) :
    r ∈ other := by
  obtain ⟨s, hs, hfirst⟩ := h.first r hr
  obtain ⟨r', hr', hinside⟩ := h'.inside s hs
  have hle : r'.first ≤ r.first := hinside.1.trans_eq hfirst
  have hstart : r'.first = r.first :=
    le_antisymm hle (first_le h h' hr hr' hle
      (hfirst.symm.trans_le (s.ordered.trans hinside.2)))
  have hend : r'.last = r.last :=
    le_antisymm (last_le h h' hr hr' hstart)
      (last_le h' h hr' hr hstart.symm)
  have heq : r' = r := by
    cases r
    cases r'
    simp_all
  exact heq ▸ hr'

/-- Intervals have one coalesced list. -/
theorem IsCoalesced.unique :
    result = other := by
  have hirrefl : Std.Irrefl fun a b : Span α => a.last < b.first :=
    ⟨fun a => not_lt.mpr a.ordered⟩
  have hperm : result.Perm other := by
    refine (List.perm_ext_iff_of_nodup (h.sorted.nodup)
      (h'.sorted.nodup)).mpr ?_
    intro r
    exact ⟨mem_other h h', mem_other h' h⟩
  refine List.Perm.eq_of_pairwise ?_ h.sorted h'.sorted hperm
  intro a b _ _ hab hba
  have hlt := (hab.trans_le b.ordered).trans (hba.trans_le a.ordered)
  exact absurd hlt (lt_irrefl _)

end Unique

/-- Intervals inside the result change nothing. -/
theorem coalesce_append_inside
    (hapart : ∀ a b, apart a b = true ↔ ∃ x, marked x ∧ a < x ∧ x < b)
    {spans result more : List (Span α)}
    (h : IsCoalesced marked spans result)
    (hmore : ∀ s ∈ more, ∃ r ∈ result, s.Inside r) :
    coalesce apart (result ++ more) = result := by
  refine (isCoalesced_coalesce hapart (result ++ more)).unique
    ⟨h.separated, ?_, ?_, ?_, ?_⟩
  · exact fun r hr => ⟨r, List.mem_append_left _ hr, rfl⟩
  · exact fun r hr => ⟨r, List.mem_append_left _ hr, rfl⟩
  · intro s hs
    rcases List.mem_append.mp hs with hs | hs
    · exact ⟨s, hs, le_refl _, le_refl _⟩
    · exact hmore s hs
  · exact fun r hr x _ hx => ⟨r, List.mem_append_left _ hr, hx⟩

end Result

end Coalesce
