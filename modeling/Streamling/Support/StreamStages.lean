import Mathlib

/-!
# Stages of a stream

A stage reads the items of a stream one by one, and puts out at most one item
for each, until a step fails.  Where each step expands the events of its item,
what a run puts out is the expansion of the items before the failure, and so
is each initial part of it; stages of a chain expand one after the other.
-/

namespace StreamStages

variable {σ ι ε E : Type}

/-- The items put out, and the error of the step that failed. -/
def run (step : σ → ι → Except ε (Option ι × σ)) :
    σ → List ι → List ι × Option ε
  | _, [] => ([], none)
  | s, item :: items =>
      match step s item with
      | .error e => ([], some e)
      | .ok (out, s') =>
          (out.toList ++ (run step s' items).1, (run step s' items).2)

/-- A step expands the events of an item, keeps its invariant and puts out
items of its kind. -/
structure Expands (step : σ → ι → Except ε (Option ι × σ)) (Inv : σ → Prop)
    (P Q : ι → Prop) (events : ι → List E) (expand : E → List E) : Prop where
  step_ok : ∀ {s item out s'}, Inv s → P item →
    step s item = .ok (out, s') →
      Inv s' ∧ out.toList.flatMap events = (events item).flatMap expand ∧
        ∀ item' ∈ out, Q item'

section Run

variable {step : σ → ι → Except ε (Option ι × σ)} {Inv : σ → Prop}
  {P Q : ι → Prop} {events : ι → List E} {expand : E → List E}

/-- Each initial part of a run's output expands an initial part of its
input. -/
theorem Expands.run_prefix
    (h : Expands step Inv P Q events expand) :
    ∀ {s : σ} {items outs : List ι}, Inv s → (∀ item ∈ items, P item) →
      outs <+: (run step s items).1 →
        (∀ out ∈ outs, Q out) ∧ ∃ read, read <+: items ∧
          outs.flatMap events =
            (read.flatMap events).flatMap expand := by
  intro s items
  induction items generalizing s with
  | nil =>
      intro outs _ _ hprefix
      obtain rfl := List.prefix_nil.mp hprefix
      exact ⟨by simp, [], List.prefix_rfl, rfl⟩
  | cons item items ih =>
      intro outs hs hP hprefix
      unfold run at hprefix
      cases hstep : step s item with
      | error e =>
          rw [hstep] at hprefix
          obtain rfl := List.prefix_nil.mp hprefix
          exact ⟨by simp, [], List.nil_prefix, rfl⟩
      | ok stepped =>
          obtain ⟨out, s'⟩ := stepped
          rw [hstep] at hprefix
          obtain ⟨hs', hevents, hQ⟩ :=
            h.step_ok hs (hP item List.mem_cons_self) hstep
          have hrest : ∀ item ∈ items, P item :=
            fun item hmem => hP item (List.mem_cons_of_mem _ hmem)
          have hsplit : outs = [] ∨ ∃ rest,
              outs = out.toList ++ rest ∧ rest <+: (run step s' items).1 := by
            cases out with
            | none => exact .inr ⟨outs, rfl, hprefix⟩
            | some first =>
                rcases List.prefix_cons_iff.mp hprefix with
                  hnil | ⟨rest, heq, hrest⟩
                · exact .inl hnil
                · exact .inr ⟨rest, heq, hrest⟩
          rcases hsplit with rfl | ⟨rest, rfl, hrun⟩
          · exact ⟨by simp, [], List.nil_prefix, rfl⟩
          · obtain ⟨hall, read, hread, heq⟩ := ih hs' hrest hrun
            refine ⟨?_, item :: read,
              (List.prefix_cons_inj item).mpr hread, ?_⟩
            · intro out' hmem
              rcases List.mem_append.mp hmem with hmem | hmem
              · exact hQ out' (Option.mem_toList.mp hmem)
              · exact hall out' hmem
            · rw [List.flatMap_append, hevents, heq, List.flatMap_cons,
                List.flatMap_append]

/-- A run that does not fail has read its whole input. -/
theorem Expands.run_complete
    (h : Expands step Inv P Q events expand) :
    ∀ {s : σ} {items : List ι}, Inv s → (∀ item ∈ items, P item) →
      (run step s items).2 = none →
        (run step s items).1.flatMap events =
          (items.flatMap events).flatMap expand := by
  intro s items
  induction items generalizing s with
  | nil =>
      intro _ _ _
      rfl
  | cons item items ih =>
      intro hs hP hnone
      unfold run at hnone ⊢
      cases hstep : step s item with
      | error e =>
          rw [hstep] at hnone
          cases hnone
      | ok stepped =>
          obtain ⟨out, s'⟩ := stepped
          rw [hstep] at hnone
          obtain ⟨hs', hevents, -⟩ :=
            h.step_ok hs (hP item List.mem_cons_self) hstep
          have hrest : ∀ item ∈ items, P item :=
            fun item hmem => hP item (List.mem_cons_of_mem _ hmem)
          simp only [List.flatMap_append, List.flatMap_cons, hevents,
            ih hs' hrest hnone]

end Run

/-! ## Chains of stages -/

/-- A stage with the state it starts in. -/
structure Stage (σ ι ε : Type) where
  init : σ
  step : σ → ι → Except ε (Option ι × σ)

/-- What the last stage of a chain puts out.  The error is that of the last
stage that fails: the stages before it are not asked any further. -/
def runChain : List (Stage σ ι ε) → List ι → List ι × Option ε
  | [], items => (items, none)
  | stage :: stages, items =>
      let put := run stage.step stage.init items
      let rest := runChain stages put.1
      (rest.1, rest.2.or put.2)

/-- A chain whose stages expand events one after the other. -/
inductive ChainExpands (events : ι → List E) :
    (ι → Prop) → List (Stage σ ι ε) → (E → List E) → Prop
  | nil {P : ι → Prop} : ChainExpands events P [] fun event => [event]
  | cons {P Q : ι → Prop} {Inv : σ → Prop} {stage : Stage σ ι ε}
      {stages : List (Stage σ ι ε)} {expand rest : E → List E}
      (hinit : Inv stage.init)
      (hstage : Expands stage.step Inv P Q events expand)
      (hstages : ChainExpands events Q stages rest) :
      ChainExpands events P (stage :: stages)
        fun event => (expand event).flatMap rest

section Chain

variable {events : ι → List E}

theorem ChainExpands.run_prefix
    {P : ι → Prop} {stages : List (Stage σ ι ε)} {expand : E → List E}
    (h : ChainExpands events P stages expand) :
    ∀ {items outs : List ι}, (∀ item ∈ items, P item) →
      outs <+: (runChain stages items).1 →
        ∃ read, read <+: items ∧
          outs.flatMap events =
            (read.flatMap events).flatMap expand := by
  induction h with
  | nil =>
      intro items outs _ hprefix
      exact ⟨outs, hprefix, (List.flatMap_singleton' _).symm⟩
  | cons hinit hstage _ ih =>
      intro items outs hP hprefix
      obtain ⟨hQ, -⟩ := hstage.run_prefix hinit hP List.prefix_rfl
      obtain ⟨put, hput, hrest⟩ := ih hQ hprefix
      obtain ⟨-, read, hread, hstageEvents⟩ :=
        hstage.run_prefix hinit hP hput
      refine ⟨read, hread, ?_⟩
      rw [hrest, hstageEvents, List.flatMap_assoc]

theorem ChainExpands.run_complete
    {P : ι → Prop} {stages : List (Stage σ ι ε)} {expand : E → List E}
    (h : ChainExpands events P stages expand) :
    ∀ {items : List ι}, (∀ item ∈ items, P item) →
      (runChain stages items).2 = none →
        (runChain stages items).1.flatMap events =
          (items.flatMap events).flatMap expand := by
  induction h with
  | nil =>
      intro items _ _
      exact (List.flatMap_singleton' _).symm
  | @cons _ _ _ stage _ _ _ hinit hstage _ ih =>
      intro items hP hnone
      obtain ⟨hQ, -⟩ := hstage.run_prefix hinit hP List.prefix_rfl
      obtain ⟨hrest, hput⟩ := Option.or_eq_none_iff.mp hnone
      rw [runChain, ih hQ hrest, hstage.run_complete hinit hP hput,
        List.flatMap_assoc]

end Chain

end StreamStages
