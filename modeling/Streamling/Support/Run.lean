import Mathlib.Data.List.Basic

/-!
# Runs of a partial step function

A component is given by a step function `σ → α → Option σ`: an action is
either refused in the current state or takes it to the next one.  A run is a
list of actions performed in order.  This module holds the rules by which
facts about single steps become facts about runs; it is parameterized by the
state and action types.
-/

namespace Transition

variable {σ α : Type*}

/-- Perform the actions of a list in order.  The run is refused as soon as one
of its actions is. -/
def run (step : σ → α → Option σ) : σ → List α → Option σ
  | s, [] => some s
  | s, a :: actions =>
      match step s a with
      | some s' => run step s' actions
      | none => none

@[simp] theorem run_nil (step : σ → α → Option σ) (s : σ) :
    run step s [] = some s := rfl

theorem run_cons_eq_some
    {step : σ → α → Option σ} {s t : σ} {a : α} {actions : List α} :
    run step s (a :: actions) = some t ↔
      ∃ s', step s a = some s' ∧ run step s' actions = some t := by
  simp only [run]
  cases step s a with
  | none => simp
  | some s' => simp

theorem run_append_eq_some
    {step : σ → α → Option σ} {s t : σ} {front back : List α} :
    run step s (front ++ back) = some t ↔
      ∃ m, run step s front = some m ∧ run step m back = some t := by
  induction front generalizing s with
  | nil => simp
  | cons a front ih =>
      simp only [List.cons_append, run_cons_eq_some, ih]
      constructor
      · rintro ⟨s', hs', m, hm, ht⟩
        exact ⟨m, ⟨s', hs', hm⟩, ht⟩
      · rintro ⟨m, ⟨s', hs', hm⟩, ht⟩
        exact ⟨s', hs', m, hm, ht⟩

/-- `P` holds of the state and the action of every step of the run. -/
def AllSteps (step : σ → α → Option σ) (P : σ → α → Prop) :
    σ → List α → Prop
  | _, [] => True
  | s, a :: actions =>
      P s a ∧
        match step s a with
        | some s' => AllSteps step P s' actions
        | none => True

instance decidableAllSteps (step : σ → α → Option σ) (P : σ → α → Prop)
    [∀ s a, Decidable (P s a)] :
    ∀ s actions, Decidable (AllSteps step P s actions)
  | _, [] => isTrue trivial
  | s, a :: actions =>
      match h : step s a with
      | some s' =>
          have := decidableAllSteps step P s' actions
          decidable_of_iff (P s a ∧ AllSteps step P s' actions)
            (by simp [AllSteps, h])
      | none => decidable_of_iff (P s a) (by simp [AllSteps, h])

/-- A property that every step preserves holds at the end of every run that
starts in it. -/
theorem run_invariant
    {step : σ → α → Option σ} {Inv : σ → Prop}
    (hstep : ∀ s a s', Inv s → step s a = some s' → Inv s')
    {s t : σ} {actions : List α}
    (hs : Inv s) (hrun : run step s actions = some t) : Inv t := by
  induction actions generalizing s with
  | nil =>
      obtain rfl : s = t := by simpa using hrun
      exact hs
  | cons a actions ih =>
      obtain ⟨s', hs', ht⟩ := run_cons_eq_some.mp hrun
      exact ih (hstep s a s' hs hs') ht

/-- The invariant rule for runs all of whose steps satisfy a condition on the
state before the step. -/
theorem run_invariant_of_allSteps
    {step : σ → α → Option σ} {Inv : σ → Prop} {P : σ → α → Prop}
    (hstep : ∀ s a s', Inv s → P s a → step s a = some s' → Inv s')
    {s t : σ} {actions : List α}
    (hs : Inv s) (hP : AllSteps step P s actions)
    (hrun : run step s actions = some t) : Inv t := by
  induction actions generalizing s with
  | nil =>
      obtain rfl : s = t := by simpa using hrun
      exact hs
  | cons a actions ih =>
      obtain ⟨s', hs', ht⟩ := run_cons_eq_some.mp hrun
      simp only [AllSteps, hs'] at hP
      exact ih (hstep s a s' hs hP.1 hs') hP.2 ht

/-- The invariant rule for runs all of whose actions satisfy a condition. -/
theorem run_invariant_of_forall
    {step : σ → α → Option σ} {Inv : σ → Prop} {P : α → Prop}
    (hstep : ∀ s a s', Inv s → P a → step s a = some s' → Inv s')
    {s t : σ} {actions : List α} (hs : Inv s) (hP : ∀ a ∈ actions, P a)
    (hrun : run step s actions = some t) : Inv t := by
  induction actions generalizing s with
  | nil =>
      obtain rfl : s = t := by simpa using hrun
      exact hs
  | cons a actions ih =>
      obtain ⟨s', hs', ht⟩ := run_cons_eq_some.mp hrun
      have hfirst := hstep s a s' hs (hP a List.mem_cons_self) hs'
      exact ih hfirst (fun b hb => hP b (List.mem_cons_of_mem _ hb)) ht

/-- If, among the states of an invariant, a property survives exactly the
steps that satisfy a condition, then it holds at the end of a run exactly if
all steps of the run do. -/
theorem allSteps_iff_of_run
    {step : σ → α → Option σ} {Inv Good : σ → Prop} {P : σ → α → Prop}
    (hinv : ∀ s a s', Inv s → step s a = some s' → Inv s')
    (hstep : ∀ s a s', Inv s → step s a = some s' →
      (Good s' ↔ Good s ∧ P s a))
    {s t : σ} {actions : List α} (hs : Inv s) (hgood : Good s)
    (hrun : run step s actions = some t) :
    Good t ↔ AllSteps step P s actions := by
  suffices h : Good t ↔ Good s ∧ AllSteps step P s actions by
    simpa [hgood] using h
  clear hgood
  induction actions generalizing s with
  | nil =>
      obtain rfl : s = t := by simpa using hrun
      simp [AllSteps]
  | cons a actions ih =>
      obtain ⟨s', hs', ht⟩ := run_cons_eq_some.mp hrun
      simp only [AllSteps, hs', ih (hinv s a s' hs hs') ht,
        hstep s a s' hs hs', and_assoc]

/-- A reflexive and transitive relation that holds along every allowed step
among the states of an invariant holds between the two ends of every run of
allowed steps. -/
theorem run_relates_of_inv
    {step : σ → α → Option σ} {Inv : σ → Prop} {P : α → Prop}
    {R : σ → σ → Prop}
    (hinv : ∀ s a s', Inv s → step s a = some s' → Inv s')
    (hrefl : ∀ s, R s s) (htrans : ∀ {a b c}, R a b → R b c → R a c)
    (hstep : ∀ s a s', Inv s → P a → step s a = some s' → R s s')
    {s t : σ} {actions : List α} (hs : Inv s) (hP : ∀ a ∈ actions, P a)
    (hrun : run step s actions = some t) : R s t := by
  induction actions generalizing s with
  | nil =>
      obtain rfl : s = t := by simpa using hrun
      exact hrefl s
  | cons a actions ih =>
      obtain ⟨s', hs', ht⟩ := run_cons_eq_some.mp hrun
      have hfirst := hstep s a s' hs (hP a List.mem_cons_self) hs'
      exact htrans hfirst (ih (hinv s a s' hs hs')
        (fun b hb => hP b (List.mem_cons_of_mem _ hb)) ht)

/-- If, among the states of an invariant, an allowed step that lowers a measure
is possible as long as the goal is not reached, then some run of allowed steps
reaches the goal. -/
theorem exists_run_of_measure
    {step : σ → α → Option σ} {Inv Goal : σ → Prop} {P : α → Prop}
    (measure : σ → ℕ)
    (hinv : ∀ s a s', Inv s → step s a = some s' → Inv s')
    (hprogress : ∀ s, Inv s → ¬ Goal s →
      ∃ a s', P a ∧ step s a = some s' ∧ measure s' < measure s)
    {s : σ} (hs : Inv s) :
    ∃ actions t, (∀ a ∈ actions, P a) ∧ run step s actions = some t ∧
      Goal t := by
  induction hn : measure s using Nat.strongRecOn generalizing s with
  | ind n ih =>
      by_cases hgoal : Goal s
      · exact ⟨[], s, by simp, rfl, hgoal⟩
      · obtain ⟨a, s', ha, hstep, hlt⟩ := hprogress s hs hgoal
        obtain ⟨actions, t, hactions, hrun, ht⟩ :=
          ih (measure s') (hn ▸ hlt) (hinv s a s' hs hstep) rfl
        refine ⟨a :: actions, t, ?_, ?_, ht⟩
        · intro b hb
          rcases List.mem_cons.mp hb with rfl | hb
          · exact ha
          · exact hactions b hb
        · exact run_cons_eq_some.mpr ⟨s', hstep, hrun⟩

/-- A run whose end passes a test exists if evaluating it says so. -/
theorem exists_run_of_map
    {step : σ → α → Option σ} {s : σ} {actions : List α} {test : σ → Bool}
    (h : (run step s actions).map test = some true) :
    ∃ t, run step s actions = some t ∧ test t = true :=
  Option.map_eq_some_iff.mp h

theorem exists_run_of_decide
    {step : σ → α → Option σ} {s : σ} {actions : List α} {P : σ → Prop}
    [DecidablePred P]
    (h : (run step s actions).map (fun t => decide (P t)) = some true) :
    ∃ t, run step s actions = some t ∧ P t := by
  obtain ⟨t, hrun, ht⟩ := exists_run_of_map h
  exact ⟨t, hrun, of_decide_eq_true ht⟩

end Transition
