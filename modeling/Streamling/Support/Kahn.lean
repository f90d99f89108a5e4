import Mathlib.Data.Finset.Card
import Mathlib.Data.Set.Finite.Basic
import Mathlib.Data.Int.Cast.Lemmas
import Mathlib.Data.List.Nodup
import Mathlib.Logic.Relation
import Mathlib.Order.RelClasses
import Mathlib.Order.WellFounded

/-!
# Kahn's algorithm

Nodes without remaining predecessors wait in a queue.  Taking one appends it
to the result and counts down the degrees of its dependents; those that come
to zero are arranged and join the queue.  The result lists every node exactly
if the edges have no cycle, and the order of the edges does not matter when
arranging does not depend on it.
-/

namespace Kahn

variable {α : Type*} [DecidableEq α]

/-- The waiting nodes, the remaining degrees and the nodes taken. -/
structure State (α : Type*) where
  queue : List α
  degree : α → ℤ
  result : List α

/-- Count down the degrees of the dependents of a node, with the nodes that
come to zero. -/
def release (degree : α → ℤ) : List α → (α → ℤ) × List α
  | [] => (degree, [])
  | v :: vs =>
      let counted := Function.update degree v (degree v - 1)
      let released := release counted vs
      (released.1,
        if counted v = 0 then v :: released.2 else released.2)

/-- Take one node from the queue. -/
def step (dependents : α → List α) (arrange : List α → List α)
    (s : State α) : State α :=
  match s.queue with
  | [] => s
  | u :: queue =>
      let released := release s.degree (dependents u)
      ⟨queue ++ arrange released.2, released.1, s.result ++ [u]⟩

def run (dependents : α → List α) (arrange : List α → List α) :
    ℕ → State α → State α
  | 0, s => s
  | n + 1, s => run dependents arrange n (step dependents arrange s)

/-- The first waiting nodes are those without predecessors. -/
def start (degree : α → ℤ) (arrange : List α → List α) (nodes : List α) :
    State α :=
  ⟨arrange (nodes.filter fun v => degree v = 0), degree, []⟩

/-! ## Counting down -/

theorem release_of_nodup
    {vs : List α} (hnodup : vs.Nodup) (degree : α → ℤ) :
    release degree vs =
      (fun v => if v ∈ vs then degree v - 1 else degree v,
        vs.filter fun v => degree v = 1) := by
  induction vs generalizing degree with
  | nil => simp [release]
  | cons v vs ih =>
      obtain ⟨hnot, hnodup⟩ := List.nodup_cons.mp hnodup
      rw [release, ih hnodup]
      have hfilter :
          (vs.filter fun w =>
            Function.update degree v (degree v - 1) w = 1) =
          vs.filter fun w => degree w = 1 := by
        refine List.filter_congr ?_
        intro w hw
        have hne : w ≠ v := fun h => hnot (h ▸ hw)
        rw [Function.update_of_ne hne]
      refine Prod.ext ?_ ?_
      · funext w
        by_cases hw : w = v
        · subst hw
          simp [hnot]
        · simp [hw]
      · rw [List.filter_cons]
        simp only [Function.update_self, hfilter, decide_eq_true_eq]
        refine if_congr ?_ rfl rfl
        omega

/-! ## The invariant -/

section Invariant

variable {nodes : Finset α} {dependents : α → List α}

/-- The nodes that have still to be taken before a node. -/
def remaining (nodes : Finset α) (dependents : α → List α)
    (result : List α) (v : α) : Finset α :=
  nodes.filter fun u => u ∉ result ∧ v ∈ dependents u

/-- The nodes taken and waiting are those without remaining predecessors, and
a node is taken after its predecessors. -/
structure Inv (nodes : Finset α) (dependents : α → List α) (s : State α) :
    Prop where
  nodup : (s.result ++ s.queue).Nodup
  subset : ∀ v ∈ s.result ++ s.queue, v ∈ nodes
  degree : ∀ v ∈ nodes,
    s.degree v = (remaining nodes dependents s.result v).card
  ready : ∀ v ∈ nodes, v ∈ s.result ++ s.queue ↔ s.degree v = 0
  ordered : ∀ v ∈ s.result, ∀ u ∈ nodes, v ∈ dependents u →
    s.result.idxOf u < s.result.idxOf v

theorem remaining_append
    {result : List α} {u : α} (v : α) :
    remaining nodes dependents (result ++ [u]) v =
      (remaining nodes dependents result v).erase u := by
  ext w
  simp only [remaining, Finset.mem_filter, Finset.mem_erase,
    List.mem_append, List.mem_singleton]
  tauto

theorem remaining_eq_empty_iff
    {result : List α} {v : α} :
    remaining nodes dependents result v = ∅ ↔
      ∀ u ∈ nodes, v ∈ dependents u → u ∈ result := by
  rw [remaining, Finset.filter_eq_empty_iff]
  constructor
  · intro h u hu hv
    by_contra hnot
    exact h hu ⟨hnot, hv⟩
  · intro h u hu hboth
    exact hboth.1 (h u hu hboth.2)

/-- A taken or waiting node has all its predecessors taken. -/
theorem Inv.taken
    {s : State α} (h : Inv nodes dependents s) {v : α}
    (hv : v ∈ s.result ++ s.queue) {u : α} (hu : u ∈ nodes)
    (hedge : v ∈ dependents u) :
    u ∈ s.result := by
  have hnode := h.subset v hv
  have hzero := (h.ready v hnode).mp hv
  rw [h.degree v hnode] at hzero
  have hempty := Finset.card_eq_zero.mp (Int.natCast_eq_zero.mp hzero)
  exact remaining_eq_empty_iff.mp hempty u hu hedge

variable {arrange : List α → List α}

theorem inv_start
    (harrange : ∀ vs, (arrange vs).Perm vs) {degree : α → ℤ}
    {order : List α} (horder : order.Nodup)
    (hnodes : ∀ v, v ∈ order ↔ v ∈ nodes)
    (hdegree : ∀ v ∈ nodes,
      degree v = (remaining nodes dependents [] v).card) :
    Inv nodes dependents (start degree arrange order) where
  nodup := by
    rw [start, List.nil_append, (harrange _).nodup_iff]
    exact horder.filter _
  subset := by
    intro v hv
    rw [start, List.nil_append, (harrange _).mem_iff] at hv
    exact (hnodes v).mp (List.mem_filter.mp hv).1
  degree := hdegree
  ready := by
    intro v hv
    rw [start, List.nil_append, (harrange _).mem_iff, List.mem_filter]
    simp [(hnodes v).mpr hv]
  ordered := by simp [start]

theorem inv_step
    (hnodup : ∀ u, (dependents u).Nodup)
    (hsub : ∀ u, ∀ v ∈ dependents u, v ∈ nodes)
    (harrange : ∀ vs, (arrange vs).Perm vs)
    {s : State α} (h : Inv nodes dependents s) :
    Inv nodes dependents (step dependents arrange s) := by
  cases hqueue : s.queue with
  | nil =>
      simpa [step, hqueue] using h
  | cons u queue =>
      have hmem (v : α) :
          v ∈ s.result ++ s.queue ↔ v ∈ s.result ++ [u] ++ queue := by
        simp [hqueue]
      have hstep : step dependents arrange s =
          ⟨queue ++ arrange ((dependents u).filter fun v => s.degree v = 1),
            fun v => if v ∈ dependents u then s.degree v - 1 else s.degree v,
            s.result ++ [u]⟩ := by
        simp only [step, hqueue, release_of_nodup (hnodup u)]
      have hall : (s.result ++ [u] ++ queue).Nodup := by
        simpa [hqueue] using h.nodup
      have hu : u ∈ nodes := h.subset u (by simp [hqueue])
      have hfresh : u ∉ s.result := by
        intro hin
        have hsplit := List.nodup_append.mp (List.nodup_append.mp hall).1
        exact hsplit.2.2 u hin u List.mem_cons_self rfl
      -- a taken or waiting node is no dependent of `u`
      have hnone : ∀ v ∈ s.result ++ s.queue, v ∉ dependents u :=
        fun v hv hedge => hfresh (h.taken hv hu hedge)
      have hdegree : ∀ v ∈ nodes,
          (if v ∈ dependents u then s.degree v - 1 else s.degree v) =
            (remaining nodes dependents (s.result ++ [u]) v).card := by
        intro v hv
        rw [remaining_append, h.degree v hv]
        by_cases hedge : v ∈ dependents u
        · have hin : u ∈ remaining nodes dependents s.result v :=
            Finset.mem_filter.mpr ⟨hu, hfresh, hedge⟩
          have hpos := Finset.card_pos.mpr ⟨u, hin⟩
          rw [if_pos hedge, Finset.card_erase_of_mem hin]
          omega
        · have hout : u ∉ remaining nodes dependents s.result v :=
            fun hin => hedge (Finset.mem_filter.mp hin).2.2
          rw [if_neg hedge, Finset.erase_eq_of_notMem hout]
      have hready (v : α) :
          v ∈ s.result ++ [u] ++
              (queue ++
                arrange ((dependents u).filter fun v => s.degree v = 1)) ↔
            v ∈ s.result ++ s.queue ∨ v ∈ dependents u ∧ s.degree v = 1 := by
        rw [hmem, ← List.append_assoc, List.mem_append,
          (harrange _).mem_iff, List.mem_filter, decide_eq_true_eq]
      rw [hstep]
      refine ⟨?_, ?_, hdegree, ?_, ?_⟩
      · change (s.result ++ [u] ++ (queue ++ arrange _)).Nodup
        rw [← List.append_assoc]
        refine List.nodup_append.mpr ⟨hall, ?_, ?_⟩
        · rw [(harrange _).nodup_iff]
          exact (hnodup u).filter _
        · intro v hv w hw heq
          rw [(harrange _).mem_iff, List.mem_filter] at hw
          exact hnone v ((hmem v).mpr hv) (heq ▸ hw.1)
      · intro v hv
        rcases (hready v).mp hv with hv | ⟨hedge, -⟩
        · exact h.subset v hv
        · exact hsub u v hedge
      · intro v hv
        refine (hready v).trans ?_
        rw [h.ready v hv]
        change s.degree v = 0 ∨ _ ↔
          (if v ∈ dependents u then s.degree v - 1 else s.degree v) = 0
        by_cases hedge : v ∈ dependents u
        · have hne : s.degree v ≠ 0 := fun hzero =>
            hnone v ((h.ready v hv).mpr hzero) hedge
          simp only [hne, hedge, true_and, false_or, if_true]
          omega
        · simp [hedge]
      · intro v hv w hw hedge
        change (s.result ++ [u]).idxOf w < (s.result ++ [u]).idxOf v
        have hv' : v ∈ s.result ++ s.queue := by
          rw [hmem]
          exact List.mem_append_left _ hv
        have hin := h.taken hv' hw hedge
        rw [List.idxOf_append_of_mem hin]
        rcases List.mem_append.mp hv with hold | hnew
        · rw [List.idxOf_append_of_mem hold]
          exact h.ordered v hold w hw hedge
        · obtain rfl := List.mem_singleton.mp hnew
          rw [List.idxOf_append_of_notMem hfresh]
          have := List.idxOf_lt_length_of_mem hin
          omega

theorem inv_run
    (hnodup : ∀ u, (dependents u).Nodup)
    (hsub : ∀ u, ∀ v ∈ dependents u, v ∈ nodes)
    (harrange : ∀ vs, (arrange vs).Perm vs)
    (n : ℕ) {s : State α} (h : Inv nodes dependents s) :
    Inv nodes dependents (run dependents arrange n s) := by
  induction n generalizing s with
  | zero => exact h
  | succ n ih => exact ih (inv_step hnodup hsub harrange h)

end Invariant

/-! ## The end of a run -/

section End

variable {nodes : Finset α} {dependents : α → List α}
  {arrange : List α → List α}

theorem run_nil
    (n : ℕ) {s : State α} (h : s.queue = []) :
    run dependents arrange n s = s := by
  induction n with
  | zero => rfl
  | succ n ih =>
      have hstep : step dependents arrange s = s := by simp [step, h]
      rw [run, hstep, ih]

theorem run_queue_or_length
    (n : ℕ) (s : State α) :
    (run dependents arrange n s).queue = [] ∨
      (run dependents arrange n s).result.length = s.result.length + n := by
  induction n generalizing s with
  | zero => exact Or.inr rfl
  | succ n ih =>
      cases hqueue : s.queue with
      | nil =>
          rw [run_nil _ hqueue]
          exact Or.inl hqueue
      | cons u queue =>
          rw [run]
          refine (ih _).imp_right ?_
          intro hlength
          rw [hlength]
          simp [step, hqueue]
          omega

/-- As many steps as there are nodes empty the queue. -/
theorem run_card_queue
    {s : State α} (hresult : s.result = [])
    (h : Inv nodes dependents (run dependents arrange nodes.card s)) :
    (run dependents arrange nodes.card s).queue = [] := by
  obtain hqueue | hlength :
      (run dependents arrange nodes.card s).queue = [] ∨ _ :=
    run_queue_or_length nodes.card s
  · exact hqueue
  · rw [hresult, List.length_nil, Nat.zero_add] at hlength
    have hle : (run dependents arrange nodes.card s).result.length +
        (run dependents arrange nodes.card s).queue.length ≤ nodes.card := by
      rw [← List.length_append, ← List.toFinset_card_of_nodup h.nodup]
      exact Finset.card_le_card fun v hv =>
        h.subset v (List.mem_toFinset.mp hv)
    exact List.length_eq_zero_iff.mp (by omega)

/-- An edge of the graph. -/
def Edge (nodes : Finset α) (dependents : α → List α) (u v : α) : Prop :=
  u ∈ nodes ∧ v ∈ dependents u

def Acyclic (nodes : Finset α) (dependents : α → List α) : Prop :=
  ∀ v, ¬ Relation.TransGen (Edge nodes dependents) v v

/-- Without a cycle no node is left over. -/
theorem Inv.complete
    {s : State α} (h : Inv nodes dependents s) (hqueue : s.queue = [])
    (hacyclic : Acyclic nodes dependents) :
    ∀ v ∈ nodes, v ∈ s.result := by
  -- the precursor of a node that is left over is a node left over
  have hleft : ∀ v ∈ nodes, v ∉ s.result →
      ∃ u ∈ nodes, u ∉ s.result ∧ v ∈ dependents u := by
    intro v hv hnot
    by_contra hnone
    have hempty : remaining nodes dependents s.result v = ∅ := by
      refine remaining_eq_empty_iff.mpr ?_
      intro u hu hedge
      by_contra hout
      exact hnone ⟨u, hu, hout, hedge⟩
    have hzero : s.degree v = 0 := by
      rw [h.degree v hv, hempty]
      rfl
    have hin := (h.ready v hv).mpr hzero
    rw [hqueue, List.append_nil] at hin
    exact hnot hin
  let Reach (u v : nodes) : Prop :=
    Relation.TransGen (Edge nodes dependents) u v
  have htrans : IsTrans nodes Reach := ⟨fun _ _ _ => Relation.TransGen.trans⟩
  have hirrefl : Std.Irrefl Reach := ⟨fun v => hacyclic v⟩
  have hwf : WellFounded Reach := Finite.wellFounded_of_trans_of_irrefl _
  intro v hv
  have hall : ∀ v : nodes, (v : α) ∈ s.result := by
    intro v
    induction v using hwf.induction with
    | _ v ih =>
        by_contra hnot
        obtain ⟨u, hu, hout, hedge⟩ := hleft v v.2 hnot
        exact hout (ih ⟨u, hu⟩ (Relation.TransGen.single ⟨hu, hedge⟩))
  exact hall ⟨v, hv⟩

/-- A result with all nodes leaves no room for a cycle. -/
theorem Inv.acyclic
    (hsub : ∀ u, ∀ v ∈ dependents u, v ∈ nodes)
    {s : State α} (h : Inv nodes dependents s)
    (hall : ∀ v ∈ nodes, v ∈ s.result) :
    Acyclic nodes dependents := by
  have hlt : ∀ u v, Relation.TransGen (Edge nodes dependents) u v →
      s.result.idxOf u < s.result.idxOf v := by
    intro u v hpath
    induction hpath with
    | single hedge =>
        exact h.ordered _ (hall _ (hsub _ _ hedge.2)) _ hedge.1 hedge.2
    | tail _ hedge ih =>
        exact ih.trans
          (h.ordered _ (hall _ (hsub _ _ hedge.2)) _ hedge.1 hedge.2)
  intro v hcycle
  exact Nat.lt_irrefl _ (hlt v v hcycle)

theorem Inv.length_eq_iff
    (hsub : ∀ u, ∀ v ∈ dependents u, v ∈ nodes)
    {s : State α} (h : Inv nodes dependents s) (hqueue : s.queue = []) :
    s.result.length = nodes.card ↔ Acyclic nodes dependents := by
  have hnodup : s.result.Nodup := (List.nodup_append.mp h.nodup).1
  have hsubset : s.result.toFinset ⊆ nodes := fun v hv =>
    h.subset v (List.mem_append_left _ (List.mem_toFinset.mp hv))
  rw [← List.toFinset_card_of_nodup hnodup]
  constructor
  · intro hcard
    have heq := Finset.eq_of_subset_of_card_le hsubset hcard.ge
    refine h.acyclic hsub ?_
    intro v hv
    rw [← heq] at hv
    exact List.mem_toFinset.mp hv
  · intro hacyclic
    refine congrArg Finset.card (Finset.Subset.antisymm hsubset ?_)
    intro v hv
    exact List.mem_toFinset.mpr (h.complete hqueue hacyclic v hv)

end End

/-! ## Independence of the order of edges -/

theorem step_congr
    {dependents dependents' : α → List α} {arrange : List α → List α}
    (harrange : ∀ vs vs', vs.Perm vs' → arrange vs = arrange vs')
    (hnodup : ∀ u, (dependents u).Nodup)
    (hperm : ∀ u, (dependents u).Perm (dependents' u)) (s : State α) :
    step dependents arrange s = step dependents' arrange s := by
  cases hqueue : s.queue with
  | nil => simp [step, hqueue]
  | cons u queue =>
      have hnodup' : (dependents' u).Nodup := (hperm u).nodup_iff.mp (hnodup u)
      have hready := harrange _ _
        ((hperm u).filter fun v => decide (s.degree v = 1))
      simp only [step, hqueue, release_of_nodup (hnodup u),
        release_of_nodup hnodup', hready, (hperm u).mem_iff]

theorem run_congr
    {dependents dependents' : α → List α} {arrange : List α → List α}
    (harrange : ∀ vs vs', vs.Perm vs' → arrange vs = arrange vs')
    (hnodup : ∀ u, (dependents u).Nodup)
    (hperm : ∀ u, (dependents u).Perm (dependents' u)) (n : ℕ)
    (s : State α) :
    run dependents arrange n s = run dependents' arrange n s := by
  induction n generalizing s with
  | zero => rfl
  | succ n ih => rw [run, run, step_congr harrange hnodup hperm, ih]

omit [DecidableEq α] in
theorem start_congr
    {arrange : List α → List α}
    (harrange : ∀ vs vs', vs.Perm vs' → arrange vs = arrange vs')
    (degree : α → ℤ) {order order' : List α} (hperm : order.Perm order') :
    start degree arrange order = start degree arrange order' := by
  rw [start, start, harrange _ _ (hperm.filter _)]

end Kahn
