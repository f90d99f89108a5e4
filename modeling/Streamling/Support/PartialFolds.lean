import Mathlib

/-!
# Partial folds

An accumulator is fed rows in batches and the states of other accumulators.
If it keeps a summary of the multiset of rows below it, its result does not
depend on how they were split, ordered or nested; only a state that does not
fit what it is sent as can make a difference.
-/

namespace PartialFolds

/-- An accumulator.  The number of a state or a result stands for what its
type leaves open, such as the order of a set. -/
structure Accumulator (ρ β ε : Type) where
  Acc : Type
  State : Type
  new : Acc
  updateBatch : Acc → List ρ → Except ε Acc
  mergeBatch : Acc → List State → Except ε Acc
  state : Acc → ℕ → Except ε State
  evaluate : Acc → ℕ → Except ε β

variable {ρ β ε : Type}

mutual

/-- What an accumulator is fed, the last batch outermost. -/
inductive Feed (ρ : Type) where
  | new
  | update (before : Feed ρ) (rows : List ρ)
  | merge (before : Feed ρ) (parts : Parts ρ)

/-- The accumulators whose states are merged, each with its order. -/
inductive Parts (ρ : Type) where
  | nil
  | cons (part : Feed ρ) (order : ℕ) (rest : Parts ρ)

end

mutual

/-- All rows below. -/
def Feed.rows : Feed ρ → Multiset ρ
  | .new => 0
  | .update before rows => before.rows + rows
  | .merge before parts => before.rows + parts.rows

def Parts.rows : Parts ρ → Multiset ρ
  | .nil => 0
  | .cons part _ rest => part.rows + rest.rows

end

mutual

/-- Every accumulator that sends its state has rows of the kind. -/
def Feed.AllSent (P : Multiset ρ → Prop) : Feed ρ → Prop
  | .new => True
  | .update before _ => before.AllSent P
  | .merge before parts => before.AllSent P ∧ parts.AllSent P

def Parts.AllSent (P : Multiset ρ → Prop) : Parts ρ → Prop
  | .nil => True
  | .cons part _ rest => part.AllSent P ∧ P part.rows ∧ rest.AllSent P

end

/-- One accumulator that is fed all batches itself. -/
def single : List (List ρ) → Feed ρ
  | [] => .new
  | rows :: batches => .update (single batches) rows

theorem rows_single (batches : List (List ρ)) :
    (single batches).rows = (batches.flatten : List ρ) := by
  induction batches with
  | nil => rfl
  | cons rows batches ih =>
      rw [single, Feed.rows, ih, add_comm]
      rfl

theorem allSent_single (P : Multiset ρ → Prop) (batches : List (List ρ)) :
    (single batches).AllSent P := by
  induction batches with
  | nil => trivial
  | cons rows batches ih => exact ih

mutual

theorem allSent_of_forall
    {P : Multiset ρ → Prop} (h : ∀ rows, P rows) :
    (feed : Feed ρ) → feed.AllSent P
  | .new => trivial
  | .update before _ => allSent_of_forall h before
  | .merge before parts =>
      ⟨allSent_of_forall h before, partsAllSent_of_forall h parts⟩

theorem partsAllSent_of_forall
    {P : Multiset ρ → Prop} (h : ∀ rows, P rows) :
    (parts : Parts ρ) → parts.AllSent P
  | .nil => trivial
  | .cons part _ rest =>
      ⟨allSent_of_forall h part, h part.rows, partsAllSent_of_forall h rest⟩

end

mutual

/-- Only the rows that are there matter. -/
theorem allSent_congr
    {P Q : Multiset ρ → Prop} {Valid : ρ → Prop}
    (h : ∀ rows, (∀ row ∈ rows, Valid row) → (P rows ↔ Q rows)) :
    (feed : Feed ρ) → (∀ row ∈ feed.rows, Valid row) →
    (feed.AllSent P ↔ feed.AllSent Q)
  | .new, _ => Iff.rfl
  | .update before _, hvalid => by
      rw [Feed.AllSent, Feed.AllSent]
      exact allSent_congr h before fun row hrow =>
        hvalid row (Multiset.mem_add.mpr (.inl hrow))
  | .merge before parts, hvalid => by
      rw [Feed.AllSent, Feed.AllSent]
      apply and_congr
      · exact allSent_congr h before fun row hrow =>
          hvalid row (Multiset.mem_add.mpr (.inl hrow))
      · exact partsAllSent_congr h parts fun row hrow =>
          hvalid row (Multiset.mem_add.mpr (.inr hrow))

theorem partsAllSent_congr
    {P Q : Multiset ρ → Prop} {Valid : ρ → Prop}
    (h : ∀ rows, (∀ row ∈ rows, Valid row) → (P rows ↔ Q rows)) :
    (parts : Parts ρ) → (∀ row ∈ parts.rows, Valid row) →
    (parts.AllSent P ↔ parts.AllSent Q)
  | .nil, _ => Iff.rfl
  | .cons part _ rest, hvalid => by
      rw [Parts.AllSent, Parts.AllSent]
      have hpart : ∀ row ∈ part.rows, Valid row := fun row hrow =>
        hvalid row (Multiset.mem_add.mpr (.inl hrow))
      apply and_congr
      · exact allSent_congr h part hpart
      · apply and_congr
        · exact h part.rows hpart
        · exact partsAllSent_congr h rest fun row hrow =>
            hvalid row (Multiset.mem_add.mpr (.inr hrow))

end

namespace Accumulator

variable (agg : Accumulator ρ β ε)

mutual

def accumulate : Feed ρ → Except ε agg.Acc
  | .new => .ok agg.new
  | .update before rows => do
      let acc ← accumulate before
      agg.updateBatch acc rows
  | .merge before parts => do
      let acc ← accumulate before
      let states ← states parts
      agg.mergeBatch acc states

def states : Parts ρ → Except ε (List agg.State)
  | .nil => .ok []
  | .cons part order rest => do
      let acc ← accumulate part
      let state ← agg.state acc order
      let states ← states rest
      return state :: states

end

def outcome (feed : Feed ρ) (order : ℕ) : Except ε β := do
  let acc ← agg.accumulate feed
  agg.evaluate acc order

/-- The accumulator keeps a summary of its rows: it takes every valid row and
every state that fits, and its result is a function of the rows. -/
structure Summarizes (Valid : ρ → Prop) (Fits : Multiset ρ → Prop)
    (result : Multiset ρ → Except ε β) where
  Tracks : agg.Acc → Multiset ρ → Prop
  Sends : agg.State → Multiset ρ → Prop
  new : Tracks agg.new 0
  update : ∀ acc rows batch, Tracks acc rows → (∀ row ∈ batch, Valid row) →
    ∃ after, agg.updateBatch acc batch = .ok after ∧
      Tracks after (rows + batch)
  merge : ∀ acc rows states sent, Tracks acc rows →
    List.Forall₂ Sends states sent →
    ∃ after, agg.mergeBatch acc states = .ok after ∧
      Tracks after (rows + sent.sum)
  sends : ∀ acc rows order, Tracks acc rows → Fits rows →
    ∃ state, agg.state acc order = .ok state ∧ Sends state rows
  refuses : ∀ acc rows order, Tracks acc rows → ¬ Fits rows →
    ∃ e, agg.state acc order = .error e
  evaluate : ∀ acc rows order, Tracks acc rows →
    agg.evaluate acc order = result rows

namespace Summarizes

variable {agg : Accumulator ρ β ε} {Valid : ρ → Prop}
  {Fits : Multiset ρ → Prop} {result : Multiset ρ → Except ε β}

mutual

/-- If all states fit, the accumulator tracks all rows below it. -/
theorem accumulate_ok (laws : agg.Summarizes Valid Fits result) :
    (feed : Feed ρ) → (∀ row ∈ feed.rows, Valid row) → feed.AllSent Fits →
    ∃ acc, agg.accumulate feed = .ok acc ∧ laws.Tracks acc feed.rows
  | .new, _, _ => ⟨agg.new, rfl, laws.new⟩
  | .update before batch, hvalid, hsent => by
      rw [Feed.rows] at hvalid
      have hbefore : ∀ row ∈ before.rows, Valid row := fun row hrow =>
        hvalid row (Multiset.mem_add.mpr (.inl hrow))
      have hbatch : ∀ row ∈ batch, Valid row := fun row hrow =>
        hvalid row (Multiset.mem_add.mpr (.inr hrow))
      obtain ⟨acc, hacc, htracks⟩ := accumulate_ok laws before hbefore hsent
      obtain ⟨after, hafter, htracks⟩ :=
        laws.update acc before.rows batch htracks hbatch
      refine ⟨after, ?_, htracks⟩
      rw [accumulate, hacc]
      exact hafter
  | .merge before parts, hvalid, hsent => by
      rw [Feed.rows] at hvalid
      have hbefore : ∀ row ∈ before.rows, Valid row := fun row hrow =>
        hvalid row (Multiset.mem_add.mpr (.inl hrow))
      have hparts : ∀ row ∈ parts.rows, Valid row := fun row hrow =>
        hvalid row (Multiset.mem_add.mpr (.inr hrow))
      rw [Feed.AllSent] at hsent
      obtain ⟨acc, hacc, htracks⟩ := accumulate_ok laws before hbefore hsent.1
      obtain ⟨states, sent, hstates, hsends, hsum⟩ :=
        states_ok laws parts hparts hsent.2
      obtain ⟨after, hafter, htracks⟩ :=
        laws.merge acc before.rows states sent htracks hsends
      refine ⟨after, ?_, ?_⟩
      · rw [accumulate, hacc]
        simp only [bind, Except.bind, hstates]
        exact hafter
      · rw [Feed.rows, ← hsum]
        exact htracks

theorem states_ok (laws : agg.Summarizes Valid Fits result) :
    (parts : Parts ρ) → (∀ row ∈ parts.rows, Valid row) →
    parts.AllSent Fits →
    ∃ states sent, agg.states parts = .ok states ∧
      List.Forall₂ laws.Sends states sent ∧ sent.sum = parts.rows
  | .nil, _, _ => ⟨[], [], rfl, .nil, rfl⟩
  | .cons part order rest, hvalid, hsent => by
      rw [Parts.rows] at hvalid
      have hpart : ∀ row ∈ part.rows, Valid row := fun row hrow =>
        hvalid row (Multiset.mem_add.mpr (.inl hrow))
      have hrest : ∀ row ∈ rest.rows, Valid row := fun row hrow =>
        hvalid row (Multiset.mem_add.mpr (.inr hrow))
      rw [Parts.AllSent] at hsent
      obtain ⟨acc, hacc, htracks⟩ := accumulate_ok laws part hpart hsent.1
      obtain ⟨state, hstate, hsends⟩ :=
        laws.sends acc part.rows order htracks hsent.2.1
      obtain ⟨states, sent, hstates, hall, hsum⟩ :=
        states_ok laws rest hrest hsent.2.2
      refine ⟨state :: states, part.rows :: sent, ?_, .cons hsends hall, ?_⟩
      · rw [Accumulator.states, hacc]
        simp only [bind, Except.bind, hstate, hstates]
        rfl
      · rw [List.sum_cons, hsum, Parts.rows]

end

mutual

/-- A state that does not fit ends the accumulation. -/
theorem accumulate_error (laws : agg.Summarizes Valid Fits result) :
    (feed : Feed ρ) → (∀ row ∈ feed.rows, Valid row) → ¬ feed.AllSent Fits →
    ∃ e, agg.accumulate feed = .error e
  | .new, _, hsent => absurd trivial hsent
  | .update before batch, hvalid, hsent => by
      rw [Feed.rows] at hvalid
      have hbefore : ∀ row ∈ before.rows, Valid row := fun row hrow =>
        hvalid row (Multiset.mem_add.mpr (.inl hrow))
      obtain ⟨e, he⟩ := accumulate_error laws before hbefore hsent
      exact ⟨e, by rw [accumulate, he]; rfl⟩
  | .merge before parts, hvalid, hsent => by
      rw [Feed.rows] at hvalid
      have hbefore : ∀ row ∈ before.rows, Valid row := fun row hrow =>
        hvalid row (Multiset.mem_add.mpr (.inl hrow))
      have hparts : ∀ row ∈ parts.rows, Valid row := fun row hrow =>
        hvalid row (Multiset.mem_add.mpr (.inr hrow))
      by_cases hfirst : before.AllSent Fits
      · obtain ⟨acc, hacc, -⟩ := accumulate_ok laws before hbefore hfirst
        have hrest : ¬ parts.AllSent Fits := fun h => hsent ⟨hfirst, h⟩
        obtain ⟨e, he⟩ := states_error laws parts hparts hrest
        refine ⟨e, ?_⟩
        rw [accumulate, hacc]
        simp only [bind, Except.bind, he]
      · obtain ⟨e, he⟩ := accumulate_error laws before hbefore hfirst
        exact ⟨e, by rw [accumulate, he]; rfl⟩

theorem states_error (laws : agg.Summarizes Valid Fits result) :
    (parts : Parts ρ) → (∀ row ∈ parts.rows, Valid row) → ¬ parts.AllSent Fits →
    ∃ e, agg.states parts = .error e
  | .nil, _, hsent => absurd trivial hsent
  | .cons part order rest, hvalid, hsent => by
      rw [Parts.rows] at hvalid
      have hpart : ∀ row ∈ part.rows, Valid row := fun row hrow =>
        hvalid row (Multiset.mem_add.mpr (.inl hrow))
      have hrows : ∀ row ∈ rest.rows, Valid row := fun row hrow =>
        hvalid row (Multiset.mem_add.mpr (.inr hrow))
      by_cases hfirst : part.AllSent Fits
      · obtain ⟨acc, hacc, htracks⟩ :=
          accumulate_ok laws part hpart hfirst
        by_cases hfits : Fits part.rows
        · obtain ⟨state, hstate, -⟩ :=
            laws.sends acc part.rows order htracks hfits
          have hrest : ¬ rest.AllSent Fits := fun h =>
            hsent ⟨hfirst, hfits, h⟩
          obtain ⟨e, he⟩ := states_error laws rest hrows hrest
          refine ⟨e, ?_⟩
          rw [Accumulator.states, hacc]
          simp only [bind, Except.bind, hstate, he]
        · obtain ⟨e, he⟩ := laws.refuses acc part.rows order htracks hfits
          refine ⟨e, ?_⟩
          rw [Accumulator.states, hacc]
          simp only [bind, Except.bind, he]
      · obtain ⟨e, he⟩ := accumulate_error laws part hpart hfirst
        exact ⟨e, by rw [Accumulator.states, he]; rfl⟩

end

/-- The result is that of all rows if all states fit, and else an error. -/
theorem outcome_eq
    (laws : agg.Summarizes Valid Fits result)
    {feed : Feed ρ} (hvalid : ∀ row ∈ feed.rows, Valid row) (order : ℕ) :
    (feed.AllSent Fits → agg.outcome feed order = result feed.rows) ∧
    (¬ feed.AllSent Fits → ∃ e, agg.outcome feed order = .error e) := by
  constructor
  · intro hsent
    obtain ⟨acc, hacc, htracks⟩ := accumulate_ok laws feed hvalid hsent
    rw [outcome, hacc]
    exact laws.evaluate acc feed.rows order htracks
  · intro hsent
    obtain ⟨e, he⟩ := accumulate_error laws feed hvalid hsent
    exact ⟨e, by rw [outcome, he]; rfl⟩

end Summarizes

end Accumulator

end PartialFolds
