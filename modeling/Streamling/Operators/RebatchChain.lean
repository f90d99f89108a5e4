import Streamling.Checkpoints.Message
import Streamling.Operators.RebatchOrdering

/-!
# Marker ordering through stacked rebatchers

One accumulator keeps messages behind the rows that entered before them.  A
chain need not: a flush merges batches, and the merged batch carries the
messages of all of them; when a later accumulator splits it, the messages
leave with the first slice, and the rows behind the cut, which may have
entered the chain before them, do not.

The order of a chain is kept by the runs in which no accumulator splits a
batch that carries a message in front of rows older than the message.
-/

namespace Streamling

variable {ρ κ μ : Type*}

/-! ## Chains of rebatchers -/

/-- A row of a chain's input, by the number of its input batch and its
position there. -/
abbrev InputRow := ℕ × ℕ

/-- A batch entering the chain. -/
structure InputBatch (κ μ : Type*) where
  numRows : ℕ
  columns : List κ
  messages : List μ

/-- The input of a chain, its rows and messages marked with the number of the
batch they enter on. -/
def numbered (input : List (InputBatch κ μ)) :
    List (ColumnBatch InputRow κ (ℕ × μ)) :=
  input.zipIdx.map fun (batch, k) =>
    { rows := (List.range batch.numRows).map fun i => (k, i)
      columns := batch.columns
      messages := batch.messages.map fun m => (k, m) }

/-- The rows of the input batches before the message's own. -/
def OlderThan (input : List (InputBatch κ μ)) (m : ℕ × μ)
    (row : InputRow) : Prop :=
  row.1 < m.1 ∧ row ∈ streamRows (numbered input)

instance (input : List (InputBatch κ μ)) (m : ℕ × μ) (row : InputRow) :
    Decidable (OlderThan input m row) :=
  inferInstanceAs (Decidable (_ ∧ _))

/-- One rebatcher of a chain: its sizes, what drove it so far, and the columns
that the row-preserving operator behind it computes for a batch. -/
structure RebatchStage (κ μ : Type*) where
  batchSize : ℕ
  maxColumnBytes : ℕ
  events : List (RebatchEvent InputRow κ (ℕ × μ))
  ended : Bool
  transform : ColumnBatch InputRow κ (ℕ × μ) → List κ

namespace RebatchStage

def run (ops : ColumnOps κ) (stage : RebatchStage κ μ) :
    Rebatch InputRow κ (ℕ × μ) :=
  Rebatch.processStream ops stage.batchSize stage.maxColumnBytes
    stage.events stage.ended

/-- The stream behind the stage's operator. -/
def output (ops : ColumnOps κ) (stage : RebatchStage κ μ) :
    List (ColumnBatch InputRow κ (ℕ × μ)) :=
  (stage.run ops).output.map fun batch =>
    { batch with columns := stage.transform batch }

end RebatchStage

/-- Each stage has read an initial part of what the stage before it put
out. -/
def Chained (ops : ColumnOps κ) :
    List (ColumnBatch InputRow κ (ℕ × μ)) → List (RebatchStage κ μ) → Prop
  | _, [] => True
  | input, stage :: stages =>
      Rebatch.inputs stage.events <+: input ∧
        Chained ops (stage.output ops) stages

/-- What the last stage put out. -/
def chainOutput (ops : ColumnOps κ) :
    List (ColumnBatch InputRow κ (ℕ × μ)) → List (RebatchStage κ μ) →
      List (ColumnBatch InputRow κ (ℕ × μ))
  | input, [] => input
  | _, stage :: stages => chainOutput ops (stage.output ops) stages

/-- When a message that entered on input batch `k` leaves on an output batch,
every row of the input batches before `k` has left on that output batch or an
earlier one. -/
def MarkerOrdering (input : List (InputBatch κ μ))
    (output : List (ColumnBatch InputRow κ (ℕ × μ))) : Prop :=
  ∀ front batch back, output = front ++ batch :: back →
    ∀ k m, (k, m) ∈ batch.messages →
      ∀ j earlier, j < k → input[j]? = some earlier →
        ∀ i < earlier.numRows, (j, i) ∈ streamRows (front ++ [batch])

section Chain

variable {older : ℕ × μ → InputRow → Prop}

theorem InOrder.of_prefix {gone : List ρ} {older : μ → ρ → Prop}
    {xs ys : List (ColumnBatch ρ κ μ)} (h : InOrder older gone ys)
    (hxs : xs <+: ys) : InOrder older gone xs := by
  obtain ⟨rest, rfl⟩ := hxs
  exact (inOrder_append.mp h).1

/-- A row-preserving operator keeps the order. -/
theorem InOrder.map_columns {gone : List ρ} {older : μ → ρ → Prop}
    {xs : List (ColumnBatch ρ κ μ)} (h : InOrder older gone xs)
    (f : ColumnBatch ρ κ μ → List κ) :
    InOrder older gone
      (xs.map fun batch => { batch with columns := f batch }) := by
  induction xs generalizing gone with
  | nil => trivial
  | cons batch xs ih => exact ⟨h.1, ih h.2⟩

/-- The numbered input is in order: a message enters behind all rows of the
batches before its own. -/
theorem inOrder_numbered (input : List (InputBatch κ μ)) :
    InOrder (OlderThan input) [] (numbered input) := by
  -- Every suffix of the input is in order behind the rows before it.
  have hsuffix : ∀ (front back : List (InputBatch κ μ)),
      input = front ++ back →
      InOrder (OlderThan input) (streamRows (numbered front))
        ((back.zipIdx front.length).map fun (batch, k) =>
          ({ rows := (List.range batch.numRows).map fun i => (k, i)
             columns := batch.columns
             messages := batch.messages.map fun m => (k, m) } :
            ColumnBatch InputRow κ (ℕ × μ))) := by
    intro front back
    induction back generalizing front with
    | nil => intro _; trivial
    | cons batch back ih =>
        intro hinput
        refine ⟨?_, ?_⟩
        · rintro ⟨k, m⟩ hm row ⟨hlt, hmem⟩
          obtain rfl : front.length = k := by
            simp only [List.mem_map, Prod.mk.injEq] at hm
            obtain ⟨_, _, hk, _⟩ := hm
            exact hk
          apply List.mem_append_left
          rw [hinput, numbered, List.zipIdx_append, List.map_append,
            streamRows_append, List.mem_append] at hmem
          rcases hmem with hmem | hmem
          · exact hmem
          · exfalso
            simp only [streamRows, List.mem_flatMap, List.mem_map,
              Prod.exists] at hmem
            obtain ⟨_, ⟨b, k, hb, rfl⟩, hrow⟩ := hmem
            have hk := (List.mem_zipIdx hb).1
            simp only [List.mem_map] at hrow
            obtain ⟨i, -, rfl⟩ := hrow
            simp only [Nat.zero_add] at hk
            exact absurd hlt (Nat.not_lt.mpr hk)
        · have := ih (front ++ [batch]) (by simpa using hinput)
          simpa [numbered, List.zipIdx_append] using this
  exact hsuffix [] input rfl

theorem inOrder_chainOutput {ops : ColumnOps κ}
    {stages : List (RebatchStage κ μ)}
    {input : List (ColumnBatch InputRow κ (ℕ × μ))}
    (hinput : InOrder older [] input) (hchain : Chained ops input stages)
    (hclean : ∀ stage ∈ stages,
      (stage.run ops).AllSplitsClean older ops) :
    InOrder older [] (chainOutput ops input stages) := by
  induction stages generalizing input with
  | nil => exact hinput
  | cons stage stages ih =>
      have hstage := Rebatch.inOrder_processStream
        (hinput.of_prefix hchain.1) (hclean stage (by simp))
      exact ih (hstage.map_columns _) hchain.2
        fun st hst => hclean st (by simp [hst])

end Chain

/-- In every chain of rebatchers in which no flush splits a batch in front of
a row of an input batch older than a message the batch carries, no message
overtakes a row of an earlier input batch. -/
theorem marker_ordering_of_clean_splits {ops : ColumnOps κ}
    {input : List (InputBatch κ μ)} {stages : List (RebatchStage κ μ)}
    (hchain : Chained ops (numbered input) stages)
    (hclean : ∀ stage ∈ stages,
      (stage.run ops).AllSplitsClean (OlderThan input) ops) :
    MarkerOrdering input (chainOutput ops (numbered input) stages) := by
  have horder := inOrder_chainOutput (inOrder_numbered input) hchain hclean
  intro front batch back heq k m hm j earlier hjk hj i hi
  rw [heq] at horder
  have hrow : (j, i) ∈ streamRows (numbered input) := by
    simp only [numbered, streamRows, List.mem_flatMap, List.mem_map,
      Prod.exists]
    refine ⟨_, ⟨earlier, j, ?_, rfl⟩, ?_⟩
    · exact List.mk_mem_zipIdx_iff_getElem?.mpr hj
    · exact List.mem_map.mpr ⟨i, List.mem_range.mpr hi, rfl⟩
  have hnot := (inOrder_append.mp horder).2.1 (k, m) hm (j, i) ⟨hjk, hrow⟩
  simpa using hnot

/-! ## A chain of two -/

/-- Columns of fixed width: no payload, and nothing to fail. -/
def fixedWidth : ColumnOps Unit where
  maxI32OffsetPayloadSize := fun _ => 0
  slice := fun _ _ column => column
  concat := fun _ => some [()]

/-- Four rows, then one row with the marker of epoch `1`. -/
def fourThenMarked : List (InputBatch Unit CheckpointMessage) :=
  [⟨4, [()], []⟩, ⟨1, [()], [.marker 1 0]⟩]

/-- A stage that reads the whole of `input` and is never ticked. -/
def untimedStage (batchSize : ℕ)
    (input : List (ColumnBatch InputRow Unit (ℕ × CheckpointMessage))) :
    RebatchStage Unit CheckpointMessage where
  batchSize := batchSize
  maxColumnBytes := 2 ^ 31 - 1
  events := input.map .batch
  ended := true
  transform := ColumnBatch.columns

/-- Two stages with these sizes, one behind the other. -/
def twoStages (first second : ℕ) :
    List (RebatchStage Unit CheckpointMessage) :=
  let stage := untimedStage first (numbered fourThenMarked)
  [stage, untimedStage second (stage.output fixedWidth)]

theorem chained_twoStages (first second : ℕ) :
    Chained fixedWidth (numbered fourThenMarked)
      (twoStages first second) := by
  have hinputs : ∀ input :
      List (ColumnBatch InputRow Unit (ℕ × CheckpointMessage)),
      Rebatch.inputs (input.map .batch) = input := by
    intro input
    simp [Rebatch.inputs, List.filterMap_map]
  simp [twoStages, Chained, untimedStage, hinputs]

theorem marker_ordering_of_clean_splits_equal_sizes :
    MarkerOrdering fourThenMarked
      (chainOutput fixedWidth (numbered fourThenMarked)
        (twoStages 10 10)) :=
  marker_ordering_of_clean_splits (chained_twoStages 10 10) (by decide)

/-- With sizes ten and two, the first stage merges both batches and the
second splits the merged batch: the marker leaves with the first two rows of
the batch that entered before it. -/
theorem marker_overtakes_rows_behind_split :
    Chained fixedWidth (numbered fourThenMarked) (twoStages 10 2) ∧
      ¬ MarkerOrdering fourThenMarked
        (chainOutput fixedWidth (numbered fourThenMarked)
          (twoStages 10 2)) := by
  refine ⟨chained_twoStages 10 2, ?_⟩
  intro h
  have hmem := h [] _ _ rfl 1 (.marker 1 0) (by decide) 0 _ (by decide) rfl
    2 (by decide)
  revert hmem
  decide

end Streamling
