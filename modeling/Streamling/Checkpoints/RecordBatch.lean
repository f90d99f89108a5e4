import Streamling.Checkpoints.Message

/-!
# Record batches that carry checkpoint messages

A batch has rows and the checkpoint messages of its schema metadata.  The
row type is left open: what a row is depends on the component that produces
it.  A stream is the list of batches emitted so far; the marker of an epoch
cuts it in two.
-/

namespace Streamling

/-- A list with one more element splits at its end or before it. -/
theorem append_singleton_eq_append_cons
    {α : Type*} {xs front rest : List α} {x y : α}
    (h : xs ++ [x] = front ++ y :: rest) :
    (xs = front ∧ x = y ∧ rest = []) ∨
      ∃ rest', rest = rest' ++ [x] ∧ xs = front ++ y :: rest' := by
  rcases List.eq_nil_or_concat rest with rfl | ⟨rest, last, rfl⟩
  · obtain ⟨hfront, hlast⟩ := List.append_inj' h rfl
    exact .inl ⟨hfront, List.head_eq_of_cons_eq hlast, rfl⟩
  · have hsplit : xs ++ [x] = (front ++ y :: rest) ++ [last] := by
      simpa using h
    obtain ⟨hxs, hlast⟩ := List.append_inj' hsplit rfl
    exact .inr ⟨rest, by simp [List.head_eq_of_cons_eq hlast], hxs⟩

/-- The pieces of `n` elements that a list is cut into; the last one may be
shorter. -/
def chunks {α : Type*} (n : ℕ) (xs : List α) : List (List α) :=
  (List.range ((xs.length + n - 1) / n)).map fun i =>
    (xs.drop (i * n)).take n

theorem flatten_map_range_take {α : Type*} (xs : List α) (n k : ℕ) :
    ((List.range k).map fun i => (xs.drop (i * n)).take n).flatten =
      xs.take (k * n) := by
  induction k with
  | zero => simp
  | succ k ih =>
      rw [List.range_succ, List.map_append, List.flatten_append, ih]
      simp only [List.map_cons, List.map_nil, List.flatten_cons,
        List.flatten_nil, List.append_nil]
      rw [Nat.succ_mul, List.take_add]

theorem flatten_chunks {α : Type*} {n : ℕ} (hn : 0 < n) (xs : List α) :
    (chunks n xs).flatten = xs := by
  have hall : xs.length ≤ (xs.length + n - 1) / n * n := by
    have hdiv := Nat.lt_div_mul_add hn (a := xs.length + n - 1)
    omega
  rw [chunks, flatten_map_range_take]
  exact List.take_of_length_le hall

/-- A record batch with the checkpoint messages in its schema metadata. -/
structure RecordBatch (ρ : Type*) where
  rows : List ρ
  messages : List CheckpointMessage := []
  deriving DecidableEq

namespace RecordBatch

variable {ρ : Type*}

/-- Whether the batch carries the marker of `epoch`. -/
def carries (epoch : CheckpointEpoch) (batch : RecordBatch ρ) : Bool :=
  decide (epoch ∈ markerEpochs batch.messages)

/-- Some batch of the stream carries the marker of `epoch`. -/
def Carried (epoch : CheckpointEpoch) (stream : List (RecordBatch ρ)) :
    Prop :=
  ∃ batch ∈ stream, batch.carries epoch = true

instance (epoch : CheckpointEpoch) (stream : List (RecordBatch ρ)) :
    Decidable (Carried epoch stream) :=
  inferInstanceAs (Decidable (∃ batch ∈ stream, _))

/-- The batches after the first one that carries the marker of `epoch`. -/
def afterMarker (epoch : CheckpointEpoch)
    (stream : List (RecordBatch ρ)) : List (RecordBatch ρ) :=
  (stream.dropWhile fun batch => !batch.carries epoch).tail

/-- A stream in which the marker already appeared only grows behind it. -/
theorem afterMarker_append
    {epoch : CheckpointEpoch} {stream : List (RecordBatch ρ)}
    (h : Carried epoch stream) (more : List (RecordBatch ρ)) :
    afterMarker epoch (stream ++ more) =
      afterMarker epoch stream ++ more := by
  induction stream with
  | nil => simp [Carried] at h
  | cons batch stream ih =>
      by_cases hb : batch.carries epoch = true
      · simp [afterMarker, hb]
      · have hrest : Carried epoch stream := by
          obtain ⟨b, hmem, hcarries⟩ := h
          rcases List.mem_cons.mp hmem with rfl | hmem
          · exact absurd hcarries hb
          · exact ⟨b, hmem, hcarries⟩
        simpa [afterMarker, hb] using ih hrest

theorem Carried.append
    {epoch : CheckpointEpoch} {stream : List (RecordBatch ρ)}
    (h : Carried epoch stream) (more : List (RecordBatch ρ)) :
    Carried epoch (stream ++ more) := by
  obtain ⟨batch, hmem, hcarries⟩ := h
  exact ⟨batch, List.mem_append_left _ hmem, hcarries⟩

end RecordBatch

end Streamling
