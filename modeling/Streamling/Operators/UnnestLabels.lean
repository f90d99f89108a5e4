import Mathlib
import Streamling.Operators.UnnestBatch

/-!
# The labels of unnested columns

The fields of the output batch are put together anew for each batch.  The
columns of a flattened struct keep the labels they have in the struct; any
other column is labelled by the plan's field whose number is that of the
column before the structs are flattened, not after.
-/

namespace Streamling

namespace Unnest

open ArrowCells ExceptLists

section Labels

variable {κ α : Type} {kernels : Kernels κ α} {preserveNulls : Bool}
  {unnests : List ListUnnest} {shapes : List Shape}
  {structColumns : Finset ℕ}

/-- How many columns a collected column gives. -/
def partWidth (structColumns : Finset ℕ) (shapes : List Shape)
    (entry : Key × ℕ) : ℕ :=
  if entry.2 ∈ structColumns then (keyShape shapes entry.1).width else 1

def partWidths (unnests : List ListUnnest) (structColumns : Finset ℕ)
    (shapes : List Shape) : List ℕ :=
  (collectKeys unnests shapes.length).zipIdx.map
    (partWidth structColumns shapes)

/-- Where the columns of collected column `j` start in the output. -/
def outputIndex (unnests : List ListUnnest) (structColumns : Finset ℕ)
    (shapes : List Shape) (j : ℕ) : ℕ :=
  ((partWidths unnests structColumns shapes).take j).sum

/-- The labels of one part: those of the plan or those of the struct. -/
structure LabelledPart (schema : List FieldLabel) (structColumns : Finset ℕ)
    (shapes : List Shape) (entry : Key × ℕ) (part : List (FieldLabel × κ)) :
    Prop where
  length_eq : part.length = partWidth structColumns shapes entry
  label_eq : entry.2 ∉ structColumns →
    part.head?.map Prod.fst = schema[entry.2]?

theorem Collected.labelledPart
    (lawful : kernels.Lawful) {n idx : ℕ} {batch : List κ}
    {temps : TempArrays κ} {schema : List FieldLabel} {key : Key}
    {array : κ} {part : List (FieldLabel × κ)}
    (hkey : Collected kernels shapes n batch temps key array)
    (h : structPart kernels schema structColumns idx array = .ok part) :
    LabelledPart schema structColumns shapes (key, idx) part := by
  unfold structPart at h
  by_cases hstruct : idx ∈ structColumns
  · rw [if_pos hstruct] at h
    cases hcolumns : kernels.structs array with
    | none =>
        rw [hcolumns] at h
        cases h
    | some columns =>
        rw [hcolumns] at h
        obtain rfl := Except.ok.inj h
        refine ⟨?_, fun hnot => absurd hstruct hnot⟩
        rw [partWidth, if_pos hstruct, hkey.shape_eq,
          lawful.structs_shape hcolumns, Shape.width, List.length_map]
  · rw [if_neg hstruct] at h
    cases hlabel : schema[idx]? with
    | none =>
        rw [hlabel] at h
        cases h
    | some label =>
        rw [hlabel] at h
        obtain rfl := Except.ok.inj h
        refine ⟨?_, fun _ => hlabel.symm⟩
        rw [partWidth, if_neg hstruct]
        rfl

/-- The head of part `j` of a concatenation. -/
theorem getElem?_flatten_sum
    {β : Type} {parts : List (List β)} {j : ℕ} {x : β} {part : List β}
    (hpart : parts[j]? = some part) (hx : part.head? = some x) :
    parts.flatten[((parts.map List.length).take j).sum]? = some x := by
  have hdrop := List.drop_sum_flatten parts j
  have hhead := congrArg List.head? hdrop
  rw [List.head?_drop] at hhead
  rw [hhead]
  obtain ⟨hj, rfl⟩ := List.getElem?_eq_some_iff.mp hpart
  rw [List.drop_eq_getElem_cons hj, List.flatten_cons,
    List.head?_append, hx]
  rfl

/-- The fields of the batch that is put together at the end. -/
theorem Stage.fields
    (lawful : kernels.Lawful) {n : ℕ} {batch : List κ}
    {temps : TempArrays κ} {schema : List FieldLabel} {out : Batch kernels}
    (hstage : Stage kernels unnests shapes 0 n batch temps)
    (h : flattenStructCols kernels schema structColumns
      (collectColumns unnests batch temps) = .ok out) :
    out.fields.length = (partWidths unnests structColumns shapes).sum ∧
      ∀ j < (collectKeys unnests shapes.length).length,
        j ∉ structColumns →
        out.fields[outputIndex unnests structColumns shapes j]? =
          schema[j]? ∧ schema[j]?.isSome = true := by
  unfold flattenStructCols at h
  cases hparts : ((collectColumns unnests batch temps).zipIdx.mapM
      fun entry => structPart kernels schema structColumns entry.2
        entry.1) with
  | error e =>
      rw [hparts] at h
      cases h
  | ok parts =>
      rw [hparts] at h
      obtain ⟨hfields, -, -⟩ := Batch.of_tryNew h
      have hlabelled : List.Forall₂
          (LabelledPart schema structColumns shapes)
          (collectKeys unnests shapes.length).zipIdx parts := by
        refine forall₂_comp_of_mem (forall₂_zipIdx hstage.collected 0)
          (mapM_eq_ok_iff.mp hparts) ?_
        rintro ⟨key, j⟩ - ⟨array, j'⟩ part ⟨rfl, hkey⟩ hpart
        exact hkey.labelledPart lawful hpart
      have hwidths : parts.map List.length =
          partWidths unnests structColumns shapes :=
        (map_eq_map_of_forall₂ hlabelled
          fun entry part hpart => hpart.length_eq.symm).symm
      refine ⟨?_, fun j hj hnot => ?_⟩
      · rw [hfields, List.length_map, List.length_flatten, hwidths]
      · have hentry : (collectKeys unnests shapes.length).zipIdx[j]? =
            some ((collectKeys unnests shapes.length)[j], j) := by
          simp [hj]
        obtain ⟨part, hpart, hlabel⟩ :=
          exists_getElem?_of_forall₂ hlabelled hentry
        have hlength := hlabel.length_eq
        have hhead := hlabel.label_eq hnot
        rw [partWidth, if_neg hnot] at hlength
        cases part with
        | nil => cases hlength
        | cons first rest =>
            have hfirst : some first.1 = schema[j]? := hhead
            refine ⟨?_, by rw [← hfirst]; rfl⟩
            rw [hfields, List.getElem?_map, outputIndex, ← hwidths,
              getElem?_flatten_sum hpart rfl, ← hfirst]
            rfl

/-- A column that is no struct has the label that the plan gives to its number
before the structs are flattened.  In a plan whose fields differ, these are the
labels of the plan exactly if the structs flattened before each column give as
many columns as there are structs. -/
theorem buildBatch_labels_iff
    (lawful : kernels.Lawful) (schema : List FieldLabel)
    (hnodup : schema.Nodup) (unnests : List ListUnnest)
    (structColumns : Finset ℕ) (batch : Batch kernels)
    (htyped : WellTyped unnests batch.shapes)
    (hplan : schema.length =
      (partWidths unnests structColumns batch.shapes).sum)
    {out : Batch kernels}
    (h : buildBatch kernels preserveNulls schema unnests structColumns
      batch = .ok (some out)) :
    out.fields.length = schema.length ∧
      (∀ j < (collectKeys unnests batch.shapes.length).length,
        j ∉ structColumns →
        out.fields[outputIndex unnests structColumns batch.shapes j]? =
          schema[j]?) ∧
      ((∀ j < (collectKeys unnests batch.shapes.length).length,
          j ∉ structColumns →
          out.fields[outputIndex unnests structColumns batch.shapes j]? =
            schema[outputIndex unnests structColumns batch.shapes j]?) ↔
        ∀ j < (collectKeys unnests batch.shapes.length).length,
          j ∉ structColumns →
          outputIndex unnests structColumns batch.shapes j = j) := by
  cases built_of_ok lawful htyped h with
  | batch hstage _ hout =>
      obtain ⟨hlength, hlabels⟩ := hstage.fields lawful hout
      refine ⟨hlength.trans hplan.symm,
        fun j hj hnot => (hlabels j hj hnot).1, ?_⟩
      constructor
      · intro hsame j hj hnot
        obtain ⟨hlabel, hsome⟩ := hlabels j hj hnot
        have heq := hlabel.symm.trans (hsame j hj hnot)
        obtain ⟨label, hj'⟩ := Option.isSome_iff_exists.mp hsome
        rw [hj'] at heq
        have hlt := (List.getElem?_eq_some_iff.mp hj').1
        exact ((List.getElem?_inj hlt hnodup).mp (hj'.trans heq)).symm
      · intro hsame j hj hnot
        rw [(hlabels j hj hnot).1, hsame j hj hnot]

end Labels

end Unnest

end Streamling
