import Streamling.Sources.HybridColumns

/-!
# When the schema check and the normalizer agree

A column that the check accepts is left in the form of its target, with the
values it had, with three exceptions.  The check descends into fixed-size lists
and the normalizer does not; neither of them compares what two leaves of one
type declare about their encoding; and the check does not look at the
nullability of the columns themselves, which the batch is checked for once a
column is rebuilt.
-/

namespace Streamling

namespace HybridSchema

open Arrow

section Conversion

variable {parse : String → Option BigDecimal}

/-! ## Batches -/

theorem exists_of_validateFields
    {bounded us : List ArrowField} (h : validateFields bounded us = .ok ())
    {u : ArrowField} (hu : u ∈ us) :
    ∃ b ∈ bounded, b.name = u.name ∧ isCompatibleColumn b u := by
  induction us with
  | nil => simp at hu
  | cons v us ih =>
      unfold validateFields at h
      split at h
      case h_2 => cases h
      case h_1 b hfind =>
        split_ifs at h with hcompatible
        rcases List.mem_cons.mp hu with rfl | hu
        · exact ⟨b, List.mem_of_find?_eq_some hfind,
            by simpa using List.find?_some hfind, hcompatible⟩
        · exact ih h hu

/-- The check accepts every pair of columns of one name. -/
theorem isCompatibleColumn_of_validateSchemas
    {bounded targets : List ArrowField}
    (h : validateSchemas bounded targets = .ok ())
    (hnodup : (bounded.map ArrowField.name).Nodup) {source t : ArrowField}
    (hsource : source ∈ bounded) (ht : t ∈ targets)
    (hname : t.name = source.name) (hop : source.name ≠ COLUMN_NAME_OP) :
    isCompatibleColumn source t := by
  have hdata : t ∈ targets.filter fun f => f.name ≠ COLUMN_NAME_OP :=
    List.mem_filter.mpr ⟨ht, by simpa [hname] using hop⟩
  obtain ⟨b, hb, hbname, hcompatible⟩ := exists_of_validateFields h hdata
  obtain rfl : b = source :=
    List.inj_on_of_nodup_map hnodup (List.mem_of_mem_filter hb) hsource
      (hbname.trans hname)
  exact hcompatible

theorem targetByName_eq_some
    {targets : List ArrowField} (hnodup : (targets.map ArrowField.name).Nodup)
    {t : ArrowField} (ht : t ∈ targets) :
    targetByName targets t.name = some t := by
  unfold targetByName
  cases hfind : targets.reverse.find? fun target => target.name = t.name with
  | none =>
      have hnone := List.find?_eq_none.mp hfind t (List.mem_reverse.mpr ht)
      simp at hnone
  | some found =>
      have hname : found.name = t.name := by simpa using List.find?_some hfind
      have hmem := List.mem_reverse.mp (List.mem_of_find?_eq_some hfind)
      rw [List.inj_on_of_nodup_map hnodup hmem ht hname]

theorem targetByName_eq_none
    {targets : List ArrowField} {name : String}
    (h : ∀ t ∈ targets, t.name ≠ name) : targetByName targets name = none := by
  unfold targetByName
  rw [List.find?_eq_none]
  intro t ht
  simpa using h t (List.mem_reverse.mp ht)

/-- What becomes of a column. -/
def Left (parse : String → Option BigDecimal) (targets : List ArrowField)
    (c left : Column × ArrowField) : Prop :=
  ∃ converted, convertColumn parse targets c = .ok converted ∧
    left = converted.getD c

theorem normalizeColumns_eq_ok
    {targets : List ArrowField} {batch columns : List (Column × ArrowField)}
    {changed : Bool}
    (h : normalizeColumns parse targets batch = .ok (changed, columns)) :
    List.Forall₂ (Left parse targets) batch columns ∧
      (changed = true ↔ ∃ c ∈ batch, ∃ child,
        convertColumn parse targets c = .ok (some child)) := by
  induction batch generalizing changed columns with
  | nil =>
      rw [normalizeColumns] at h
      obtain ⟨rfl, rfl⟩ := Prod.mk.inj (Except.ok.inj h)
      exact ⟨.nil, by simp⟩
  | cons c batch ih =>
      simp only [normalizeColumns, bind, Except.bind, pure, Except.pure] at h
      split at h
      case h_1 => cases h
      case h_2 converted hconverted =>
        split at h
        case h_1 => cases h
        case h_2 pair hrest =>
          obtain ⟨hcolumns, hchanged⟩ := ih hrest
          cases converted with
          | some child =>
              obtain ⟨rfl, rfl⟩ := Prod.mk.inj (Except.ok.inj h)
              exact ⟨.cons ⟨_, hconverted, rfl⟩ hcolumns,
                iff_of_true rfl ⟨c, List.mem_cons_self, child, hconverted⟩⟩
          | none =>
              obtain ⟨rfl, rfl⟩ := Prod.mk.inj (Except.ok.inj h)
              exact ⟨.cons ⟨_, hconverted, rfl⟩ hcolumns,
                by simp [hchanged, hconverted]⟩

theorem exists_normalizeColumns
    {targets : List ArrowField} {batch : List (Column × ArrowField)}
    (h : ∀ c ∈ batch, ∃ converted,
      convertColumn parse targets c = .ok converted) :
    ∃ changed columns,
      normalizeColumns parse targets batch = .ok (changed, columns) := by
  induction batch with
  | nil => exact ⟨false, [], by rw [normalizeColumns]⟩
  | cons c batch ih =>
      obtain ⟨converted, hconverted⟩ := h c List.mem_cons_self
      obtain ⟨changed, columns, hrest⟩ :=
        ih fun other hother => h other (List.mem_cons_of_mem _ hother)
      simp only [normalizeColumns, hconverted, hrest, bind, Except.bind, pure,
        Except.pure]
      cases converted with
      | none => exact ⟨_, _, rfl⟩
      | some child => exact ⟨_, _, rfl⟩

/-- If no column is rebuilt, the columns are those of the batch. -/
theorem eq_of_left
    {targets : List ArrowField} {batch columns : List (Column × ArrowField)}
    (hcolumns : List.Forall₂ (Left parse targets) batch columns)
    (hnone : ∀ c ∈ batch, ∀ child,
      convertColumn parse targets c ≠ .ok (some child)) :
    columns = batch := by
  induction hcolumns with
  | nil => rfl
  | cons hleft _ ih =>
      rename_i c left batch columns _
      obtain ⟨converted, hconverted, rfl⟩ := hleft
      rw [ih fun other hother => hnone other (List.mem_cons_of_mem _ hother)]
      cases converted with
      | none => rfl
      | some child =>
          exact absurd hconverted (hnone c List.mem_cons_self child)

theorem eq_of_recordBatchTryNew
    {columns out : List (Column × ArrowField)}
    (h : recordBatchTryNew columns = .ok out) :
    out = columns ∧ ∀ c ∈ columns, c.2.nullable ∨ false ∉ c.1.validity := by
  unfold recordBatchTryNew at h
  split at h
  case h_1 => cases h
  case h_2 hfind =>
    dsimp only at h
    split_ifs at h
    refine ⟨(Except.ok.inj h).symm, fun c hc => ?_⟩
    have hgood := List.find?_eq_none.mp hfind c hc
    simpa only [Bool.and_eq_true, Bool.not_eq_true', List.contains_iff_mem,
      not_and_or, Bool.not_eq_false] using hgood

theorem recordBatchTryNew_eq_ok
    {columns : List (Column × ArrowField)} {rows : ℕ}
    (hrows : ∀ c ∈ columns, c.1.validity.length = rows)
    (hnulls : ∀ c ∈ columns, c.2.nullable ∨ false ∉ c.1.validity) :
    recordBatchTryNew columns = .ok columns := by
  have hlengths : (columns.all fun c => some c.1.validity.length =
      columns.head?.map fun c => c.1.validity.length) = true := by
    cases columns with
    | nil => rfl
    | cons first rest =>
        simp only [List.all_eq_true, List.head?_cons, Option.map_some,
          decide_eq_true_eq, Option.some.injEq]
        intro c hc
        rw [hrows c hc, hrows first List.mem_cons_self]
  have hfind : (columns.find? fun c =>
      !c.2.nullable && c.1.validity.contains false) = none := by
    rw [List.find?_eq_none]
    intro c hc
    simpa only [Bool.and_eq_true, Bool.not_eq_true', List.contains_iff_mem,
      not_and_or, Bool.not_eq_false] using hnulls c hc
  simp only [recordBatchTryNew, hfind, hlengths, if_true]

end Conversion

/-! ## Agreement -/

/-- A batch of columns of the bounded schema. -/
structure IsBatch (bounded : List ArrowField) (rows : ℕ)
    (batch : List (Column × ArrowField)) : Prop where
  fields : ∀ c ∈ batch, c.2 ∈ bounded ∧ c.2.name ≠ COLUMN_NAME_OP
  ofType : ∀ c ∈ batch, OfType c.2.dataType c.1
  rows : ∀ c ∈ batch, c.1.validity.length = rows
  nulls : ∀ c ∈ batch, c.2.nullable ∨ false ∉ c.1.validity

/-- A column in the form of its target, with the values it had. -/
structure NormalizedColumn (parse : String → Option BigDecimal)
    (targets : List ArrowField) (c left : Column × ArrowField) : Prop where
  name : left.2.name = c.2.name
  form : ∀ t ∈ targets, t.name = c.2.name → Form left.2 t
  reads : ∀ t ∈ targets, t.name = c.2.name → Reads parse c.2 c.1 left.1 t
  same : (∀ t ∈ targets, t.name ≠ c.2.name) → left = c

/-- The normalizer succeeds, and every column it leaves in the batch has the
form of its target and the values of the column it was given. -/
def Normalizes (parse : String → Option BigDecimal)
    (batch : List (Column × ArrowField)) (targets : List ArrowField) : Prop :=
  ∃ out, normalizeBatchFromClickhouse parse batch targets = .ok out ∧
    List.Forall₂ (NormalizedColumn parse targets) batch out

section Agreement

variable {parse : String → Option BigDecimal}
variable {bounded targets : List ArrowField} {rows : ℕ}
variable {batch : List (Column × ArrowField)}
variable (hvalid : validateSchemas bounded targets = .ok ())
variable (hbounded : (bounded.map ArrowField.name).Nodup)
variable (htargets : (targets.map ArrowField.name).Nodup)
variable (hnames : ∀ t ∈ targets, DistinctNames t)
variable (hbatch : IsBatch bounded rows batch)
variable (hfits : ∀ c ∈ batch, ∀ t ∈ targets, t.name = c.2.name →
  Fits parse c.2 c.1 t)

include hvalid hbounded htargets hnames hbatch hfits

/-- A covered column is converted. -/
theorem exists_converted
    {c : Column × ArrowField} (hc : c ∈ batch) {t : ArrowField}
    (ht : t ∈ targets) (hname : t.name = c.2.name)
    (hcovers : NormalizerCovers c.2 c.1 t) :
    ∃ converted, convertColumn parse targets c = .ok converted ∧
      Converted parse c.2 t c.1 converted ∧
      (converted.isSome ↔ NeedsConversion c.2 t) := by
  obtain ⟨hmem, hop⟩ := hbatch.fields c hc
  have hcompatible := isCompatibleColumn_of_validateSchemas hvalid hbounded
    hmem ht hname hop
  obtain ⟨converted, hout, hconverted⟩ :=
    clickhouseColumnToTarget_spec t hcompatible (hnames t ht) hcovers
      (hbatch.ofType c hc) (hfits c hc t ht hname)
  refine ⟨converted, ?_, hconverted, isSome_iff_needsConversion t hcompatible
    (hnames t ht) (hbatch.ofType c hc) hout⟩
  rw [convertColumn, ← hname, targetByName_eq_some htargets ht]
  exact hout

omit hfits in
/-- A column that is left normalized was covered. -/
theorem normalizerCovers_of_left
    {c left : Column × ArrowField} (hc : c ∈ batch) {t : ArrowField}
    (ht : t ∈ targets) (hname : t.name = c.2.name)
    (hleft : Left parse targets c left)
    (hnormalized : NormalizedColumn parse targets c left) :
    NormalizerCovers c.2 c.1 t := by
  obtain ⟨hmem, hop⟩ := hbatch.fields c hc
  have hcompatible := isCompatibleColumn_of_validateSchemas hvalid hbounded
    hmem ht hname hop
  obtain ⟨converted, hout, rfl⟩ := hleft
  rw [convertColumn, ← hname, targetByName_eq_some htargets ht] at hout
  exact normalizerCovers_of_normalized t hcompatible (hnames t ht)
    (hbatch.ofType c hc) hout (hnormalized.form t ht hname)
    (hnormalized.reads t ht hname)

/-- A covered column is left normalized, and the batch may hold it. -/
theorem exists_left
    {c : Column × ArrowField} (hc : c ∈ batch)
    (hcovers : ∀ t ∈ targets, t.name = c.2.name →
      NormalizerCovers c.2 c.1 t ∧ NullsAllowed c.2 c.1 t) :
    ∃ converted, convertColumn parse targets c = .ok converted ∧
      NormalizedColumn parse targets c (converted.getD c) ∧
      (converted.getD c).1.validity.length = rows ∧
      ((converted.getD c).2.nullable ∨
        false ∉ (converted.getD c).1.validity) := by
  by_cases hmatch : ∃ t ∈ targets, t.name = c.2.name
  · obtain ⟨t, ht, hname⟩ := hmatch
    obtain ⟨hcovered, hallowed⟩ := hcovers t ht hname
    obtain ⟨converted, hout, hconverted, hrebuilt⟩ :=
      exists_converted hvalid hbounded htargets hnames hbatch hfits hc ht
        hname hcovered
    have honly : ∀ u ∈ targets, u.name = c.2.name → u = t := fun u hu huname =>
      List.inj_on_of_nodup_map htargets hu ht (huname.trans hname.symm)
    refine ⟨converted, hout, ⟨?_, ?_, ?_, ?_⟩, ?_, ?_⟩
    · cases converted with
      | none => rfl
      | some child => exact (hconverted.adopts child rfl).1.trans hname
    · intro u hu huname
      rw [honly u hu huname]
      exact hconverted.form
    · intro u hu huname
      rw [honly u hu huname]
      exact hconverted.reads
    · exact fun hnone => absurd hname (hnone t ht)
    · rw [hconverted.validity]
      exact hbatch.rows c hc
    · rw [hconverted.validity]
      cases converted with
      | none => exact hbatch.nulls c hc
      | some child =>
          rw [Option.getD_some, (hconverted.adopts child rfl).2]
          exact hallowed (hrebuilt.mp rfl)
  · have hnone : ∀ t ∈ targets, t.name ≠ c.2.name := fun t ht hname =>
      hmatch ⟨t, ht, hname⟩
    refine ⟨none, ?_, ⟨rfl, ?_, ?_, fun _ => rfl⟩, hbatch.rows c hc,
      hbatch.nulls c hc⟩
    · rw [convertColumn, targetByName_eq_none hnone]
    · exact fun t ht hname => absurd hname (hnone t ht)
    · exact fun t ht hname => absurd hname (hnone t ht)

/-- What is left normalized was covered, and has no null that its target
forbids. -/
theorem Normalizes.covers
    (h : Normalizes parse batch targets) {c : Column × ArrowField}
    (hc : c ∈ batch) {t : ArrowField} (ht : t ∈ targets)
    (hname : t.name = c.2.name) :
    NormalizerCovers c.2 c.1 t ∧ NullsAllowed c.2 c.1 t := by
  obtain ⟨out, hout, hnormalized⟩ := h
  simp only [normalizeBatchFromClickhouse, bind, Except.bind, pure,
    Except.pure] at hout
  split at hout
  case h_1 => cases hout
  case h_2 pair hcolumns =>
    obtain ⟨hleft, hchanged⟩ := normalizeColumns_eq_ok hcolumns
    obtain ⟨hsame, hnulls⟩ : out = pair.2 ∧ (pair.1 = true →
        ∀ c ∈ pair.2, c.2.nullable ∨ false ∉ c.1.validity) := by
      split_ifs at hout with hrebuilt
      · obtain ⟨hsame, hnulls⟩ := eq_of_recordBatchTryNew hout
        exact ⟨hsame, fun _ => hnulls⟩
      · rw [← Except.ok.inj hout]
        refine ⟨(eq_of_left hleft fun c hc child hchild => ?_).symm,
          fun h => absurd h hrebuilt⟩
        exact hrebuilt (hchanged.mpr ⟨c, hc, child, hchild⟩)
    subst hsame
    have hboth : List.Forall₂ (fun c left => Left parse targets c left ∧
        NormalizedColumn parse targets c left) batch pair.2 :=
      List.Forall₂.mp (fun _ _ => And.intro) hleft hnormalized
    obtain ⟨left, hmem, hleft, hnormalized⟩ :=
      ExceptLists.exists_of_mem_right hboth.flip hc
    have hcovers := normalizerCovers_of_left hvalid hbounded htargets hnames
      hbatch hc ht hname hleft hnormalized
    refine ⟨hcovers, fun hneeds => ?_⟩
    obtain ⟨converted, hout, hconverted, hrebuilt⟩ :=
      exists_converted hvalid hbounded htargets hnames hbatch hfits hc ht
        hname hcovers
    obtain ⟨child, rfl⟩ := Option.isSome_iff_exists.mp (hrebuilt.mpr hneeds)
    obtain ⟨converted, hout', rfl⟩ := hleft
    obtain rfl := Except.ok.inj (hout.symm.trans hout')
    have hnull :=
      hnulls (hchanged.mpr ⟨c, hc, child, hout⟩) child hmem
    have hvalidity := hconverted.validity
    rw [Option.getD_some] at hvalidity
    rwa [(hconverted.adopts child rfl).2, hvalidity] at hnull

/-- Covered columns are left normalized. -/
theorem normalizes_of_covers
    (hcovers : ∀ c ∈ batch, ∀ t ∈ targets, t.name = c.2.name →
      NormalizerCovers c.2 c.1 t ∧ NullsAllowed c.2 c.1 t) :
    Normalizes parse batch targets := by
  have hspec := fun c hc => exists_left hvalid hbounded htargets hnames
    hbatch hfits hc (hcovers c hc)
  obtain ⟨changed, columns, hcolumns⟩ :=
    exists_normalizeColumns fun c hc =>
      (hspec c hc).imp fun _ h => h.1
  obtain ⟨hleft, hchanged⟩ := normalizeColumns_eq_ok hcolumns
  have hall : List.Forall₂ (fun c left =>
      NormalizedColumn parse targets c left ∧
        left.1.validity.length = rows ∧
        (left.2.nullable ∨ false ∉ left.1.validity)) batch columns := by
    refine ((List.forall₂_and_left _ _).mpr
      ⟨fun c hc => hspec c hc, hleft⟩).imp ?_
    rintro c left ⟨⟨converted, hout, hnormalized⟩, other, hother, rfl⟩
    obtain rfl := Except.ok.inj (hout.symm.trans hother)
    exact hnormalized
  have hnormalized := hall.imp fun _ _ h => h.1
  simp only [Normalizes, normalizeBatchFromClickhouse, hcolumns, bind,
    Except.bind, pure, Except.pure]
  split_ifs with hrebuilt
  · have hrows : ∀ left ∈ columns, left.1.validity.length = rows := by
      intro left hmem
      obtain ⟨c, -, h⟩ := ExceptLists.exists_of_mem_right hall hmem
      exact h.2.1
    refine ⟨columns, recordBatchTryNew_eq_ok hrows ?_, hnormalized⟩
    · intro left hmem
      obtain ⟨c, -, h⟩ := ExceptLists.exists_of_mem_right hall hmem
      exact h.2.2
  · have hsame : columns = batch := eq_of_left hleft fun c hc child hchild =>
      hrebuilt (hchanged.mpr ⟨c, hc, child, hchild⟩)
    exact ⟨batch, rfl, hsame ▸ hnormalized⟩

/-- A batch of columns that the check accepts and whose values fit the targets
is normalized exactly if fixed-size lists hold nothing to convert or reorder,
leaves that declare their encoding declare that of the target, and no column
to be rebuilt has a null where the target is required. -/
theorem hybrid_check_and_normalizer_agree_iff :
    Normalizes parse batch targets ↔
      ∀ c ∈ batch, ∀ t ∈ targets, t.name = c.2.name →
        NormalizerCovers c.2 c.1 t ∧ NullsAllowed c.2 c.1 t := by
  constructor
  · exact fun h c hc t ht hname =>
      h.covers hvalid hbounded htargets hnames hbatch hfits hc ht hname
  · exact normalizes_of_covers hvalid hbounded htargets hnames hbatch hfits

end Agreement

/-- A field without metadata. -/
def plainField (name : String) (type : DataType) : ArrowField :=
  .mk name true .empty type

/-- A `decimal_arb(78, 0)` field. -/
def wideField (name : String) : ArrowField :=
  .mk name true ⟨.decimalArb ⟨78, 0, by decide⟩, none, []⟩
    (.leaf .largeBinary)

/-- The text `7` is a number. -/
def parseSeven (text : String) : Option BigDecimal :=
  if text = "7" then some ⟨7, 0⟩ else none

/-- Lists of decimal text become lists of `decimal_arb` values. -/
theorem hybrid_normalizes_lists_of_text :
    validateSchemas
        [plainField "id" (.leaf .utf8),
          plainField "v" (.list (plainField "item" (.leaf .utf8)))]
        [plainField "v" (.list (wideField "element"))] = .ok () ∧
      Normalizes parseSeven
        [(.list [0, 2] [true] (.leaf [some (.text "7"), none]),
          plainField "v" (.list (plainField "item" (.leaf .utf8))))]
        [plainField "v" (.list (wideField "element"))] := by
  have hvalid : validateSchemas
      [plainField "id" (.leaf .utf8),
        plainField "v" (.list (plainField "item" (.leaf .utf8)))]
      [plainField "v" (.list (wideField "element"))] = .ok () := by decide
  have hbatch : IsBatch
      [plainField "id" (.leaf .utf8),
        plainField "v" (.list (plainField "item" (.leaf .utf8)))] 1
      [(.list [0, 2] [true] (.leaf [some (.text "7"), none]),
        plainField "v" (.list (plainField "item" (.leaf .utf8))))] := by
    constructor
    · simp [plainField, ArrowField.name, COLUMN_NAME_OP]
    · simp only [List.mem_singleton, forall_eq]
      refine .list (.leaf ?_) ?_
      · simp [Cell.OfType]
      · decide
    · simp [Arrow.Column.validity]
    · simp [plainField, ArrowField.nullable]
  refine ⟨hvalid, ?_⟩
  apply (hybrid_check_and_normalizer_agree_iff hvalid (by decide) (by decide)
    ?_ hbatch ?_).mpr
  · simp only [List.mem_singleton, forall_eq]
    refine fun _ => ⟨⟨⟨?_, ?_⟩, ?_⟩, fun _ => .inl rfl⟩
    · simp [plainField, ArrowField.dataType]
    · simp [plainField, ArrowField.legacyWideIntKind, ArrowField.dataType]
    · simp [plainField, SameNumbers, ArrowField.legacyWideIntKind,
        ArrowField.dataType]
  · simp [plainField, wideField, DistinctNames]
  · simp only [List.mem_singleton, forall_eq, plainField, wideField, Fits,
      ArrowField.dataType]
    rintro - _ hcell c rfl
    obtain rfl : c = .text "7" := by simpa using hcell
    exact ⟨⟨7, 0⟩, by decide, by decide⟩

/-- The check accepts a fixed-size list of decimal text for one of
`decimal_arb` values, and the text is left in the batch. -/
theorem hybrid_leaves_text_in_fixed_size_lists :
    ¬ ∀ (parse : String → Option BigDecimal)
      (bounded targets : List ArrowField),
      validateSchemas bounded targets = .ok () →
      ∀ rows batch, IsBatch bounded rows batch →
        (∀ c ∈ batch, ∀ t ∈ targets, t.name = c.2.name →
          Fits parse c.2 c.1 t) →
        Normalizes parse batch targets := by
  intro h
  obtain ⟨out, hnormalize, hnormalized⟩ :=
    h parseSeven
      [plainField "v" (.fixedSizeList (plainField "item" (.leaf .utf8)) 1)]
      [plainField "v" (.fixedSizeList (wideField "item") 1)] (by decide) 1
      [(.fixedSizeList [true] (.leaf [some (.text "7")]),
        plainField "v" (.fixedSizeList (plainField "item" (.leaf .utf8)) 1))]
      (by
        constructor
        · simp [plainField, ArrowField.name, COLUMN_NAME_OP]
        · simp only [List.mem_singleton, forall_eq]
          exact .fixedSizeList (.leaf (by simp [Cell.OfType]))
            (by decide) (by decide)
        · simp [Arrow.Column.validity]
        · simp [plainField, ArrowField.nullable])
      (by
        simp only [List.mem_singleton, forall_eq, plainField, wideField, Fits,
          ArrowField.dataType]
        rintro - c hcell
        obtain rfl : .text "7" = c := by simpa using hcell
        exact ⟨⟨7, 0⟩, by decide, by decide⟩)
  obtain rfl := Except.ok.inj hnormalize
  obtain ⟨hleft, -⟩ := List.forall₂_cons.mp hnormalized
  have hform := hleft.form _ (List.mem_singleton_self _) rfl
  simp [plainField, wideField, Form, ArrowField.dataType] at hform

end HybridSchema

end Streamling
