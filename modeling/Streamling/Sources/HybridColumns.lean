import Streamling.Sources.HybridForm
import Streamling.Support.ExceptLists

/-!
# The columns that the normalizer rebuilds

The conversion of a column follows the two type trees.  A column that the
check accepts and whose types the normalizer covers is left in the form of its
target with the values it had; a column that is left so was covered; and
whether it is rebuilt can be told from the types.
-/

namespace Streamling

namespace HybridSchema

open Arrow

section Conversion

variable {parse : String → Option BigDecimal}

/-! ## The check on trees -/

theorem isCompatibleField_iff (source target : ArrowField) :
    isCompatibleField source target ↔
      (source.nullable → target.nullable) ∧
        isCompatibleColumn source target := by
  cases target with
  | mk name nullable metadata dataType =>
      have hnullable : (!source.nullable || nullable) = true ↔
          (source.nullable = true → nullable = true) := by
        cases source.nullable <;> simp
      rw [isCompatibleField, Bool.and_eq_true, hnullable]
      rfl

theorem isCompatibleField_self (field : ArrowField) :
    isCompatibleField field field := by
  rw [isCompatibleField_iff]
  refine ⟨id, ?_⟩
  unfold isCompatibleColumn
  rw [Bool.or_eq_true]
  left
  cases field.dataType <;> simp [isCompatibleDataType]

/-- Only leaves are `decimal_arb`. -/
theorem isCompatibleColumn_iff_of_not_leaf
    {source target : ArrowField} (h : ∀ type, target.dataType ≠ .leaf type) :
    isCompatibleColumn source target ↔
      isCompatibleDataType source.dataType target.dataType := by
  have harb : target.isDecimalArbField = false := by
    cases harb : target.decimalArb with
    | none => rw [ArrowField.isDecimalArbField, harb]; rfl
    | some decimal => exact absurd (decimalArb_eq_some harb) (h _)
  simp [isCompatibleColumn, clickhouseReadsAsDecimalArb, harb]

/-- A type of lists.  Columns of lists with 32-bit and with 64-bit offsets are
alike. -/
def IsListType (wrap : ArrowField → DataType) : Prop :=
  wrap = .list ∨ wrap = .largeList

section Check

variable {source : ArrowField} {name : String} {nullable : Bool}
variable {metadata : Metadata} {t : ArrowField}

theorem isCompatibleColumn_list
    {wrap : ArrowField → DataType} (hwrap : IsListType wrap)
    (h : isCompatibleColumn source (.mk name nullable metadata (wrap t))) :
    ∃ s, source.dataType = wrap s ∧ isCompatibleField s t := by
  rcases hwrap with rfl | rfl
  all_goals
    rw [isCompatibleColumn_iff_of_not_leaf
      (by simp [ArrowField.dataType])] at h
    simp only [ArrowField.dataType, isCompatibleDataType, Bool.or_eq_true,
      decide_eq_true_eq] at h
    rcases h with hequal | hmatch
    · exact ⟨t, hequal, isCompatibleField_self t⟩
    · split at hmatch
      case h_1 s hs => exact ⟨s, hs, hmatch⟩
      case h_2 => cases hmatch

theorem isCompatibleColumn_fixedSizeList
    {size : ℕ}
    (h : isCompatibleColumn source
      (.mk name nullable metadata (.fixedSizeList t size))) :
    ∃ s, source.dataType = .fixedSizeList s size := by
  rw [isCompatibleColumn_iff_of_not_leaf (by simp [ArrowField.dataType])] at h
  simp only [ArrowField.dataType, isCompatibleDataType, Bool.or_eq_true,
    decide_eq_true_eq] at h
  rcases h with hequal | hmatch
  · exact ⟨t, hequal⟩
  · split at hmatch
    case h_1 s sourceSize hs =>
      rw [Bool.and_eq_true, decide_eq_true_eq] at hmatch
      exact ⟨s, hmatch.1 ▸ hs⟩
    case h_2 => cases hmatch

theorem isCompatibleColumn_map
    {sorted : Bool}
    (h : isCompatibleColumn source
      (.mk name nullable metadata (.map t sorted))) :
    source.dataType = .map t sorted := by
  rw [isCompatibleColumn_iff_of_not_leaf (by simp [ArrowField.dataType])] at h
  simpa [ArrowField.dataType, isCompatibleDataType] using h

/-- With distinct names, equal structs are compatible field by field. -/
theorem allCompatible_self
    {fields targets : List ArrowField}
    (hnodup : (fields.map ArrowField.name).Nodup)
    (h : ∀ t ∈ targets, t ∈ fields) : allCompatible fields targets := by
  induction targets with
  | nil => rfl
  | cons t targets ih =>
      obtain ⟨i, hi⟩ := List.mem_iff_getElem?.mp (h t List.mem_cons_self)
      rw [allCompatible, findField_of_nodup hnodup hi, Bool.and_eq_true]
      exact ⟨isCompatibleField_self t,
        ih fun u hu => h u (List.mem_cons_of_mem _ hu)⟩

theorem isCompatibleColumn_struct
    {ts : List ArrowField} (hnodup : (ts.map ArrowField.name).Nodup)
    (h : isCompatibleColumn source
      (.mk name nullable metadata (.struct ts))) :
    ∃ ss, source.dataType = .struct ss ∧ ss.length = ts.length ∧
      allCompatible ss ts := by
  rw [isCompatibleColumn_iff_of_not_leaf (by simp [ArrowField.dataType])] at h
  simp only [ArrowField.dataType, isCompatibleDataType, Bool.or_eq_true,
    decide_eq_true_eq] at h
  rcases h with hequal | hmatch
  · exact ⟨ts, hequal, rfl, allCompatible_self hnodup fun _ ht => ht⟩
  · split at hmatch
    case h_1 ss hss =>
      rw [Bool.and_eq_true, decide_eq_true_eq] at hmatch
      exact ⟨ss, hss, hmatch.1, hmatch.2⟩
    case h_2 => cases hmatch

theorem allCompatible_cons
    {ss ts : List ArrowField} (h : allCompatible ss (t :: ts)) :
    (∃ j s, findField t.name ss = some (j, s) ∧ isCompatibleField s t) ∧
      allCompatible ss ts := by
  rw [allCompatible, Bool.and_eq_true] at h
  refine ⟨?_, h.2⟩
  have hfound := h.1
  split at hfound
  case h_1 j s hfind => exact ⟨j, s, hfind, hfound⟩
  case h_2 => cases hfound

end Check

/-! ## Columns already in form -/

mutual

/-- A column in the form of the target is its own conversion. -/
theorem reads_self : (t : ArrowField) → ∀ {source : ArrowField}
    {column : Column}, Form source t → OfType source.dataType column →
    Fits parse source column t → Reads parse source column column t
  | .mk name nullable metadata (.leaf type), source, column, hform, hcolumn,
      hfits => by
      obtain ⟨hsource, hlegacy⟩ := hform
      rw [hsource] at hcolumn
      obtain @⟨_, cells, hcells⟩ := hcolumn
      exact forall₂_meaning_self hsource rfl hlegacy hcells hfits
  | .mk name nullable metadata (.list t), source, column, hform, hcolumn,
      hfits => by
      unfold Form at hform
      split at hform
      case h_1 s hs =>
        rw [hs] at hcolumn
        obtain _ | ⟨hvalues, h⟩ := hcolumn
        simp only [Fits, Reads, hs] at hfits ⊢
        exact ⟨trivial, trivial, reads_self t hform hvalues hfits⟩
      case h_2 => exact hform.elim
  | .mk name nullable metadata (.largeList t), source, column, hform, hcolumn,
      hfits => by
      unfold Form at hform
      split at hform
      case h_1 s hs =>
        rw [hs] at hcolumn
        obtain _ | _ | ⟨hvalues, h⟩ := hcolumn
        simp only [Fits, Reads, hs] at hfits ⊢
        exact ⟨trivial, trivial, reads_self t hform hvalues hfits⟩
      case h_2 => exact hform.elim
  | .mk name nullable metadata (.fixedSizeList t size), source, column, hform,
      hcolumn, hfits => by
      unfold Form at hform
      split at hform
      case h_1 s sourceSize hs =>
        rw [hs] at hcolumn
        obtain _ | _ | _ | ⟨hvalues, hlength, hnulls⟩ := hcolumn
        simp only [Fits, Reads, hs] at hfits ⊢
        exact ⟨trivial, reads_self t hform.2 hvalues hfits⟩
      case h_2 => exact hform.elim
  | .mk name nullable metadata (.map t sorted), source, column, hform,
      hcolumn, hfits => by
      simp only [Reads]
  | .mk name nullable metadata (.struct ts), source, column, hform, hcolumn,
      hfits => by
      unfold Form at hform
      split at hform
      case h_1 ss hs =>
        rw [hs] at hcolumn
        obtain _ | _ | _ | _ | _ | ⟨hlength, hcolumns, h⟩ := hcolumn
        simp only [Fits, Reads, hs] at hfits ⊢
        exact ⟨trivial, readsAll_self ts 0 hform hlength hcolumns hfits⟩
      case h_2 => exact hform.elim

theorem readsAll_self : (ts : List ArrowField) → ∀ (k : ℕ)
    {source : List ArrowField} {columns : List Column},
    FormAll (source.drop k) ts → columns.length = source.length →
    (∀ (i : ℕ) field column, source[i]? = some field →
      columns[i]? = some column → OfType field.dataType column) →
    FitsAll parse source columns ts →
    ReadsAll parse source columns (columns.drop k) ts
  | [], k, source, columns, hform, hlength, hcolumns, hfits => by
      cases hdrop : source.drop k with
      | cons f fs =>
          rw [hdrop] at hform
          simp [FormAll] at hform
      | nil =>
          have hle : columns.length ≤ k :=
            hlength ▸ List.drop_eq_nil_iff.mp hdrop
          rw [List.drop_eq_nil_of_le hle, ReadsAll]
          trivial
  | t :: ts, k, source, columns, hform, hlength, hcolumns, hfits => by
      cases hdrop : source.drop k with
      | nil =>
          rw [hdrop] at hform
          simp [FormAll] at hform
      | cons f fs =>
          rw [hdrop, FormAll] at hform
          obtain ⟨hname, hfirst, hrest⟩ := hform
          obtain ⟨hk, hf, hfs⟩ : k < source.length ∧ source[k]? = some f ∧
              source.drop (k + 1) = fs := by
            have hlt : k < source.length := by
              by_contra hge
              rw [List.drop_eq_nil_of_le (not_lt.mp hge)] at hdrop
              cases hdrop
            rw [List.drop_eq_getElem_cons hlt] at hdrop
            obtain ⟨hf, hfs⟩ := List.cons.inj hdrop
            exact ⟨hlt, by rw [List.getElem?_eq_getElem hlt, hf], hfs⟩
          have hlt : k < columns.length := hlength ▸ hk
          have hcolumn : columns[k]? = some columns[k] :=
            List.getElem?_eq_getElem hlt
          rw [FitsAll] at hfits
          rw [List.drop_eq_getElem_cons hlt, ReadsAll]
          refine ⟨⟨k, f, columns[k], hf, hname, hcolumn, ?_⟩, ?_⟩
          · exact reads_self t hfirst (hcolumns k f _ hf hcolumn)
              (hfits.1 k f hf hname _ hcolumn)
          · exact readsAll_self ts (k + 1) (hfs ▸ hrest) hlength hcolumns
              hfits.2

end

/-! ## The conversion -/

/-- The outcome for the fields of a struct, from the `i`-th on. -/
structure StructConverted (parse : String → Option BigDecimal)
    (source : List ArrowField) (columns : List Column) (i : ℕ)
    (ts : List ArrowField) (changed : Bool)
    (children : List (Column × ArrowField)) : Prop where
  form : FormAll (children.map Prod.snd) ts
  reads : ReadsAll parse source columns (children.map Prod.fst) ts
  valid : ∀ child ∈ children, ∃ (j : ℕ) (s : ArrowField) (column : Column),
    source[j]? = some s ∧ columns[j]? = some column ∧
      child.1.validity = column.validity ∧
      (s.nullable → child.2.nullable)
  same : changed = false → ∀ k child, children[k]? = some child →
    source[i + k]? = some child.2 ∧ columns[i + k]? = some child.1
  length_eq : children.length = ts.length

/-- An unchanged list of children is the source itself. -/
theorem StructConverted.eq_of_same
    {source : List ArrowField} {columns : List Column}
    {ts : List ArrowField} {children : List (Column × ArrowField)}
    (h : StructConverted parse source columns 0 ts false children)
    (hlength : source.length = ts.length)
    (hcolumns : columns.length = source.length) :
    children.map Prod.snd = source ∧ children.map Prod.fst = columns := by
  have hchildren : children.length = ts.length := h.length_eq
  constructor
  · apply List.ext_getElem?
    intro k
    rw [List.getElem?_map]
    cases hk : children[k]? with
    | some child =>
        have hsame := (h.same rfl k child hk).1
        rw [Nat.zero_add] at hsame
        rw [hsame]
        rfl
    | none =>
        have hge := List.getElem?_eq_none_iff.mp hk
        rw [List.getElem?_eq_none (by omega)]
        rfl
  · apply List.ext_getElem?
    intro k
    rw [List.getElem?_map]
    cases hk : children[k]? with
    | some child =>
        have hsame := (h.same rfl k child hk).2
        rw [Nat.zero_add] at hsame
        rw [hsame]
        rfl
    | none =>
        have hge := List.getElem?_eq_none_iff.mp hk
        rw [List.getElem?_eq_none (by omega)]
        rfl

/-- Children whose nulls are those of a valid struct form a struct. -/
theorem structTryNew_eq_ok
    {source : List ArrowField} {columns : List Column} {i : ℕ}
    {ts : List ArrowField} {changed : Bool}
    {children : List (Column × ArrowField)} {validity : List Bool}
    (h : StructConverted parse source columns i ts changed children)
    (hvalid : ∀ (i : ℕ) field column, source[i]? = some field →
      columns[i]? = some column → ChildValid validity (column, field)) :
    structTryNew children validity =
      .ok (.struct validity (children.map Prod.fst)) := by
  have hfind : (children.find? fun child => ¬ChildValid validity child) =
      none := by
    rw [List.find?_eq_none]
    intro child hchild
    obtain ⟨j, s, column, hs, hcolumn, hsame, hnullable⟩ :=
      h.valid child hchild
    obtain ⟨hlength, hnulls⟩ := hvalid j s column hs hcolumn
    have hchildValid : ChildValid validity child := by
      unfold ChildValid
      rw [hsame]
      exact ⟨hlength, hnulls.imp_left hnullable⟩
    simpa using hchildValid
  unfold structTryNew
  rw [hfind]

theorem listTryNew_eq_ok
    {s child : ArrowField} {offsets : List ℕ} {validity : List Bool}
    {values converted : Column}
    (hvalid : ListValid s offsets validity values)
    (hsame : converted.validity = values.validity)
    (hnullable : s.nullable → child.nullable) :
    listTryNew child offsets validity converted =
      .ok (.list offsets validity converted) := by
  have hconverted : ListValid child offsets validity converted := by
    unfold ListValid
    rw [hsame]
    exact ⟨hvalid.1, hvalid.2.1, hvalid.2.2.imp_left hnullable⟩
  rw [listTryNew, if_pos hconverted]

section Lists

variable {wrap : ArrowField → DataType} {source s t : ArrowField}
variable {name : String} {nullable : Bool} {metadata : Metadata}
variable {offsets : List ℕ} {validity : List Bool} {values : Column}

theorem form_list
    (hwrap : IsListType wrap) (hs : source.dataType = wrap s) :
    Form source (.mk name nullable metadata (wrap t)) ↔ Form s t := by
  rcases hwrap with rfl | rfl <;> simp only [Form, hs]

theorem reads_list
    (hwrap : IsListType wrap) (hs : source.dataType = wrap s)
    {converted : Column} :
    Reads parse source (.list offsets validity values)
        (.list offsets validity converted)
        (.mk name nullable metadata (wrap t)) ↔
      Reads parse s values converted t := by
  rcases hwrap with rfl | rfl <;> simp only [Reads, hs, true_and]

/-- A list is converted if its elements are. -/
theorem exists_converted_list
    (hwrap : IsListType wrap) (hs : source.dataType = wrap s)
    (hvalid : ListValid s offsets validity values)
    (hnullable : s.nullable → t.nullable)
    {child : Option (Column × ArrowField)}
    (hchild : clickhouseColumnToTarget parse values s t = .ok child)
    (hconverted : Converted parse s t values child) :
    ∃ out, clickhouseColumnToTarget parse (.list offsets validity values)
        source (.mk name nullable metadata (wrap t)) = .ok out ∧
      Converted parse source (.mk name nullable metadata (wrap t))
        (.list offsets validity values) out := by
  cases child with
  | none =>
      have hout : clickhouseColumnToTarget parse
          (.list offsets validity values) source
          (.mk name nullable metadata (wrap t)) = .ok none := by
        rcases hwrap with rfl | rfl <;>
          simp only [clickhouseColumnToTarget, hs, hchild, bind, Except.bind,
            pure, Except.pure]
      exact ⟨none, hout, (form_list hwrap hs).mpr hconverted.form,
        (reads_list hwrap hs).mpr hconverted.reads, rfl, by simp⟩
  | some child =>
      obtain ⟨converted, field⟩ := child
      have hadopts := hconverted.adopts _ rfl
      have hrebuilt : listTryNew field offsets validity converted =
          .ok (.list offsets validity converted) :=
        listTryNew_eq_ok hvalid hconverted.validity
          fun h => hadopts.2 ▸ hnullable h
      have hout : clickhouseColumnToTarget parse
          (.list offsets validity values) source
          (.mk name nullable metadata (wrap t)) =
            .ok (some (.list offsets validity converted,
              .mk name nullable metadata (wrap field))) := by
        rcases hwrap with rfl | rfl <;>
          simp only [clickhouseColumnToTarget, hs, hchild, hrebuilt, bind,
            Except.bind, pure, Except.pure]
      refine ⟨_, hout, (form_list hwrap rfl).mpr hconverted.form,
        (reads_list hwrap hs).mpr hconverted.reads, rfl, ?_⟩
      rintro _ ⟨⟩
      exact ⟨rfl, rfl⟩

end Lists

/-- A struct is converted if its fields are. -/
theorem exists_converted_struct
    {source : ArrowField} {ss ts : List ArrowField} {name : String}
    {nullable : Bool} {metadata : Metadata} {columns : List Column}
    {validity : List Bool} (hs : source.dataType = .struct ss)
    (hlength : ss.length = ts.length) (hcolumns : columns.length = ss.length)
    (hvalid : ∀ (i : ℕ) field column, ss[i]? = some field →
      columns[i]? = some column → ChildValid validity (column, field))
    {changed : Bool} {children : List (Column × ArrowField)}
    (hchildren : structFields parse name columns ss 0 ts =
      .ok (changed, children))
    (hconverted : StructConverted parse ss columns 0 ts changed children) :
    ∃ out, clickhouseColumnToTarget parse (.struct validity columns) source
        (.mk name nullable metadata (.struct ts)) = .ok out ∧
      Converted parse source (.mk name nullable metadata (.struct ts))
        (.struct validity columns) out := by
  simp only [clickhouseColumnToTarget, hs, hchildren, bind, Except.bind, pure,
    Except.pure]
  cases changed with
  | false =>
      obtain ⟨hfields, hsame⟩ := hconverted.eq_of_same hlength hcolumns
      refine ⟨none, rfl, ?_, ?_, rfl, by simp⟩
      · simpa only [Option.getD_none, Form, hs, hfields] using
          hconverted.form
      · simpa only [Option.getD_none, Reads, hs, true_and, hsame] using
          hconverted.reads
  | true =>
      simp only [if_true, structTryNew_eq_ok hconverted hvalid]
      refine ⟨_, rfl, ?_, ?_, rfl, ?_⟩
      · simpa only [Option.getD_some, Form, ArrowField.dataType] using
          hconverted.form
      · simpa only [Option.getD_some, Reads, hs, true_and] using
          hconverted.reads
      · rintro _ ⟨⟩
        exact ⟨rfl, rfl⟩

mutual

/-- A column that the check accepts is converted where the normalizer covers
its types. -/
theorem clickhouseColumnToTarget_spec : (t : ArrowField) →
    ∀ {source : ArrowField} {column : Column},
    isCompatibleColumn source t → DistinctNames t →
    NormalizerCovers source column t → OfType source.dataType column →
    Fits parse source column t →
    ∃ out, clickhouseColumnToTarget parse column source t = .ok out ∧
      Converted parse source t column out
  | .mk name nullable metadata (.leaf type), source, column, hcompatible,
      hnames, hready, hcolumn, hfits => by
      rw [clickhouseColumnToTarget]
      exact leafToTarget_spec hcompatible hready hcolumn hfits
  | .mk name nullable metadata (.list t), source, column, hcompatible,
      hnames, hready, hcolumn, hfits => by
      obtain ⟨s, hs, hfield⟩ := isCompatibleColumn_list (.inl rfl) hcompatible
      obtain ⟨hnullable, hchild⟩ := (isCompatibleField_iff s t).mp hfield
      rw [hs] at hcolumn
      obtain _ | ⟨hvalues, hvalid⟩ := hcolumn
      simp only [Fits, NormalizerCovers, DistinctNames, hs]
        at hfits hready hnames
      obtain ⟨out, hout, hconverted⟩ :=
        clickhouseColumnToTarget_spec t hchild hnames hready hvalues hfits
      exact exists_converted_list (.inl rfl) hs hvalid hnullable hout
        hconverted
  | .mk name nullable metadata (.largeList t), source, column, hcompatible,
      hnames, hready, hcolumn, hfits => by
      obtain ⟨s, hs, hfield⟩ := isCompatibleColumn_list (.inr rfl) hcompatible
      obtain ⟨hnullable, hchild⟩ := (isCompatibleField_iff s t).mp hfield
      rw [hs] at hcolumn
      obtain _ | _ | ⟨hvalues, hvalid⟩ := hcolumn
      simp only [Fits, NormalizerCovers, DistinctNames, hs]
        at hfits hready hnames
      obtain ⟨out, hout, hconverted⟩ :=
        clickhouseColumnToTarget_spec t hchild hnames hready hvalues hfits
      exact exists_converted_list (.inr rfl) hs hvalid hnullable hout
        hconverted
  | .mk name nullable metadata (.fixedSizeList t size), source, column,
      hcompatible, hnames, hready, hcolumn, hfits => by
      obtain ⟨s, hs⟩ := isCompatibleColumn_fixedSizeList hcompatible
      simp only [NormalizerCovers, hs] at hready
      have hform : Form source
          (.mk name nullable metadata (.fixedSizeList t size)) := by
        simp only [Form, hs]
        exact ⟨trivial, hready⟩
      rw [clickhouseColumnToTarget]
      exact ⟨none, rfl, hform, reads_self _ hform hcolumn hfits, rfl,
        by simp⟩
  | .mk name nullable metadata (.map t sorted), source, column, hcompatible,
      hnames, hready, hcolumn, hfits => by
      have hform : Form source
          (.mk name nullable metadata (.map t sorted)) := by
        simp only [Form]
        exact isCompatibleColumn_map hcompatible
      rw [clickhouseColumnToTarget]
      exact ⟨none, rfl, hform, reads_self _ hform hcolumn hfits, rfl,
        by simp⟩
  | .mk name nullable metadata (.struct ts), source, column, hcompatible,
      hnames, hready, hcolumn, hfits => by
      rw [DistinctNames] at hnames
      obtain ⟨ss, hs, hlength, hchildren⟩ :=
        isCompatibleColumn_struct hnames.1 hcompatible
      rw [hs] at hcolumn
      obtain _ | _ | _ | _ | _ | ⟨hcolumnsLength, hcolumns, hvalid⟩ := hcolumn
      simp only [Fits, NormalizerCovers, hs] at hfits hready
      obtain ⟨changed, children, hout, hconverted⟩ :=
        structFields_spec ts name 0 hchildren hnames.2 hready hcolumnsLength
          hcolumns hfits
      exact exists_converted_struct hs hlength hcolumnsLength hvalid hout
        hconverted

theorem structFields_spec : (ts : List ArrowField) →
    ∀ (name : String) (i : ℕ) {source : List ArrowField}
    {columns : List Column},
    allCompatible source ts → DistinctNamesAll ts →
    NormalizerCoversAll source columns ts →
    columns.length = source.length →
    (∀ (i : ℕ) field column, source[i]? = some field →
      columns[i]? = some column → OfType field.dataType column) →
    FitsAll parse source columns ts →
    ∃ changed children,
      structFields parse name columns source i ts = .ok (changed, children) ∧
      StructConverted parse source columns i ts changed children
  | [], name, i, source, columns, hcompatible, hnames, hready, hlength,
      hcolumns, hfits => by
      refine ⟨false, [], by rw [structFields], ?_⟩
      exact ⟨trivial, trivial, by simp, by simp, rfl⟩
  | t :: ts, name, i, source, columns, hcompatible, hnames, hready, hlength,
      hcolumns, hfits => by
      obtain ⟨⟨j, s, hfind, hfield⟩, hcompatible⟩ :=
        allCompatible_cons hcompatible
      obtain ⟨hnullable, hchild⟩ := (isCompatibleField_iff s t).mp hfield
      obtain ⟨hs, hname⟩ := findField_eq_some hfind
      obtain ⟨hlt, -⟩ := List.getElem?_eq_some_iff.mp hs
      have hcolumn : columns[j]? = some columns[j] :=
        List.getElem?_eq_getElem (hlength ▸ hlt)
      rw [DistinctNamesAll] at hnames
      rw [NormalizerCoversAll] at hready
      rw [FitsAll] at hfits
      obtain ⟨out, hout, hconverted⟩ :=
        clickhouseColumnToTarget_spec t hchild hnames.1
          (hready.1 j s hfind _ hcolumn) (hcolumns j s _ hs hcolumn)
          (hfits.1 j s hs hname _ hcolumn)
      obtain ⟨changed, children, hrest, hchildren⟩ :=
        structFields_spec ts name (i + 1) hcompatible hnames.2 hready.2
          hlength hcolumns hfits.2
      rw [structFields]
      simp only [hfind, hcolumn, hout, hrest, bind, Except.bind, pure,
        Except.pure]
      cases out with
      | some child =>
          have hadopts := hconverted.adopts _ rfl
          refine ⟨true, child :: children, rfl, ?_, ?_, ?_, by simp, ?_⟩
          · exact ⟨hadopts.1, hconverted.form, hchildren.form⟩
          · exact ⟨⟨j, s, _, hs, hname, hcolumn, hconverted.reads⟩,
              hchildren.reads⟩
          · intro other hother
            rcases List.mem_cons.mp hother with rfl | hother
            · exact ⟨j, s, _, hs, hcolumn, hconverted.validity,
                fun h => hadopts.2 ▸ hnullable h⟩
            · exact hchildren.valid other hother
          · simp [hchildren.length_eq]
      | none =>
          refine ⟨_, (columns[j], s) :: children, rfl, ?_, ?_, ?_, ?_, ?_⟩
          · exact ⟨hname, hconverted.form, hchildren.form⟩
          · exact ⟨⟨j, s, _, hs, hname, hcolumn, hconverted.reads⟩,
              hchildren.reads⟩
          · intro other hother
            rcases List.mem_cons.mp hother with rfl | hother
            · exact ⟨j, s, _, hs, hcolumn, rfl, id⟩
            · exact hchildren.valid other hother
          · intro hsame k other hother
            rw [Bool.or_eq_false_iff, decide_eq_false_iff_not, not_not]
              at hsame
            obtain ⟨rfl, hsame⟩ := hsame
            cases k with
            | zero =>
                obtain rfl := Option.some.inj hother
                exact ⟨hs, hcolumn⟩
            | succ k =>
                have hnext := hchildren.same hsame k other hother
                rwa [Nat.add_right_comm, Nat.add_assoc] at hnext
          · simp [hchildren.length_eq]

end

/-! ## The condition is needed -/

theorem structFields_cons_eq_ok
    {name : String} {columns : List Column} {source : List ArrowField}
    {i : ℕ} {t : ArrowField} {ts : List ArrowField} {changed : Bool}
    {children : List (Column × ArrowField)}
    (h : structFields parse name columns source i (t :: ts) =
      .ok (changed, children)) :
    ∃ j s column out rest others,
      findField t.name source = some (j, s) ∧ columns[j]? = some column ∧
      clickhouseColumnToTarget parse column s t = .ok out ∧
      structFields parse name columns source (i + 1) ts =
        .ok (rest, others) ∧
      children = out.getD (column, s) :: others ∧
      (changed = true ↔ i ≠ j ∨ out.isSome ∨ rest = true) := by
  rw [structFields] at h
  cases hfind : findField t.name source with
  | none => simp [hfind] at h
  | some found =>
      obtain ⟨j, s⟩ := found
      cases hcolumn : columns[j]? with
      | none => simp [hfind, hcolumn] at h
      | some column =>
          simp only [hfind, hcolumn, bind, Except.bind, pure, Except.pure]
            at h
          cases hout : clickhouseColumnToTarget parse column s t with
          | error e => simp [hout] at h
          | ok out =>
              cases hrest :
                  structFields parse name columns source (i + 1) ts with
              | error e => simp [hout, hrest] at h
              | ok pair =>
                  obtain ⟨rest, others⟩ := pair
                  simp only [hout, hrest] at h
                  refine ⟨j, s, column, out, rest, others, rfl, hcolumn,
                    hout, rfl, ?_⟩
                  cases out with
                  | none =>
                      obtain ⟨rfl, rfl⟩ := Prod.mk.inj (Except.ok.inj h)
                      exact ⟨rfl, by simp⟩
                  | some child =>
                      obtain ⟨rfl, rfl⟩ := Prod.mk.inj (Except.ok.inj h)
                      exact ⟨rfl, by simp⟩

/-- Without a change, the children are the source from the `i`-th on. -/
theorem structFields_same
    {name : String} {columns : List Column} {source : List ArrowField}
    {i : ℕ} {ts : List ArrowField} {children : List (Column × ArrowField)}
    (h : structFields parse name columns source i ts =
      .ok (false, children)) :
    children.map Prod.snd = (source.drop i).take ts.length ∧
      children.map Prod.fst = (columns.drop i).take ts.length := by
  induction ts generalizing i children with
  | nil =>
      rw [structFields] at h
      obtain ⟨-, rfl⟩ := Prod.mk.inj (Except.ok.inj h)
      simp
  | cons t ts ih =>
      obtain ⟨j, s, column, out, rest, others, hfind, hcolumn, -, hrest, rfl,
        hchanged⟩ := structFields_cons_eq_ok h
      obtain ⟨rfl, rfl, rfl⟩ : i = j ∧ out = none ∧ rest = false := by
        simpa using hchanged.not
      obtain ⟨hs, -⟩ := findField_eq_some hfind
      obtain ⟨hlt, hget⟩ := List.getElem?_eq_some_iff.mp hs
      obtain ⟨hlt', hget'⟩ := List.getElem?_eq_some_iff.mp hcolumn
      obtain ⟨hfields, hcolumns⟩ := ih hrest
      rw [List.drop_eq_getElem_cons hlt, List.drop_eq_getElem_cons hlt',
        List.length_cons, List.take_succ_cons, List.take_succ_cons,
        List.map_cons, List.map_cons, hfields, hcolumns, hget, hget']
      exact ⟨rfl, rfl⟩

theorem eq_of_listTryNew
    {child : ArrowField} {offsets : List ℕ} {validity : List Bool}
    {values rebuilt : Column}
    (h : listTryNew child offsets validity values = .ok rebuilt) :
    rebuilt = .list offsets validity values := by
  unfold listTryNew at h
  split_ifs at h
  exact (Except.ok.inj h).symm

theorem eq_of_structTryNew
    {children : List (Column × ArrowField)} {validity : List Bool}
    {rebuilt : Column} (h : structTryNew children validity = .ok rebuilt) :
    rebuilt = .struct validity (children.map Prod.fst) := by
  unfold structTryNew at h
  split at h
  · exact (Except.ok.inj h).symm
  · cases h

section Rebuilt

variable {source s t : ArrowField} {name : String} {nullable : Bool}
variable {metadata : Metadata} {offsets : List ℕ} {validity : List Bool}
variable {values : Column} {out : Option (Column × ArrowField)}

/-- A list is rebuilt exactly if its elements are. -/
theorem eq_of_clickhouseColumnToTarget_list
    {wrap : ArrowField → DataType} (hwrap : IsListType wrap)
    (hs : source.dataType = wrap s)
    (h : clickhouseColumnToTarget parse (.list offsets validity values) source
      (.mk name nullable metadata (wrap t)) = .ok out) :
    ∃ child, clickhouseColumnToTarget parse values s t = .ok child ∧
      out = child.map fun c =>
        (.list offsets validity c.1,
          .mk name nullable metadata (wrap c.2)) := by
  rcases hwrap with rfl | rfl
  all_goals
    simp only [clickhouseColumnToTarget, hs, bind, Except.bind, pure,
      Except.pure] at h
    split at h
    case h_1 => cases h
    case h_2 child hchild =>
      refine ⟨child, hchild, ?_⟩
      split at h
      case h_1 => exact (Except.ok.inj h).symm
      case h_2 converted field =>
        split at h
        case h_1 => cases h
        case h_2 rebuilt hrebuilt =>
          rw [eq_of_listTryNew hrebuilt] at h
          exact (Except.ok.inj h).symm

/-- A struct is rebuilt exactly if one of its fields is converted or moved. -/
theorem eq_of_clickhouseColumnToTarget_struct
    {ss ts : List ArrowField} {columns : List Column}
    (hs : source.dataType = .struct ss)
    (h : clickhouseColumnToTarget parse (.struct validity columns) source
      (.mk name nullable metadata (.struct ts)) = .ok out) :
    ∃ changed children,
      structFields parse name columns ss 0 ts = .ok (changed, children) ∧
      out = if changed then
          some (.struct validity (children.map Prod.fst),
            .mk name nullable metadata (.struct (children.map Prod.snd)))
        else none := by
  simp only [clickhouseColumnToTarget, hs, bind, Except.bind, pure,
    Except.pure] at h
  split at h
  case h_1 => cases h
  case h_2 fields hfields =>
    refine ⟨fields.1, fields.2, hfields, ?_⟩
    split_ifs at h with hchanged
    · split at h
      case h_1 => cases h
      case h_2 rebuilt hrebuilt =>
        rw [eq_of_structTryNew hrebuilt] at h
        rw [if_pos hchanged]
        exact (Except.ok.inj h).symm
    · rw [if_neg hchanged]
      exact (Except.ok.inj h).symm

end Rebuilt

/-- Canonical bytes are left alone. -/
theorem leafToTarget_of_largeBinary
    {column : Column} {source target : ArrowField}
    (hsource : source.dataType = .leaf .largeBinary) :
    leafToTarget parse column source target = .ok none := by
  simp only [leafToTarget, hsource]
  cases column with
  | leaf cells => cases target.decimalArb <;> simp [decimalArbLeaf]
  | _ => rfl

/-- Retired wide integers are left alone, except for a `decimal_arb` target. -/
theorem leafToTarget_of_legacyWideInt
    {column : Column} {source target : ArrowField} {kind : NativeIntKind}
    (hsource : source.legacyWideIntKind = some kind)
    (htarget : target.decimalArb = none) :
    leafToTarget parse column source target = .ok none := by
  simp only [leafToTarget, legacyWideIntKind_eq_some hsource]
  cases column with
  | leaf cells => simp [htarget, hsource]
  | _ => rfl

theorem forall₂_of_downcast
    {α : Type} {get : Cell → Option α} {column : String}
    {cells : List (Option Cell)} {values : List (Option α)}
    (h : downcast get column cells = .ok values) :
    List.Forall₂ (Option.Rel fun c a => get c = some a) cells values := by
  refine (ExceptLists.mapM_eq_ok_iff.mp h).imp fun cell value hcell => ?_
  cases cell with
  | none =>
      obtain rfl := Except.ok.inj hcell
      exact .none
  | some c =>
      simp only at hcell
      split at hcell
      case h_1 a hget =>
        obtain rfl := Except.ok.inj hcell
        exact .some hget
      case h_2 => cases hcell

/-- What is left of native integers. -/
theorem forall₂_of_clickhouseNativeToDecimalArb
    {cells out : List (Option Cell)} {decimal : DecimalArbField}
    {kind : NativeIntKind} (hkind : decimal.nativeIntKind = some kind)
    (h : clickhouseNativeToDecimalArb cells decimal = .ok out) :
    List.Forall₂
      (Option.Rel fun c c' => ∃ word, c = .word word ∧
        c' = .bytes (DecimalArbValue.encodeDigits
          (NativeInt.nativeValue kind word))) cells out := by
  simp only [clickhouseNativeToDecimalArb, bind, Except.bind, pure,
    Except.pure] at h
  split at h
  case h_1 => cases h
  case h_2 words hwords =>
    split at h
    case h_1 => cases h
    case h_2 bytes hbytes =>
      obtain rfl := Except.ok.inj h
      have hnative :
          NativeInt.clickhouseNativeToDecimalArb words decimal = .ok bytes := by
        revert hbytes
        cases NativeInt.clickhouseNativeToDecimalArb words decimal <;>
          simp [Except.mapError]
      rw [NativeInt.clickhouseNativeToDecimalArb_eq_ok_iff hkind] at hnative
      have hcells := forall₂_of_downcast hwords
      clear h hwords hbytes
      induction hcells generalizing bytes with
      | nil =>
          cases hnative
          exact .nil
      | cons hcell _ ih =>
          obtain _ | ⟨hbytes, hrest⟩ := hnative
          refine .cons ?_ (ih _ hrest)
          cases hcell with
          | none =>
              cases hbytes
              exact .none
          | @some c word hword =>
              cases hbytes with
              | some hbytes =>
                  obtain ⟨-, rfl⟩ := hbytes
                  refine .some ⟨word, ?_, rfl⟩
                  cases c with
                  | word other => exact congrArg _ (Option.some.inj hword)
                  | _ => cases hword

/-- A word that was converted and means what its field says reads the same
both ways. -/
theorem sameNumbers_of_reads
    {source target : ArrowField} {cells : List (Option Cell)}
    {out : Option (Column × ArrowField)}
    (hout : leafToTarget parse (.leaf cells) source target = .ok out)
    (hreads : ∀ converted,
      (out.getD (.leaf cells, source)).1 = .leaf converted →
        List.Forall₂
          (Option.Rel fun c c' =>
            sourceMeaning parse source target c = targetMeaning target c')
          cells converted) :
    SameNumbers source target cells := by
  intro decimal hdecimal kind hkind sourceKind hlegacy word hword
  have hdecimal : target.decimalArb = some decimal := hdecimal
  have hkind : decimal.nativeIntKind = some kind := hkind
  have hlegacy : source.legacyWideIntKind = some sourceKind := hlegacy
  simp only [leafToTarget, legacyWideIntKind_eq_some hlegacy, hdecimal,
    decimalArbLeaf, hkind, Option.isSome_some, if_true] at hout
  cases hnative : clickhouseNativeToDecimalArb cells decimal with
  | error e => simp [hnative, Except.map] at hout
  | ok converted =>
      simp only [hnative, Except.map, Except.ok.injEq] at hout
      subst hout
      have hboth := List.Forall₂.mp
        (S := fun cell _ => ∀ word, cell = some (.word word) →
          (DecimalArbValue.fromBigintAndScale
            (NativeInt.nativeValue kind word) decimal.scale).value =
              NativeInt.beValue sourceKind word) ?_
        (forall₂_of_clickhouseNativeToDecimalArb hkind hnative)
        (hreads converted rfl)
      · exact ((List.forall₂_and_left (R := fun _ _ => True) _ _).mp
          (hboth.imp fun _ _ h => ⟨h, trivial⟩)).1 _ hword word rfl
      · intro cell after hconverted hmeaning word heq
        subst heq
        cases hconverted with
        | some hconverted =>
            obtain ⟨other, hother, rfl⟩ := hconverted
            obtain rfl := Cell.word.inj hother
            cases hmeaning with
            | some hmeaning =>
                simp only [sourceMeaning, targetMeaning, hdecimal,
                  encodedMeaning, hlegacy, decimalMeaning,
                  DecimalArbValue.decodeDigits_encodeDigits,
                  Meaning.number.injEq] at hmeaning
                exact hmeaning.symm

/-- The names of a struct are those of the target, and distinct as well. -/
theorem nodup_of_allCompatible
    {ss ts : List ArrowField} (hnodup : (ts.map ArrowField.name).Nodup)
    (hlength : ss.length = ts.length) (h : allCompatible ss ts) :
    (ss.map ArrowField.name).Nodup := by
  have hsubset : ts.map ArrowField.name ⊆ ss.map ArrowField.name := by
    clear hnodup hlength
    induction ts with
    | nil => simp
    | cons t ts ih =>
        obtain ⟨⟨j, s, hfind, -⟩, hrest⟩ := allCompatible_cons h
        obtain ⟨hs, hname⟩ := findField_eq_some hfind
        rw [List.map_cons, List.cons_subset]
        refine ⟨?_, ih hrest⟩
        rw [← hname]
        exact List.mem_map_of_mem (List.mem_of_getElem? hs)
  have hperm : (ts.map ArrowField.name).Perm (ss.map ArrowField.name) :=
    (hnodup.subperm hsubset).perm_of_length_le (by simp [hlength])
  exact hperm.nodup_iff.mp hnodup

/-- What is left of a leaf in form was covered. -/
theorem normalizerCovers_leaf_of_normalized
    {name : String} {nullable : Bool} {metadata : Metadata} {type : LeafType}
    {source : ArrowField} {column : Column}
    {out : Option (Column × ArrowField)}
    (hout : leafToTarget parse column source
      (.mk name nullable metadata (.leaf type)) = .ok out)
    (hform : Form (out.getD (column, source)).2
      (.mk name nullable metadata (.leaf type)))
    (hreads : Reads parse source column (out.getD (column, source)).1
      (.mk name nullable metadata (.leaf type))) :
    NormalizerCovers source column
      (.mk name nullable metadata (.leaf type)) := by
  unfold NormalizerCovers
  refine ⟨⟨fun hbinary => ?_, fun htarget kind hkind => ?_⟩, ?_⟩
  · rw [leafToTarget_of_largeBinary hbinary] at hout
    obtain rfl := Except.ok.inj hout
    exact hform.2.decimalArb
  · rw [leafToTarget_of_legacyWideInt hkind htarget] at hout
    obtain rfl := Except.ok.inj hout
    exact hform.2.legacyWideInt.symm.trans hkind
  · split
    case h_1 cells =>
        refine sameNumbers_of_reads hout fun converted hconverted => ?_
        simpa only [hconverted, Reads] using hreads
    case h_2 => trivial

/-- If what is left of a list is in form, so is what is left of its
elements. -/
theorem exists_normalized_child
    {wrap : ArrowField → DataType} (hwrap : IsListType wrap)
    {source s t : ArrowField} {name : String} {nullable : Bool}
    {metadata : Metadata} {offsets : List ℕ} {validity : List Bool}
    {values : Column} {out : Option (Column × ArrowField)}
    (hs : source.dataType = wrap s)
    (hout : clickhouseColumnToTarget parse (.list offsets validity values)
      source (.mk name nullable metadata (wrap t)) = .ok out)
    (hform : Form (out.getD (.list offsets validity values, source)).2
      (.mk name nullable metadata (wrap t)))
    (hreads : Reads parse source (.list offsets validity values)
      (out.getD (.list offsets validity values, source)).1
      (.mk name nullable metadata (wrap t))) :
    ∃ child, clickhouseColumnToTarget parse values s t = .ok child ∧
      Form (child.getD (values, s)).2 t ∧
      Reads parse s values (child.getD (values, s)).1 t := by
  obtain ⟨child, hchild, rfl⟩ :=
    eq_of_clickhouseColumnToTarget_list hwrap hs hout
  refine ⟨child, hchild, ?_⟩
  cases child with
  | none =>
      exact ⟨(form_list hwrap hs).mp hform, (reads_list hwrap hs).mp hreads⟩
  | some child =>
      exact ⟨(form_list hwrap rfl).mp hform, (reads_list hwrap hs).mp hreads⟩

/-- If what is left of a struct is in form, so is what is left of its
fields. -/
theorem exists_normalized_children
    {source : ArrowField} {ss ts : List ArrowField} {name : String}
    {nullable : Bool} {metadata : Metadata} {columns : List Column}
    {validity : List Bool} {out : Option (Column × ArrowField)}
    (hs : source.dataType = .struct ss)
    (hlength : ss.length = ts.length) (hcolumns : columns.length = ss.length)
    (hout : clickhouseColumnToTarget parse (.struct validity columns) source
      (.mk name nullable metadata (.struct ts)) = .ok out)
    (hform : Form (out.getD (.struct validity columns, source)).2
      (.mk name nullable metadata (.struct ts)))
    (hreads : Reads parse source (.struct validity columns)
      (out.getD (.struct validity columns, source)).1
      (.mk name nullable metadata (.struct ts))) :
    ∃ changed children,
      structFields parse name columns ss 0 ts = .ok (changed, children) ∧
      FormAll (children.map Prod.snd) ts ∧
      ReadsAll parse ss columns (children.map Prod.fst) ts := by
  obtain ⟨changed, children, hfields, rfl⟩ :=
    eq_of_clickhouseColumnToTarget_struct hs hout
  refine ⟨changed, children, hfields, ?_⟩
  cases changed with
  | false =>
      obtain ⟨hsource, hsame⟩ := structFields_same hfields
      rw [List.drop_zero, ← hlength, List.take_length] at hsource
      rw [List.drop_zero, ← hlength, ← hcolumns, List.take_length] at hsame
      simp only [Bool.false_eq_true, if_false, Option.getD_none, Form, Reads,
        hs] at hform hreads
      rw [hsource, hsame]
      exact ⟨hform, hreads.2⟩
  | true =>
      simp only [if_true, Option.getD_some, Form, ArrowField.dataType]
        at hform
      simp only [if_true, Option.getD_some, Reads, hs] at hreads
      exact ⟨hform, hreads.2⟩

mutual

/-- If what is left has the form of the target and the values of the column,
the normalizer covered it. -/
theorem normalizerCovers_of_normalized : (t : ArrowField) →
    ∀ {source : ArrowField} {column : Column}
    {out : Option (Column × ArrowField)},
    isCompatibleColumn source t → DistinctNames t →
    OfType source.dataType column →
    clickhouseColumnToTarget parse column source t = .ok out →
    Form (out.getD (column, source)).2 t →
    Reads parse source column (out.getD (column, source)).1 t →
    NormalizerCovers source column t
  | .mk name nullable metadata (.leaf type), source, column, out, _, _, _,
      hout, hform, hreads => by
      rw [clickhouseColumnToTarget] at hout
      exact normalizerCovers_leaf_of_normalized hout hform hreads
  | .mk name nullable metadata (.map t sorted), source, column, out, _, _, _,
      _, _, _ => by
      rw [NormalizerCovers]
      trivial
  | .mk name nullable metadata (.fixedSizeList t size), source, column, out,
      hcompatible, _, _, hout, hform, _ => by
      obtain ⟨s, hs⟩ := isCompatibleColumn_fixedSizeList hcompatible
      rw [clickhouseColumnToTarget] at hout
      obtain rfl := Except.ok.inj hout
      simp only [Option.getD_none, Form, hs] at hform
      simp only [NormalizerCovers, hs]
      exact hform.2
  | .mk name nullable metadata (.list t), source, column, out, hcompatible,
      hnames, hcolumn, hout, hform, hreads => by
      obtain ⟨s, hs, hfield⟩ := isCompatibleColumn_list (.inl rfl) hcompatible
      have hchild := ((isCompatibleField_iff s t).mp hfield).2
      rw [hs] at hcolumn
      obtain _ | ⟨hvalues, hvalid⟩ := hcolumn
      obtain ⟨child, hconverted, hform, hreads⟩ :=
        exists_normalized_child (.inl rfl) hs hout hform hreads
      simp only [NormalizerCovers, DistinctNames, hs] at hnames ⊢
      exact normalizerCovers_of_normalized t hchild hnames hvalues hconverted
        hform hreads
  | .mk name nullable metadata (.largeList t), source, column, out,
      hcompatible, hnames, hcolumn, hout, hform, hreads => by
      obtain ⟨s, hs, hfield⟩ := isCompatibleColumn_list (.inr rfl) hcompatible
      have hchild := ((isCompatibleField_iff s t).mp hfield).2
      rw [hs] at hcolumn
      obtain _ | _ | ⟨hvalues, hvalid⟩ := hcolumn
      obtain ⟨child, hconverted, hform, hreads⟩ :=
        exists_normalized_child (.inr rfl) hs hout hform hreads
      simp only [NormalizerCovers, DistinctNames, hs] at hnames ⊢
      exact normalizerCovers_of_normalized t hchild hnames hvalues hconverted
        hform hreads
  | .mk name nullable metadata (.struct ts), source, column, out, hcompatible,
      hnames, hcolumn, hout, hform, hreads => by
      rw [DistinctNames] at hnames
      obtain ⟨ss, hs, hlength, hchildren⟩ :=
        isCompatibleColumn_struct hnames.1 hcompatible
      rw [hs] at hcolumn
      obtain _ | _ | _ | _ | _ | ⟨hcolumnsLength, hcolumns, hvalid⟩ := hcolumn
      obtain ⟨changed, children, hfields, hform, hreads⟩ :=
        exists_normalized_children hs hlength hcolumnsLength hout hform hreads
      simp only [NormalizerCovers, hs]
      exact normalizerCoversAll_of_normalized ts
        (nodup_of_allCompatible hnames.1 hlength hchildren) hchildren
        hnames.2 hcolumns hfields hform hreads

theorem normalizerCoversAll_of_normalized : (ts : List ArrowField) →
    ∀ {name : String} {i : ℕ} {source : List ArrowField}
    {columns : List Column} {changed : Bool}
    {children : List (Column × ArrowField)},
    (source.map ArrowField.name).Nodup →
    allCompatible source ts → DistinctNamesAll ts →
    (∀ (i : ℕ) field column, source[i]? = some field →
      columns[i]? = some column → OfType field.dataType column) →
    structFields parse name columns source i ts = .ok (changed, children) →
    FormAll (children.map Prod.snd) ts →
    ReadsAll parse source columns (children.map Prod.fst) ts →
    NormalizerCoversAll source columns ts
  | [], name, i, source, columns, changed, children, _, _, _, _, _, _, _ => by
      rw [NormalizerCoversAll]
      trivial
  | t :: ts, name, i, source, columns, changed, children, hnodup, hcompatible,
      hnames, hcolumns, hfields, hform, hreads => by
      obtain ⟨⟨j, s, hfind, hfield⟩, hcompatible⟩ :=
        allCompatible_cons hcompatible
      have hchild := ((isCompatibleField_iff s t).mp hfield).2
      obtain ⟨j', s', column, out, rest, others, hfind', hcolumn, hout, hrest,
        rfl, -⟩ := structFields_cons_eq_ok hfields
      obtain ⟨rfl, rfl⟩ : j = j' ∧ s = s' := by
        simpa using hfind.symm.trans hfind'
      rw [DistinctNamesAll] at hnames
      rw [List.map_cons, FormAll] at hform
      rw [List.map_cons, ReadsAll] at hreads
      obtain ⟨hs, -⟩ := findField_eq_some hfind
      rw [NormalizerCoversAll]
      refine ⟨?_, normalizerCoversAll_of_normalized ts hnodup hcompatible
        hnames.2 hcolumns hrest hform.2.2 hreads.2⟩
      intro k found hfound other hother
      obtain ⟨rfl, rfl⟩ : j = k ∧ s = found := by
        simpa using hfind.symm.trans hfound
      obtain rfl := Option.some.inj (hcolumn.symm.trans hother)
      obtain ⟨k, found, other, hfound, hname, hother, hread⟩ := hreads.1
      have hplace := findField_of_nodup hnodup hfound
      rw [hname, hfind] at hplace
      obtain ⟨rfl, rfl⟩ := Prod.mk.inj (Option.some.inj hplace)
      obtain rfl := Option.some.inj (hcolumn.symm.trans hother)
      exact normalizerCovers_of_normalized t hchild hnames.1
        (hcolumns j s column hs hcolumn) hout hform.2.1 hread

end

/-! ## Rebuilt columns -/

theorem decimalArbLeaf_isSome_iff
    (parse : String → Option BigDecimal) (cells : List (Option Cell))
    {type : LeafType} {target : ArrowField} {decimal : DecimalArbField}
    (htarget : target.decimalArb = some decimal) :
    (decimalArbLeaf parse cells type decimal).isSome ↔
      clickhouseReadsAsDecimalArb (.leaf type) target := by
  have harb : target.isDecimalArbField = true := by
    rw [ArrowField.isDecimalArbField, htarget]
    rfl
  have hkind : target.nativeIntKindFromField = decimal.nativeIntKind := by
    rw [ArrowField.nativeIntKindFromField, htarget]
    rfl
  simp only [clickhouseReadsAsDecimalArb, harb, if_true, hkind]
  cases type with
  | fixedSizeBinary width =>
      by_cases hwidth : width = 32
      · subst hwidth
        cases hhint : decimal.nativeIntKind <;> simp [decimalArbLeaf, hhint]
      · simp [decimalArbLeaf, hwidth]
  | _ => simp [decimalArbLeaf]

theorem isSome_iff_of_leafToTarget
    {source : ArrowField} {name : String} {nullable : Bool}
    {metadata : Metadata} {type : LeafType} {column : Column}
    {out : Option (Column × ArrowField)}
    (hcompatible :
      isCompatibleColumn source (.mk name nullable metadata (.leaf type)))
    (hcolumn : OfType source.dataType column)
    (hout : leafToTarget parse column source
      (.mk name nullable metadata (.leaf type)) = .ok out) :
    out.isSome ↔
      NeedsConversion source (.mk name nullable metadata (.leaf type)) := by
  obtain ⟨sourceType, hsource, htype⟩ :=
    isCompatibleColumn_leaf rfl hcompatible
  rw [hsource] at hcolumn
  obtain @⟨_, cells, hcells⟩ := hcolumn
  simp only [NeedsConversion, hsource]
  simp only [leafToTarget, hsource] at hout
  generalize htarget :
    ArrowField.mk name nullable metadata (.leaf type) = target at *
  cases harb : target.decimalArb with
  | some decimal =>
      have hlegacy : target.legacyWideIntKind = none := by
        cases hkind : target.legacyWideIntKind with
        | none => rfl
        | some kind =>
            have hbinary := decimalArb_eq_some harb
            rw [legacyWideIntKind_eq_some hkind] at hbinary
            simp at hbinary
      rw [← decimalArbLeaf_isSome_iff parse cells harb]
      simp only [harb] at hout
      cases hleaf : decimalArbLeaf parse cells sourceType decimal with
      | none =>
          simp only [hleaf] at hout
          obtain rfl := Except.ok.inj hout
          simp [hlegacy]
      | some converted =>
          simp only [hleaf] at hout
          cases converted with
          | error e => simp [Except.map] at hout
          | ok cells =>
              obtain rfl := Except.ok.inj hout
              simp
  | none =>
      have hnot : clickhouseReadsAsDecimalArb (.leaf sourceType) target =
          false := by
        simp [clickhouseReadsAsDecimalArb, ArrowField.isDecimalArbField, harb]
      have hsame : sourceType = type := by
        rcases htype with htype | harb'
        · exact htype
        · simp [ArrowField.isDecimalArbField, harb] at harb'
      have hword : target.legacyWideIntKind.isSome →
          sourceType = .fixedSizeBinary 32 := by
        intro hlegacy
        obtain ⟨kind, hkind⟩ := Option.isSome_iff_exists.mp hlegacy
        have hdata := legacyWideIntKind_eq_some hkind
        rw [← htarget] at hdata
        exact hsame.trans (by simpa [ArrowField.dataType] using hdata)
      simp only [harb] at hout
      split_ifs at hout with hflip
      · cases hreverse : reverseFixedSizeBinary32 cells target with
        | error e => simp [hreverse, Except.map] at hout
        | ok flipped =>
            simp only [hreverse, Except.map, Except.ok.injEq] at hout
            subst hout
            obtain ⟨-, hlegacy, hnone⟩ := hflip
            simp [hlegacy, Option.isNone_iff_eq_none.mp hnone]
      · obtain rfl := Except.ok.inj hout
        simp only [Option.isSome_none, Bool.false_eq_true, hnot, false_or,
          false_iff]
        rintro ⟨hlegacy, hnone⟩
        exact hflip ⟨hword hlegacy, hlegacy,
          Option.isNone_iff_eq_none.mpr hnone⟩

mutual

/-- A column is rebuilt exactly if it needs conversion. -/
theorem isSome_iff_needsConversion : (t : ArrowField) →
    ∀ {source : ArrowField} {column : Column}
    {out : Option (Column × ArrowField)},
    isCompatibleColumn source t → DistinctNames t →
    OfType source.dataType column →
    clickhouseColumnToTarget parse column source t = .ok out →
    (out.isSome ↔ NeedsConversion source t)
  | .mk name nullable metadata (.leaf type), source, column, out, hcompatible,
      _, hcolumn, hout => by
      rw [clickhouseColumnToTarget] at hout
      exact isSome_iff_of_leafToTarget hcompatible hcolumn hout
  | .mk name nullable metadata (.map t sorted), source, column, out, _, _, _,
      hout => by
      rw [clickhouseColumnToTarget] at hout
      obtain rfl := Except.ok.inj hout
      simp [NeedsConversion]
  | .mk name nullable metadata (.fixedSizeList t size), source, column, out,
      _, _, _, hout => by
      rw [clickhouseColumnToTarget] at hout
      obtain rfl := Except.ok.inj hout
      simp [NeedsConversion]
  | .mk name nullable metadata (.list t), source, column, out, hcompatible,
      hnames, hcolumn, hout => by
      obtain ⟨s, hs, hfield⟩ := isCompatibleColumn_list (.inl rfl) hcompatible
      have hchild := ((isCompatibleField_iff s t).mp hfield).2
      rw [hs] at hcolumn
      obtain _ | ⟨hvalues, hvalid⟩ := hcolumn
      obtain ⟨child, hconverted, rfl⟩ :=
        eq_of_clickhouseColumnToTarget_list (.inl rfl) hs hout
      simp only [NeedsConversion, DistinctNames, hs, Option.isSome_map]
        at hnames ⊢
      exact isSome_iff_needsConversion t hchild hnames hvalues hconverted
  | .mk name nullable metadata (.largeList t), source, column, out,
      hcompatible, hnames, hcolumn, hout => by
      obtain ⟨s, hs, hfield⟩ := isCompatibleColumn_list (.inr rfl) hcompatible
      have hchild := ((isCompatibleField_iff s t).mp hfield).2
      rw [hs] at hcolumn
      obtain _ | _ | ⟨hvalues, hvalid⟩ := hcolumn
      obtain ⟨child, hconverted, rfl⟩ :=
        eq_of_clickhouseColumnToTarget_list (.inr rfl) hs hout
      simp only [NeedsConversion, DistinctNames, hs, Option.isSome_map]
        at hnames ⊢
      exact isSome_iff_needsConversion t hchild hnames hvalues hconverted
  | .mk name nullable metadata (.struct ts), source, column, out, hcompatible,
      hnames, hcolumn, hout => by
      rw [DistinctNames] at hnames
      obtain ⟨ss, hs, -, hchildren⟩ :=
        isCompatibleColumn_struct hnames.1 hcompatible
      rw [hs] at hcolumn
      obtain _ | _ | _ | _ | _ | ⟨hlength, hcolumns, hvalid⟩ := hcolumn
      obtain ⟨changed, children, hfields, rfl⟩ :=
        eq_of_clickhouseColumnToTarget_struct hs hout
      have hchanged := changed_iff_needsConversionAny ts hchildren hnames.2
        hcolumns hfields
      simp only [NeedsConversion, hs, ← hchanged]
      cases changed <;> simp

theorem changed_iff_needsConversionAny : (ts : List ArrowField) →
    ∀ {name : String} {i : ℕ} {source : List ArrowField}
    {columns : List Column} {changed : Bool}
    {children : List (Column × ArrowField)},
    allCompatible source ts → DistinctNamesAll ts →
    (∀ (i : ℕ) field column, source[i]? = some field →
      columns[i]? = some column → OfType field.dataType column) →
    structFields parse name columns source i ts = .ok (changed, children) →
    (changed = true ↔ NeedsConversionAny source i ts)
  | [], name, i, source, columns, changed, children, _, _, _, hfields => by
      rw [structFields] at hfields
      obtain ⟨rfl, -⟩ := Prod.mk.inj (Except.ok.inj hfields)
      simp [NeedsConversionAny]
  | t :: ts, name, i, source, columns, changed, children, hcompatible, hnames,
      hcolumns, hfields => by
      obtain ⟨⟨j, s, hfind, hfield⟩, hcompatible⟩ :=
        allCompatible_cons hcompatible
      have hchild := ((isCompatibleField_iff s t).mp hfield).2
      obtain ⟨j', s', column, out, rest, others, hfind', hcolumn, hout, hrest,
        -, hchanged⟩ := structFields_cons_eq_ok hfields
      obtain ⟨rfl, rfl⟩ : j = j' ∧ s = s' := by
        simpa using hfind.symm.trans hfind'
      rw [DistinctNamesAll] at hnames
      obtain ⟨hs, -⟩ := findField_eq_some hfind
      have hfirst := isSome_iff_needsConversion t hchild hnames.1
        (hcolumns j s column hs hcolumn) hout
      have hothers := changed_iff_needsConversionAny ts hcompatible hnames.2
        hcolumns hrest
      simp only [NeedsConversionAny, hfind, Option.some.injEq, Prod.mk.injEq,
        ← hothers]
      rw [hchanged, hfirst]
      constructor
      · rintro (hmoved | hconverted | hrest)
        · exact .inl ⟨j, s, ⟨rfl, rfl⟩, .inl hmoved⟩
        · exact .inl ⟨j, s, ⟨rfl, rfl⟩, .inr hconverted⟩
        · exact .inr hrest
      · rintro (⟨_, _, ⟨rfl, rfl⟩, hmoved | hconverted⟩ | hrest)
        · exact .inl hmoved
        · exact .inr (.inl hconverted)
        · exact .inr (.inr hrest)

end

end Conversion

end HybridSchema

end Streamling
