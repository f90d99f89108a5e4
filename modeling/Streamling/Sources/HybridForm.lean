import Streamling.Sources.HybridSchema
import Streamling.Types.DecimalArbFits
import Streamling.Types.NativeIntExact

/-!
# The form and the values of a normalized column

What the normalizer should leave in a batch: the leaf types, encodings and
struct order of the target, and the values of the column it was given, each
read as its own field says.  For a leaf that the check accepts this is what it
leaves.
-/

namespace Streamling

namespace HybridSchema

open Arrow

/-! ## Form and values -/

/-- The precision and the scale of a `decimal_arb` field. -/
def decimalArbParameters (field : ArrowField) : Option (ℕ × ℕ) :=
  field.decimalArb.map fun decimal => (decimal.precision, decimal.scale)

/-- A leaf in the encoding of the target: both are `decimal_arb` with the same
parameters, or retired wide integers of one kind, or neither. -/
structure SameEncoding (field target : ArrowField) : Prop where
  decimalArb : decimalArbParameters field = decimalArbParameters target
  legacyWideInt : field.legacyWideIntKind = target.legacyWideIntKind

mutual

/-- The field has the leaf types and encodings of the target and the order of
its struct fields.  Names of list children, nullability and other metadata are
left aside. -/
def Form (field : ArrowField) : ArrowField → Prop
  | .mk name nullable metadata (.leaf type) =>
      field.dataType = .leaf type ∧
        SameEncoding field (.mk name nullable metadata (.leaf type))
  | .mk _ _ _ (.list t) =>
      match field.dataType with
      | .list f => Form f t
      | _ => False
  | .mk _ _ _ (.largeList t) =>
      match field.dataType with
      | .largeList f => Form f t
      | _ => False
  | .mk _ _ _ (.fixedSizeList t size) =>
      match field.dataType with
      | .fixedSizeList f fieldSize => fieldSize = size ∧ Form f t
      | _ => False
  | .mk _ _ _ (.map entries sorted) => field.dataType = .map entries sorted
  | .mk _ _ _ (.struct ts) =>
      match field.dataType with
      | .struct fs => FormAll fs ts
      | _ => False

def FormAll : List ArrowField → List ArrowField → Prop
  | [], [] => True
  | f :: fs, t :: ts => f.name = t.name ∧ Form f t ∧ FormAll fs ts
  | _, _ => False

end

/-- The meaning of a value: a number, or the value itself. -/
inductive Meaning where
  | number (value : ℚ)
  | raw (cell : Cell)

/-- Canonical bytes at a scale. -/
def decimalMeaning (scale : ℕ) (bytes : List UInt8) : Meaning :=
  match DecimalArbValue.decodeDigits bytes with
  | .ok digits =>
      .number (DecimalArbValue.fromBigintAndScale digits scale).value
  | .error _ => .raw (.bytes bytes)

/-- What a value means in a column that has the form of the target. -/
def targetMeaning (target : ArrowField) (cell : Cell) : Meaning :=
  match target.decimalArb, target.legacyWideIntKind, cell with
  | some field, _, .bytes bytes => decimalMeaning field.scale bytes
  | none, some kind, .word word => .number (NativeInt.beValue kind word)
  | _, _, _ => .raw cell

section Values

variable (parse : String → Option BigDecimal)

/-- What a value of a `decimal_arb` column means in its ClickHouse encoding.
A native integer holds the digits at the scale of the field, as the sink
writes them, unless its own field is that of a retired wide integer, and
canonical bytes are at the scale that the source declares. -/
def encodedMeaning (source : ArrowField) (field : DecimalArbField) :
    Cell → Meaning
  | .word word =>
      match source.legacyWideIntKind, field.nativeIntKind with
      | some kind, _ => .number (NativeInt.beValue kind word)
      | none, some kind =>
          .number (DecimalArbValue.fromBigintAndScale
            (NativeInt.nativeValue kind word) field.scale).value
      | none, none => .raw (.word word)
  | .integer digits =>
      match source.dataType with
      | .leaf (.decimal128 _ scale) | .leaf (.decimal256 _ scale) =>
          .number (DecimalArbValue.fromBigintAndScale digits scale).value
      | _ => .raw (.integer digits)
  | .text text =>
      match parse text with
      | some value => .number value.value
      | none => .raw (.text text)
  | .bytes bytes =>
      decimalMeaning ((source.decimalArb.getD field).scale) bytes
  | .other code => .raw (.other code)

/-- What a value means in the column as it was read. -/
def sourceMeaning (source target : ArrowField) (cell : Cell) : Meaning :=
  match target.decimalArb, target.legacyWideIntKind, cell with
  | some field, _, cell => encodedMeaning parse source field cell
  | none, some kind, .word word =>
      match source.legacyWideIntKind with
      | some sourceKind => .number (NativeInt.beValue sourceKind word)
      | none => .number (NativeInt.nativeValue kind word)
  | none, _, cell => .raw cell

/-- The value fits the target. -/
def FitsLeaf (source target : ArrowField) (cell : Cell) : Prop :=
  match target.decimalArb, target.legacyWideIntKind, cell with
  | some field, _, .word word =>
      match source.legacyWideIntKind with
      | some kind =>
          DecimalArbValue.FitsAt field.precision field.scale
            (NativeInt.beValue kind word)
      | none => ∀ kind ∈ field.nativeIntKind,
          field.Holds (NativeInt.nativeValue kind word)
  | some field, _, .integer digits =>
      match source.dataType with
      | .leaf (.decimal128 _ scale) | .leaf (.decimal256 _ scale) =>
          (DecimalArbValue.fromBigintAndScale digits scale).checkFits
            field.precision field.scale field.name = .ok ()
      | _ => True
  | some field, _, .text text =>
      ∃ value, parse text = some value ∧
        (DecimalArbValue.fromBigdecimal value).checkFits
          field.precision field.scale field.name = .ok ()
  | none, some kind, .word word =>
      ∀ sourceKind ∈ source.legacyWideIntKind,
        kind.InRange (NativeInt.beValue sourceKind word)
  | _, _, _ => True

mutual

/-- All leaf values of the column fit the target. -/
def Fits (source : ArrowField) (column : Column) : ArrowField → Prop
  | .mk name nullable metadata (.leaf type) =>
      match column with
      | .leaf cells => ∀ cell ∈ cells, ∀ c ∈ cell,
          FitsLeaf parse source (.mk name nullable metadata (.leaf type)) c
      | _ => True
  | .mk _ _ _ (.list t) =>
      match source.dataType, column with
      | .list s, .list _ _ values => Fits s values t
      | _, _ => True
  | .mk _ _ _ (.largeList t) =>
      match source.dataType, column with
      | .largeList s, .list _ _ values => Fits s values t
      | _, _ => True
  | .mk _ _ _ (.fixedSizeList t _) =>
      match source.dataType, column with
      | .fixedSizeList s _, .fixedSizeList _ values => Fits s values t
      | _, _ => True
  | .mk _ _ _ (.map _ _) => True
  | .mk _ _ _ (.struct ts) =>
      match source.dataType, column with
      | .struct ss, .struct _ columns => FitsAll ss columns ts
      | _, _ => True

def FitsAll (source : List ArrowField) (columns : List Column) :
    List ArrowField → Prop
  | [] => True
  | t :: ts =>
      (∀ (j : ℕ) s, source[j]? = some s → s.name = t.name →
        ∀ column, columns[j]? = some column → Fits s column t) ∧
        FitsAll source columns ts

end

mutual

/-- The second column has the values of the first, with the nulls and offsets
unchanged.  Struct fields correspond by name. -/
def Reads (source : ArrowField) (column out : Column) : ArrowField → Prop
  | .mk name nullable metadata (.leaf type) =>
      match column, out with
      | .leaf cells, .leaf converted =>
          List.Forall₂
            (Option.Rel fun c c' =>
              sourceMeaning parse source
                  (.mk name nullable metadata (.leaf type)) c =
                targetMeaning (.mk name nullable metadata (.leaf type)) c')
            cells converted
      | _, _ => False
  | .mk _ _ _ (.list t) =>
      match source.dataType, column, out with
      | .list s, .list offsets validity values,
          .list offsets' validity' converted =>
          offsets = offsets' ∧ validity = validity' ∧
            Reads s values converted t
      | _, _, _ => False
  | .mk _ _ _ (.largeList t) =>
      match source.dataType, column, out with
      | .largeList s, .list offsets validity values,
          .list offsets' validity' converted =>
          offsets = offsets' ∧ validity = validity' ∧
            Reads s values converted t
      | _, _, _ => False
  | .mk _ _ _ (.fixedSizeList t _) =>
      match source.dataType, column, out with
      | .fixedSizeList s _, .fixedSizeList validity values,
          .fixedSizeList validity' converted =>
          validity = validity' ∧ Reads s values converted t
      | _, _, _ => False
  | .mk _ _ _ (.map _ _) => column = out
  | .mk _ _ _ (.struct ts) =>
      match source.dataType, column, out with
      | .struct ss, .struct validity columns, .struct validity' converted =>
          validity = validity' ∧ ReadsAll ss columns converted ts
      | _, _, _ => False

def ReadsAll (source : List ArrowField) (columns : List Column) :
    List Column → List ArrowField → Prop
  | [], [] => True
  | out :: outs, t :: ts =>
      (∃ (j : ℕ) (s : ArrowField) (column : Column),
        source[j]? = some s ∧ s.name = t.name ∧
          columns[j]? = some column ∧ Reads s column out t) ∧
        ReadsAll source columns outs ts
  | _, _ => False

end

end Values

/-! ## Columns of a type -/

def Cell.OfType : LeafType → Cell → Prop
  | .utf8, .text _ | .largeUtf8, .text _ => True
  | .binary, .bytes _ | .largeBinary, .bytes _ => True
  | .fixedSizeBinary width, .word _ => width = 32
  | .fixedSizeBinary width, .bytes value =>
      width ≠ 32 ∧ value.length = width
  | .decimal128 _ _, .integer _ | .decimal256 _ _, .integer _ => True
  | .other _, .other _ => True
  | _, _ => False

/-- A well-formed column of the type of a field. -/
inductive OfType : DataType → Column → Prop where
  | leaf {type : LeafType} {cells : List (Option Cell)}
      (h : ∀ cell ∈ cells, ∀ c ∈ cell, c.OfType type) :
      OfType (.leaf type) (.leaf cells)
  | list {child : ArrowField} {offsets : List ℕ} {validity : List Bool}
      {values : Column} (hvalues : OfType child.dataType values)
      (h : ListValid child offsets validity values) :
      OfType (.list child) (.list offsets validity values)
  | largeList {child : ArrowField} {offsets : List ℕ} {validity : List Bool}
      {values : Column} (hvalues : OfType child.dataType values)
      (h : ListValid child offsets validity values) :
      OfType (.largeList child) (.list offsets validity values)
  | fixedSizeList {child : ArrowField} {size : ℕ} {validity : List Bool}
      {values : Column} (hvalues : OfType child.dataType values)
      (hlength : values.validity.length = size * validity.length)
      (hnulls : child.nullable ∨ false ∉ values.validity) :
      OfType (.fixedSizeList child size) (.fixedSizeList validity values)
  | map {entries : ArrowField} {sorted : Bool} {offsets : List ℕ}
      {validity : List Bool} {values : Column}
      (hvalues : OfType entries.dataType values)
      (h : ListValid entries offsets validity values) :
      OfType (.map entries sorted) (.list offsets validity values)
  | struct {fields : List ArrowField} {validity : List Bool}
      {columns : List Column} (hlength : columns.length = fields.length)
      (hcolumns : ∀ (i : ℕ) field column, fields[i]? = some field →
        columns[i]? = some column → OfType field.dataType column)
      (h : ∀ (i : ℕ) field column, fields[i]? = some field →
        columns[i]? = some column → ChildValid validity (column, field)) :
      OfType (.struct fields) (.struct validity columns)

/-! ## The condition -/

mutual

/-- The names of every struct of the target are distinct. -/
def DistinctNames : ArrowField → Prop
  | .mk _ _ _ (.list t) => DistinctNames t
  | .mk _ _ _ (.largeList t) => DistinctNames t
  | .mk _ _ _ (.fixedSizeList t _) => DistinctNames t
  | .mk _ _ _ (.struct ts) =>
      (ts.map ArrowField.name).Nodup ∧ DistinctNamesAll ts
  | .mk _ _ _ (.leaf _) => True
  | .mk _ _ _ (.map _ _) => True

def DistinctNamesAll : List ArrowField → Prop
  | [] => True
  | t :: ts => DistinctNames t ∧ DistinctNamesAll ts

end

/-- A leaf that declares its own encoding, or needs to, declares that of the
target. -/
structure DeclaresTarget (source target : ArrowField) : Prop where
  largeBinary : source.dataType = .leaf .largeBinary →
    decimalArbParameters source = decimalArbParameters target
  legacyWideInt : target.decimalArb = none →
    ∀ kind ∈ source.legacyWideIntKind, target.legacyWideIntKind = some kind

/-- The words of a retired wide integer stand for the same numbers as native
integers of a `decimal_arb` target. -/
def SameNumbers (source target : ArrowField) (cells : List (Option Cell)) :
    Prop :=
  ∀ field ∈ target.decimalArb, ∀ kind ∈ field.nativeIntKind,
    ∀ sourceKind ∈ source.legacyWideIntKind,
      ∀ word, some (.word word) ∈ cells →
        (DecimalArbValue.fromBigintAndScale
          (NativeInt.nativeValue kind word) field.scale).value =
            NativeInt.beValue sourceKind word

mutual

/-- The elements of every fixed-size list have the form of the target
already, and leaves that declare an encoding declare that of the target. -/
def NormalizerCovers (source : ArrowField) (column : Column) :
    ArrowField → Prop
  | .mk _ _ _ (.list t) =>
      match source.dataType, column with
      | .list s, .list _ _ values => NormalizerCovers s values t
      | _, _ => True
  | .mk _ _ _ (.largeList t) =>
      match source.dataType, column with
      | .largeList s, .list _ _ values => NormalizerCovers s values t
      | _, _ => True
  | .mk _ _ _ (.fixedSizeList t _) =>
      match source.dataType with
      | .fixedSizeList s _ => Form s t
      | _ => True
  | .mk _ _ _ (.struct ts) =>
      match source.dataType, column with
      | .struct ss, .struct _ columns => NormalizerCoversAll ss columns ts
      | _, _ => True
  | .mk name nullable metadata (.leaf type) =>
      DeclaresTarget source (.mk name nullable metadata (.leaf type)) ∧
        match column with
        | .leaf cells =>
            SameNumbers source (.mk name nullable metadata (.leaf type)) cells
        | _ => True
  | .mk _ _ _ (.map _ _) => True

def NormalizerCoversAll (source : List ArrowField) (columns : List Column) :
    List ArrowField → Prop
  | [] => True
  | t :: ts =>
      (∀ j s, findField t.name source = some (j, s) →
        ∀ column, columns[j]? = some column → NormalizerCovers s column t) ∧
        NormalizerCoversAll source columns ts

end

mutual

/-- The column has a leaf to convert, or struct fields to reorder. -/
def NeedsConversion (source : ArrowField) : ArrowField → Prop
  | .mk _ _ _ (.list t) =>
      match source.dataType with
      | .list s => NeedsConversion s t
      | _ => False
  | .mk _ _ _ (.largeList t) =>
      match source.dataType with
      | .largeList s => NeedsConversion s t
      | _ => False
  | .mk _ _ _ (.struct ts) =>
      match source.dataType with
      | .struct ss => NeedsConversionAny ss 0 ts
      | _ => False
  | .mk name nullable metadata (.leaf type) =>
      clickhouseReadsAsDecimalArb source.dataType
          (.mk name nullable metadata (.leaf type)) ∨
        (ArrowField.mk name nullable metadata
            (.leaf type)).legacyWideIntKind.isSome ∧
          source.legacyWideIntKind = none
  | .mk _ _ _ (.fixedSizeList _ _) => False
  | .mk _ _ _ (.map _ _) => False

def NeedsConversionAny (source : List ArrowField) :
    ℕ → List ArrowField → Prop
  | _, [] => False
  | i, t :: ts =>
      (∃ j s, findField t.name source = some (j, s) ∧
        (i ≠ j ∨ NeedsConversion s t)) ∨
        NeedsConversionAny source (i + 1) ts

end

/-- A rebuilt column adopts the nullability of its target, which its nulls
have to respect. -/
def NullsAllowed (source : ArrowField) (column : Column)
    (target : ArrowField) : Prop :=
  NeedsConversion source target →
    target.nullable ∨ false ∉ column.validity

/-! ## Leaves -/

/-- Cells that can be read and converted one by one are converted as a
column. -/
theorem downcast_convertCells
    {α : Type} {get : Cell → Option α} {column : String}
    {convert : α → Except ConvertError (List UInt8)}
    {R : Cell → Cell → Prop} {cells : List (Option Cell)}
    (h : ∀ cell ∈ cells, ∀ c ∈ cell, ∃ a bytes, get c = some a ∧
      convert a = .ok bytes ∧ R c (.bytes bytes)) :
    ∃ values out, downcast get column cells = .ok values ∧
      convertCells convert values = .ok out ∧
      List.Forall₂ (Option.Rel R) cells out := by
  induction cells with
  | nil => exact ⟨[], [], rfl, rfl, .nil⟩
  | cons cell cells ih =>
      obtain ⟨values, out, hvalues, hout, hrel⟩ :=
        ih fun cell hcell => h cell (List.mem_cons_of_mem _ hcell)
      unfold downcast at hvalues
      unfold convertCells at hout
      cases cell with
      | none =>
          refine ⟨none :: values, none :: out, ?_, ?_, .cons .none hrel⟩
          · simp only [downcast, List.mapM_cons, hvalues]
            rfl
          · simp only [convertCells, List.mapM_cons, hout]
            rfl
      | some c =>
          obtain ⟨a, bytes, hget, hconvert, hR⟩ :=
            h (some c) List.mem_cons_self c rfl
          refine ⟨some a :: values, some (.bytes bytes) :: out, ?_, ?_,
            .cons (.some hR) hrel⟩
          · simp only [downcast, List.mapM_cons, hvalues, hget]
            rfl
          · simp only [convertCells, List.mapM_cons, hout, hconvert]
            rfl

/-- Cells that can all be read. -/
theorem downcast_eq_ok
    {α : Type} {get : Cell → Option α} {column : String}
    {R : Cell → α → Prop} {cells : List (Option Cell)}
    (h : ∀ cell ∈ cells, ∀ c ∈ cell, ∃ a, get c = some a ∧ R c a) :
    ∃ values, downcast get column cells = .ok values ∧
      List.Forall₂ (Option.Rel R) cells values := by
  induction cells with
  | nil => exact ⟨[], rfl, .nil⟩
  | cons cell cells ih =>
      obtain ⟨values, hvalues, hrel⟩ :=
        ih fun cell hcell => h cell (List.mem_cons_of_mem _ hcell)
      unfold downcast at hvalues
      cases cell with
      | none =>
          refine ⟨none :: values, ?_, .cons .none hrel⟩
          simp only [downcast, List.mapM_cons, hvalues]
          rfl
      | some c =>
          obtain ⟨a, hget, hR⟩ := h (some c) List.mem_cons_self c rfl
          refine ⟨some a :: values, ?_, .cons (.some hR) hrel⟩
          simp only [downcast, List.mapM_cons, hvalues, hget]
          rfl

/-- A value that fits is encoded as its number. -/
theorem appendValue_meaning
    {field : DecimalArbField} {v : DecimalArbValue}
    (h : v.checkFits field.precision field.scale field.name = .ok ()) :
    ∃ bytes, NativeInt.appendValue field v = .ok bytes ∧
      decimalMeaning field.scale bytes = .number v.value := by
  have hfraction : v.fractionalDigitCount ≤ field.scale := by
    by_contra hlt
    simp only [DecimalArbValue.checkFits, field.valid, bind, Except.bind,
      pure, Except.pure, throw, throwThe, MonadExceptOf.throw] at h
    split_ifs at h with hinteger hdigits
    exact hlt (not_lt.mp hdigits)
  obtain ⟨m, hm⟩ :=
    DecimalArbValue.exists_units_of_fractionalDigitCount hfraction
  refine ⟨DecimalArbValue.encodeDigits m, ?_, ?_⟩
  · simp only [NativeInt.appendValue, h, bind, Except.bind, pure, Except.pure,
      DecimalArbValue.toCanonicalBytesAtScale_of_units hm]
  · simp only [decimalMeaning, DecimalArbValue.decodeDigits_encodeDigits]
    congr 1
    exact (DecimalArbValue.value_eq_iff_units
      (DecimalArbValue.value_fromBigintAndScale_mul m field.scale) hm).mpr rfl

section Conversion

variable {parse : String → Option BigDecimal}

/-- The outcome of a conversion: what is left has the form of the target and
the values of the column, and a rebuilt column adopts the name and nullability
of the target. -/
structure Converted (parse : String → Option BigDecimal)
    (source target : ArrowField) (column : Column)
    (out : Option (Column × ArrowField)) : Prop where
  form : Form (out.getD (column, source)).2 target
  reads : Reads parse source column (out.getD (column, source)).1 target
  validity : (out.getD (column, source)).1.validity = column.validity
  adopts : ∀ child ∈ out,
    child.2.name = target.name ∧ child.2.nullable = target.nullable

theorem validity_eq_of_forall₂
    {R : Cell → Cell → Prop} {cells out : List (Option Cell)}
    (h : List.Forall₂ (Option.Rel R) cells out) :
    out.map Option.isSome = cells.map Option.isSome := by
  induction h with
  | nil => rfl
  | cons hcell _ ih =>
      rw [List.map_cons, List.map_cons, ih]
      cases hcell with
      | none => rfl
      | some _ => rfl

theorem forall₂_rel_self
    {R : Cell → Cell → Prop} {cells : List (Option Cell)}
    (h : ∀ cell ∈ cells, ∀ c ∈ cell, R c c) :
    List.Forall₂ (Option.Rel R) cells cells := by
  rw [List.forall₂_same]
  intro cell hcell
  cases cell with
  | none => exact .none
  | some c => exact .some (h (some c) hcell c rfl)

theorem forall₂_rel_map
    {α β γ : Type} {R : α → β → Prop} {S : α → γ → Prop} {g : β → γ}
    (h : ∀ a b, R a b → S a (g b)) {cells : List (Option α)}
    {values : List (Option β)}
    (hrel : List.Forall₂ (Option.Rel R) cells values) :
    List.Forall₂ (Option.Rel S) cells (values.map (Option.map g)) := by
  rw [List.forall₂_map_right_iff]
  refine hrel.imp ?_
  intro cell value hcell
  cases hcell with
  | none => exact .none
  | some hR => exact .some (h _ _ hR)

theorem forall₂_rel_right
    {α β γ : Type} {R : α → β → Prop} {S : β → γ → Prop} {g : β → γ}
    (h : ∀ a b, R a b → S b (g b)) {cells : List (Option α)}
    {values : List (Option β)}
    (hrel : List.Forall₂ (Option.Rel R) cells values) :
    List.Forall₂ (Option.Rel S) values (values.map (Option.map g)) := by
  induction hrel with
  | nil => exact .nil
  | cons hcell _ ih =>
      refine .cons ?_ ih
      cases hcell with
      | none => exact .none
      | some hR => exact .some (h _ _ hR)

theorem decimalArb_eq_some
    {field : ArrowField} {decimal : DecimalArbField}
    (h : field.decimalArb = some decimal) :
    field.dataType = .leaf .largeBinary := by
  unfold ArrowField.decimalArb at h
  split at h
  case h_1 htype _ => exact htype
  case h_2 => cases h

theorem legacyWideIntKind_eq_some
    {field : ArrowField} {kind : NativeIntKind}
    (h : field.legacyWideIntKind = some kind) :
    field.dataType = .leaf (.fixedSizeBinary 32) := by
  unfold ArrowField.legacyWideIntKind at h
  split at h
  case h_1 htype _ => exact htype
  case h_2 => cases h

section DecimalArbLeaf

variable {source target : ArrowField} {decimal : DecimalArbField}
variable (htarget : target.decimalArb = some decimal)
variable {cells : List (Option Cell)}
variable
  (hfits : ∀ cell ∈ cells, ∀ c ∈ cell, FitsLeaf parse source target c)

include htarget in
theorem sourceMeaning_eq_of_decimalMeaning
    {c : Cell} {bytes : List UInt8}
    (h : decimalMeaning decimal.scale bytes =
      encodedMeaning parse source decimal c) :
    sourceMeaning parse source target c =
      targetMeaning target (.bytes bytes) := by
  simp only [sourceMeaning, targetMeaning, htarget, h]

include htarget hfits

theorem clickhouseNativeToDecimalArb_spec
    (hcells : ∀ cell ∈ cells, ∀ c ∈ cell, c.OfType (.fixedSizeBinary 32))
    (hnumbers : SameNumbers source target cells)
    (hkind : decimal.nativeIntKind.isSome) :
    ∃ out, clickhouseNativeToDecimalArb cells decimal = .ok out ∧
      List.Forall₂
        (Option.Rel fun c c' =>
          sourceMeaning parse source target c = targetMeaning target c')
        cells out := by
  obtain ⟨kind, hkind⟩ := Option.isSome_iff_exists.mp hkind
  have hwords : ∀ cell ∈ cells, ∀ c ∈ cell, ∃ word, c.word? = some word ∧
      (c = .word word ∧ decimal.Holds (NativeInt.nativeValue kind word) ∧
        encodedMeaning parse source decimal c =
          .number (DecimalArbValue.fromBigintAndScale
            (NativeInt.nativeValue kind word) decimal.scale).value) := by
    intro cell hcell c hc
    have htype := hcells cell hcell c hc
    have hfit := hfits cell hcell c hc
    cases c with
    | word word =>
        simp only [FitsLeaf, htarget] at hfit
        cases hlegacy : source.legacyWideIntKind with
        | none =>
            simp only [hlegacy] at hfit
            exact ⟨word, rfl, rfl, hfit kind hkind,
              by simp only [encodedMeaning, hlegacy, hkind]⟩
        | some sourceKind =>
            obtain rfl : cell = some (.word word) := hc
            have hsame := hnumbers decimal htarget kind hkind sourceKind
              hlegacy word hcell
            simp only [hlegacy] at hfit
            refine ⟨word, rfl, rfl, ?_,
              by simp only [encodedMeaning, hlegacy, hsame]⟩
            rw [DecimalArbField.Holds, DecimalArbValue.checkFits_eq_ok_iff,
              hsame]
            exact ⟨decimal.valid, hfit⟩
    | bytes value => exact absurd rfl htype.1
    | integer value => exact htype.elim
    | text value => exact htype.elim
    | other code => exact htype.elim
  obtain ⟨words, hdowncast, hrel⟩ :
      ∃ words, downcast Cell.word? decimal.name cells = .ok words ∧ _ :=
    downcast_eq_ok hwords
  have hread := (NativeInt.clickhouseNativeToDecimalArb_eq_ok_iff hkind).mpr
    (forall₂_rel_right
      (g := fun word => DecimalArbValue.encodeDigits
        (NativeInt.nativeValue kind word))
      (fun _ _ h => ⟨h.2.1, rfl⟩) hrel)
  refine ⟨words.map (Option.map fun word =>
    .bytes (DecimalArbValue.encodeDigits (NativeInt.nativeValue kind word))),
    ?_, ?_⟩
  · simp only [clickhouseNativeToDecimalArb, hdowncast, bind, Except.bind,
      hread, Except.mapError, pure, Except.pure, List.map_map]
    congr 2
    funext word
    cases word with
    | none => rfl
    | some word => rfl
  · refine forall₂_rel_map ?_ hrel
    rintro _ word ⟨rfl, -, hmeaning⟩
    apply sourceMeaning_eq_of_decimalMeaning htarget
    rw [hmeaning]
    simp only [decimalMeaning, DecimalArbValue.decodeDigits_encodeDigits]

theorem clickhouseDecimalToDecimalArb_spec
    {scale : ℤ} {type : LeafType} (hsource : source.dataType = .leaf type)
    (htype : (∃ precision, type = .decimal128 precision scale) ∨
      ∃ precision, type = .decimal256 precision scale)
    (hcells : ∀ cell ∈ cells, ∀ c ∈ cell, c.OfType type) :
    ∃ out, clickhouseDecimalToDecimalArb cells scale decimal = .ok out ∧
      List.Forall₂
        (Option.Rel fun c c' =>
          sourceMeaning parse source target c = targetMeaning target c')
        cells out := by
  have hconvert : ∀ cell ∈ cells, ∀ c ∈ cell, ∃ digits bytes,
      c.integer? = some digits ∧
        decimalCell decimal scale digits = .ok bytes ∧
        sourceMeaning parse source target c =
          targetMeaning target (.bytes bytes) := by
    intro cell hcell c hc
    have hof := hcells cell hcell c hc
    have hfit := hfits cell hcell c hc
    obtain ⟨digits, rfl⟩ : ∃ digits, c = .integer digits := by
      rcases htype with ⟨_, rfl⟩ | ⟨_, rfl⟩ <;>
        cases c with
        | integer digits => exact ⟨digits, rfl⟩
        | _ => exact hof.elim
    have hchecks : (DecimalArbValue.fromBigintAndScale digits scale).checkFits
        decimal.precision decimal.scale decimal.name = .ok () := by
      rcases htype with ⟨_, rfl⟩ | ⟨_, rfl⟩ <;>
        simpa only [FitsLeaf, htarget, hsource] using hfit
    obtain ⟨bytes, hbytes, hmeaning⟩ := appendValue_meaning hchecks
    refine ⟨digits, bytes, rfl, ?_, ?_⟩
    · simp only [decimalCell, hbytes, Except.mapError]
    · apply sourceMeaning_eq_of_decimalMeaning htarget
      rw [hmeaning]
      rcases htype with ⟨_, rfl⟩ | ⟨_, rfl⟩ <;>
        simp only [encodedMeaning, hsource]
  obtain ⟨integers, out, hdowncast, hout, hrel⟩ :
      ∃ integers out, downcast Cell.integer? decimal.name cells =
        .ok integers ∧ _ :=
    downcast_convertCells
      (R := fun c c' =>
        sourceMeaning parse source target c = targetMeaning target c')
      hconvert
  refine ⟨out, ?_, hrel⟩
  simp only [clickhouseDecimalToDecimalArb, hdowncast, bind, Except.bind,
    hout]

theorem clickhouseStringToDecimalArb_spec
    {type : LeafType} (htype : type = .utf8 ∨ type = .largeUtf8)
    (hcells : ∀ cell ∈ cells, ∀ c ∈ cell, c.OfType type) :
    ∃ out, clickhouseStringToDecimalArb parse cells decimal = .ok out ∧
      List.Forall₂
        (Option.Rel fun c c' =>
          sourceMeaning parse source target c = targetMeaning target c')
        cells out := by
  have hconvert : ∀ cell ∈ cells, ∀ c ∈ cell, ∃ text bytes,
      c.text? = some text ∧ textCell parse decimal text = .ok bytes ∧
        sourceMeaning parse source target c =
          targetMeaning target (.bytes bytes) := by
    intro cell hcell c hc
    have hof := hcells cell hcell c hc
    have hfit := hfits cell hcell c hc
    obtain ⟨text, rfl⟩ : ∃ text, c = .text text := by
      rcases htype with rfl | rfl <;>
        cases c with
        | text text => exact ⟨text, rfl⟩
        | _ => exact hof.elim
    simp only [FitsLeaf, htarget] at hfit
    obtain ⟨value, hparse, hchecks⟩ := hfit
    obtain ⟨bytes, hbytes, hmeaning⟩ := appendValue_meaning hchecks
    refine ⟨text, bytes, rfl, ?_, ?_⟩
    · simp only [textCell, hparse, hbytes, Except.mapError]
    · apply sourceMeaning_eq_of_decimalMeaning htarget
      rw [hmeaning, DecimalArbValue.fromBigdecimal,
        DecimalArbValue.value_canonicalize]
      simp only [encodedMeaning, hparse]
  obtain ⟨texts, out, hdowncast, hout, hrel⟩ :
      ∃ texts out, downcast Cell.text? decimal.name cells = .ok texts ∧ _ :=
    downcast_convertCells
      (R := fun c c' =>
        sourceMeaning parse source target c = targetMeaning target c')
      hconvert
  refine ⟨out, ?_, hrel⟩
  simp only [clickhouseStringToDecimalArb, hdowncast, bind, Except.bind, hout]

/-- A `decimal_arb` leaf in one of the ClickHouse encodings is converted. -/
theorem decimalArbLeaf_spec
    {type : LeafType} (hsource : source.dataType = .leaf type)
    (hcells : ∀ cell ∈ cells, ∀ c ∈ cell, c.OfType type)
    (hnumbers : SameNumbers source target cells)
    {converted : Except ConvertError (List (Option Cell))}
    (h : decimalArbLeaf parse cells type decimal = some converted) :
    ∃ out, converted = .ok out ∧
      List.Forall₂
        (Option.Rel fun c c' =>
          sourceMeaning parse source target c = targetMeaning target c')
        cells out := by
  unfold decimalArbLeaf at h
  split at h
  case h_1 =>
    split_ifs at h with hkind
    obtain rfl := Option.some.inj h
    exact clickhouseNativeToDecimalArb_spec htarget hfits hcells hnumbers
      hkind
  case h_2 precision scale =>
    obtain rfl := Option.some.inj h
    exact clickhouseDecimalToDecimalArb_spec htarget hfits hsource
      (.inl ⟨precision, rfl⟩) hcells
  case h_3 precision scale =>
    obtain rfl := Option.some.inj h
    exact clickhouseDecimalToDecimalArb_spec htarget hfits hsource
      (.inr ⟨precision, rfl⟩) hcells
  case h_4 =>
    obtain rfl := Option.some.inj h
    exact clickhouseStringToDecimalArb_spec htarget hfits (.inl rfl) hcells
  case h_5 =>
    obtain rfl := Option.some.inj h
    exact clickhouseStringToDecimalArb_spec htarget hfits (.inr rfl) hcells
  case h_6 => cases h

omit hfits in
/-- The check accepts exactly the encodings that are converted, and the
canonical bytes themselves. -/
theorem type_eq_of_decimalArbLeaf_eq_none
    {type : LeafType} (hsource : source.dataType = .leaf type)
    (hcompatible : isCompatibleColumn source target)
    (h : decimalArbLeaf parse cells type decimal = none) :
    type = .largeBinary := by
  have hbinary := decimalArb_eq_some htarget
  have harb : target.isDecimalArbField = true := by
    rw [ArrowField.isDecimalArbField, htarget]
    rfl
  have hkind : target.nativeIntKindFromField = decimal.nativeIntKind := by
    rw [ArrowField.nativeIntKindFromField, htarget]
    rfl
  unfold isCompatibleColumn at hcompatible
  rw [hsource, hbinary, isCompatibleDataType, Bool.or_eq_true] at hcompatible
  rcases hcompatible with hequal | hreads
  · simpa using hequal
  · simp only [clickhouseReadsAsDecimalArb, harb, if_true, hkind] at hreads
    cases type with
    | largeBinary => rfl
    | fixedSizeBinary width =>
        split at hreads
        case h_1 heq =>
          obtain rfl : width = 32 := by simpa using heq
          simp [decimalArbLeaf, hreads] at h
        all_goals simp_all
    | utf8 => cases h
    | largeUtf8 => cases h
    | decimal128 precision scale => cases h
    | decimal256 precision scale => cases h
    | binary => cases hreads
    | other name => cases hreads

end DecimalArbLeaf

theorem isCompatibleColumn_leaf
    {source target : ArrowField} {type : LeafType}
    (htarget : target.dataType = .leaf type)
    (h : isCompatibleColumn source target) :
    ∃ sourceType, source.dataType = .leaf sourceType ∧
      (sourceType = type ∨ target.isDecimalArbField) := by
  unfold isCompatibleColumn at h
  rw [htarget, isCompatibleDataType, Bool.or_eq_true] at h
  rcases h with hequal | hreads
  · exact ⟨type, by simpa using hequal, .inl rfl⟩
  · unfold clickhouseReadsAsDecimalArb at hreads
    split_ifs at hreads with harb
    split at hreads
    case h_6 => cases hreads
    all_goals exact ⟨_, ‹_›, .inr harb⟩

section Leaf

variable {source target : ArrowField} {type : LeafType}
variable {cells : List (Option Cell)}

/-- A leaf that is left alone keeps its values if its source says what the
target does. -/
theorem forall₂_meaning_self
    (hsource : source.dataType = .leaf type)
    (htarget : target.dataType = .leaf type)
    (hencoding : SameEncoding source target)
    (hcells : ∀ cell ∈ cells, ∀ c ∈ cell, c.OfType type)
    (hfits : ∀ cell ∈ cells, ∀ c ∈ cell, FitsLeaf parse source target c) :
    List.Forall₂
      (Option.Rel fun c c' =>
        sourceMeaning parse source target c = targetMeaning target c')
      cells cells := by
  apply forall₂_rel_self
  intro cell hcell c hc
  have hof := hcells cell hcell c hc
  have hfit := hfits cell hcell c hc
  cases harb : target.decimalArb with
  | some decimal =>
      have hbinary := decimalArb_eq_some harb
      obtain rfl : type = .largeBinary := by
        rw [htarget] at hbinary
        simpa using hbinary
      cases c with
      | bytes value =>
          have hscale : (source.decimalArb.getD decimal).scale =
              decimal.scale := by
            have hparameters := hencoding.decimalArb
            simp only [decimalArbParameters, harb, Option.map_some]
              at hparameters
            obtain ⟨own, hown, heq⟩ := Option.map_eq_some_iff.mp hparameters
            rw [hown, Option.getD_some]
            exact (Prod.mk.inj heq).2
          simp only [sourceMeaning, targetMeaning, harb, encodedMeaning,
            hscale]
      | _ => exact hof.elim
  | none =>
      cases hkind : target.legacyWideIntKind with
      | none =>
          cases c <;> simp only [sourceMeaning, targetMeaning, harb, hkind]
      | some kind =>
          have hsourceKind := hencoding.legacyWideInt.trans hkind
          cases c <;>
            simp only [sourceMeaning, targetMeaning, harb, hkind, hsourceKind]

/-- The little-endian words of a retired wide integer are flipped. -/
theorem reverseFixedSizeBinary32_spec
    (parse : String → Option BigDecimal)
    (hcells : ∀ cell ∈ cells, ∀ c ∈ cell, c.OfType (.fixedSizeBinary 32))
    {kind : NativeIntKind} (hkind : target.legacyWideIntKind = some kind)
    (hnone : source.legacyWideIntKind = none) :
    ∃ out, reverseFixedSizeBinary32 cells target = .ok out ∧
      List.Forall₂
        (Option.Rel fun c c' =>
          sourceMeaning parse source target c = targetMeaning target c')
        cells out := by
  have harb : target.decimalArb = none := by
    cases harb : target.decimalArb with
    | none => rfl
    | some decimal =>
        have hbinary := decimalArb_eq_some harb
        rw [legacyWideIntKind_eq_some hkind] at hbinary
        simp at hbinary
  have hwords : ∀ cell ∈ cells, ∀ c ∈ cell, ∃ word,
      c.word? = some word ∧ c = .word word := by
    intro cell hcell c hc
    have hof := hcells cell hcell c hc
    cases c with
    | word word => exact ⟨word, rfl, rfl⟩
    | bytes value => exact absurd rfl hof.1
    | _ => exact hof.elim
  obtain ⟨words, hdowncast, hrel⟩ :
      ∃ words, downcast Cell.word? target.name cells = .ok words ∧ _ :=
    downcast_eq_ok hwords
  refine ⟨words.map (Option.map fun word =>
    .word (NativeInt.reversed word)), ?_, ?_⟩
  · simp only [reverseFixedSizeBinary32, hdowncast, bind, Except.bind, pure,
      Except.pure]
  · refine forall₂_rel_map ?_ hrel
    rintro _ word rfl
    simp only [sourceMeaning, targetMeaning, harb, hkind, hnone]
    rfl

end Leaf

theorem sameEncoding_self (field : ArrowField) : SameEncoding field field :=
  ⟨rfl, rfl⟩

/-- A leaf that is neither converted nor flipped has the encoding of the
target. -/
theorem DeclaresTarget.sameEncoding
    {source target : ArrowField} (h : DeclaresTarget source target)
    (hsame : source.dataType = target.dataType)
    (hflip : target.legacyWideIntKind.isSome →
      source.legacyWideIntKind.isSome) :
    SameEncoding source target := by
  constructor
  · by_cases hbinary : source.dataType = .leaf .largeBinary
    · exact h.largeBinary hbinary
    · have hnone : ∀ field : ArrowField, field.dataType ≠ .leaf .largeBinary →
          decimalArbParameters field = none := by
        intro field hfield
        cases harb : field.decimalArb with
        | none => rw [decimalArbParameters, harb, Option.map_none]
        | some decimal => exact absurd (decimalArb_eq_some harb) hfield
      rw [hnone source hbinary, hnone target (hsame ▸ hbinary)]
  · cases hlegacy : source.legacyWideIntKind with
    | some kind =>
        refine (h.legacyWideInt ?_ kind hlegacy).symm
        cases harb : target.decimalArb with
        | none => rfl
        | some decimal =>
            have hword := legacyWideIntKind_eq_some hlegacy
            rw [hsame, decimalArb_eq_some harb] at hword
            simp at hword
    | none =>
        cases hkind : target.legacyWideIntKind with
        | none => rfl
        | some kind => simp [hkind, hlegacy] at hflip

section Leaf

variable {source : ArrowField} {name : String} {nullable : Bool}
variable {metadata : Metadata} {type : LeafType} {cells : List (Option Cell)}

/-- A leaf that is rebuilt is a column of the target. -/
theorem converted_rebuilt
    {out : List (Option Cell)}
    (hout : List.Forall₂
      (Option.Rel fun c c' =>
        sourceMeaning parse source
            (.mk name nullable metadata (.leaf type)) c =
          targetMeaning (.mk name nullable metadata (.leaf type)) c')
      cells out) :
    Converted parse source (.mk name nullable metadata (.leaf type))
      (.leaf cells)
      (some (.leaf out, .mk name nullable metadata (.leaf type))) := by
  refine ⟨⟨rfl, sameEncoding_self _⟩, hout, validity_eq_of_forall₂ hout, ?_⟩
  rintro _ ⟨⟩
  exact ⟨rfl, rfl⟩

/-- A leaf that is left alone is a column of the target if it declares so. -/
theorem converted_kept
    (hsource : source.dataType = .leaf type)
    (hdeclares : DeclaresTarget source
      (.mk name nullable metadata (.leaf type)))
    (hflip : (ArrowField.mk name nullable metadata
      (.leaf type)).legacyWideIntKind.isSome →
        source.legacyWideIntKind.isSome)
    (hcells : ∀ cell ∈ cells, ∀ c ∈ cell, c.OfType type)
    (hfits : ∀ cell ∈ cells, ∀ c ∈ cell, FitsLeaf parse source
      (.mk name nullable metadata (.leaf type)) c) :
    Converted parse source (.mk name nullable metadata (.leaf type))
      (.leaf cells) none := by
  have hencoding := hdeclares.sameEncoding hsource hflip
  exact ⟨⟨hsource, hencoding⟩,
    forall₂_meaning_self hsource rfl hencoding hcells hfits, rfl, by simp⟩

/-- A leaf column that the check accepts. -/
theorem leafToTarget_spec
    {column : Column}
    (hcompatible :
      isCompatibleColumn source (.mk name nullable metadata (.leaf type)))
    (hcovers : NormalizerCovers source column
      (.mk name nullable metadata (.leaf type)))
    (hcolumn : OfType source.dataType column)
    (hfits : Fits parse source column
      (.mk name nullable metadata (.leaf type))) :
    ∃ out, leafToTarget parse column source
        (.mk name nullable metadata (.leaf type)) = .ok out ∧
      Converted parse source (.mk name nullable metadata (.leaf type))
        column out := by
  obtain ⟨sourceType, hsource, htype⟩ :=
    isCompatibleColumn_leaf rfl hcompatible
  rw [hsource] at hcolumn
  obtain @⟨_, cells, hcells⟩ := hcolumn
  simp only [Fits, NormalizerCovers] at hfits hcovers
  obtain ⟨hdeclares, hnumbers⟩ := hcovers
  simp only [leafToTarget, hsource]
  have hkept : sourceType = type →
      ((ArrowField.mk name nullable metadata
        (.leaf type)).legacyWideIntKind.isSome →
          source.legacyWideIntKind.isSome) →
      Converted parse source (.mk name nullable metadata (.leaf type))
        (.leaf cells) none := by
    rintro rfl hflip
    exact converted_kept hsource hdeclares hflip hcells hfits
  cases harb : (ArrowField.mk name nullable metadata
      (.leaf type)).decimalArb with
  | some decimal =>
      have hbinary := decimalArb_eq_some harb
      simp only
      cases hleaf : decimalArbLeaf parse cells sourceType decimal with
      | some converted =>
          obtain ⟨out, rfl, hout⟩ :=
            decimalArbLeaf_spec harb hfits hsource hcells hnumbers hleaf
          exact ⟨_, rfl, converted_rebuilt hout⟩
      | none =>
          refine ⟨none, rfl, hkept ?_ ?_⟩
          · rw [type_eq_of_decimalArbLeaf_eq_none harb hsource hcompatible
              hleaf]
            simpa [ArrowField.dataType] using hbinary.symm
          · intro hlegacy
            obtain ⟨kind, hkind⟩ := Option.isSome_iff_exists.mp hlegacy
            rw [legacyWideIntKind_eq_some hkind] at hbinary
            simp at hbinary
  | none =>
      have hsame : sourceType = type := by
        rcases htype with htype | harb'
        · exact htype
        · simp [ArrowField.isDecimalArbField, harb] at harb'
      simp only
      split_ifs with hflip
      · obtain ⟨rfl, hlegacy, hnone⟩ := hflip
        obtain ⟨kind, hkind⟩ := Option.isSome_iff_exists.mp hlegacy
        obtain ⟨out, hout, hrel⟩ := reverseFixedSizeBinary32_spec parse
          hcells hkind (Option.isNone_iff_eq_none.mp hnone)
        refine ⟨some (.leaf out, _), ?_, converted_rebuilt hrel⟩
        rw [hout]
        rfl
      · refine ⟨none, rfl, hkept hsame ?_⟩
        intro hlegacy
        obtain ⟨kind, hkind⟩ := Option.isSome_iff_exists.mp hlegacy
        have hword := legacyWideIntKind_eq_some hkind
        by_contra hnone
        exact hflip ⟨hsame.trans (by simpa [ArrowField.dataType] using hword),
          hlegacy, by simpa using hnone⟩

end Leaf

end Conversion

end HybridSchema

end Streamling
