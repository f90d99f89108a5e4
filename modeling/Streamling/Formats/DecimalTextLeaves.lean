import Mathlib
import Streamling.Formats.DecimalText
import Streamling.Types.ArrowConversion
import Streamling.Support.DecimalCodec

/-!
# The leaves of the text bridge

Which fields the bridge walks, which it refuses, and which it hands over as
they are stored; what a converted leaf is in either direction; and that the
text of a decimal that fits its field gives the same bytes back.
-/

namespace Streamling

namespace ArrowTree

open DecimalArbValue

/-! ## Fields -/

mutual

/-- Every decimal stands below lists, structs and maps only. -/
def decimalsPlain : ArrowField → Bool
  | .wide _ _ _ _ => true
  | .plain _ _ _ type => typeDecimalsPlain type

def typeDecimalsPlain : DataType → Bool
  | .leaf _ => true
  | .list layout child =>
      (layout.plain || !fieldContainsDecimalArb child) && decimalsPlain child
  | .map _ fields _ | .struct fields => allDecimalsPlain fields
  | .dictionary _ values => !typeContainsDecimalArb values
  | .runEndEncoded _ values => !fieldContainsDecimalArb values
  | .union fields _ => !anyContains isDecimalArb fields

def allDecimalsPlain : List ArrowField → Bool
  | [] => true
  | field :: fields => decimalsPlain field && allDecimalsPlain fields

end

mutual

/-- Some run-end encoding holds decimals directly, outside of unions. -/
def encodesDecimals : ArrowField → Bool
  | .wide _ _ _ _ => false
  | .plain _ _ _ type => typeEncodesDecimals type

def typeEncodesDecimals : DataType → Bool
  | .leaf _ | .union _ _ => false
  | .list _ child => encodesDecimals child
  | .map _ fields _ | .struct fields => anyEncodesDecimals fields
  | .dictionary _ values => typeEncodesDecimals values
  | .runEndEncoded _ (.plain _ _ _ values) => typeEncodesDecimals values
  | .runEndEncoded _ (.wide _ _ _ type) => isDecimalArb type

def anyEncodesDecimals : List ArrowField → Bool
  | [] => false
  | field :: fields => encodesDecimals field || anyEncodesDecimals fields

end

mutual

/-- Some union holds decimals. -/
def unitesDecimals : ArrowField → Bool
  | .wide _ _ _ _ => false
  | .plain _ _ _ type => typeUnitesDecimals type

def typeUnitesDecimals : DataType → Bool
  | .leaf _ => false
  | .union fields _ => anyContains isDecimalArb fields
  | .list _ child => unitesDecimals child
  | .map _ fields _ | .struct fields => anyUnitesDecimals fields
  | .dictionary _ values => typeUnitesDecimals values
  | .runEndEncoded _ (.plain _ _ _ values) => typeUnitesDecimals values
  | .runEndEncoded _ (.wide _ _ _ _) => false

def anyUnitesDecimals : List ArrowField → Bool
  | [] => false
  | field :: fields => unitesDecimals field || anyUnitesDecimals fields

end

mutual

theorem encodesDecimals_of_not_contains : (field : ArrowField) →
    fieldContainsDecimalArb field = false →
    encodesDecimals field = false ∧ unitesDecimals field = false
  | .wide _ _ _ _, _ => ⟨rfl, rfl⟩
  | .plain _ _ _ type, h => typeEncodesDecimals_of_not_contains type h

theorem typeEncodesDecimals_of_not_contains : (type : DataType) →
    typeContainsDecimalArb type = false →
    typeEncodesDecimals type = false ∧ typeUnitesDecimals type = false
  | .leaf _, _ => ⟨rfl, rfl⟩
  | .list _ child, h => encodesDecimals_of_not_contains child h
  | .map _ fields _, h => anyEncodesDecimals_of_not_contains fields h
  | .struct fields, h => anyEncodesDecimals_of_not_contains fields h
  | .dictionary _ values, h => typeEncodesDecimals_of_not_contains values h
  | .runEndEncoded _ (.plain _ _ _ values), h =>
      typeEncodesDecimals_of_not_contains values h
  | .runEndEncoded _ (.wide _ _ _ _), h => ⟨h, rfl⟩
  | .union _ _, h => ⟨rfl, h⟩

theorem anyEncodesDecimals_of_not_contains : (fields : List ArrowField) →
    anyContains isDecimalArb fields = false →
    anyEncodesDecimals fields = false ∧ anyUnitesDecimals fields = false
  | [], _ => ⟨rfl, rfl⟩
  | field :: fields, h => by
      simp only [anyContains, Bool.or_eq_false_iff] at h
      have hfield := encodesDecimals_of_not_contains field h.1
      have hfields := anyEncodesDecimals_of_not_contains fields h.2
      simp [anyEncodesDecimals, anyUnitesDecimals, hfield, hfields]

end

/-! ## Encodings -/

/-- The type with an encoding taken off, if it has one. -/
def unwrapped (type : DataType) : DataType :=
  (plainLayout type).getD type

/-- The extension type right below the encodings of a type. -/
def encodedLeaf : DataType → Option WideType
  | .dictionary _ values => encodedLeaf values
  | .runEndEncoded _ (.plain _ _ _ values) => encodedLeaf values
  | .runEndEncoded _ (.wide _ _ _ type) => some type
  | .leaf _ | .list _ _ | .map _ _ _ | .struct _ | .union _ _ => none

/-- An encoding is cast off; right below it stands an extension type, or a
type that contains decimals. -/
inductive CastOff (cast : Column → DataType → Option Column) :
    ArrowField → Column → ArrowField → Column → Prop
  | layout {name nullable metadata type plain a b} :
      plainLayout type = some plain → typeContainsDecimalArb plain = true →
      cast a plain = some b →
      CastOff cast (.plain name nullable metadata type) a
        (.plain name nullable metadata plain) b
  | leaf {name nullable metadata type wide a b} :
      encodedLeaf type = some wide → cast a (.leaf wide.storage) = some b →
      CastOff cast (.plain name nullable metadata type) a
        (.wide name nullable [] wide) b

/-- What is known of the cast of Arrow where it takes an encoding off. -/
structure CastUnwraps (cast : Column → DataType → Option Column) : Prop where
  keeps : ∀ a plain b, a.Valid → plainLayout a.dataType = some plain →
    cast a plain = some b →
    b.Valid ∧ b.dataType = plain ∧ b.validity = a.validity
  empty : ∀ type plain, plainLayout type = some plain →
    ∃ b, cast (.encoded type [] []) plain = some b ∧ b.Empty

theorem plainLayout_of_encodedLeaf : (type : DataType) → (wide : WideType) →
    encodedLeaf type = some wide →
    plainLayout type = some (.leaf wide.storage)
  | .dictionary _ values, wide, h => by
      have hvalues := plainLayout_of_encodedLeaf values wide h
      simp [plainLayout, hvalues]
  | .runEndEncoded _ (.plain _ _ _ values), wide, h => by
      have hvalues := plainLayout_of_encodedLeaf values wide h
      simp [plainLayout, hvalues]
  | .runEndEncoded _ (.wide _ _ _ type), wide, h => by
      obtain rfl := Option.some.inj h
      rfl
  | .leaf _, _, h | .list _ _, _, h | .map _ _ _, _, h | .struct _, _, h
  | .union _ _, _, h => by
      simp [encodedLeaf] at h

/-- The decimals of an encoded type without decimals below the encoding are
right below it. -/
theorem encodedLeaf_of_not_contains : (type plain : DataType) →
    plainLayout type = some plain → typeContainsDecimalArb type = true →
    typeContainsDecimalArb plain = false →
    ∃ wide, encodedLeaf type = some wide ∧ isDecimalArb wide = true ∧
      typeEncodesDecimals type = true ∧ typeUnitesDecimals type = false
  | .dictionary _ values, plain, hplain, hcontains, hnot => by
      cases hvalues : plainLayout values with
      | none =>
          obtain rfl : values = plain := by
            simpa [plainLayout, hvalues] using hplain
          exact absurd hcontains (by
            simpa [typeContainsDecimalArb, DataType.contains] using hnot)
      | some inner =>
          obtain rfl : inner = plain := by
            simpa [plainLayout, hvalues] using hplain
          exact encodedLeaf_of_not_contains values inner hvalues hcontains hnot
  | .runEndEncoded _ (.plain _ _ _ values), plain, hplain, hcontains,
      hnot => by
      cases hvalues : plainLayout values with
      | none =>
          obtain rfl : values = plain := by
            simpa [plainLayout, hvalues] using hplain
          exact absurd hcontains (by
            simpa [typeContainsDecimalArb, DataType.contains,
              ArrowField.contains] using hnot)
      | some inner =>
          obtain rfl : inner = plain := by
            simpa [plainLayout, hvalues] using hplain
          exact encodedLeaf_of_not_contains values inner hvalues hcontains hnot
  | .runEndEncoded _ (.wide _ _ _ type), plain, hplain, hcontains, hnot =>
      ⟨type, rfl, hcontains, hcontains, rfl⟩
  | .list .listView child, plain, hplain, hcontains, hnot => by
      obtain rfl := Option.some.inj hplain
      exact absurd hcontains (by
        simpa [typeContainsDecimalArb, DataType.contains] using hnot)
  | .list .largeListView child, plain, hplain, hcontains, hnot => by
      obtain rfl := Option.some.inj hplain
      exact absurd hcontains (by
        simpa [typeContainsDecimalArb, DataType.contains] using hnot)
  | .list .list _, _, hplain, _, _ | .list .largeList _, _, hplain, _, _
  | .list (.fixedSizeList _) _, _, hplain, _, _ | .leaf _, _, hplain, _, _
  | .map _ _ _, _, hplain, _, _ | .struct _, _, hplain, _, _
  | .union _ _, _, hplain, _, _ => by
      simp [plainLayout] at hplain

/-- An array whose type is encoded is opaque. -/
theorem encoded_of_plainLayout
    {a : Column} {plain : DataType} (hvalid : a.Valid)
    (hplain : plainLayout a.dataType = some plain) :
    ∃ index validity, a = .encoded a.dataType index validity := by
  cases a with
  | encoded type index validity => exact ⟨index, validity, rfl⟩
  | list layout child offsets validity values =>
      have hlayout := hvalid.1
      cases layout <;>
        simp_all [Column.dataType, plainLayout, ListLayout.plain]
  | leaf | map | struct => simp [Column.dataType, plainLayout] at hplain

/-! ## Leaves -/

section

variable (plainString : BigDecimal → String)
  (parse : String → Option BigDecimal)

/-- The text of every decimal of a leaf. -/
def LeafAsText : WideType → Column → Column → Prop
  | .decimalArb params _, a, a' => ∃ cells texts,
      a = .leaf .largeBinary cells ∧ a' = .leaf .utf8 texts ∧
        List.Forall₂ (fun cell text =>
          leafText plainString params.scale cell = .ok text) cells texts
  | .legacyWideInt _, _, _ => False

/-- The canonical bytes of every text of a leaf. -/
def LeafAsBytes : WideType → Column → Column → Prop
  | .decimalArb params _, a, a' => ∃ texts cells,
      a = .leaf .utf8 texts ∧
        a' = .leaf .largeBinary (cells.map (Option.map Cell.bytes)) ∧
        List.Forall₂ (fun text cell => ∃ value,
          parsedCell parse text = .ok value ∧
            Stores params.precision params.scale value cell) texts cells
  | .legacyWideInt _, _, _ => False

end

/-- The bytes of a decimal that fits. -/
def CanonicalCell (params : Arrow.DecimalArbParams) (cell : Cell) : Prop :=
  ∃ value : DecimalArbValue,
    FitsAt params.precision params.scale value.value ∧
      cell = .bytes (value.toCanonicalBytesAtScale params.scale)

mutual

/-- Every decimal that is not null, also under a null parent, is stored by its
canonical bytes and fits its field. -/
def Canonical : ArrowField → Column → Prop
  | .wide _ _ _ (.decimalArb params _), .leaf _ cells =>
      ∀ cell, some cell ∈ cells → CanonicalCell params cell
  | .plain _ _ _ type, a => TypeCanonical type a
  | .wide _ _ _ _, _ => True

def TypeCanonical : DataType → Column → Prop
  | .list _ child, .list _ _ _ _ values => Canonical child values
  | .map _ fields _, .map _ _ _ _ _ (.struct _ _ columns) =>
      AllCanonical fields columns
  | .struct fields, .struct _ _ columns => AllCanonical fields columns
  | _, _ => True

def AllCanonical : List ArrowField → List Column → Prop
  | field :: fields, column :: columns =>
      Canonical field column ∧ AllCanonical fields columns
  | _, _ => True

end

section

variable {plainString : BigDecimal → String}
  {parse : String → Option BigDecimal}

theorem reported_of_leafText
    {scale : ℕ} {cell : Option Cell} {e : TreeError}
    (h : leafText plainString scale cell = .error e) : e.Reported := by
  rcases cell with _ | cell
  · exact absurd h (by simp [leafText])
  · rcases cell with bytes | text | code
    · cases hbytes : fromCanonicalBytesAtScale bytes scale with
      | error cause =>
          simp only [leafText, hbytes, Except.mapError, bind, Except.bind,
            Except.error.injEq] at h
          rw [← h]
          trivial
      | ok value =>
          simp [leafText, hbytes, Except.mapError, bind, Except.bind, pure,
            Except.pure] at h
    · obtain rfl := Except.error.inj h
      trivial
    · obtain rfl := Except.error.inj h
      trivial

theorem reported_of_parsedCell
    {text : Option Cell} {e : TreeError}
    (h : parsedCell parse text = .error e) : e.Reported := by
  unfold parsedCell at h
  split at h
  · simp at h
  · split at h
    · obtain rfl := Except.error.inj h
      trivial
    · simp at h
  · obtain rfl := Except.error.inj h
    trivial

theorem isSome_of_parsedCell
    {text : Option Cell} {value : Option DecimalArbValue}
    {precision scale : ℕ} {cell : Option (List UInt8)}
    (h : parsedCell parse text = .ok value)
    (hstores : Stores precision scale value cell) :
    text.isSome = cell.isSome := by
  have hvalue : text.isSome = value.isSome := by
    unfold parsedCell at h
    split at h
    · obtain rfl := Except.ok.inj h
      rfl
    · split at h
      · simp at h
      · obtain rfl := Except.ok.inj h
        rfl
    · simp at h
  rcases value with _ | value
  · rw [hvalue, show cell = none from hstores]
    rfl
  · rw [hvalue, hstores.2]
    rfl

theorem leafText_isSome
    {scale : ℕ} {cell text : Option Cell}
    (h : leafText plainString scale cell = .ok text) :
    text.isSome = cell.isSome ∧ ∀ c ∈ text, Cell.Fits .utf8 c := by
  rcases cell with _ | cell
  · obtain rfl := Except.ok.inj h
    simp
  · rcases cell with bytes | text | code
    · cases hbytes : fromCanonicalBytesAtScale bytes scale with
      | error cause =>
          simp [leafText, hbytes, Except.mapError, bind, Except.bind] at h
      | ok value =>
          simp only [leafText, hbytes, Except.mapError, bind, Except.bind,
            pure, Except.pure, Except.ok.injEq] at h
          rw [← h]
          simp [Cell.Fits]
    · simp [leafText] at h
    · simp [leafText] at h

/-- The text of a decimal that fits is read as a value of the same bytes. -/
theorem exists_leafText_of_canonicalCell
    (hparse : DecimalParser parse) (hprint : DecimalPrinter plainString)
    {params : Arrow.DecimalArbParams} {cell : Cell}
    (h : CanonicalCell params cell) :
    ∃ text value, leafText plainString params.scale (some cell) =
        .ok (some (.text text)) ∧
      parsedCell parse (some (.text text)) = .ok (some value) ∧
      ∃ bytes, cell = .bytes bytes ∧
        Stores params.precision params.scale (some value) (some bytes) := by
  obtain ⟨v, hfits, rfl⟩ := h
  obtain ⟨m, hm, hlt⟩ := hfits
  have hscale : params.scale < 2 ^ 63 := by
    have hvalid := validatePrecisionScale_eq_ok_iff.mp params.valid
    simp only [maxPrecision] at hvalid
    omega
  have hstored : v.toCanonicalBytesAtScale params.scale = encodeDigits m :=
    toCanonicalBytesAtScale_of_units hm
  set w := fromBigintAndScale m params.scale with hw
  have hdecoded : fromCanonicalBytesAtScale
      (v.toCanonicalBytesAtScale params.scale) params.scale = .ok w := by
    rw [hstored]
    exact fromCanonicalBytesAtScale_encodeDigits m params.scale
  have hwvalue : w.value = v.value :=
    (value_eq_iff_units (value_fromBigintAndScale_mul m params.scale)
      hm).mpr rfl
  have hwscale : 0 ≤ w.bd.scale ∧ w.bd.scale < 2 ^ 63 := by
    rw [hw, fromBigintAndScale, canonicalize]
    split
    · norm_num
    · refine ⟨Int.natCast_nonneg _, ?_⟩
      show (params.scale : ℤ) < 2 ^ 63
      exact_mod_cast hscale
  obtain ⟨d, hd, hdvalue⟩ := hparse.parse_print hprint hwscale.1 hwscale.2
  have hvalue : (fromBigdecimal d).value = v.value := by
    rw [fromBigdecimal, value_canonicalize, hdvalue]
    exact hwvalue
  refine ⟨plainString w.bd, fromBigdecimal d, ?_, ?_,
    v.toCanonicalBytesAtScale params.scale, rfl, ?_, ?_⟩
  · simp only [leafText, hdecoded, Except.mapError, bind, Except.bind]
    rfl
  · simp only [parsedCell, hd]
  · rw [hvalue]
    exact ⟨m, hm, hlt⟩
  · rw [toCanonicalBytesAtScale_congr ⟨m, hm, hlt⟩ hvalue.symm]

end

end ArrowTree

end Streamling
