import Mathlib
import Streamling.Types.NativeInt

/-!
# Arrow data types and fields

The types of columns, with the nested fields of lists, maps and structs.  A
field has a name, says whether it may be null, and carries metadata.  Of the
metadata the extension type and the `native_int_kind` hint are read here;
comparing fields compares all of it.  A `decimal_arb` extension always comes
with a valid precision and scale.
-/

namespace Streamling

namespace Arrow

/-- Types without a child. -/
inductive LeafType where
  | utf8
  | largeUtf8
  | binary
  | largeBinary
  | fixedSizeBinary (width : ℕ)
  | decimal128 (precision : ℕ) (scale : ℤ)
  | decimal256 (precision : ℕ) (scale : ℤ)
  | other (name : String)
  deriving DecidableEq, Repr

/-- The parameters of the extension `streamling.decimal_arb`. -/
structure DecimalArbParams where
  precision : ℕ
  scale : ℕ
  valid : validatePrecisionScale precision scale = .ok ()
  deriving DecidableEq

inductive Extension where
  | none
  | decimalArb (params : DecimalArbParams)
  | legacyWideInt (kind : NativeIntKind)
  | other (name : String)
  deriving DecidableEq

structure Metadata where
  extension : Extension
  nativeIntKind : Option NativeIntKind
  rest : List (String × String)
  deriving DecidableEq

def Metadata.empty : Metadata :=
  ⟨.none, none, []⟩

mutual

inductive DataType where
  | leaf (type : LeafType)
  | list (child : ArrowField)
  | largeList (child : ArrowField)
  | fixedSizeList (child : ArrowField) (size : ℕ)
  | map (entries : ArrowField) (sorted : Bool)
  | struct (fields : List ArrowField)

inductive ArrowField where
  | mk (name : String) (nullable : Bool) (metadata : Metadata)
      (dataType : DataType)

end

namespace ArrowField

def name : ArrowField → String
  | .mk name _ _ _ => name

def nullable : ArrowField → Bool
  | .mk _ nullable _ _ => nullable

def metadata : ArrowField → Metadata
  | .mk _ _ metadata _ => metadata

def dataType : ArrowField → DataType
  | .mk _ _ _ dataType => dataType

end ArrowField

/-! ## Equality of types -/

mutual

def DataType.decEq : (a b : DataType) → Decidable (a = b)
  | .leaf a, .leaf b =>
      if h : a = b then isTrue (by rw [h]) else isFalse (by simp [h])
  | .list a, .list b =>
      match ArrowField.decEq a b with
      | isTrue h => isTrue (by rw [h])
      | isFalse h => isFalse (by simp [h])
  | .largeList a, .largeList b =>
      match ArrowField.decEq a b with
      | isTrue h => isTrue (by rw [h])
      | isFalse h => isFalse (by simp [h])
  | .fixedSizeList a m, .fixedSizeList b n =>
      match ArrowField.decEq a b with
      | isTrue h =>
          if hsize : m = n then isTrue (by rw [h, hsize])
          else isFalse (by simp [hsize])
      | isFalse h => isFalse (by simp [h])
  | .map a m, .map b n =>
      match ArrowField.decEq a b with
      | isTrue h =>
          if hsorted : m = n then isTrue (by rw [h, hsorted])
          else isFalse (by simp [hsorted])
      | isFalse h => isFalse (by simp [h])
  | .struct a, .struct b =>
      match fieldsDecEq a b with
      | isTrue h => isTrue (by rw [h])
      | isFalse h => isFalse (by simp [h])
  | .leaf _, .list _ | .leaf _, .largeList _ | .leaf _, .fixedSizeList _ _
  | .leaf _, .map _ _ | .leaf _, .struct _
  | .list _, .leaf _ | .list _, .largeList _ | .list _, .fixedSizeList _ _
  | .list _, .map _ _ | .list _, .struct _
  | .largeList _, .leaf _ | .largeList _, .list _
  | .largeList _, .fixedSizeList _ _ | .largeList _, .map _ _
  | .largeList _, .struct _
  | .fixedSizeList _ _, .leaf _ | .fixedSizeList _ _, .list _
  | .fixedSizeList _ _, .largeList _ | .fixedSizeList _ _, .map _ _
  | .fixedSizeList _ _, .struct _
  | .map _ _, .leaf _ | .map _ _, .list _ | .map _ _, .largeList _
  | .map _ _, .fixedSizeList _ _ | .map _ _, .struct _
  | .struct _, .leaf _ | .struct _, .list _ | .struct _, .largeList _
  | .struct _, .fixedSizeList _ _ | .struct _, .map _ _ =>
      isFalse (by simp)

def ArrowField.decEq : (a b : ArrowField) → Decidable (a = b)
  | .mk name nullable metadata a, .mk name' nullable' metadata' b =>
      match DataType.decEq a b with
      | isTrue h =>
          if hrest : name = name' ∧ nullable = nullable' ∧
              metadata = metadata' then
            isTrue (by rw [h, hrest.1, hrest.2.1, hrest.2.2])
          else isFalse (by simpa [h] using hrest)
      | isFalse h => isFalse (by simp [h])

def fieldsDecEq : (a b : List ArrowField) → Decidable (a = b)
  | [], [] => isTrue rfl
  | [], _ :: _ => isFalse (by simp)
  | _ :: _, [] => isFalse (by simp)
  | a :: as, b :: bs =>
      match ArrowField.decEq a b, fieldsDecEq as bs with
      | isTrue h, isTrue hs => isTrue (by rw [h, hs])
      | isFalse h, _ => isFalse (by simp [h])
      | _, isFalse hs => isFalse (by simp [hs])

end

instance : DecidableEq DataType := DataType.decEq

instance : DecidableEq ArrowField := ArrowField.decEq

/-! ## The fields of wide numbers -/

/-- The `decimal_arb` parameters of a field, with its hint. -/
def ArrowField.decimalArb (field : ArrowField) : Option DecimalArbField :=
  match field.dataType, field.metadata.extension with
  | .leaf .largeBinary, .decimalArb params =>
      some ⟨field.name, params.precision, params.scale, params.valid,
        field.metadata.nativeIntKind⟩
  | _, _ => none

def ArrowField.isDecimalArbField (field : ArrowField) : Bool :=
  field.decimalArb.isSome

/-- The hint, which only `decimal_arb` fields have. -/
def ArrowField.nativeIntKindFromField (field : ArrowField) :
    Option NativeIntKind :=
  field.decimalArb.bind fun field => field.nativeIntKind

/-- The kind of a retired wide-integer field: 32 big-endian bytes with the
extension name of the kind. -/
def ArrowField.legacyWideIntKind (field : ArrowField) : Option NativeIntKind :=
  match field.dataType, field.metadata.extension with
  | .leaf (.fixedSizeBinary 32), .legacyWideInt kind => some kind
  | _, _ => none

/-- The first field of a name, with its index. -/
def findField (name : String) : List ArrowField → Option (ℕ × ArrowField)
  | [] => none
  | field :: fields =>
      if field.name = name then some (0, field)
      else (findField name fields).map fun (i, found) => (i + 1, found)

theorem findField_eq_some
    {name : String} {fields : List ArrowField} {i : ℕ} {field : ArrowField}
    (h : findField name fields = some (i, field)) :
    fields[i]? = some field ∧ field.name = name := by
  induction fields generalizing i with
  | nil => simp [findField] at h
  | cons first fields ih =>
      unfold findField at h
      split_ifs at h with hname
      · obtain ⟨rfl, rfl⟩ := Prod.mk.inj (Option.some.inj h)
        exact ⟨rfl, hname⟩
      · obtain ⟨⟨j, found⟩, hfound, heq⟩ := Option.map_eq_some_iff.mp h
        obtain ⟨rfl, rfl⟩ := Prod.mk.inj heq
        exact ih hfound

/-- With distinct names a field is found at its place. -/
theorem findField_of_nodup
    {fields : List ArrowField}
    (hnodup : (fields.map ArrowField.name).Nodup) {i : ℕ} {field : ArrowField}
    (h : fields[i]? = some field) :
    findField field.name fields = some (i, field) := by
  induction fields generalizing i with
  | nil => simp at h
  | cons first fields ih =>
      rw [List.map_cons, List.nodup_cons] at hnodup
      cases i with
      | zero =>
          obtain rfl : first = field := by simpa using h
          simp [findField]
      | succ i =>
          have hrest : fields[i]? = some field := by simpa using h
          have hne : first.name ≠ field.name := by
            intro heq
            apply hnodup.1
            rw [heq]
            exact List.mem_map_of_mem (List.mem_of_getElem? hrest)
          simp [findField, hne, ih hnodup.2 hrest]

/-! ## Columns -/

/-- A column with leaf values in `α`.  The nested columns of a list hold the
elements of all rows, which the offsets delimit. -/
inductive Column (α : Type) where
  | leaf (cells : List (Option α))
  | list (offsets : List ℕ) (validity : List Bool) (values : Column α)
  | fixedSizeList (validity : List Bool) (values : Column α)
  | struct (validity : List Bool) (columns : List (Column α))

/-- Which rows of a column are not null. -/
def Column.validity {α : Type} : Column α → List Bool
  | .leaf cells => cells.map Option.isSome
  | .list _ validity _ => validity
  | .fixedSizeList validity _ => validity
  | .struct validity _ => validity

/-- What Arrow requires of a list array. -/
def ListValid {α : Type} (child : ArrowField) (offsets : List ℕ)
    (validity : List Bool) (values : Column α) : Prop :=
  offsets.length = validity.length + 1 ∧
    (∀ last ∈ offsets.getLast?, last ≤ values.validity.length) ∧
    (child.nullable ∨ false ∉ values.validity)

instance {α : Type} (child : ArrowField) (offsets : List ℕ)
    (validity : List Bool) (values : Column α) :
    Decidable (ListValid child offsets validity values) :=
  inferInstanceAs (Decidable (_ ∧ _ ∧ _))

/-- What Arrow requires of a field of a struct array: its nulls are masked by
those of the struct unless it is nullable. -/
def ChildValid {α : Type} (validity : List Bool)
    (child : Column α × ArrowField) : Prop :=
  child.1.validity.length = validity.length ∧
    (child.2.nullable ∨
      ∀ pair ∈ child.1.validity.zip validity, pair.1 = true ∨ pair.2 = false)

instance {α : Type} (validity : List Bool) (child : Column α × ArrowField) :
    Decidable (ChildValid validity child) :=
  inferInstanceAs (Decidable (_ ∧ (_ ∨ _)))

end Arrow

end Streamling
