import Mathlib
import Streamling.Types.Arrow

/-!
# Arrow type trees

Every nested layout of Arrow, with the fields below it, and the arrays of
these types.  The two extension types are part of a field's type, since each
stands on its storage only.  The entries of a map are a struct.

An array carries its type and the nulls of its rows.  The arrays of the
encoded layouts (list views, dictionaries, run ends) and of unions are never
looked into here; they are opaque.
-/

namespace Streamling

namespace ArrowTree

open Arrow (LeafType DecimalArbParams)

abbrev FieldMetadata : Type := List (String × String)

/-- An extension type with the metadata it carries. -/
inductive WideType where
  | decimalArb (params : DecimalArbParams) (hint : Option NativeIntKind)
  | legacyWideInt (kind : NativeIntKind)
  deriving DecidableEq

/-- The storage of an extension type. -/
def WideType.storage : WideType → LeafType
  | decimalArb _ _ => .largeBinary
  | legacyWideInt _ => .fixedSizeBinary 32

/-- The entries field of a map, without its type. -/
structure EntriesHeader where
  name : String
  nullable : Bool
  metadata : FieldMetadata
  deriving DecidableEq

/-- The layouts of lists. -/
inductive ListLayout where
  | list
  | largeList
  | fixedSizeList (size : ℕ)
  | listView
  | largeListView
  deriving DecidableEq, Repr

/-- The array type of a layout. -/
def ListLayout.arrayName : ListLayout → String
  | list => "ListArray"
  | largeList => "LargeListArray"
  | fixedSizeList _ => "FixedSizeListArray"
  | listView => "ListViewArray"
  | largeListView => "LargeListViewArray"

mutual

inductive DataType where
  | leaf (type : LeafType)
  | list (layout : ListLayout) (child : ArrowField)
  | map (entries : EntriesHeader) (fields : List ArrowField) (sorted : Bool)
  | struct (fields : List ArrowField)
  | dictionary (key : LeafType) (values : DataType)
  | runEndEncoded (runEnds : LeafType) (values : ArrowField)
  | union (fields : List ArrowField) (dense : Bool)

/-- A field; its metadata is what remains besides an extension type. -/
inductive ArrowField where
  | plain (name : String) (nullable : Bool) (metadata : FieldMetadata)
      (dataType : DataType)
  | wide (name : String) (nullable : Bool) (metadata : FieldMetadata)
      (type : WideType)

end

namespace ArrowField

def name : ArrowField → String
  | plain name _ _ _ | wide name _ _ _ => name

def nullable : ArrowField → Bool
  | plain _ nullable _ _ | wide _ nullable _ _ => nullable

def dataType : ArrowField → DataType
  | plain _ _ _ dataType => dataType
  | wide _ _ _ type => .leaf type.storage

@[simp] theorem name_plain (name nullable metadata dataType) :
    (plain name nullable metadata dataType).name = name := rfl

@[simp] theorem nullable_plain (name nullable metadata dataType) :
    (plain name nullable metadata dataType).nullable = nullable := rfl

@[simp] theorem dataType_plain (name nullable metadata dataType) :
    (plain name nullable metadata dataType).dataType = dataType := rfl

@[simp] theorem name_wide (name nullable metadata type) :
    (wide name nullable metadata type).name = name := rfl

@[simp] theorem nullable_wide (name nullable metadata type) :
    (wide name nullable metadata type).nullable = nullable := rfl

@[simp] theorem dataType_wide (name nullable metadata type) :
    (wide name nullable metadata type).dataType = .leaf type.storage := rfl

end ArrowField

/-- The field of the entries of a map. -/
def EntriesHeader.field (entries : EntriesHeader) (fields : List ArrowField) :
    ArrowField :=
  .plain entries.name entries.nullable entries.metadata (.struct fields)

/-! ## Equality of types -/

mutual

def DataType.beq : DataType → DataType → Bool
  | .leaf a, .leaf b => a == b
  | .list l a, .list m b => l == m && ArrowField.beq a b
  | .map h as s, .map i bs t => h == i && fieldsBeq as bs && s == t
  | .struct as, .struct bs => fieldsBeq as bs
  | .dictionary k a, .dictionary l b => k == l && DataType.beq a b
  | .runEndEncoded k a, .runEndEncoded l b => k == l && ArrowField.beq a b
  | .union as s, .union bs t => fieldsBeq as bs && s == t
  | _, _ => false

def ArrowField.beq : ArrowField → ArrowField → Bool
  | .plain n u m a, .plain n' u' m' b =>
      n == n' && u == u' && m == m' && DataType.beq a b
  | .wide n u m a, .wide n' u' m' b =>
      n == n' && u == u' && m == m' && a == b
  | _, _ => false

def fieldsBeq : List ArrowField → List ArrowField → Bool
  | [], [] => true
  | a :: as, b :: bs => ArrowField.beq a b && fieldsBeq as bs
  | _, _ => false

end

mutual

theorem DataType.beq_iff : (a b : DataType) → (a.beq b = true ↔ a = b)
  | .leaf a, b => by
      cases b <;> simp [DataType.beq]
  | .list l a, b => by
      cases b <;> simp [DataType.beq, ArrowField.beq_iff a]
  | .map h as s, b => by
      cases b <;> simp [DataType.beq, fieldsBeq_iff as, and_assoc]
  | .struct as, b => by
      cases b <;> simp [DataType.beq, fieldsBeq_iff as]
  | .dictionary k a, b => by
      cases b <;> simp [DataType.beq, DataType.beq_iff a]
  | .runEndEncoded k a, b => by
      cases b <;> simp [DataType.beq, ArrowField.beq_iff a]
  | .union as s, b => by
      cases b <;> simp [DataType.beq, fieldsBeq_iff as]

theorem ArrowField.beq_iff : (a b : ArrowField) → (a.beq b = true ↔ a = b)
  | .plain n u m a, b => by
      cases b <;> simp [ArrowField.beq, DataType.beq_iff a, and_assoc]
  | .wide n u m a, b => by
      cases b <;> simp [ArrowField.beq, and_assoc]

theorem fieldsBeq_iff : (as bs : List ArrowField) →
    (fieldsBeq as bs = true ↔ as = bs)
  | [], bs => by
      cases bs <;> simp [fieldsBeq]
  | a :: as, bs => by
      cases bs <;> simp [fieldsBeq, ArrowField.beq_iff a, fieldsBeq_iff as]

end

instance instDecidableEqDataType : DecidableEq DataType := fun a b =>
  decidable_of_iff _ (DataType.beq_iff a b)

/-! ## Leaves below a field -/

mutual

/-- Whether an extension type with a property stands somewhere below. -/
def DataType.contains (p : WideType → Bool) : DataType → Bool
  | .leaf _ => false
  | .list _ child => child.contains p
  | .map _ fields _ | .struct fields | .union fields _ =>
      anyContains p fields
  | .dictionary _ values => values.contains p
  | .runEndEncoded _ values => values.contains p

def ArrowField.contains (p : WideType → Bool) : ArrowField → Bool
  | .plain _ _ _ dataType => dataType.contains p
  | .wide _ _ _ type => p type

def anyContains (p : WideType → Bool) : List ArrowField → Bool
  | [] => false
  | field :: fields => field.contains p || anyContains p fields

end

/-! ## Arrays -/

/-- A value of a leaf array. -/
inductive Cell where
  | bytes (value : List UInt8)
  | text (value : String)
  | other (code : ℕ)
  deriving DecidableEq, Repr

/-- Lists of a fixed size have no offsets. -/
inductive Column where
  | leaf (type : LeafType) (cells : List (Option Cell))
  | list (layout : ListLayout) (child : ArrowField) (offsets : List ℕ)
      (validity : List Bool) (values : Column)
  | map (entries : EntriesHeader) (fields : List ArrowField) (sorted : Bool)
      (offsets : List ℕ) (validity : List Bool) (values : Column)
  | struct (fields : List ArrowField) (validity : List Bool)
      (columns : List Column)
  | encoded (type : DataType) (index : List ℕ) (validity : List Bool)

namespace Column

def dataType : Column → DataType
  | leaf type _ => .leaf type
  | list layout child _ _ _ => .list layout child
  | map entries fields sorted _ _ _ => .map entries fields sorted
  | struct fields _ _ => .struct fields
  | encoded type _ _ => type

/-- Which rows are not null. -/
def validity : Column → List Bool
  | leaf _ cells => cells.map Option.isSome
  | list _ _ _ validity _ | map _ _ _ _ validity _ | struct _ validity _
  | encoded _ _ validity => validity

end Column

/-! ## Constructors of arrays -/

/-- No row is null but where the mask is. -/
def Masked (mask validity : List Bool) : Prop :=
  ∀ pair ∈ validity.zip mask, pair.1 = true ∨ pair.2 = false

instance instDecidableMasked (mask validity : List Bool) :
    Decidable (Masked mask validity) :=
  inferInstanceAs (Decidable (∀ _ ∈ _, _))

/-- What the offsets of a list or map have to be. -/
def OffsetsOk (offsets : List ℕ) (rows values : ℕ) : Prop :=
  offsets.length = rows + 1 ∧ ∀ last ∈ offsets.getLast?, last ≤ values

instance instDecidableOffsetsOk (offsets : List ℕ) (rows values : ℕ) :
    Decidable (OffsetsOk offsets rows values) :=
  inferInstanceAs (Decidable (_ ∧ ∀ _ ∈ _, _))

/-- Each row's null, for each of its elements. -/
def expand (size : ℕ) (validity : List Bool) : List Bool :=
  validity.flatMap (List.replicate size)

/-- What Arrow requires of the values of a list, which may be null if the
child is nullable.  The nulls in a list of a fixed size may be masked by those
of the rows instead. -/
def ListOk (layout : ListLayout) (child : ArrowField) (offsets : List ℕ)
    (validity : List Bool) (type : DataType) (values : List Bool) : Prop :=
  type = child.dataType ∧
    match layout with
    | .fixedSizeList size =>
        values.length = size * validity.length ∧
          (child.nullable ∨ Masked (expand size validity) values)
    | _ =>
        OffsetsOk offsets validity.length values.length ∧
          (child.nullable ∨ false ∉ values)

instance instDecidableListOk (layout : ListLayout) (child : ArrowField)
    (offsets : List ℕ) (validity : List Bool) (type : DataType)
    (values : List Bool) :
    Decidable (ListOk layout child offsets validity type values) :=
  match layout with
  | .fixedSizeList _ => inferInstanceAs (Decidable (_ ∧ _ ∧ _))
  | .list | .largeList | .listView | .largeListView =>
      inferInstanceAs (Decidable
        (_ ∧ OffsetsOk offsets validity.length values.length ∧ _))

/-- The entries of a map are not null. -/
def MapOk (fields : List ArrowField) (offsets : List ℕ) (validity : List Bool)
    (type : DataType) (values : List Bool) : Prop :=
  OffsetsOk offsets validity.length values.length ∧
    type = .struct fields ∧ false ∉ values

instance instDecidableMapOk (fields : List ArrowField) (offsets : List ℕ)
    (validity : List Bool) (type : DataType) (values : List Bool) :
    Decidable (MapOk fields offsets validity type values) :=
  inferInstanceAs (Decidable (_ ∧ _ ∧ _))

/-- The nulls of a child of a struct are masked by those of the struct unless
the child is nullable. -/
def ChildOk (validity : List Bool) (field : ArrowField) (type : DataType)
    (values : List Bool) : Prop :=
  type = field.dataType ∧ values.length = validity.length ∧
    (field.nullable ∨ Masked validity values)

instance instDecidableChildOk (validity : List Bool) (field : ArrowField)
    (type : DataType) (values : List Bool) :
    Decidable (ChildOk validity field type values) :=
  inferInstanceAs (Decidable (_ ∧ _ ∧ _))

def StructOk (fields : List ArrowField) (validity : List Bool)
    (columns : List Column) : Prop :=
  List.Forall₂ (fun field (column : Column) =>
    ChildOk validity field column.dataType column.validity) fields columns

instance instDecidableStructOk (fields : List ArrowField)
    (validity : List Bool) (columns : List Column) :
    Decidable (StructOk fields validity columns) :=
  inferInstanceAs (Decidable (List.Forall₂ _ _ _))

/-- Why an array cannot be rewritten. -/
inductive TreeError where
  | expected (what : String) (field : String)
  | refused (action : String) (field : String)
  | arrow (what : String)
  | leaf (error : DecimalArbError)
  | notADecimal (text : String)
  | value (reason : String) (field : String) (row : ℕ)
  | panicked (what : String)
  deriving Repr

/-- The error is reported; it is not a panic of a constructor. -/
def TreeError.Reported : TreeError → Prop
  | panicked _ => False
  | _ => True

/-- `ListArray::new` and `LargeListArray::new`, which panic, and
`FixedSizeListArray::try_new_with_length`. -/
def listNew (layout : ListLayout) (child : ArrowField) (offsets : List ℕ)
    (validity : List Bool) (values : Column) : Except TreeError Column :=
  if ListOk layout child offsets validity values.dataType
      values.validity then
    .ok (.list layout child offsets validity values)
  else
    match layout with
    | .fixedSizeList _ => .error (.arrow "FixedSizeListArray")
    | _ => .error (.panicked "ListArray")

/-- `MapArray::new`. -/
def mapNew (entries : EntriesHeader) (fields : List ArrowField)
    (sorted : Bool) (offsets : List ℕ) (validity : List Bool)
    (values : Column) : Except TreeError Column :=
  if MapOk fields offsets validity values.dataType values.validity then
    .ok (.map entries fields sorted offsets validity values)
  else .error (.panicked "MapArray")

/-- `StructArray::new`. -/
def structNew (fields : List ArrowField) (validity : List Bool)
    (columns : List Column) : Except TreeError Column :=
  if StructOk fields validity columns then
    .ok (.struct fields validity columns)
  else .error (.panicked "StructArray")

/-! ## Valid arrays -/

/-- A value is of a leaf type. -/
def Cell.Fits : LeafType → Cell → Prop
  | .utf8, cell | .largeUtf8, cell => ∃ text, cell = .text text
  | .binary, cell | .largeBinary, cell => ∃ bytes, cell = .bytes bytes
  | .fixedSizeBinary width, cell =>
      ∃ bytes, cell = .bytes bytes ∧ bytes.length = width
  | _, _ => True

/-- The layouts whose arrays are rebuilt. -/
def ListLayout.plain : ListLayout → Bool
  | .list | .largeList | .fixedSizeList _ => true
  | .listView | .largeListView => false

/-- The types whose arrays are opaque. -/
def DataType.Opaque : DataType → Prop
  | .list .listView _ | .list .largeListView _ | .dictionary _ _
  | .runEndEncoded _ _ | .union _ _ => True
  | _ => False

mutual

/-- The array is one that Arrow's constructors build. -/
def Column.Valid : Column → Prop
  | .leaf type cells => ∀ cell ∈ cells, ∀ c ∈ cell, Cell.Fits type c
  | .list layout child offsets validity values =>
      layout.plain = true ∧
        ListOk layout child offsets validity values.dataType
          values.validity ∧ values.Valid
  | .map _ fields _ offsets validity values =>
      MapOk fields offsets validity values.dataType values.validity ∧
        values.Valid
  | .struct fields validity columns =>
      StructOk fields validity columns ∧ AllValid columns
  | .encoded type _ _ => type.Opaque

def AllValid : List Column → Prop
  | [] => True
  | column :: columns => column.Valid ∧ AllValid columns

end

/-! ## Arrays of a type -/

theorem column_of_leaf
    {a : Column} {type : Arrow.LeafType} (hvalid : a.Valid)
    (htype : a.dataType = .leaf type) :
    ∃ cells, a = .leaf type cells := by
  cases a with
  | leaf type' cells =>
      obtain rfl := DataType.leaf.inj htype
      exact ⟨cells, rfl⟩
  | encoded type' index validity =>
      have hopaque : type'.Opaque := hvalid
      rw [show type' = .leaf type from htype] at hopaque
      exact hopaque.elim
  | list | map | struct => simp [Column.dataType] at htype

theorem column_of_list
    {a : Column} {layout : ListLayout} {child : ArrowField} (hvalid : a.Valid)
    (hplain : layout.plain = true) (htype : a.dataType = .list layout child) :
    ∃ offsets validity values,
      a = .list layout child offsets validity values := by
  cases a with
  | list layout' child' offsets validity values =>
      obtain ⟨rfl, rfl⟩ := DataType.list.inj htype
      exact ⟨offsets, validity, values, rfl⟩
  | encoded type' index validity =>
      have hopaque : type'.Opaque := hvalid
      rw [show type' = .list layout child from htype] at hopaque
      cases layout <;> simp_all [DataType.Opaque, ListLayout.plain]
  | leaf | map | struct => simp [Column.dataType] at htype

theorem column_of_struct
    {a : Column} {fields : List ArrowField} (hvalid : a.Valid)
    (htype : a.dataType = .struct fields) :
    ∃ validity columns, a = .struct fields validity columns := by
  cases a with
  | struct fields' validity columns =>
      obtain rfl := DataType.struct.inj htype
      exact ⟨validity, columns, rfl⟩
  | encoded type' index validity =>
      have hopaque : type'.Opaque := hvalid
      rw [show type' = .struct fields from htype] at hopaque
      exact hopaque.elim
  | leaf | list | map => simp [Column.dataType] at htype

theorem column_of_map
    {a : Column} {entries : EntriesHeader} {fields : List ArrowField}
    {sorted : Bool} (hvalid : a.Valid)
    (htype : a.dataType = .map entries fields sorted) :
    ∃ offsets validity rows columns, a = .map entries fields sorted offsets
      validity (.struct fields rows columns) := by
  cases a with
  | map entries' fields' sorted' offsets validity values =>
      obtain ⟨rfl, rfl, rfl⟩ := DataType.map.inj htype
      obtain ⟨hmap, hvalues⟩ := hvalid
      obtain ⟨rows, columns, rfl⟩ := column_of_struct hvalues hmap.2.1
      exact ⟨offsets, validity, rows, columns, rfl⟩
  | encoded type' index validity =>
      have hopaque : type'.Opaque := hvalid
      rw [show type' = .map entries fields sorted from htype] at hopaque
      exact hopaque.elim
  | leaf | list | struct => simp [Column.dataType] at htype

/-! ## Rebuilding an array around converted values -/

/-- Converting the values of an array gives their new field with them. -/
abbrev Conversion : Type := Column → Except TreeError (ArrowField × Column)

/-- A list of a fixed size keeps its length: it is that of the rows, not one
derived from the values. -/
def rebuildList (name : String) (layout : ListLayout) (convert : Conversion) :
    Conversion
  | .list layout' _ offsets validity values =>
      if layout'.arrayName = layout.arrayName then do
        let (child, values) ← convert values
        let out ← listNew layout child offsets validity values
        return (child, out)
      else .error (.expected layout.arrayName name)
  | _ => .error (.expected layout.arrayName name)

def rebuildStruct (name : String)
    (convert : List Column → Except TreeError (List ArrowField × List Column)) :
    Column → Except TreeError (List ArrowField × Column)
  | .struct _ validity columns => do
      let (fields, columns) ← convert columns
      let out ← structNew fields validity columns
      return (fields, out)
  | _ => .error (.expected "StructArray" name)

def rebuildMap (name : String) (entries : EntriesHeader) (sorted : Bool)
    (convert : List Column → Except TreeError (List ArrowField × List Column)) :
    Column → Except TreeError (List ArrowField × Column)
  | .map _ _ _ offsets validity values => do
      let (fields, values) ← rebuildStruct entries.name convert values
      let out ← mapNew entries fields sorted offsets validity values
      return (fields, out)
  | _ => .error (.expected "MapArray" name)

/-- A converted array has its field's type and the nulls of the original. -/
structure Keeps (field : ArrowField) (a : Column) (field' : ArrowField)
    (a' : Column) : Prop where
  nullable : field'.nullable = field.nullable
  type : a'.dataType = field'.dataType
  validity : a'.validity = a.validity
  valid : a'.Valid

/-- Children of a struct, converted one by one. -/
inductive AllKeep : List ArrowField → List Column → List ArrowField →
    List Column → Prop
  | nil : AllKeep [] [] [] []
  | cons {field a field' a' fields columns fields' columns'} :
      Keeps field a field' a' → AllKeep fields columns fields' columns' →
      AllKeep (field :: fields) (a :: columns) (field' :: fields')
        (a' :: columns')

theorem AllKeep.valid
    {fields fields' : List ArrowField} {columns columns' : List Column}
    (h : AllKeep fields columns fields' columns') : AllValid columns' := by
  induction h with
  | nil => trivial
  | cons hkeeps _ ih => exact ⟨hkeeps.valid, ih⟩

theorem AllKeep.structOk
    {fields fields' : List ArrowField} {columns columns' : List Column}
    {validity : List Bool} (h : AllKeep fields columns fields' columns')
    (hok : StructOk fields validity columns) :
    StructOk fields' validity columns' := by
  induction h with
  | nil => exact .nil
  | cons hkeeps _ ih =>
      obtain ⟨⟨-, hlength, hmask⟩, hrest⟩ := List.forall₂_cons.mp hok
      refine .cons ⟨hkeeps.type, ?_, ?_⟩ (ih hrest)
      · rw [hkeeps.validity, hlength]
      · rw [hkeeps.nullable, hkeeps.validity]
        exact hmask

theorem Keeps.symm
    {field field' : ArrowField} {a a' : Column}
    (h : Keeps field a field' a') (hvalid : a.Valid)
    (htype : a.dataType = field.dataType) : Keeps field' a' field a :=
  ⟨h.nullable.symm, htype, h.validity.symm, hvalid⟩

theorem AllKeep.symm
    {fields fields' : List ArrowField} {columns columns' : List Column}
    {validity : List Bool} (h : AllKeep fields columns fields' columns')
    (hvalid : AllValid columns) (hok : StructOk fields validity columns) :
    AllKeep fields' columns' fields columns := by
  induction h with
  | nil => exact .nil
  | cons hkeeps _ ih =>
      obtain ⟨hchild, hrest⟩ := List.forall₂_cons.mp hok
      exact .cons (hkeeps.symm hvalid.1 hchild.1) (ih hvalid.2 hrest)

section

variable {name : String} {layout : ListLayout} {child child' : ArrowField}
  {offsets : List ℕ} {validity : List Bool} {values values' : Column}
  {convert : Conversion}

theorem ListOk.of_keeps
    (hok : ListOk layout child offsets validity values.dataType
      values.validity)
    (hkeeps : Keeps child values child' values') :
    ListOk layout child' offsets validity values'.dataType
      values'.validity := by
  obtain ⟨-, hok⟩ := hok
  refine ⟨hkeeps.type, ?_⟩
  rw [hkeeps.validity, hkeeps.nullable]
  exact hok

theorem rebuildList_eq_error
    {e : TreeError} (hconvert : convert values = .error e) :
    rebuildList name layout convert
        (.list layout child offsets validity values) = .error e := by
  simp only [rebuildList, hconvert, bind, Except.bind, if_true]

theorem rebuildList_eq_ok
    (hok : ListOk layout child offsets validity values.dataType
      values.validity)
    (hconvert : convert values = .ok (child', values'))
    (hkeeps : Keeps child values child' values') :
    rebuildList name layout convert
        (.list layout child offsets validity values) =
      .ok (child', .list layout child' offsets validity values') := by
  simp only [rebuildList, hconvert, bind, Except.bind, listNew, if_true,
    if_pos (hok.of_keeps hkeeps)]
  rfl

end

section

variable {name : String} {fields fields' : List ArrowField}
  {columns columns' : List Column} {validity : List Bool}
  {convert : List Column → Except TreeError (List ArrowField × List Column)}

theorem rebuildStruct_eq_error
    {e : TreeError} (hconvert : convert columns = .error e) :
    rebuildStruct name convert (.struct fields validity columns) =
      .error e := by
  simp only [rebuildStruct, hconvert, bind, Except.bind]

theorem rebuildStruct_eq_ok
    (hok : StructOk fields validity columns)
    (hconvert : convert columns = .ok (fields', columns'))
    (hkeeps : AllKeep fields columns fields' columns') :
    rebuildStruct name convert (.struct fields validity columns) =
      .ok (fields', .struct fields' validity columns') := by
  simp only [rebuildStruct, hconvert, bind, Except.bind, structNew,
    if_pos (hkeeps.structOk hok)]
  rfl

theorem rebuildMap_eq_error
    {entries : EntriesHeader} {sorted : Bool} {offsets : List ℕ}
    {rows : List Bool} {e : TreeError}
    (hconvert : convert columns = .error e) :
    rebuildMap name entries sorted convert
        (.map entries fields sorted offsets rows
          (.struct fields validity columns)) = .error e := by
  have hstruct : rebuildStruct entries.name convert
      (.struct fields validity columns) = .error e :=
    rebuildStruct_eq_error hconvert
  simp only [rebuildMap, hstruct, bind, Except.bind]

theorem rebuildMap_eq_ok
    {entries : EntriesHeader} {sorted : Bool} {offsets : List ℕ}
    {rows : List Bool}
    (hmap : MapOk fields offsets rows (.struct fields) validity)
    (hok : StructOk fields validity columns)
    (hconvert : convert columns = .ok (fields', columns'))
    (hkeeps : AllKeep fields columns fields' columns') :
    rebuildMap name entries sorted convert
        (.map entries fields sorted offsets rows
          (.struct fields validity columns)) =
      .ok (fields', .map entries fields' sorted offsets rows
        (.struct fields' validity columns')) := by
  have hstruct : rebuildStruct entries.name convert
      (.struct fields validity columns) =
        .ok (fields', .struct fields' validity columns') :=
    rebuildStruct_eq_ok hok hconvert hkeeps
  have hmap' : MapOk fields' offsets rows (.struct fields') validity :=
    ⟨hmap.1, rfl, hmap.2.2⟩
  have hnew : mapNew entries fields' sorted offsets rows
      (.struct fields' validity columns') =
        .ok (.map entries fields' sorted offsets rows
          (.struct fields' validity columns')) :=
    if_pos hmap'
  simp only [rebuildMap, hstruct, bind, Except.bind, hnew]
  rfl

end

/-! ## Arrays without rows -/

mutual

/-- No rows, and nothing below. -/
def Column.Empty : Column → Prop
  | .leaf _ cells => cells = []
  | .list _ _ _ validity values | .map _ _ _ _ validity values =>
      validity = [] ∧ values.Empty
  | .struct _ validity columns => validity = [] ∧ AllEmpty columns
  | .encoded _ index validity => index = [] ∧ validity = []

def AllEmpty : List Column → Prop
  | [] => True
  | column :: columns => column.Empty ∧ AllEmpty columns

end

mutual

def emptyColumn : DataType → Column
  | .leaf type => .leaf type []
  | .list layout child =>
      if layout.plain then .list layout child [0] [] (emptyOfField child)
      else .encoded (.list layout child) [] []
  | .map entries fields sorted =>
      .map entries fields sorted [0] []
        (.struct fields [] (emptyColumns fields))
  | .struct fields => .struct fields [] (emptyColumns fields)
  | .dictionary key values => .encoded (.dictionary key values) [] []
  | .runEndEncoded runEnds values =>
      .encoded (.runEndEncoded runEnds values) [] []
  | .union fields dense => .encoded (.union fields dense) [] []

def emptyOfField : ArrowField → Column
  | .plain _ _ _ type => emptyColumn type
  | .wide _ _ _ type => .leaf type.storage []

def emptyColumns : List ArrowField → List Column
  | [] => []
  | field :: fields => emptyOfField field :: emptyColumns fields

end

@[simp] theorem dataType_emptyColumn (type : DataType) :
    (emptyColumn type).dataType = type := by
  cases type with
  | list layout child =>
      by_cases hplain : layout.plain
      · simp [emptyColumn, hplain, Column.dataType]
      · simp [emptyColumn, hplain, Column.dataType]
  | _ => simp [emptyColumn, Column.dataType]

@[simp] theorem validity_emptyColumn (type : DataType) :
    (emptyColumn type).validity = [] := by
  cases type with
  | list layout child =>
      by_cases hplain : layout.plain
      · simp [emptyColumn, hplain, Column.validity]
      · simp [emptyColumn, hplain, Column.validity]
  | _ => simp [emptyColumn, Column.validity]

@[simp] theorem dataType_emptyOfField (field : ArrowField) :
    (emptyOfField field).dataType = field.dataType := by
  cases field with
  | plain name nullable metadata type => exact dataType_emptyColumn type
  | wide name nullable metadata type => simp [emptyOfField, Column.dataType]

@[simp] theorem validity_emptyOfField (field : ArrowField) :
    (emptyOfField field).validity = [] := by
  cases field with
  | plain name nullable metadata type => exact validity_emptyColumn type
  | wide name nullable metadata type => simp [emptyOfField, Column.validity]

theorem structOk_emptyColumns (fields : List ArrowField) :
    StructOk fields [] (emptyColumns fields) := by
  induction fields with
  | nil => exact .nil
  | cons field fields ih =>
      refine .cons ⟨dataType_emptyOfField field, ?_, ?_⟩ ih
      · simp
      · simp [Masked]

theorem listOk_empty
    {layout : ListLayout} (child : ArrowField) :
    ListOk layout child [0] [] (emptyOfField child).dataType
      (emptyOfField child).validity := by
  refine ⟨dataType_emptyOfField child, ?_⟩
  cases layout <;> simp [OffsetsOk, Masked, expand]

mutual

theorem valid_emptyColumn : (type : DataType) →
    (emptyColumn type).Valid ∧ (emptyColumn type).Empty
  | .leaf type => by
      simp [emptyColumn, Column.Valid, Column.Empty]
  | .list layout child => by
      have hchild := valid_emptyOfField child
      unfold emptyColumn
      split
      · rename_i hplain
        exact ⟨⟨hplain, listOk_empty child, hchild.1⟩, rfl, hchild.2⟩
      · rename_i hplain
        refine ⟨?_, rfl, rfl⟩
        cases layout <;> simp_all [ListLayout.plain, Column.Valid,
          DataType.Opaque]
  | .map entries fields sorted => by
      have hfields := valid_emptyColumns fields
      refine ⟨⟨?_, structOk_emptyColumns fields, hfields.1⟩, rfl, rfl,
        hfields.2⟩
      simp [MapOk, OffsetsOk, Column.dataType, Column.validity]
  | .struct fields => by
      have hfields := valid_emptyColumns fields
      exact ⟨⟨structOk_emptyColumns fields, hfields.1⟩, rfl, hfields.2⟩
  | .dictionary key values => ⟨trivial, rfl, rfl⟩
  | .runEndEncoded runEnds values => ⟨trivial, rfl, rfl⟩
  | .union fields dense => ⟨trivial, rfl, rfl⟩

theorem valid_emptyOfField : (field : ArrowField) →
    (emptyOfField field).Valid ∧ (emptyOfField field).Empty
  | .plain _ _ _ type => valid_emptyColumn type
  | .wide _ _ _ type => by
      simp [emptyOfField, Column.Valid, Column.Empty]

theorem valid_emptyColumns : (fields : List ArrowField) →
    AllValid (emptyColumns fields) ∧ AllEmpty (emptyColumns fields)
  | [] => ⟨trivial, trivial⟩
  | field :: fields =>
      have hfield := valid_emptyOfField field
      have hfields := valid_emptyColumns fields
      ⟨⟨hfield.1, hfields.1⟩, hfield.2, hfields.2⟩

end

end ArrowTree

end Streamling
