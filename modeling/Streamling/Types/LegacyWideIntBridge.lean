import Mathlib
import Streamling.Types.LegacyWideIntWords

/-!
# The retired integer types lose nothing

The upgrade of a field and that of its arrays agree on every type tree, leave
no legacy leaf, and are undone by the downgrade; a decimal is downgraded
exactly if it is an integer of the 256-bit range.
-/

namespace Streamling

namespace ArrowTree

open DecimalArbValue

/-! ## Upgraded arrays -/

/-- The canonical bytes of every word of a leaf. -/
def LeafUpgraded : WideType → Column → Column → Prop
  | .legacyWideInt kind, a, a' => ∃ cells raw,
      a = .leaf (.fixedSizeBinary 32) cells ∧
        a' = .leaf .largeBinary (raw.map (Option.map Cell.bytes)) ∧
        List.Forall₂ (UpgradedCell kind) cells raw
  | .decimalArb _ _, _, _ => False

/-- What the schema and the array upgrade of a field do: both find nothing,
both fail with the same error, or both give one field without a legacy leaf,
and its array, which is downgraded to the original. -/
inductive Upgrade (field : ArrowField) (a : Column) :
    Except TreeError (Option ArrowField) →
    Except TreeError (Option (ArrowField × Column)) → Prop
  | untouched :
      fieldContainsLegacyWideInt field = false →
      Upgrade field a (.ok none) (.ok none)
  | refused {e : TreeError} :
      e.Reported → Upgrade field a (.error e) (.error e)
  | upgraded {field' a'} :
      fieldContainsLegacyWideInt field' = false →
      Keeps field a field' a' →
      downgradeLegacyWideInts field a' = .ok (some a) →
      Converted isLegacyWideInt LeafUpgraded NoUnwrap field a a' →
      Upgrade field a (.ok (some field')) (.ok (some (field', a')))

inductive ContainerUpgrade (name : String) (type : DataType) (a : Column) :
    Except TreeError DataType →
    Except TreeError (DataType × Column) → Prop
  | refused {e : TreeError} :
      e.Reported → ContainerUpgrade name type a (.error e) (.error e)
  | upgraded {type' a'} :
      typeContainsLegacyWideInt type' = false →
      a'.dataType = type' → a'.validity = a.validity → a'.Valid →
      downgradeContainer name type a' = .ok a →
      (∀ nullable metadata,
        Converted isLegacyWideInt LeafUpgraded NoUnwrap
          (.plain name nullable metadata type) a a') →
      ContainerUpgrade name type a (.ok type') (.ok (type', a'))

/-- The same of a child, which stays as it is without a legacy leaf. -/
inductive ChildUpgrade (field : ArrowField) (a : Column) :
    Except TreeError ArrowField →
    Except TreeError (ArrowField × Column) → Prop
  | refused {e : TreeError} :
      e.Reported → ChildUpgrade field a (.error e) (.error e)
  | upgraded {field' a'} :
      fieldContainsLegacyWideInt field' = false →
      Keeps field a field' a' →
      (downgradeLegacyWideInts field a').map (Option.getD · a') = .ok a →
      Converted isLegacyWideInt LeafUpgraded NoUnwrap field a a' →
      ChildUpgrade field a (.ok field') (.ok (field', a'))

inductive AllUpgrade (fields : List ArrowField) (columns : List Column) :
    Except TreeError (List ArrowField) →
    Except TreeError (List ArrowField × List Column) → Prop
  | refused {e : TreeError} :
      e.Reported → AllUpgrade fields columns (.error e) (.error e)
  | upgraded {fields' columns'} :
      anyContains isLegacyWideInt fields' = false →
      AllKeep fields columns fields' columns' →
      downgradeColumns fields columns' = .ok columns →
      AllConverted isLegacyWideInt LeafUpgraded NoUnwrap fields columns
        columns' →
      AllUpgrade fields columns (.ok fields') (.ok (fields', columns'))

/-- A field without a legacy leaf is not downgraded. -/
theorem downgrade_of_not_contains
    {field : ArrowField} (h : fieldContainsLegacyWideInt field = false)
    (a : Column) : downgradeLegacyWideInts field a = .ok none := by
  rcases field with ⟨name, nullable, metadata, type⟩ |
    ⟨name, nullable, metadata, ⟨params, hint⟩ | kind⟩
  · have hnot : ¬ typeContainsLegacyWideInt type = true := by
      simpa [fieldContainsLegacyWideInt, ArrowField.contains,
        typeContainsLegacyWideInt] using h
    rw [downgradeLegacyWideInts, if_neg hnot]
  · rfl
  · simp [fieldContainsLegacyWideInt, ArrowField.contains,
      isLegacyWideInt] at h

theorem Upgrade.child
    {field : ArrowField} {a : Column}
    {schema : Except TreeError (Option ArrowField)}
    {array : Except TreeError (Option (ArrowField × Column))}
    (h : Upgrade field a schema array) (hvalid : a.Valid)
    (htype : a.dataType = field.dataType) :
    ChildUpgrade field a (schema.map (Option.getD · field))
      (array.map (Option.getD · (field, a))) := by
  cases h with
  | untouched hnot =>
      refine .upgraded hnot ⟨rfl, htype, rfl, hvalid⟩ ?_ (.same hnot)
      rw [downgrade_of_not_contains hnot]
      rfl
  | refused hreported => exact .refused hreported
  | upgraded hnot hkeeps hdown hconverted =>
      refine .upgraded hnot hkeeps ?_ hconverted
      rw [hdown]
      rfl

/-! ## Leaves -/

theorem upgrade_leaf
    {name : String} {nullable : Bool} {metadata : FieldMetadata}
    {kind : NativeIntKind} {cells : List (Option Cell)}
    (hvalid : (Column.leaf (.fixedSizeBinary 32) cells).Valid) :
    Upgrade (.wide name nullable metadata (.legacyWideInt kind))
      (.leaf (.fixedSizeBinary 32) cells)
      (upgradeLegacyWideIntField
        (.wide name nullable metadata (.legacyWideInt kind)))
      (upgradeLegacyWideInts
        (.wide name nullable metadata (.legacyWideInt kind))
        (.leaf (.fixedSizeBinary 32) cells)) := by
  obtain ⟨raw, hraw, hcells⟩ :=
    legacyWideIntToDecimalArb_eq_ok name kind hvalid
  have hschema : upgradeLegacyWideIntField
      (.wide name nullable metadata (.legacyWideInt kind)) =
        .ok (some (legacyWideIntAsDecimalArbField name nullable metadata
          kind)) := rfl
  have harray : upgradeLegacyWideInts
      (.wide name nullable metadata (.legacyWideInt kind))
      (.leaf (.fixedSizeBinary 32) cells) =
        .ok (some (legacyWideIntAsDecimalArbField name nullable metadata kind,
          .leaf .largeBinary (raw.map (Option.map Cell.bytes)))) := by
    rw [upgradeLegacyWideInts, hraw]
    rfl
  rw [hschema, harray]
  refine .upgraded rfl ⟨rfl, rfl, isSome_of_upgradedCells hcells,
    valid_largeBinary raw⟩ ?_ (.leaf rfl ⟨cells, raw, rfl, rfl, hcells⟩)
  have hdown : decimalArbToLegacyWideInt
      (legacyWideIntAsDecimalArbField name nullable metadata kind) kind
      (.leaf .largeBinary (raw.map (Option.map Cell.bytes))) =
        .ok (.leaf (.fixedSizeBinary 32) cells) :=
    decimalArbToLegacyWideInt_eq_ok_iff.mpr
      (legacyWords_of_upgradedCells hcells hvalid)
  rw [downgradeLegacyWideInts, hdown]
  rfl

/-! ## Trees -/

theorem upgradeType_list
    {name : String} {layout : ListLayout} {child : ArrowField}
    (hplain : layout.plain = true) :
    upgradeType name (.list layout child) =
      ((upgradeLegacyWideIntField child).map (Option.getD · child)).map
        (DataType.list layout) := by
  rw [upgradeType, if_pos hplain]
  cases upgradeLegacyWideIntField child with
  | error e => rfl
  | ok out => rfl

/-- The conversion of the values of a list. -/
def upgradeValues (child : ArrowField) : Conversion := fun values =>
  (upgradeLegacyWideInts child values).map (Option.getD · (child, values))

theorem upgradeContainer_list
    {name : String} {layout : ListLayout} {child : ArrowField} {a : Column}
    (hplain : layout.plain = true) :
    upgradeContainer name (.list layout child) a =
      (rebuildList name layout (upgradeValues child) a).map
        fun out => (.list layout out.1, out.2) := by
  have hconvert : (fun values => do
      let upgraded ← upgradeLegacyWideInts child values
      return upgraded.getD (child, values)) = upgradeValues child := by
    funext values
    rw [upgradeValues]
    cases upgradeLegacyWideInts child values with
    | error e => rfl
    | ok out => rfl
  rw [upgradeContainer, if_pos hplain, hconvert]
  cases rebuildList name layout (upgradeValues child) a with
  | error e => rfl
  | ok out => rfl

def downgradeValues (child : ArrowField) : Conversion := fun values =>
  ((downgradeLegacyWideInts child values).map (Option.getD · values)).map
    fun out => (child, out)

theorem downgradeContainer_list
    {name : String} {layout : ListLayout} {child : ArrowField} {a : Column}
    (hplain : layout.plain = true) :
    downgradeContainer name (.list layout child) a =
      (rebuildList name layout (downgradeValues child) a).map Prod.snd := by
  have hconvert : (fun values => do
      let downgraded ← downgradeLegacyWideInts child values
      return (child, downgraded.getD values)) = downgradeValues child := by
    funext values
    rw [downgradeValues]
    cases downgradeLegacyWideInts child values with
    | error e => rfl
    | ok out => rfl
  rw [downgradeContainer, if_pos hplain, hconvert]
  cases rebuildList name layout (downgradeValues child) a with
  | error e => rfl
  | ok out => rfl

/-- As many columns as fields. -/
theorem matchingChildren_eq_ok
    (name : String) {fields : List ArrowField}
    {convert : List Column → Except TreeError (List Column)}
    {columns columns' : List Column} (hlength : columns.length = fields.length)
    (hconvert : convert columns = .ok columns') :
    matchingChildren name fields convert columns = .ok (fields, columns') := by
  have hnot : ¬ columns.length ≠ fields.length := not_not.mpr hlength
  simp only [matchingChildren, if_neg hnot, hconvert, bind, Except.bind]
  rfl

/-- A list is upgraded as its values are. -/
theorem ContainerUpgrade.list
    {name : String} {layout : ListLayout} {child : ArrowField}
    {offsets : List ℕ} {validity : List Bool} {values : Column}
    (hvalid : (Column.list layout child offsets validity values).Valid)
    (hchild : ChildUpgrade child values
      ((upgradeLegacyWideIntField child).map (Option.getD · child))
      (upgradeValues child values)) :
    ContainerUpgrade name (.list layout child)
      (.list layout child offsets validity values)
      (upgradeType name (.list layout child))
      (upgradeContainer name (.list layout child)
        (.list layout child offsets validity values)) := by
  obtain ⟨hplain, hok, hvalues⟩ := hvalid
  rw [upgradeType_list hplain, upgradeContainer_list hplain]
  generalize hschema : (upgradeLegacyWideIntField child).map
    (Option.getD · child) = schema at hchild ⊢
  generalize harray : upgradeValues child values = array at hchild
  cases hchild with
  | refused hreported =>
      rw [rebuildList_eq_error harray]
      exact .refused hreported
  | @upgraded child' values' hnot hkeeps hdown hconverted =>
      have hok' := hok.of_keeps hkeeps
      rw [rebuildList_eq_ok hok harray hkeeps]
      refine .upgraded hnot rfl rfl ⟨hplain, hok', hkeeps.valid⟩ ?_
        fun _ _ => .list hplain hconverted
      have hback : downgradeValues child values' = .ok (child, values) := by
        rw [downgradeValues, hdown]
        rfl
      rw [downgradeContainer_list hplain,
        rebuildList_eq_ok hok' hback (hkeeps.symm hvalues hok.1)]
      rfl

theorem upgradeType_struct (name : String) (fields : List ArrowField) :
    upgradeType name (.struct fields) =
      (upgradeFields fields).map DataType.struct := by
  rw [upgradeType]
  exact bind_return DataType.struct

theorem upgradeType_map
    (name : String) (entries : EntriesHeader) (fields : List ArrowField)
    (sorted : Bool) :
    upgradeType name (.map entries fields sorted) =
      (upgradeFields fields).map fun fields =>
        .map entries fields sorted := by
  rw [upgradeType]
  exact bind_return fun fields => DataType.map entries fields sorted

theorem upgradeContainer_struct
    {name : String} {fields : List ArrowField} {a : Column} :
    upgradeContainer name (.struct fields) a =
      (rebuildStruct name (upgradeChildren fields) a).map
        fun out => (.struct out.1, out.2) := by
  rw [upgradeContainer]
  exact bind_return_pair DataType.struct

theorem upgradeContainer_map
    {name : String} {entries : EntriesHeader} {fields : List ArrowField}
    {sorted : Bool} {a : Column} :
    upgradeContainer name (.map entries fields sorted) a =
      (rebuildMap name entries sorted (upgradeChildren fields) a).map
        fun out => (.map entries out.1 sorted, out.2) := by
  rw [upgradeContainer]
  exact bind_return_pair fun fields => DataType.map entries fields sorted

theorem downgradeContainer_struct
    {name : String} {fields : List ArrowField} {a : Column} :
    downgradeContainer name (.struct fields) a =
      (rebuildStruct name (matchingChildren name fields
        (downgradeColumns fields)) a).map Prod.snd := by
  rw [downgradeContainer]
  exact bind_return_snd

theorem downgradeContainer_map
    {name : String} {entries : EntriesHeader} {fields : List ArrowField}
    {sorted : Bool} {a : Column} :
    downgradeContainer name (.map entries fields sorted) a =
      (rebuildMap name entries sorted (matchingChildren entries.name fields
        (downgradeColumns fields)) a).map Prod.snd := by
  rw [downgradeContainer]
  exact bind_return_snd

theorem AllKeep.length_eq
    {fields fields' : List ArrowField} {columns columns' : List Column}
    (h : AllKeep fields columns fields' columns') :
    columns'.length = fields.length := by
  induction h with
  | nil => rfl
  | cons _ _ ih => rw [List.length_cons, List.length_cons, ih]

/-- A struct is upgraded as its children are. -/
theorem ContainerUpgrade.struct
    {name : String} {fields : List ArrowField} {validity : List Bool}
    {columns : List Column}
    (hvalid : (Column.struct fields validity columns).Valid)
    (hchildren : AllUpgrade fields columns (upgradeFields fields)
      (upgradeChildren fields columns)) :
    ContainerUpgrade name (.struct fields) (.struct fields validity columns)
      (upgradeType name (.struct fields))
      (upgradeContainer name (.struct fields)
        (.struct fields validity columns)) := by
  obtain ⟨hok, hcolumns⟩ := hvalid
  rw [upgradeType_struct, upgradeContainer_struct]
  generalize hschema : upgradeFields fields = schema at hchildren ⊢
  generalize harray : upgradeChildren fields columns = array at hchildren
  cases hchildren with
  | refused hreported =>
      rw [rebuildStruct_eq_error harray]
      exact .refused hreported
  | @upgraded fields' columns' hnot hkeeps hdown hconverted =>
      have hok' := hkeeps.structOk hok
      have hback := matchingChildren_eq_ok name hkeeps.length_eq hdown
      rw [rebuildStruct_eq_ok hok harray hkeeps]
      refine .upgraded hnot rfl rfl ⟨hok', hkeeps.valid⟩ ?_
        fun _ _ => .struct hconverted
      rw [downgradeContainer_struct,
        rebuildStruct_eq_ok hok' hback (hkeeps.symm hcolumns hok)]
      rfl

/-- A map is upgraded as the children of its entries are. -/
theorem ContainerUpgrade.map
    {name : String} {entries : EntriesHeader} {fields : List ArrowField}
    {sorted : Bool} {offsets : List ℕ} {validity rows : List Bool}
    {columns : List Column}
    (hvalid : (Column.map entries fields sorted offsets validity
      (.struct fields rows columns)).Valid)
    (hchildren : AllUpgrade fields columns (upgradeFields fields)
      (upgradeChildren fields columns)) :
    ContainerUpgrade name (.map entries fields sorted)
      (.map entries fields sorted offsets validity
        (.struct fields rows columns))
      (upgradeType name (.map entries fields sorted))
      (upgradeContainer name (.map entries fields sorted)
        (.map entries fields sorted offsets validity
          (.struct fields rows columns))) := by
  obtain ⟨hmap, hok, hcolumns⟩ := hvalid
  have hmap : MapOk fields offsets validity (.struct fields) rows := hmap
  rw [upgradeType_map, upgradeContainer_map]
  generalize hschema : upgradeFields fields = schema at hchildren ⊢
  generalize harray : upgradeChildren fields columns = array at hchildren
  cases hchildren with
  | refused hreported =>
      rw [rebuildMap_eq_error harray]
      exact .refused hreported
  | @upgraded fields' columns' hnot hkeeps hdown hconverted =>
      have hok' := hkeeps.structOk hok
      have hmap' : MapOk fields' offsets validity (.struct fields') rows :=
        ⟨hmap.1, rfl, hmap.2.2⟩
      have hback := matchingChildren_eq_ok entries.name hkeeps.length_eq
        hdown
      rw [rebuildMap_eq_ok hmap hok harray hkeeps]
      refine .upgraded hnot rfl rfl ⟨hmap', hok', hkeeps.valid⟩ ?_
        fun _ _ => .map hconverted
      rw [downgradeContainer_map,
        rebuildMap_eq_ok hmap' hok' hback (hkeeps.symm hcolumns hok)]
      rfl

theorem upgradeFields_cons (field : ArrowField) (fields : List ArrowField) :
    upgradeFields (field :: fields) =
      ((upgradeLegacyWideIntField field).map (Option.getD · field)).bind
        fun first => (upgradeFields fields).map (first :: ·) := by
  rw [upgradeFields]
  cases upgradeLegacyWideIntField field with
  | error e => rfl
  | ok out =>
      cases upgradeFields fields with
      | error e => rfl
      | ok outs => rfl

theorem upgradeChildren_cons
    (field : ArrowField) (fields : List ArrowField) (a : Column)
    (columns : List Column) :
    upgradeChildren (field :: fields) (a :: columns) =
      ((upgradeLegacyWideInts field a).map (Option.getD · (field, a))).bind
        fun first => (upgradeChildren fields columns).map
          fun rest => (first.1 :: rest.1, first.2 :: rest.2) := by
  rw [upgradeChildren]
  cases upgradeLegacyWideInts field a with
  | error e => rfl
  | ok out =>
      cases upgradeChildren fields columns with
      | error e => rfl
      | ok outs => rfl

theorem downgradeColumns_cons
    (field : ArrowField) (fields : List ArrowField) (a : Column)
    (columns : List Column) :
    downgradeColumns (field :: fields) (a :: columns) =
      ((downgradeLegacyWideInts field a).map (Option.getD · a)).bind
        fun first => (downgradeColumns fields columns).map (first :: ·) := by
  rw [downgradeColumns]
  cases downgradeLegacyWideInts field a with
  | error e => rfl
  | ok out =>
      cases downgradeColumns fields columns with
      | error e => rfl
      | ok outs => rfl

/-- The upgrades of children one after the other. -/
theorem AllUpgrade.cons
    {field : ArrowField} {a : Column} {fields : List ArrowField}
    {columns : List Column}
    (hfirst : ChildUpgrade field a
      ((upgradeLegacyWideIntField field).map (Option.getD · field))
      ((upgradeLegacyWideInts field a).map (Option.getD · (field, a))))
    (hrest : AllUpgrade fields columns (upgradeFields fields)
      (upgradeChildren fields columns)) :
    AllUpgrade (field :: fields) (a :: columns)
      (upgradeFields (field :: fields))
      (upgradeChildren (field :: fields) (a :: columns)) := by
  rw [upgradeFields_cons, upgradeChildren_cons]
  generalize (upgradeLegacyWideIntField field).map (Option.getD · field) =
    schema at hfirst ⊢
  generalize (upgradeLegacyWideInts field a).map
    (Option.getD · (field, a)) = array at hfirst ⊢
  cases hfirst with
  | refused hreported => exact .refused hreported
  | upgraded hnot hkeeps hdown hconverted =>
      generalize upgradeFields fields = schemas at hrest ⊢
      generalize upgradeChildren fields columns = arrays at hrest ⊢
      cases hrest with
      | refused hreported => exact .refused hreported
      | upgraded hnots hkeep hdowns hconverteds =>
          refine .upgraded ?_ (.cons hkeeps hkeep) ?_
            (.cons hconverted hconverteds)
          · have hnot' := hnot
            rw [fieldContainsLegacyWideInt] at hnot'
            rw [anyContains, hnot', hnots]
            rfl
          · rw [downgradeColumns_cons, hdown, hdowns]
            rfl

mutual

theorem upgrade_field :
    (field : ArrowField) → (a : Column) → a.Valid →
    a.dataType = field.dataType →
    Upgrade field a (upgradeLegacyWideIntField field)
      (upgradeLegacyWideInts field a)
  | .wide name nullable metadata (.legacyWideInt kind), a, hvalid, htype => by
      obtain ⟨cells, rfl⟩ := column_of_leaf hvalid htype
      exact upgrade_leaf hvalid
  | .wide name nullable metadata (.decimalArb params hint), a, hvalid,
      htype => by
      rw [upgradeLegacyWideIntField, upgradeLegacyWideInts]
      exact .untouched rfl
  | .plain name nullable metadata type, a, hvalid, htype => by
      by_cases hcontains : typeContainsLegacyWideInt type = true
      · have hcontainer := upgrade_container name type a hvalid htype hcontains
        rw [upgradeLegacyWideIntField, upgradeLegacyWideInts,
          if_pos hcontains, if_pos hcontains]
        generalize hschema : upgradeType name type = schema at hcontainer ⊢
        generalize harray : upgradeContainer name type a = array
          at hcontainer ⊢
        cases hcontainer with
        | refused hreported => exact .refused hreported
        | upgraded hnot htype' hvalidity hvalid' hdown hconverted =>
            refine .upgraded hnot
              ⟨rfl, htype', hvalidity, hvalid'⟩ ?_ (hconverted _ _)
            rw [downgradeLegacyWideInts, if_pos hcontains, hdown]
            rfl
      · have hnot : typeContainsLegacyWideInt type = false := by
          simpa using hcontains
        rw [upgradeLegacyWideIntField, upgradeLegacyWideInts,
          if_neg hcontains, if_neg hcontains]
        exact .untouched hnot

theorem upgrade_container (name : String) :
    (type : DataType) → (a : Column) → a.Valid → a.dataType = type →
    typeContainsLegacyWideInt type = true →
    ContainerUpgrade name type a (upgradeType name type)
      (upgradeContainer name type a)
  | .list layout child, a, hvalid, htype, hcontains => by
      by_cases hplain : layout.plain = true
      · obtain ⟨offsets, validity, values, rfl⟩ :=
          column_of_list hvalid hplain htype
        have hvalues := upgrade_field child values hvalid.2.2 hvalid.2.1.1
        exact .list hvalid (hvalues.child hvalid.2.2 hvalid.2.1.1)
      · rw [upgradeType, upgradeContainer, if_neg hplain, if_neg hplain]
        exact .refused trivial
  | .struct fields, a, hvalid, htype, hcontains => by
      obtain ⟨validity, columns, rfl⟩ := column_of_struct hvalid htype
      exact .struct hvalid
        (upgrade_children fields columns validity hvalid.2 hvalid.1)
  | .map entries fields sorted, a, hvalid, htype, hcontains => by
      obtain ⟨offsets, validity, rows, columns, rfl⟩ :=
        column_of_map hvalid htype
      exact .map hvalid
        (upgrade_children fields columns rows hvalid.2.2 hvalid.2.1)
  | .leaf _, _, _, _, _ | .dictionary _ _, _, _, _, _
  | .runEndEncoded _ _, _, _, _, _ | .union _ _, _, _, _, _ => by
      rw [upgradeType, upgradeContainer]
      exact .refused trivial

theorem upgrade_children :
    (fields : List ArrowField) → (columns : List Column) →
    (validity : List Bool) → AllValid columns →
    StructOk fields validity columns →
    AllUpgrade fields columns (upgradeFields fields)
      (upgradeChildren fields columns)
  | [], columns, validity, hvalid, hok => by
      obtain rfl : columns = [] := List.forall₂_nil_left_iff.mp hok
      rw [upgradeFields, upgradeChildren]
      · exact .upgraded rfl .nil (by rw [downgradeColumns]; simp) .nil
      · simp
  | field :: fields, [], validity, hvalid, hok => by
      simp [StructOk] at hok
  | field :: fields, column :: columns, validity, hvalid, hok => by
      obtain ⟨hchild, hrest⟩ := List.forall₂_cons.mp hok
      have hfirst := upgrade_field field column hvalid.1 hchild.1
      exact .cons (hfirst.child hvalid.1 hchild.1)
        (upgrade_children fields columns validity hvalid.2 hrest)

end

/-! ## Downgraded leaves -/

theorem exists_legacyWord_iff
    {precision scale : ℕ} {kind : NativeIntKind}
    {value : Option DecimalArbValue} {cell : Option (List UInt8)}
    (hstores : Stores precision scale value cell) :
    (∃ word, LegacyWord scale kind (cell.map Cell.bytes) word) ↔
      ∀ v ∈ value, ∃ n : ℤ, v.value = n ∧ WideIntRange kind n := by
  rcases value with _ | v
  · obtain rfl : cell = none := hstores
    simp only [Option.map_none, Option.not_mem_none, IsEmpty.forall_iff,
      implies_true, iff_true]
    exact ⟨none, .null⟩
  · obtain ⟨hfits, rfl⟩ := hstores
    obtain ⟨w, hdecode, hwvalue⟩ := exists_decoded_of_fits hfits
    constructor
    · rintro ⟨word, hword⟩ v' hv'
      obtain rfl := Option.some.inj hv'
      rcases hword with _ | ⟨hv, hlength, hvalue⟩
      obtain rfl := Except.ok.inj (hdecode.symm.trans hv)
      exact ⟨_, hwvalue.symm.trans hvalue, wideInt_range kind hlength⟩
    · intro h
      obtain ⟨n, hn, hrange⟩ := h v rfl
      obtain ⟨be, hbe⟩ := exists_wideIntBytes_iff.mpr hrange
      obtain ⟨hlength, hvalue⟩ := wideIntBytes_spec hbe
      refine ⟨some (.bytes be), .word hdecode hlength ?_⟩
      rw [hwvalue, hn, hvalue]

/-- What a word was upgraded to stores the number that the word was of. -/
theorem stores_of_upgradedCell
    {precision scale : ℕ} {kind : NativeIntKind}
    {value : Option DecimalArbValue} {cell bytes : Option (List UInt8)}
    {word : Option Cell} (hstores : Stores precision scale value cell)
    (hword : LegacyWord scale kind (cell.map Cell.bytes) word)
    (hbytes : UpgradedCell kind word bytes) :
    Stores legacyWideIntPrecision 0 value bytes := by
  rcases value with _ | v
  · obtain rfl : cell = none := hstores
    cases hword
    cases hbytes
    rfl
  · obtain ⟨hfits, rfl⟩ := hstores
    obtain ⟨w, hdecode, hwvalue⟩ := exists_decoded_of_fits hfits
    rcases hword with _ | ⟨hv, hlength, hvalue⟩
    cases hbytes
    obtain rfl := Except.ok.inj (hdecode.symm.trans hv)
    exact stores_of_integer (hwvalue.symm.trans hvalue)
      (wideInt_range kind hlength)

theorem stores_of_upgradedCells
    {precision scale : ℕ} {kind : NativeIntKind}
    {values : List (Option DecimalArbValue)}
    {cells raw : List (Option (List UInt8))} {words : List (Option Cell)}
    (hstores : List.Forall₂ (Stores precision scale) values cells)
    (hwords : List.Forall₂ (LegacyWord scale kind)
      (cells.map (Option.map Cell.bytes)) words)
    (hraw : List.Forall₂ (UpgradedCell kind) words raw) :
    List.Forall₂ (Stores legacyWideIntPrecision 0) values raw := by
  induction hstores generalizing words raw with
  | nil =>
      obtain rfl := List.forall₂_nil_left_iff.mp hwords
      obtain rfl := List.forall₂_nil_left_iff.mp hraw
      exact .nil
  | cons hfirst _ ih =>
      obtain ⟨word, words, hword, hwords', rfl⟩ :=
        List.forall₂_cons_left_iff.mp hwords
      obtain ⟨bytes, raw, hbytes, hraw', rfl⟩ :=
        List.forall₂_cons_left_iff.mp hraw
      exact .cons (stores_of_upgradedCell hfirst hword hbytes)
        (ih hwords' hraw')

theorem fits_of_legacyWord
    {scale : ℕ} {kind : NativeIntKind} {cell word : Option Cell}
    (h : LegacyWord scale kind cell word) :
    ∀ c ∈ word, Cell.Fits (.fixedSizeBinary 32) c := by
  cases h with
  | null => simp
  | word _ hlength _ =>
      intro c hc
      obtain rfl := Option.some.inj hc
      exact ⟨_, rfl, hlength⟩

theorem exists_words_of_downgraded
    {field : ArrowField} {kind : NativeIntKind} {cells : List (Option Cell)}
    {out : Column}
    (h : decimalArbToLegacyWideInt field kind (.leaf .largeBinary cells) =
      .ok out) :
    ∃ words, out = .leaf (.fixedSizeBinary 32) words ∧
      List.Forall₂ (LegacyWord (declaredScale field) kind) cells words := by
  cases hwords : legacyCells field.name (declaredScale field) kind 0
      cells with
  | error e =>
      simp [decimalArbToLegacyWideInt, hwords, bind, Except.bind] at h
  | ok words =>
      simp only [decimalArbToLegacyWideInt, hwords, bind, Except.bind, pure,
        Except.pure, Except.ok.injEq] at h
      exact ⟨words, h.symm, legacyCells_eq_ok_iff.mp hwords⟩

/-- A leaf of decimals is downgraded exactly if every one of them is an
integer of the range, and upgrading it again gives the same decimals. -/
theorem downgraded_leaf
    (field : ArrowField) (kind : NativeIntKind) {precision : ℕ}
    {values : List (Option DecimalArbValue)}
    {cells : List (Option (List UInt8))}
    (hstores : List.Forall₂ (Stores precision (declaredScale field)) values
      cells) :
    ((∃ out, decimalArbToLegacyWideInt field kind
        (.leaf .largeBinary (cells.map (Option.map Cell.bytes))) =
          .ok out) ↔
      ∀ v, some v ∈ values → ∃ n : ℤ, v.value = n ∧ WideIntRange kind n) ∧
    ∀ out, decimalArbToLegacyWideInt field kind
        (.leaf .largeBinary (cells.map (Option.map Cell.bytes))) = .ok out →
      ∃ raw, legacyWideIntToDecimalArb field.name kind out =
          .ok (.leaf .largeBinary (raw.map (Option.map Cell.bytes))) ∧
        List.Forall₂ (Stores legacyWideIntPrecision 0) values raw := by
  constructor
  · have hwords : (∃ words, List.Forall₂
        (LegacyWord (declaredScale field) kind)
        (cells.map (Option.map Cell.bytes)) words) ↔
          ∀ v, some v ∈ values →
            ∃ n : ℤ, v.value = n ∧ WideIntRange kind n := by
      rw [ExceptLists.exists_forall₂_iff, List.forall_mem_map,
        ExceptLists.forall_mem_iff_of_forall₂ hstores
          fun _ _ => exists_legacyWord_iff]
      constructor
      · intro h v hmem
        exact h (some v) hmem v rfl
      · intro h value hmem v hv
        exact h v (hv ▸ hmem)
    rw [← hwords]
    constructor
    · rintro ⟨out, hout⟩
      obtain ⟨words, -, hwords⟩ := exists_words_of_downgraded hout
      exact ⟨words, hwords⟩
    · rintro ⟨words, hwords⟩
      exact ⟨_, decimalArbToLegacyWideInt_eq_ok_iff.mpr hwords⟩
  · intro out hout
    obtain ⟨words, rfl, hwords⟩ := exists_words_of_downgraded hout
    have hfits : ∀ word ∈ words, ∀ c ∈ word,
        Cell.Fits (.fixedSizeBinary 32) c := by
      intro word hmem
      obtain ⟨cell, -, hword⟩ := ExceptLists.exists_of_mem_right hwords hmem
      exact fits_of_legacyWord hword
    obtain ⟨raw, hraw, hcells⟩ :=
      legacyWideIntToDecimalArb_eq_ok field.name kind hfits
    exact ⟨raw, hraw, stores_of_upgradedCells hstores hwords hcells⟩

/-! ## The bridge -/

/-- The schema upgrade and the array upgrade of a field find no legacy leaf
both, fail both, or give the same field without a legacy leaf, with an array
of its type, in which every word is the canonical bytes of its integer, and
which is downgraded to the original. -/
def LegacyBridgeHolds (field : ArrowField) (a : Column) : Prop :=
  (upgradeLegacyWideIntField field = .ok none ∧
    upgradeLegacyWideInts field a = .ok none ∧
    fieldContainsLegacyWideInt field = false) ∨
  (∃ e : TreeError, e.Reported ∧ upgradeLegacyWideIntField field = .error e ∧
    upgradeLegacyWideInts field a = .error e) ∨
  ∃ field' a', upgradeLegacyWideIntField field = .ok (some field') ∧
    upgradeLegacyWideInts field a = .ok (some (field', a')) ∧
    a'.dataType = field'.dataType ∧
    fieldContainsLegacyWideInt field' = false ∧
    downgradeLegacyWideInts field a' = .ok (some a) ∧
    Converted isLegacyWideInt LeafUpgraded NoUnwrap field a a'

/-- A column of decimals is downgraded exactly if each is an integer of the
range of the kind, and the words are upgraded to a column of the same
decimals, which is the same column at the same precision and scale. -/
def LegacyLeafHolds (field : ArrowField) (kind : NativeIntKind)
    (precision : ℕ) (values : List (Option DecimalArbValue))
    (cells : List (Option (List UInt8))) : Prop :=
  ((∃ out, decimalArbToLegacyWideInt field kind
      (.leaf .largeBinary (cells.map (Option.map Cell.bytes))) = .ok out) ↔
    ∀ v, some v ∈ values → ∃ n : ℤ, v.value = n ∧ WideIntRange kind n) ∧
  ∀ out, decimalArbToLegacyWideInt field kind
      (.leaf .largeBinary (cells.map (Option.map Cell.bytes))) = .ok out →
    ∃ raw, legacyWideIntToDecimalArb field.name kind out =
        .ok (.leaf .largeBinary (raw.map (Option.map Cell.bytes))) ∧
      List.Forall₂ (Stores legacyWideIntPrecision 0) values raw ∧
      (precision = legacyWideIntPrecision → declaredScale field = 0 →
        raw = cells)

theorem legacyBridgeHolds_of_upgrade
    {field : ArrowField} {a : Column}
    (h : Upgrade field a (upgradeLegacyWideIntField field)
      (upgradeLegacyWideInts field a)) : LegacyBridgeHolds field a := by
  unfold LegacyBridgeHolds
  generalize upgradeLegacyWideIntField field = schema at h ⊢
  generalize upgradeLegacyWideInts field a = array at h ⊢
  cases h with
  | untouched hnot => exact .inl ⟨rfl, rfl, hnot⟩
  | refused hreported => exact .inr (.inl ⟨_, hreported, rfl, rfl⟩)
  | upgraded hnot hkeeps hdown hconverted =>
      exact .inr (.inr ⟨_, _, rfl, rfl, hkeeps.type, hnot, hdown,
        hconverted⟩)

/-- The bridge of the retired integer types over every field with every array
of its type, and over every column of decimals. -/
theorem legacy_bridge_lossless :
    (∀ (field : ArrowField) (a : Column), a.Valid →
      a.dataType = field.dataType → LegacyBridgeHolds field a) ∧
    ∀ (field : ArrowField) (kind : NativeIntKind) (precision : ℕ)
      (values : List (Option DecimalArbValue))
      (cells : List (Option (List UInt8))),
      List.Forall₂ (Stores precision (declaredScale field)) values cells →
      LegacyLeafHolds field kind precision values cells := by
  constructor
  · intro field a hvalid htype
    exact legacyBridgeHolds_of_upgrade (upgrade_field field a hvalid htype)
  · intro field kind precision values cells hstores
    obtain ⟨hexists, hback⟩ := downgraded_leaf field kind hstores
    refine ⟨hexists, fun out hout => ?_⟩
    obtain ⟨raw, hraw, hsame⟩ := hback out hout
    refine ⟨raw, hraw, hsame, fun hprecision hscale => ?_⟩
    rw [hprecision, hscale] at hstores
    exact List.right_unique_forall₂' (fun _ _ _ h h' => h.functional h')
      hsame hstores

/-- The largest unsigned word, and a null. -/
theorem legacy_bridge_lossless_words :
    LegacyBridgeHolds (.wide "v" true [] (.legacyWideInt .u256))
      (.leaf (.fixedSizeBinary 32)
        [some (.bytes (List.replicate 32 0xFF)), none]) :=
  legacy_bridge_lossless.1 _ _
    (by simp [Column.Valid, Cell.Fits]) rfl

end ArrowTree

end Streamling
