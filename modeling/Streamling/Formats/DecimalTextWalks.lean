import Mathlib
import Streamling.Formats.DecimalTextLeaves

/-!
# The walks of the text bridge

To text, a walk over the type tree fails with an error, or converts every
decimal exactly if none stands directly in a run-end encoding: such a column
is cast to its values, whose field is no longer a decimal, and is handed over
as the stored bytes.  From text, the walk fails or restores every decimal.
-/

namespace Streamling

namespace ArrowTree

open DecimalArbValue

section

variable {plainString : BigDecimal → String}
  {cast : Column → DataType → Option Column}

/-! ## To text -/

/-- What the walk to text does with a field. -/
abbrev WalkedToText (plainString : BigDecimal → String)
    (cast : Column → DataType → Option Column) (field : ArrowField)
    (a : Column) (result : Except TreeError (ArrowField × Column)) : Prop :=
  Walked (unitesDecimals field = true) (unitesDecimals field = false)
    (encodesDecimals field = false)
    (Converted isDecimalArb (LeafAsText plainString) (CastOff cast) field a)
    field a result

abbrev AllWalkedToText (plainString : BigDecimal → String)
    (cast : Column → DataType → Option Column) (fields : List ArrowField)
    (columns : List Column)
    (result : Except TreeError (List ArrowField × List Column)) : Prop :=
  AllWalked (anyUnitesDecimals fields = true)
    (anyUnitesDecimals fields = false) (anyEncodesDecimals fields = false)
    (AllConverted isDecimalArb (LeafAsText plainString) (CastOff cast) fields
      columns) fields columns result

/-- A leaf of decimals fails, or is converted. -/
theorem walked_leafToText
    {name : String} {nullable : Bool} {metadata : FieldMetadata}
    {params : Arrow.DecimalArbParams} {hint : Option NativeIntKind}
    {cells : List (Option Cell)} :
    WalkedToText plainString cast
      (.wide name nullable metadata (.decimalArb params hint))
      (.leaf .largeBinary cells)
      (decimalArbLeavesToText plainString cast
        (.wide name nullable metadata (.decimalArb params hint))
        (.leaf .largeBinary cells)) := by
  cases htexts : cells.mapM (leafText plainString params.scale) with
  | error e =>
      have hresult : decimalArbLeavesToText plainString cast
          (.wide name nullable metadata (.decimalArb params hint))
          (.leaf .largeBinary cells) = .error e := by
        simp only [decimalArbLeavesToText, decimalArbToStrings, htexts, bind,
          Except.bind]
      obtain ⟨cell, hmem, hcell⟩ :=
        ExceptLists.exists_mem_of_mapM_eq_error htexts
      rw [hresult]
      refine .of_error (reported_of_leafText hcell) fun hempty => ?_
      rw [show cells = [] from hempty] at hmem
      simp at hmem
  | ok texts =>
      have hresult : decimalArbLeavesToText plainString cast
          (.wide name nullable metadata (.decimalArb params hint))
          (.leaf .largeBinary cells) =
            .ok (textField name nullable, .leaf .utf8 texts) := by
        simp only [decimalArbLeavesToText, decimalArbToStrings, htexts, bind,
          Except.bind]
        rfl
      have hforall := ExceptLists.mapM_eq_ok_iff.mp htexts
      rw [hresult]
      refine .of_ok rfl ⟨rfl, rfl, ?_, ?_⟩ ?_
      · exact (ExceptLists.map_eq_map_of_forall₂ hforall
          fun _ _ h => (leafText_isSome h).1.symm).symm
      · intro text hmem
        obtain ⟨cell, -, hcell⟩ := ExceptLists.exists_of_mem_right hforall hmem
        exact (leafText_isSome hcell).2
      · have hconverted : Converted isDecimalArb (LeafAsText plainString)
            (CastOff cast)
            (.wide name nullable metadata (.decimalArb params hint))
            (.leaf .largeBinary cells) (.leaf .utf8 texts) :=
          .leaf rfl ⟨cells, texts, rfl, rfl, hforall⟩
        exact ⟨fun _ => rfl, fun _ => hconverted⟩

/-- An encoded column is converted as what the cast gives. -/
theorem converted_castOff
    {name : String} {nullable : Bool} {metadata : FieldMetadata}
    {type plain : DataType} {a b a' : Column}
    (hcontains : typeContainsDecimalArb type = true)
    (hplain : plainLayout type = some plain)
    (hinner : typeContainsDecimalArb plain = true)
    (hcast : cast a plain = some b) :
    Converted isDecimalArb (LeafAsText plainString) (CastOff cast)
        (.plain name nullable metadata type) a a' ↔
      Converted isDecimalArb (LeafAsText plainString) (CastOff cast)
        (.plain name nullable metadata plain) b a' := by
  constructor
  · intro h
    cases h with
    | same hnot =>
        exact absurd hcontains (by
          simpa [typeContainsDecimalArb, ArrowField.contains] using hnot)
    | @list _ _ _ layout _ _ _ _ _ _ _ hlayout _ =>
        cases layout <;> simp_all [plainLayout, ListLayout.plain]
    | map => simp [plainLayout] at hplain
    | struct => simp [plainLayout] at hplain
    | unwrapped hunwraps hconverted =>
        cases hunwraps with
        | layout hplain' _ hcast' =>
            obtain rfl := Option.some.inj (hplain'.symm.trans hplain)
            obtain rfl := Option.some.inj (hcast'.symm.trans hcast)
            exact hconverted
        | leaf hleaf _ =>
            have hlayout := plainLayout_of_encodedLeaf _ _ hleaf
            obtain rfl := Option.some.inj (hlayout.symm.trans hplain)
            simp [typeContainsDecimalArb, DataType.contains] at hinner
  · intro h
    exact .unwrapped (.layout hplain hinner hcast) h

/-- Decimals right below an encoding are not converted by the cast. -/
theorem not_converted_of_encodedLeaf
    {name : String} {nullable : Bool} {metadata : FieldMetadata}
    {type : DataType} {wide : WideType} {a b : Column}
    (hcontains : typeContainsDecimalArb type = true)
    (hleaf : encodedLeaf type = some wide)
    (hdecimal : isDecimalArb wide = true)
    (htype : b.dataType = .leaf wide.storage) :
    ¬ Converted isDecimalArb (LeafAsText plainString) (CastOff cast)
      (.plain name nullable metadata type) a b := by
  have hlayout := plainLayout_of_encodedLeaf _ _ hleaf
  intro h
  cases h with
  | same hnot =>
      exact absurd hcontains (by
        simpa [typeContainsDecimalArb, ArrowField.contains] using hnot)
  | list => simp [encodedLeaf] at hleaf
  | map => simp [encodedLeaf] at hleaf
  | struct => simp [encodedLeaf] at hleaf
  | unwrapped hunwraps hconverted =>
      cases hunwraps with
      | layout hplain hinner _ =>
          obtain rfl := Option.some.inj (hplain.symm.trans hlayout)
          simp [typeContainsDecimalArb, DataType.contains] at hinner
      | leaf hleaf' _ =>
          obtain rfl := Option.some.inj (hleaf.symm.trans hleaf')
          cases hconverted with
          | same hnot => simp [ArrowField.contains, hdecimal] at hnot
          | unwrapped hunwraps _ => cases hunwraps
          | leaf _ htext =>
              rcases wide with ⟨params, hint⟩ | kind
              · obtain ⟨cells, texts, -, rfl, -⟩ := htext
                simp [Column.dataType, WideType.storage] at htype
              · exact htext

/-- The walk of an encoded column, from that of what the cast gives. -/
theorem walked_castOff
    (hcast : CastUnwraps cast)
    {name : String} {nullable : Bool} {metadata : FieldMetadata}
    {type plain : DataType} {a : Column} (hvalid : a.Valid)
    (htype : a.dataType = type)
    (hcontains : typeContainsDecimalArb type = true)
    (hplain : plainLayout type = some plain)
    (hcontainer : ∀ b : Column, b.Valid → b.dataType = plain →
      typeContainsDecimalArb plain = true →
      Walked (typeUnitesDecimals type = true)
        (typeUnitesDecimals type = false) (typeEncodesDecimals type = false)
        (Converted isDecimalArb (LeafAsText plainString) (CastOff cast)
          (.plain name nullable metadata plain) b)
        (.plain name nullable metadata plain) b
        (containerToText plainString cast name nullable metadata type b)) :
    WalkedToText plainString cast (.plain name nullable metadata type) a
      (decimalArbLeavesToText plainString cast
        (.plain name nullable metadata type) a) := by
  have hplain' : plainLayout a.dataType = some plain := by
    rw [htype]
    exact hplain
  rw [decimalArbLeavesToText, if_pos hcontains, hplain]
  cases hb : cast a plain with
  | none =>
      simp only [castTo, hb, bind, Except.bind]
      refine .of_error trivial fun hempty => ?_
      obtain ⟨index, validity, ha⟩ := encoded_of_plainLayout hvalid hplain'
      rw [ha] at hempty hb
      obtain ⟨rfl, rfl⟩ := hempty
      obtain ⟨b, hb', -⟩ := hcast.empty _ _ hplain'
      rw [hb'] at hb
      simp at hb
  | some b =>
      obtain ⟨hbvalid, hbtype, hbvalidity⟩ :=
        hcast.keeps a plain b hvalid hplain' hb
      simp only [castTo, hb, bind, Except.bind]
      by_cases hinner : typeContainsDecimalArb plain = true
      · rw [if_pos hinner]
        have hwalked := hcontainer b hbvalid hbtype hinner
        constructor
        · intro e he
          refine ⟨(hwalked.error e he).1, fun hempty => ?_⟩
          obtain ⟨index, validity, ha⟩ := encoded_of_plainLayout hvalid hplain'
          rw [ha] at hempty hb
          obtain ⟨rfl, rfl⟩ := hempty
          obtain ⟨b', hb', hbempty⟩ := hcast.empty _ _ hplain'
          obtain rfl := Option.some.inj (hb.symm.trans hb')
          exact (hwalked.error e he).2 hbempty
        · intro field' a' hok
          obtain ⟨hpasses, hkeeps, hwhole⟩ := hwalked.ok field' a' hok
          refine ⟨hpasses, ⟨hkeeps.nullable, hkeeps.type, ?_, hkeeps.valid⟩,
            ?_⟩
          · rw [hkeeps.validity, hbvalidity]
          · rw [converted_castOff hcontains hplain hinner hb]
            exact hwhole
      · rw [if_neg hinner]
        obtain ⟨wide, hleaf, hdecimal, hencodes, hunites⟩ :=
          encodedLeaf_of_not_contains type plain hplain hcontains
            (by simpa using hinner)
        have hlayout := plainLayout_of_encodedLeaf _ _ hleaf
        obtain rfl := Option.some.inj (hlayout.symm.trans hplain)
        refine .of_ok hunites ⟨rfl, hbtype, hbvalidity, hbvalid⟩ ?_
        rw [iff_false_intro (not_converted_of_encodedLeaf hcontains hleaf
          hdecimal hbtype), false_iff]
        simpa [encodesDecimals] using hencodes

/-! ## Containers -/

/-- The layout of a list without the view. -/
def ListLayout.unviewed : ListLayout → ListLayout
  | list | listView => .list
  | largeList | largeListView => .largeList
  | fixedSizeList size => .fixedSizeList size

theorem ListLayout.plain_unviewed (layout : ListLayout) :
    layout.unviewed.plain = true := by
  cases layout <;> rfl

theorem unwrapped_list (layout : ListLayout) (child : ArrowField) :
    unwrapped (.list layout child) = .list layout.unviewed child := by
  cases layout <;> rfl

theorem castOff_none
    {name : String} {nullable : Bool} {metadata : FieldMetadata}
    {type : DataType} (h : plainLayout type = none) (a : Column)
    (field : ArrowField) (b : Column) :
    ¬ CastOff cast (.plain name nullable metadata type) a field b := by
  intro hcast
  cases hcast with
  | layout hplain => simp [h] at hplain
  | leaf hleaf => simp [plainLayout_of_encodedLeaf _ _ hleaf] at h

theorem containerToText_list
    {name : String} {nullable : Bool} {metadata : FieldMetadata}
    {layout : ListLayout} {child : ArrowField} {a : Column} :
    containerToText plainString cast name nullable metadata
        (.list layout child) a =
      (rebuildList name layout.unviewed
        (decimalArbLeavesToText plainString cast child) a).map fun out =>
          (.plain name nullable metadata (.list layout.unviewed out.1),
            out.2) := by
  cases layout <;>
    exact bind_return_pair
      fun child => ArrowField.plain name nullable metadata (.list _ child)

theorem containerToText_struct
    {name : String} {nullable : Bool} {metadata : FieldMetadata}
    {fields : List ArrowField} {a : Column} :
    containerToText plainString cast name nullable metadata (.struct fields)
        a =
      (rebuildStruct name (childrenToText plainString cast fields) a).map
        fun out => (.plain name nullable metadata (.struct out.1), out.2) := by
  exact bind_return_pair
    fun fields => ArrowField.plain name nullable metadata (.struct fields)

theorem containerToText_map
    {name : String} {nullable : Bool} {metadata : FieldMetadata}
    {entries : EntriesHeader} {fields : List ArrowField} {sorted : Bool}
    {a : Column} :
    containerToText plainString cast name nullable metadata
        (.map entries fields sorted) a =
      (rebuildMap name entries sorted
        (childrenToText plainString cast fields) a).map fun out =>
          (.plain name nullable metadata (.map entries out.1 sorted),
            out.2) := by
  exact bind_return_pair fun fields =>
    ArrowField.plain name nullable metadata (.map entries fields sorted)

mutual

theorem walked_toText (hcast : CastUnwraps cast) :
    (field : ArrowField) → (a : Column) → a.Valid →
    a.dataType = field.dataType →
    WalkedToText plainString cast field a
      (decimalArbLeavesToText plainString cast field a)
  | .wide name nullable metadata (.decimalArb params hint), a, hvalid,
      htype => by
      obtain ⟨cells, rfl⟩ := column_of_leaf hvalid htype
      exact walked_leafToText
  | .wide name nullable metadata (.legacyWideInt kind), a, hvalid, htype => by
      rw [decimalArbLeavesToText]
      refine .of_ok rfl ⟨rfl, htype, rfl, hvalid⟩ ?_
      exact ⟨fun _ => rfl, fun _ => .same rfl⟩
  | .plain name nullable metadata type, a, hvalid, htype => by
      by_cases hcontains : typeContainsDecimalArb type = true
      · have hcontainer := walked_container hcast type name nullable metadata
        cases hplain : plainLayout type with
        | none =>
            have hunwrapped : unwrapped type = type := by
              rw [unwrapped, hplain, Option.getD_none]
            rw [hunwrapped] at hcontainer
            rw [decimalArbLeavesToText, if_pos hcontains, hplain]
            exact hcontainer a hvalid htype hcontains
        | some plain =>
            have hunwrapped : unwrapped type = plain := by
              rw [unwrapped, hplain, Option.getD_some]
            rw [hunwrapped] at hcontainer
            exact walked_castOff hcast hvalid htype hcontains hplain
              hcontainer
      · have hnot : typeContainsDecimalArb type = false := by
          simpa using hcontains
        obtain ⟨hencodes, hunites⟩ :=
          typeEncodesDecimals_of_not_contains type hnot
        rw [decimalArbLeavesToText, if_neg hcontains]
        refine .of_ok hunites ⟨rfl, htype, rfl, hvalid⟩ ?_
        exact ⟨fun _ => hencodes, fun _ => .same hnot⟩

/-- A container without its encoding is walked. -/
theorem walked_container (hcast : CastUnwraps cast) :
    (type : DataType) → (name : String) → (nullable : Bool) →
    (metadata : FieldMetadata) → (b : Column) → b.Valid →
    b.dataType = unwrapped type →
    typeContainsDecimalArb (unwrapped type) = true →
    Walked (typeUnitesDecimals type = true) (typeUnitesDecimals type = false)
      (typeEncodesDecimals type = false)
      (Converted isDecimalArb (LeafAsText plainString) (CastOff cast)
        (.plain name nullable metadata (unwrapped type)) b)
      (.plain name nullable metadata (unwrapped type)) b
      (containerToText plainString cast name nullable metadata type b)
  | .leaf type, name, nullable, metadata, b, hvalid, htype, hcontains => by
      simp [unwrapped, plainLayout, typeContainsDecimalArb,
        DataType.contains] at hcontains
  | .list layout child, name, nullable, metadata, b, hvalid, htype,
      hcontains => by
      rw [unwrapped_list] at htype hcontains ⊢
      have hplain := layout.plain_unviewed
      obtain ⟨offsets, validity, values, rfl⟩ :=
        column_of_list hvalid hplain htype
      have hvalues := walked_toText hcast child values hvalid.2.2 hvalid.2.1.1
      have hnone : plainLayout (.list layout.unviewed child) = none := by
        cases layout <;> rfl
      rw [containerToText_list]
      exact hvalues.list (fun child => .plain name nullable metadata
          (.list layout.unviewed child)) hvalid
        (fun _ _ => converted_list hplain hcontains (castOff_none hnone))
        (fun _ => rfl) (fun _ => rfl)
  | .struct fields, name, nullable, metadata, b, hvalid, htype,
      hcontains => by
      obtain ⟨validity, columns, rfl⟩ := column_of_struct hvalid htype
      have hcolumns := walked_children hcast fields columns validity
        hvalid.2 hvalid.1
      rw [containerToText_struct]
      exact hcolumns.struct (fun fields => .plain name nullable metadata
          (.struct fields)) hvalid
        (fun _ _ => converted_struct hcontains (castOff_none rfl))
        (fun _ => rfl) (fun _ => rfl)
  | .map entries fields sorted, name, nullable, metadata, b, hvalid, htype,
      hcontains => by
      obtain ⟨offsets, validity, rows, columns, rfl⟩ :=
        column_of_map hvalid htype
      have hcolumns := walked_children hcast fields columns rows
        hvalid.2.2 hvalid.2.1
      rw [containerToText_map]
      exact hcolumns.map (fun fields => .plain name nullable metadata
          (.map entries fields sorted)) hvalid
        (fun _ _ => converted_map hcontains (castOff_none rfl))
        (fun _ => rfl) (fun _ => rfl)
  | .dictionary key values, name, nullable, metadata, b, hvalid, htype,
      hcontains => by
      rw [containerToText]
      exact walked_container hcast values name nullable metadata b hvalid
        htype hcontains
  | .runEndEncoded runEnds (.plain _ _ _ values), name, nullable, metadata, b,
      hvalid, htype, hcontains => by
      rw [containerToText]
      exact walked_container hcast values name nullable metadata b hvalid
        htype hcontains
  | .runEndEncoded runEnds (.wide _ _ _ type), name, nullable, metadata, b,
      hvalid, htype, hcontains => by
      simp [unwrapped, plainLayout, typeContainsDecimalArb,
        DataType.contains] at hcontains
  | .union fields dense, name, nullable, metadata, b, hvalid, htype,
      hcontains => by
      rw [containerToText]
      exact .of_error trivial fun _ => hcontains

theorem walked_children (hcast : CastUnwraps cast) :
    (fields : List ArrowField) → (columns : List Column) →
    (validity : List Bool) → AllValid columns →
    StructOk fields validity columns →
    AllWalkedToText plainString cast fields columns
      (childrenToText plainString cast fields columns)
  | [], columns, validity, hvalid, hok => by
      obtain rfl : columns = [] := List.forall₂_nil_left_iff.mp hok
      rw [childrenToText]
      · exact .of_ok rfl .nil ⟨fun _ => rfl, fun _ => .nil⟩
      · simp
  | field :: fields, [], validity, hvalid, hok => by
      simp [StructOk] at hok
  | field :: fields, column :: columns, validity, hvalid, hok => by
      obtain ⟨hchild, hrest⟩ := List.forall₂_cons.mp hok
      have hfirst := walked_toText hcast field column hvalid.1 hchild.1
      have hothers := walked_children hcast fields columns validity hvalid.2
        hrest
      rw [childrenToText]
      exact AllWalked.cons hfirst hothers (by simp [anyUnitesDecimals])
        (by simp [anyUnitesDecimals]) (by simp [anyEncodesDecimals])
        fun _ _ => allConverted_cons

end

end

/-! ## From text -/

section

variable {parse : String → Option BigDecimal}

/-- What the walk from text does with the text of a field. -/
abbrev WalkedFromText (parse : String → Option BigDecimal)
    (field : ArrowField) (a : Column) (result : Except TreeError Column) :
    Prop :=
  Walked True True True
    (Converted isDecimalArb (LeafAsBytes parse) NoUnwrap field a)
    (decimalArbLeavesAsTextField field) a
    (result.map fun out => (field, out))

abbrev AllWalkedFromText (parse : String → Option BigDecimal)
    (fields : List ArrowField) (columns : List Column)
    (result : Except TreeError (List Column)) : Prop :=
  AllWalked True True True
    (AllConverted isDecimalArb (LeafAsBytes parse) NoUnwrap fields columns)
    (fieldsAsText fields) columns (result.map fun outs => (fields, outs))

/-- A leaf of texts fails, or is restored. -/
theorem walked_leafFromText
    {name : String} {nullable : Bool} {metadata : FieldMetadata}
    {params : Arrow.DecimalArbParams} {hint : Option NativeIntKind}
    {texts : List (Option Cell)} :
    WalkedFromText parse
      (.wide name nullable metadata (.decimalArb params hint))
      (.leaf .utf8 texts)
      (decimalArbLeavesFromText parse
        (.wide name nullable metadata (.decimalArb params hint))
        (.leaf .utf8 texts)) := by
  cases hraw : buildRows .leaf name params.precision params.scale
      (parsedCell parse) texts with
  | error e =>
      have hresult : decimalArbLeavesFromText parse
          (.wide name nullable metadata (.decimalArb params hint))
          (.leaf .utf8 texts) = .error e := by
        simp only [decimalArbLeavesFromText, decimalArbFromStrings, hraw, bind,
          Except.bind]
      rw [hresult]
      refine .of_error ?_ fun _ => trivial
      rcases error_of_buildRows hraw with ⟨cause, rfl⟩ | ⟨text, -, htext⟩
      · trivial
      · exact reported_of_parsedCell htext
  | ok raw =>
      have hresult : decimalArbLeavesFromText parse
          (.wide name nullable metadata (.decimalArb params hint))
          (.leaf .utf8 texts) =
            .ok (.leaf .largeBinary (raw.inner.map (Option.map Cell.bytes)))
          := by
        simp only [decimalArbLeavesFromText, decimalArbFromStrings, hraw, bind,
          Except.bind]
        rfl
      obtain ⟨-, -, -, hcells⟩ := buildRows_eq_ok_iff.mp hraw
      have hconverted : Converted isDecimalArb (LeafAsBytes parse) NoUnwrap
          (.wide name nullable metadata (.decimalArb params hint))
          (.leaf .utf8 texts)
          (.leaf .largeBinary (raw.inner.map (Option.map Cell.bytes))) :=
        .leaf rfl ⟨texts, raw.inner, rfl, rfl, hcells⟩
      rw [hresult]
      refine .of_ok trivial ⟨rfl, rfl, ?_, ?_⟩
        ⟨fun _ => trivial, fun _ => hconverted⟩
      · have hnulls : texts.map Option.isSome =
            raw.inner.map Option.isSome := by
          apply ExceptLists.map_eq_map_of_forall₂ hcells
          rintro text cell ⟨value, hvalue, hstores⟩
          exact isSome_of_parsedCell hvalue hstores
        simp only [Column.validity, List.map_map, hnulls]
        apply List.map_congr_left
        intro cell _
        cases cell <;> rfl
      · intro cell hmem c hc
        obtain ⟨bytes, -, rfl⟩ := List.mem_map.mp hmem
        obtain ⟨b, -, rfl⟩ := Option.map_eq_some_iff.mp hc
        exact ⟨b, rfl⟩

/-- Where the conversion keeps the field, so does that of the container. -/
theorem fst_of_rebuildList
    {name : String} {layout : ListLayout} {child : ArrowField}
    {convert : Column → Except TreeError Column} {a : Column}
    {out : ArrowField × Column}
    (h : rebuildList name layout (fun values =>
      (convert values).map fun out => (child, out)) a = .ok out) :
    out.1 = child := by
  cases a with
  | list layout' child' offsets validity values =>
      rw [rebuildList] at h
      split at h
      · cases hvalues : convert values with
        | error e => simp [hvalues, Except.map, bind, Except.bind] at h
        | ok values' =>
            cases hnew : listNew layout child offsets validity values' with
            | error e =>
                simp [hvalues, hnew, Except.map, bind, Except.bind] at h
            | ok b =>
                simp only [hvalues, hnew, Except.map, bind, Except.bind, pure,
                  Except.pure, Except.ok.injEq] at h
                rw [← h]
      · simp at h
  | leaf | map | struct | encoded => simp [rebuildList] at h

theorem fst_of_rebuildStruct
    {name : String} {fields : List ArrowField}
    {convert : List Column → Except TreeError (List Column)} {a : Column}
    {out : List ArrowField × Column}
    (h : rebuildStruct name (fun columns =>
      (convert columns).map fun outs => (fields, outs)) a = .ok out) :
    out.1 = fields := by
  cases a with
  | struct fields' validity columns =>
      rw [rebuildStruct] at h
      cases hcolumns : convert columns with
      | error e => simp [hcolumns, Except.map, bind, Except.bind] at h
      | ok columns' =>
          cases hnew : structNew fields validity columns' with
          | error e =>
              simp [hcolumns, hnew, Except.map, bind, Except.bind] at h
          | ok b =>
              simp only [hcolumns, hnew, Except.map, bind, Except.bind, pure,
                Except.pure, Except.ok.injEq] at h
              rw [← h]
  | leaf | map | list | encoded => simp [rebuildStruct] at h

theorem fst_of_rebuildMap
    {name : String} {entries : EntriesHeader} {fields : List ArrowField}
    {sorted : Bool} {convert : List Column → Except TreeError (List Column)}
    {a : Column} {out : List ArrowField × Column}
    (h : rebuildMap name entries sorted (fun columns =>
      (convert columns).map fun outs => (fields, outs)) a = .ok out) :
    out.1 = fields := by
  cases a with
  | map entries' fields' sorted' offsets validity values =>
      rw [rebuildMap] at h
      cases hvalues : rebuildStruct entries.name (fun columns =>
          (convert columns).map fun outs => (fields, outs)) values with
      | error e => simp [hvalues, bind, Except.bind] at h
      | ok values' =>
          cases hnew : mapNew entries values'.1 sorted offsets validity
              values'.2 with
          | error e => simp [hvalues, hnew, bind, Except.bind] at h
          | ok b =>
              simp only [hvalues, hnew, bind, Except.bind, pure, Except.pure,
                Except.ok.injEq] at h
              have hfields := fst_of_rebuildStruct hvalues
              rw [← h]
              exact hfields
  | leaf | struct | list | encoded => simp [rebuildMap] at h

theorem containerFromText_list
    {name : String} {nullable : Bool} {metadata : FieldMetadata}
    {layout : ListLayout} {child : ArrowField} {a : Column}
    (hplain : layout.plain = true) :
    (containerFromText parse name (.list layout child) a).map
        (fun out => (ArrowField.plain name nullable metadata
          (.list layout child), out)) =
      (rebuildList name layout (fun values =>
        (decimalArbLeavesFromText parse child values).map
          fun out => (child, out)) a).map fun out =>
            (.plain name nullable metadata (.list layout out.1), out.2) := by
  simp only [containerFromText, if_pos hplain, bind_return_const]
  cases hout : rebuildList name layout (fun values =>
      (decimalArbLeavesFromText parse child values).map
        fun out => (child, out)) a with
  | error e => rfl
  | ok out =>
      have hfst := fst_of_rebuildList hout
      simp only [Except.map, hfst]
      rfl

theorem containerFromText_struct
    {name : String} {nullable : Bool} {metadata : FieldMetadata}
    {fields : List ArrowField} {a : Column} :
    (containerFromText parse name (.struct fields) a).map
        (fun out => (ArrowField.plain name nullable metadata
          (.struct fields), out)) =
      (rebuildStruct name (fun columns =>
        (childrenFromText parse fields columns).map
          fun outs => (fields, outs)) a).map fun out =>
            (.plain name nullable metadata (.struct out.1), out.2) := by
  simp only [containerFromText, bind_return_const]
  cases hout : rebuildStruct name (fun columns =>
      (childrenFromText parse fields columns).map
        fun outs => (fields, outs)) a with
  | error e => rfl
  | ok out =>
      have hfst := fst_of_rebuildStruct hout
      simp only [Except.map, hfst]
      rfl

theorem containerFromText_map
    {name : String} {nullable : Bool} {metadata : FieldMetadata}
    {entries : EntriesHeader} {fields : List ArrowField} {sorted : Bool}
    {a : Column} :
    (containerFromText parse name (.map entries fields sorted) a).map
        (fun out => (ArrowField.plain name nullable metadata
          (.map entries fields sorted), out)) =
      (rebuildMap name entries sorted (fun columns =>
        (childrenFromText parse fields columns).map
          fun outs => (fields, outs)) a).map fun out =>
            (.plain name nullable metadata (.map entries out.1 sorted),
              out.2) := by
  simp only [containerFromText, bind_return_const]
  cases hout : rebuildMap name entries sorted (fun columns =>
      (childrenFromText parse fields columns).map
        fun outs => (fields, outs)) a with
  | error e => rfl
  | ok out =>
      have hfst := fst_of_rebuildMap hout
      simp only [Except.map, hfst]
      rfl

mutual

theorem walked_fromText :
    (field : ArrowField) → (a : Column) → a.Valid →
    a.dataType = (decimalArbLeavesAsTextField field).dataType →
    WalkedFromText parse field a (decimalArbLeavesFromText parse field a)
  | .wide name nullable metadata (.decimalArb params hint), a, hvalid,
      htype => by
      obtain ⟨texts, rfl⟩ := column_of_leaf hvalid htype
      exact walked_leafFromText
  | .wide name nullable metadata (.legacyWideInt kind), a, hvalid, htype => by
      rw [decimalArbLeavesFromText]
      refine .of_ok trivial ⟨rfl, htype, rfl, hvalid⟩ ?_
      exact ⟨fun _ => trivial, fun _ => .same rfl⟩
  | .plain name nullable metadata type, a, hvalid, htype => by
      by_cases hcontains : typeContainsDecimalArb type = true
      · rw [decimalArbLeavesAsTextField, if_pos hcontains] at htype
        have hcontainer := walked_containerFromText type name nullable metadata
          a hvalid htype hcontains
        rw [decimalArbLeavesFromText, if_pos hcontains, WalkedFromText,
          decimalArbLeavesAsTextField, if_pos hcontains]
        exact hcontainer
      · have hnot : typeContainsDecimalArb type = false := by
          simpa using hcontains
        rw [decimalArbLeavesAsTextField, if_neg hcontains] at htype
        rw [decimalArbLeavesFromText, if_neg hcontains, WalkedFromText,
          decimalArbLeavesAsTextField, if_neg hcontains]
        refine .of_ok trivial ⟨rfl, htype, rfl, hvalid⟩ ?_
        exact ⟨fun _ => trivial, fun _ => .same hnot⟩

theorem walked_containerFromText :
    (type : DataType) → (name : String) → (nullable : Bool) →
    (metadata : FieldMetadata) → (a : Column) → a.Valid →
    a.dataType = typeAsText type → typeContainsDecimalArb type = true →
    Walked True True True
      (Converted isDecimalArb (LeafAsBytes parse) NoUnwrap
        (.plain name nullable metadata type) a)
      (.plain name nullable metadata (typeAsText type)) a
      ((containerFromText parse name type a).map
        fun out => (ArrowField.plain name nullable metadata type, out))
  | .list layout child, name, nullable, metadata, a, hvalid, htype,
      hcontains => by
      by_cases hplain : layout.plain = true
      · obtain ⟨offsets, validity, values, rfl⟩ :=
          column_of_list hvalid hplain htype
        have hvalues := walked_fromText child values hvalid.2.2 hvalid.2.1.1
        rw [containerFromText_list hplain]
        exact hvalues.list (fun child => .plain name nullable metadata
            (.list layout child)) hvalid
          (fun _ _ => converted_list hplain hcontains fun _ _ _ h => h)
          (fun _ => rfl) (fun _ => rfl)
      · rw [containerFromText, if_neg hplain]
        exact .of_error trivial fun _ => trivial
  | .struct fields, name, nullable, metadata, a, hvalid, htype,
      hcontains => by
      obtain ⟨validity, columns, rfl⟩ := column_of_struct hvalid htype
      have hcolumns := walked_childrenFromText fields columns validity
        hvalid.2 hvalid.1
      rw [containerFromText_struct]
      exact hcolumns.struct (fun fields => .plain name nullable metadata
          (.struct fields)) hvalid
        (fun _ _ => converted_struct hcontains fun _ _ _ h => h)
        (fun _ => rfl) (fun _ => rfl)
  | .map entries fields sorted, name, nullable, metadata, a, hvalid, htype,
      hcontains => by
      obtain ⟨offsets, validity, rows, columns, rfl⟩ :=
        column_of_map hvalid htype
      have hcolumns := walked_childrenFromText fields columns rows
        hvalid.2.2 hvalid.2.1
      rw [containerFromText_map]
      exact hcolumns.map (fun fields => .plain name nullable metadata
          (.map entries fields sorted)) hvalid
        (fun _ _ => converted_map hcontains fun _ _ _ h => h)
        (fun _ => rfl) (fun _ => rfl)
  | .leaf _, _, _, _, _, _, _, _ | .dictionary _ _, _, _, _, _, _, _, _
  | .runEndEncoded _ _, _, _, _, _, _, _, _
  | .union _ _, _, _, _, _, _, _, _ => by
      rw [containerFromText]
      exact .of_error trivial fun _ => trivial

theorem walked_childrenFromText :
    (fields : List ArrowField) → (columns : List Column) →
    (validity : List Bool) → AllValid columns →
    StructOk (fieldsAsText fields) validity columns →
    AllWalkedFromText parse fields columns
      (childrenFromText parse fields columns)
  | [], columns, validity, hvalid, hok => by
      obtain rfl : columns = [] := List.forall₂_nil_left_iff.mp hok
      rw [childrenFromText]
      · exact .of_ok trivial .nil ⟨fun _ => trivial, fun _ => .nil⟩
      · simp
  | field :: fields, [], validity, hvalid, hok => by
      simp [StructOk, fieldsAsText] at hok
  | field :: fields, column :: columns, validity, hvalid, hok => by
      obtain ⟨hchild, hrest⟩ := List.forall₂_cons.mp hok
      have hfirst := walked_fromText field column hvalid.1 hchild.1
      have hothers := walked_childrenFromText fields columns validity hvalid.2
        hrest
      have hresult : (childrenFromText parse (field :: fields)
          (column :: columns)).map (fun outs => (field :: fields, outs)) =
            ((decimalArbLeavesFromText parse field column).map
              fun out => (field, out)).bind fun out =>
                ((childrenFromText parse fields columns).map
                  fun outs => (fields, outs)).bind fun outs =>
                    .ok (out.1 :: outs.1, out.2 :: outs.2) := by
        rw [childrenFromText]
        cases decimalArbLeavesFromText parse field column with
        | error e => rfl
        | ok out =>
            cases childrenFromText parse fields columns with
            | error e => rfl
            | ok outs => rfl
      rw [AllWalkedFromText, hresult]
      exact AllWalked.cons hfirst hothers (fun _ => trivial)
        (fun _ => trivial) (and_self_iff.trans Iff.rfl)
        fun _ _ => allConverted_cons

end

end

end ArrowTree

end Streamling
