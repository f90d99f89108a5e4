import Mathlib
import Streamling.Formats.DecimalTextWalks

/-!
# The text bridge loses no decimal

The walks to text and from text are inverse where decimals stand below lists,
structs and maps only, and a walk converts every decimal or reports an error,
but for a run-end encoding of decimals.
-/

namespace Streamling

namespace ArrowTree

open DecimalArbValue

/-! ## There and back -/

/-- The text of a field's array, and the same array back from it. -/
def Lossless (plainString : BigDecimal → String)
    (parse : String → Option BigDecimal)
    (cast : Column → DataType → Option Column) (field : ArrowField)
    (a : Column) : Prop :=
  ∃ text, decimalArbLeavesToText plainString cast field a =
      .ok (decimalArbLeavesAsTextField field, text) ∧
    decimalArbLeavesFromText parse field text = .ok a

section

variable {plainString : BigDecimal → String}
  {parse : String → Option BigDecimal}
  {cast : Column → DataType → Option Column}

theorem exists_texts
    (hparse : DecimalParser parse) (hprint : DecimalPrinter plainString)
    {params : Arrow.DecimalArbParams} {cells : List (Option Cell)}
    (h : ∀ cell, some cell ∈ cells → CanonicalCell params cell) :
    ∃ texts raw,
      List.Forall₂ (fun cell text =>
        leafText plainString params.scale cell = .ok text) cells texts ∧
      List.Forall₂ (fun text cell => ∃ value,
        parsedCell parse text = .ok value ∧
          Stores params.precision params.scale value cell) texts raw ∧
      cells = raw.map (Option.map Cell.bytes) := by
  induction cells with
  | nil => exact ⟨[], [], .nil, .nil, rfl⟩
  | cons cell cells ih =>
      obtain ⟨texts, raw, htexts, hraw, hcells⟩ :=
        ih fun c hc => h c (List.mem_cons_of_mem cell hc)
      rcases cell with _ | cell
      · refine ⟨none :: texts, none :: raw, .cons rfl htexts,
          .cons ⟨none, rfl, rfl⟩ hraw, ?_⟩
        rw [hcells, List.map_cons, Option.map_none]
      · obtain ⟨text, value, htext, hvalue, bytes, rfl, hstores⟩ :=
          exists_leafText_of_canonicalCell hparse hprint
            (h cell List.mem_cons_self)
        refine ⟨some (.text text) :: texts, some bytes :: raw,
          .cons htext htexts, .cons ⟨some value, hvalue, hstores⟩ hraw, ?_⟩
        rw [hcells, List.map_cons, Option.map_some]

/-- Going to text and back, with what the text has of the array. -/
structure RoundTrip (plainString : BigDecimal → String)
    (parse : String → Option BigDecimal)
    (cast : Column → DataType → Option Column) (field : ArrowField)
    (a text : Column) : Prop where
  toText : decimalArbLeavesToText plainString cast field a =
    .ok (decimalArbLeavesAsTextField field, text)
  keeps : Keeps field a (decimalArbLeavesAsTextField field) text
  fromText : decimalArbLeavesFromText parse field text = .ok a

structure AllRoundTrip (plainString : BigDecimal → String)
    (parse : String → Option BigDecimal)
    (cast : Column → DataType → Option Column) (fields : List ArrowField)
    (columns texts : List Column) : Prop where
  toText : childrenToText plainString cast fields columns =
    .ok (fieldsAsText fields, texts)
  keeps : AllKeep fields columns (fieldsAsText fields) texts
  back : AllKeep (fieldsAsText fields) texts fields columns
  fromText : childrenFromText parse fields texts = .ok columns

theorem roundTrip_leaf
    (hparse : DecimalParser parse) (hprint : DecimalPrinter plainString)
    {name : String} {nullable : Bool} {metadata : FieldMetadata}
    {params : Arrow.DecimalArbParams} {hint : Option NativeIntKind}
    {cells : List (Option Cell)}
    (h : ∀ cell, some cell ∈ cells → CanonicalCell params cell) :
    ∃ text, RoundTrip plainString parse cast
      (.wide name nullable metadata (.decimalArb params hint))
      (.leaf .largeBinary cells) text := by
  obtain ⟨texts, raw, htexts, hraw, hcells⟩ := exists_texts hparse hprint h
  have hto : decimalArbLeavesToText plainString cast
      (.wide name nullable metadata (.decimalArb params hint))
      (.leaf .largeBinary cells) =
        .ok (textField name nullable, .leaf .utf8 texts) := by
    simp only [decimalArbLeavesToText, decimalArbToStrings,
      ExceptLists.mapM_eq_ok_iff.mpr htexts, bind, Except.bind]
    rfl
  have hbuild : buildRows TreeError.leaf name params.precision params.scale
      (parsedCell parse) texts = .ok ⟨raw, params.precision, params.scale⟩ :=
    buildRows_eq_ok_iff.mpr ⟨params.valid, rfl, rfl, hraw⟩
  refine ⟨.leaf .utf8 texts, hto, ?_, ?_⟩
  · obtain ⟨-, hkeeps, -⟩ := walked_leafToText.ok _ _ hto
    exact hkeeps
  · simp only [decimalArbLeavesFromText, decimalArbFromStrings, hbuild, bind,
      Except.bind, hcells]
    rfl

/-- The array has its field's type and nulls again. -/
theorem RoundTrip.back
    {field : ArrowField} {a text : Column}
    (h : RoundTrip plainString parse cast field a text) (hvalid : a.Valid)
    (htype : a.dataType = field.dataType) :
    Keeps (decimalArbLeavesAsTextField field) text field a :=
  ⟨h.keeps.nullable.symm, htype, h.keeps.validity.symm, hvalid⟩

mutual

theorem exists_roundTrip
    (hparse : DecimalParser parse) (hprint : DecimalPrinter plainString) :
    (field : ArrowField) → (a : Column) → decimalsPlain field = true →
    a.Valid → a.dataType = field.dataType → Canonical field a →
    ∃ text, RoundTrip plainString parse cast field a text
  | .wide name nullable metadata (.decimalArb params hint), a, hplain, hvalid,
      htype, hcanonical => by
      obtain ⟨cells, rfl⟩ := column_of_leaf hvalid htype
      exact roundTrip_leaf hparse hprint hcanonical
  | .wide name nullable metadata (.legacyWideInt kind), a, hplain, hvalid,
      htype, hcanonical =>
      ⟨a, rfl, ⟨rfl, htype, rfl, hvalid⟩, rfl⟩
  | .plain name nullable metadata type, a, hplain, hvalid, htype,
      hcanonical => by
      by_cases hcontains : typeContainsDecimalArb type = true
      · obtain ⟨hnone, text, hto, hkeeps, hfrom⟩ :=
          exists_roundTrip_container hparse hprint type name nullable metadata
            a hplain hvalid htype hcanonical hcontains
        have hfield : decimalArbLeavesAsTextField
            (.plain name nullable metadata type) =
              .plain name nullable metadata (typeAsText type) := by
          rw [decimalArbLeavesAsTextField, if_pos hcontains]
        refine ⟨text, ?_, ?_, ?_⟩
        · rw [decimalArbLeavesToText, if_pos hcontains, hnone, hfield]
          exact hto
        · rw [hfield]
          exact hkeeps
        · rw [decimalArbLeavesFromText, if_pos hcontains]
          exact hfrom
      · have hfield : decimalArbLeavesAsTextField
            (.plain name nullable metadata type) =
              .plain name nullable metadata type := by
          rw [decimalArbLeavesAsTextField, if_neg hcontains]
        refine ⟨a, ?_, ?_, ?_⟩
        · rw [decimalArbLeavesToText, if_neg hcontains, hfield]
        · rw [hfield]
          exact ⟨rfl, htype, rfl, hvalid⟩
        · rw [decimalArbLeavesFromText, if_neg hcontains]

theorem exists_roundTrip_container
    (hparse : DecimalParser parse) (hprint : DecimalPrinter plainString) :
    (type : DataType) → (name : String) → (nullable : Bool) →
    (metadata : FieldMetadata) → (a : Column) →
    typeDecimalsPlain type = true → a.Valid → a.dataType = type →
    TypeCanonical type a → typeContainsDecimalArb type = true →
    plainLayout type = none ∧
    ∃ text, containerToText plainString cast name nullable metadata type a =
        .ok (.plain name nullable metadata (typeAsText type), text) ∧
      Keeps (.plain name nullable metadata type) a
        (.plain name nullable metadata (typeAsText type)) text ∧
      containerFromText parse name type text = .ok a
  | .list layout child, name, nullable, metadata, a, hplain, hvalid, htype,
      hcanonical, hcontains => by
      have hlayout : layout.plain = true ∧ decimalsPlain child = true := by
        have hchild : fieldContainsDecimalArb child = true := hcontains
        simpa [typeDecimalsPlain, hchild] using hplain
      obtain ⟨offsets, validity, values, rfl⟩ :=
        column_of_list hvalid hlayout.1 htype
      obtain ⟨text, htrip⟩ := exists_roundTrip hparse hprint child values
        hlayout.2 hvalid.2.2 hvalid.2.1.1 hcanonical
      have hunviewed : layout.unviewed = layout := by
        cases layout <;> simp_all [ListLayout.unviewed, ListLayout.plain]
      have hok := hvalid.2.1.of_keeps htrip.keeps
      have hnone : plainLayout (.list layout child) = none := by
        cases layout <;> simp_all [plainLayout, ListLayout.plain]
      refine ⟨hnone, .list layout (decimalArbLeavesAsTextField child) offsets
        validity text, ?_, ⟨rfl, rfl, rfl, hlayout.1, hok, htrip.keeps.valid⟩,
        ?_⟩
      · rw [containerToText_list, hunviewed,
          rebuildList_eq_ok hvalid.2.1 htrip.toText htrip.keeps]
        rfl
      · have hback : rebuildList name layout (fun values =>
            (decimalArbLeavesFromText parse child values).map
              fun out => (child, out))
            (.list layout (decimalArbLeavesAsTextField child) offsets validity
              text) =
              .ok (child, .list layout child offsets validity values) := by
          apply rebuildList_eq_ok hok
          · rw [htrip.fromText]
            rfl
          · exact htrip.back hvalid.2.2 hvalid.2.1.1
        simp only [containerFromText, if_pos hlayout.1, bind_return_const,
          hback]
        rfl
  | .struct fields, name, nullable, metadata, a, hplain, hvalid, htype,
      hcanonical, hcontains => by
      obtain ⟨validity, columns, rfl⟩ := column_of_struct hvalid htype
      obtain ⟨texts, htrip⟩ := exists_allRoundTrip hparse hprint fields columns
        validity hplain hvalid.2 hvalid.1 hcanonical
      have hok := htrip.keeps.structOk hvalid.1
      refine ⟨rfl, .struct (fieldsAsText fields) validity texts, ?_,
        ⟨rfl, rfl, rfl, hok, htrip.keeps.valid⟩, ?_⟩
      · rw [containerToText_struct,
          rebuildStruct_eq_ok hvalid.1 htrip.toText htrip.keeps]
        rfl
      · have hback : rebuildStruct name (fun columns =>
            (childrenFromText parse fields columns).map
              fun outs => (fields, outs))
            (.struct (fieldsAsText fields) validity texts) =
              .ok (fields, .struct fields validity columns) := by
          apply rebuildStruct_eq_ok hok
          · rw [htrip.fromText]
            rfl
          · exact htrip.back
        simp only [containerFromText, bind_return_const, hback]
        rfl
  | .map entries fields sorted, name, nullable, metadata, a, hplain, hvalid,
      htype, hcanonical, hcontains => by
      obtain ⟨offsets, validity, rows, columns, rfl⟩ :=
        column_of_map hvalid htype
      obtain ⟨texts, htrip⟩ := exists_allRoundTrip hparse hprint fields columns
        rows hplain hvalid.2.2 hvalid.2.1 hcanonical
      have hmap : MapOk fields offsets validity (.struct fields) rows :=
        hvalid.1
      have hmap' : MapOk (fieldsAsText fields) offsets validity
          (.struct (fieldsAsText fields)) rows :=
        ⟨hmap.1, rfl, hmap.2.2⟩
      have hok := htrip.keeps.structOk hvalid.2.1
      refine ⟨rfl, .map entries (fieldsAsText fields) sorted offsets validity
        (.struct (fieldsAsText fields) rows texts), ?_,
        ⟨rfl, rfl, rfl, hmap', hok, htrip.keeps.valid⟩, ?_⟩
      · rw [containerToText_map,
          rebuildMap_eq_ok hmap hvalid.2.1 htrip.toText htrip.keeps]
        rfl
      · have hback : rebuildMap name entries sorted (fun columns =>
            (childrenFromText parse fields columns).map
              fun outs => (fields, outs))
            (.map entries (fieldsAsText fields) sorted offsets validity
              (.struct (fieldsAsText fields) rows texts)) =
              .ok (fields, .map entries fields sorted offsets validity
                (.struct fields rows columns)) := by
          apply rebuildMap_eq_ok hmap' hok
          · rw [htrip.fromText]
            rfl
          · exact htrip.back
        simp only [containerFromText, bind_return_const, hback]
        rfl
  | .leaf type, _, _, _, _, _, _, _, _, hcontains => by
      simp [typeContainsDecimalArb, DataType.contains] at hcontains
  | .dictionary _ values, _, _, _, _, hplain, _, _, _, hcontains => by
      have hvalues : typeContainsDecimalArb values = true := hcontains
      simp [typeDecimalsPlain, hvalues] at hplain
  | .runEndEncoded _ values, _, _, _, _, hplain, _, _, _, hcontains => by
      have hvalues : fieldContainsDecimalArb values = true := hcontains
      simp [typeDecimalsPlain, hvalues] at hplain
  | .union fields _, _, _, _, _, hplain, _, _, _, hcontains => by
      have hfields : anyContains isDecimalArb fields = true := hcontains
      simp [typeDecimalsPlain, hfields] at hplain

theorem exists_allRoundTrip
    (hparse : DecimalParser parse) (hprint : DecimalPrinter plainString) :
    (fields : List ArrowField) → (columns : List Column) →
    (validity : List Bool) → allDecimalsPlain fields = true →
    AllValid columns → StructOk fields validity columns →
    AllCanonical fields columns →
    ∃ texts, AllRoundTrip plainString parse cast fields columns texts
  | [], columns, validity, hplain, hvalid, hok, hcanonical => by
      obtain rfl : columns = [] := List.forall₂_nil_left_iff.mp hok
      refine ⟨[], ?_, .nil, .nil, ?_⟩
      · rw [childrenToText, fieldsAsText]
        simp
      · rw [childrenFromText]
        simp
  | field :: fields, [], validity, hplain, hvalid, hok, hcanonical => by
      simp [StructOk] at hok
  | field :: fields, column :: columns, validity, hplain, hvalid, hok,
      hcanonical => by
      obtain ⟨hchild, hrest⟩ := List.forall₂_cons.mp hok
      have hboth : decimalsPlain field = true ∧
          allDecimalsPlain fields = true := by
        simpa [allDecimalsPlain] using hplain
      obtain ⟨text, htrip⟩ := exists_roundTrip hparse hprint field column
        hboth.1 hvalid.1 hchild.1 hcanonical.1
      obtain ⟨texts, htrips⟩ := exists_allRoundTrip hparse hprint fields
        columns validity hboth.2 hvalid.2 hrest hcanonical.2
      refine ⟨text :: texts, ?_, .cons htrip.keeps htrips.keeps,
        .cons (htrip.back hvalid.1 hchild.1) htrips.back, ?_⟩
      · rw [childrenToText, htrip.toText, htrips.toText, fieldsAsText]
        rfl
      · rw [childrenFromText, htrip.fromText, htrips.fromText]
        rfl

end

end

/-! ## The bridge -/

section

variable (plainString : BigDecimal → String)
  (parse : String → Option BigDecimal)
  (cast : Column → DataType → Option Column)

/-- An array goes to text and back unchanged where decimals stand below lists,
structs and maps only; and each direction reports an error or converts every
decimal of an array that Arrow builds. -/
structure TextBridgeHolds (field : ArrowField) : Prop where
  lossless : decimalsPlain field = true → ∀ a : Column, a.Valid →
    a.dataType = field.dataType → Canonical field a →
    Lossless plainString parse cast field a
  toText : ∀ a : Column, a.Valid → a.dataType = field.dataType →
    (∃ e, decimalArbLeavesToText plainString cast field a = .error e ∧
      e.Reported) ∨
    ∃ field' a', decimalArbLeavesToText plainString cast field a =
        .ok (field', a') ∧ a'.dataType = field'.dataType ∧
      Converted isDecimalArb (LeafAsText plainString) (CastOff cast) field a a'
  fromText : ∀ a : Column, a.Valid →
    a.dataType = (decimalArbLeavesAsTextField field).dataType →
    (∃ e, decimalArbLeavesFromText parse field a = .error e ∧ e.Reported) ∨
    ∃ a', decimalArbLeavesFromText parse field a = .ok a' ∧
      a'.dataType = field.dataType ∧
      Converted isDecimalArb (LeafAsBytes parse) NoUnwrap field a a'

end

section

variable {plainString : BigDecimal → String}
  {parse : String → Option BigDecimal}
  {cast : Column → DataType → Option Column}

/-- Without rows the walk fails only at a union. -/
theorem exists_toText_empty
    (plainString : BigDecimal → String) (hcast : CastUnwraps cast)
    {field : ArrowField} (hunites : unitesDecimals field = false) :
    ∃ out, decimalArbLeavesToText plainString cast field
      (emptyOfField field) = .ok out := by
  obtain ⟨hvalid, hempty⟩ := valid_emptyOfField field
  have hwalked : WalkedToText plainString cast field _ _ :=
    walked_toText hcast field (emptyOfField field) hvalid
      (dataType_emptyOfField field)
  cases hresult : decimalArbLeavesToText plainString cast field
      (emptyOfField field) with
  | error e =>
      have htrue := (hwalked.error e hresult).2 hempty
      rw [hunites] at htrue
      simp at htrue
  | ok out => exact ⟨out, rfl⟩

/-- Every decimal of a field survives text, or the bridge says that it cannot,
if and only if no run-end encoding holds decimals directly, or the bridge
refuses the field for a union of decimals. -/
theorem text_bridge_holds_iff
    (hparse : DecimalParser parse) (hprint : DecimalPrinter plainString)
    (hcast : CastUnwraps cast) (field : ArrowField) :
    TextBridgeHolds plainString parse cast field ↔
      encodesDecimals field = false ∨ unitesDecimals field = true := by
  constructor
  · intro hholds
    by_cases hunites : unitesDecimals field = true
    · exact .inr hunites
    · obtain ⟨hvalid, -⟩ := valid_emptyOfField field
      have htype := dataType_emptyOfField field
      obtain ⟨out, hout⟩ := exists_toText_empty plainString hcast
        (by simpa using hunites)
      rcases hholds.toText _ hvalid htype with
        ⟨e, he, -⟩ | ⟨field', a', hok, -, hconverted⟩
      · rw [hout] at he
        simp at he
      · have hwalked : WalkedToText plainString cast field _ _ :=
          walked_toText hcast field (emptyOfField field) hvalid htype
        obtain ⟨-, -, hwhole⟩ := hwalked.ok field' a' hok
        exact .inl (hwhole.mp hconverted)
  · intro hcond
    constructor
    · intro hplain a hvalid htype hcanonical
      obtain ⟨text, htrip⟩ := exists_roundTrip hparse hprint field a hplain
        hvalid htype hcanonical
      exact ⟨text, htrip.toText, htrip.fromText⟩
    · intro a hvalid htype
      have hwalked : WalkedToText plainString cast field a _ :=
        walked_toText hcast field a hvalid htype
      cases hresult : decimalArbLeavesToText plainString cast field a with
      | error e => exact .inl ⟨e, rfl, (hwalked.error e hresult).1⟩
      | ok out =>
          obtain ⟨hunites, hkeeps, hwhole⟩ := hwalked.ok out.1 out.2 hresult
          have hencodes : encodesDecimals field = false := by
            rcases hcond with hencodes | htrue
            · exact hencodes
            · rw [hunites] at htrue
              simp at htrue
          exact .inr ⟨out.1, out.2, rfl, hkeeps.type, hwhole.mpr hencodes⟩
    · intro a hvalid htype
      have hwalked : WalkedFromText parse field a _ :=
        walked_fromText field a hvalid htype
      cases hresult : decimalArbLeavesFromText parse field a with
      | error e =>
          rw [WalkedFromText, hresult] at hwalked
          exact .inl ⟨e, rfl, (hwalked.error e rfl).1⟩
      | ok out =>
          rw [WalkedFromText, hresult] at hwalked
          obtain ⟨-, hkeeps, hwhole⟩ := hwalked.ok field out rfl
          exact .inr ⟨out, rfl, hkeeps.type, hwhole.mpr trivial⟩

end

/-! ## A run-end encoding of decimals -/

def cellOfLeaf : Arrow.LeafType → Cell
  | .utf8 | .largeUtf8 => .text "5"
  | .fixedSizeBinary width => .bytes (List.replicate width 0)
  | _ => .bytes [0x00, 0x05]

/-- A cast of encoded arrays whose rows are all the same leaf. -/
def castOfFives (a : Column) (type : DataType) : Option Column :=
  if a.validity = [] then some (emptyColumn type)
  else
    match type with
    | .leaf leaf => some (.leaf leaf (a.validity.map fun valid =>
        if valid then some (cellOfLeaf leaf) else none))
    | _ => none

theorem castOfFives_unwraps : CastUnwraps castOfFives where
  keeps a plain b hvalid hplain hb := by
    unfold castOfFives at hb
    split at hb
    · rename_i hrows
      obtain rfl := Option.some.inj hb
      rw [dataType_emptyColumn, validity_emptyColumn, hrows]
      exact ⟨(valid_emptyColumn plain).1, rfl, rfl⟩
    · split at hb
      · rename_i leaf
        obtain rfl := Option.some.inj hb
        refine ⟨?_, rfl, ?_⟩
        · intro cell hmem c hc
          obtain ⟨valid, -, rfl⟩ := List.mem_map.mp hmem
          obtain rfl : cellOfLeaf leaf = c := by
            cases valid <;> simp_all
          cases leaf <;> simp [cellOfLeaf, Cell.Fits]
        · simp only [Column.validity, List.map_map]
          refine List.map_id'' (fun valid => ?_) _
          cases valid <;> rfl
      · simp at hb
  empty type plain hplain := by
    refine ⟨emptyColumn plain, ?_, (valid_emptyColumn plain).2⟩
    unfold castOfFives
    exact if_pos rfl

def priceParams : Arrow.DecimalArbParams :=
  ⟨10, 2, rfl⟩

/-- A list of decimals goes to text and back. -/
theorem text_bridge_holds_list :
    TextBridgeHolds printDecimal readDecimal castOfFives
      (.plain "prices" true [] (.list .list
        (.wide "item" true [] (.decimalArb priceParams none)))) :=
  (text_bridge_holds_iff readDecimal_decimalParser
    printDecimal_decimalPrinter castOfFives_unwraps _).mpr (.inl rfl)

/-- A run-end encoding of decimals. -/
def runsOfPrices : DataType :=
  .runEndEncoded (.other "Int32")
    (.wide "values" true [] (.decimalArb priceParams none))

/-- One row of a run-end encoding of decimals is handed over as its bytes. -/
theorem run_end_encoded_decimal_as_bytes :
    ¬ ∀ (plainString : BigDecimal → String)
      (parse : String → Option BigDecimal)
      (cast : Column → DataType → Option Column),
      DecimalParser parse → DecimalPrinter plainString → CastUnwraps cast →
      ∀ field, TextBridgeHolds plainString parse cast field := by
  intro h
  have hholds := h printDecimal readDecimal castOfFives
    readDecimal_decimalParser printDecimal_decimalPrinter castOfFives_unwraps
    (.plain "price" true [] runsOfPrices)
  have hout : decimalArbLeavesToText printDecimal castOfFives
      (.plain "price" true [] runsOfPrices)
      (.encoded runsOfPrices [0] [true]) =
        .ok (.plain "price" true [] (.leaf .largeBinary),
          .leaf .largeBinary [some (.bytes [0x00, 0x05])]) := rfl
  rcases hholds.toText (.encoded runsOfPrices [0] [true]) trivial rfl with
    ⟨e, he, -⟩ | ⟨field', a', hok, -, hconverted⟩
  · rw [hout] at he
    simp at he
  · rw [hout] at hok
    obtain ⟨rfl, rfl⟩ := Prod.mk.inj (Except.ok.inj hok)
    exact not_converted_of_encodedLeaf rfl rfl rfl rfl hconverted

end ArrowTree

end Streamling
