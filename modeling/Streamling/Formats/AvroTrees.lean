import Streamling.Formats.AvroLeaves

/-!
# Nested decimals

A coerced column keeps the numbers of its decimals, at any depth, exactly if
each of them is read as it was written.  The schema that a batch is decoded
against supplies what the output fields need: the writer's does with its
decimals stripped, and the reader's does because the output fields are its
own.
-/

namespace Streamling

namespace Avro

open Arrow

/-! ## What a schema supplies -/

section Supplies

variable (origin : List String → String → String)

mutual

/-- Where the writer has a decimal and the field is one, the schema decoded
against has bytes or a decimal; and where it matters it has the same nesting. -/
def Supplies (path : List String) (seen : AvroSchema) (t : ArrowField) :
    AvroSchema → Prop
  | .primitive _ => True
  | .bytes => True
  | .fixed _ => True
  | .map _ =>
      t.dataType = .leaf (.other "Dictionary(Utf8)") →
        ∃ values, seen.peel = .map values
  | .decimal precision _ _ =>
      (decimalType t).isSome →
        BytesOrDecimal seen.peel ∧ (Rescales seen t → precision ≤ 76)
  | .nullable inner => Supplies path seen t inner
  | .array items =>
      ∀ child, t.dataType = .list child →
        ∃ seenItems, seen.peel = .array seenItems ∧
          Supplies path seenItems child items
  | .record fields =>
      ∀ ts, t.dataType = .struct ts →
        ∃ seenFields, seen.peel = .record seenFields ∧
          SuppliesAll path seenFields ts fields

def SuppliesAll (path : List String) (seen : List AvroField)
    (ts : List ArrowField) : List AvroField → Prop
  | [] => True
  | .mk name schema :: fields =>
      (∀ t ∈ ts, origin path t.name = name →
        ∃ seenField, findAvroField t.name seen = some seenField ∧
          Supplies (t.name :: path) seenField.schema t schema) ∧
        SuppliesAll path seen ts fields

end

end Supplies

section Trees

variable {origin : List String → String → String}
variable {cast : DataType → Column → DataType → Except AvroError Column}
variable {toPlainString : ℤ → ℤ → String}

/-- A decimal under unions is supplied for like a bare one. -/
theorem bytesOrDecimal_of_supplies
    {path : List String} {seen : AvroSchema} {t : ArrowField} :
    (schema : AvroSchema) → (findDecimalSchema schema).isSome →
    Supplies origin path seen t schema →
    (decimalType t).isSome → BytesOrDecimal seen.peel
  | .decimal _ _ _, _, h, ht => by
      rw [Supplies] at h
      exact (h ht).1
  | .nullable inner, hdecimal, h, ht => by
      rw [Supplies] at h
      exact bytesOrDecimal_of_supplies inner hdecimal h ht

theorem findField_of_hasArrowTypes
    {sources : List ArrowField} {seen : List AvroField}
    (h : HasArrowTypes sources seen) {name : String} {field : AvroField}
    (hfind : findAvroField name seen = some field) :
    ∃ j source, findField name sources = some (j, source) ∧
      HasArrowType source.dataType field.schema := by
  induction seen generalizing sources with
  | nil => simp [findAvroField] at hfind
  | cons first seen ih =>
      cases first with
      | mk first schema =>
          obtain ⟨source, rest, rfl, hname, htype, hrest⟩ := h
          by_cases heq : first = name
          · rw [findAvroField, List.find?_cons_of_pos
              (by simp [AvroField.name, heq])]
              at hfind
            obtain rfl := Option.some.inj hfind
            refine ⟨0, source, ?_, htype⟩
            rw [findField, if_pos (hname.trans heq)]
          · rw [findAvroField, List.find?_cons_of_neg
              (by simp [AvroField.name, heq])]
              at hfind
            obtain ⟨j, found, hfound, hfoundType⟩ := ih hrest hfind
            refine ⟨j + 1, found, ?_, hfoundType⟩
            rw [findField, if_neg (by rw [hname]; exact heq), hfound]
            rfl

/-- Every field that is found is coerced at its place. -/
theorem coerceFields_getElem?
    {sources : List ArrowField} {columns : List Column} {rows : ℕ}
    {ts : List ArrowField} {outs : List Column}
    (h : coerceFields cast toPlainString sources columns rows ts = .ok outs)
    {k : ℕ} {t : ArrowField} (ht : ts[k]? = some t) {j : ℕ}
    {source : ArrowField}
    (hfind : findField t.name sources = some (j, source)) :
    ∃ column out, columns[j]? = some column ∧ outs[k]? = some out ∧
      coerceArray cast toPlainString source.dataType column t = .ok out := by
  induction ts generalizing outs k with
  | nil => simp at ht
  | cons first ts ih =>
      rw [coerceFields] at h
      cases hfirst : findField first.name sources with
      | none =>
          simp only [hfirst] at h
          split_ifs at h with hnullable
          cases hrest : coerceFields cast toPlainString sources columns rows
              ts with
          | error e => simp [hrest, bind, Except.bind] at h
          | ok rest =>
              simp only [hrest, bind, Except.bind, pure, Except.pure] at h
              obtain rfl := Except.ok.inj h
              cases k with
              | zero =>
                  obtain rfl := Option.some.inj ht
                  rw [hfirst] at hfind
                  cases hfind
              | succ k => exact ih hrest ht
      | some found =>
          obtain ⟨i, source'⟩ := found
          simp only [hfirst] at h
          cases hcolumn : columns[i]? with
          | none => simp [hcolumn] at h
          | some column =>
              simp only [hcolumn, bind, Except.bind, pure, Except.pure] at h
              cases hout : coerceArray cast toPlainString source'.dataType
                  column first with
              | error e => simp [hout] at h
              | ok out =>
                  cases hrest : coerceFields cast toPlainString sources
                      columns rows ts with
                  | error e => simp [hout, hrest] at h
                  | ok rest =>
                      simp only [hout, hrest] at h
                      obtain rfl := Except.ok.inj h
                      cases k with
                      | zero =>
                          obtain rfl := Option.some.inj ht
                          obtain ⟨rfl, rfl⟩ : i = j ∧ source' = source := by
                            simpa [hfirst] using hfind
                          exact ⟨column, out, hcolumn, rfl, hout⟩
                      | succ k => exact ih hrest ht

/-! ## Lists and structs -/

theorem coerceArray_list
    {type : DataType} {src out : Column} {t child : ArrowField}
    (ht : t.dataType = .list child)
    (h : coerceArray cast toPlainString type src t = .ok out) :
    ∃ element offsets validity values coerced,
      listElement? type = some element ∧
      src = .list offsets validity values ∧
      out = .list offsets validity coerced ∧
      coerceArray cast toPlainString element values child = .ok coerced := by
  cases t with
  | mk name nullable metadata dataType =>
      obtain rfl : dataType = .list child := ht
      rw [coerceArray] at h
      cases hparts : listParts type src with
      | error e => simp [hparts, bind, Except.bind] at h
      | ok parts =>
          obtain ⟨element, offsets, validity, values⟩ := parts
          simp only [hparts, bind, Except.bind] at h
          have hsrc : listElement? type = some element ∧
              src = .list offsets validity values := by
            unfold listParts at hparts
            split at hparts
            case h_1 =>
              obtain ⟨rfl, rfl, rfl, rfl⟩ : _ ∧ _ ∧ _ ∧ _ := by
                simpa using hparts
              exact ⟨rfl, rfl⟩
            case h_2 =>
              split at hparts
              case h_1 => cases hparts
              case h_2 =>
                obtain ⟨rfl, rfl, rfl, rfl⟩ : _ ∧ _ ∧ _ ∧ _ := by
                  simpa using hparts
                exact ⟨rfl, rfl⟩
            case h_3 => cases hparts
          cases hcoerced : coerceArray cast toPlainString element values
              child with
          | error e => simp [hcoerced] at h
          | ok coerced =>
              simp only [hcoerced, listTryNew] at h
              split_ifs at h
              exact ⟨element, offsets, validity, values, coerced, hsrc.1,
                hsrc.2, (Except.ok.inj h).symm, hcoerced⟩

theorem coerceArray_struct
    {type : DataType} {src out : Column} {t : ArrowField}
    {ts : List ArrowField} (ht : t.dataType = .struct ts)
    (h : coerceArray cast toPlainString type src t = .ok out) :
    ∃ sources validity columns outs, type = .struct sources ∧
      src = .struct validity columns ∧ out = .struct validity outs ∧
      coerceFields cast toPlainString sources columns validity.length ts =
        .ok outs := by
  cases t with
  | mk name nullable metadata dataType =>
      obtain rfl : dataType = .struct ts := ht
      unfold coerceArray at h
      split at h
      case h_1 sources validity columns =>
        cases hchildren : coerceFields cast toPlainString sources columns
            validity.length ts with
        | error e => simp [hchildren, bind, Except.bind] at h
        | ok outs =>
            simp only [hchildren, bind, Except.bind, structTryNew] at h
            split at h
            case h_1 =>
              exact ⟨sources, validity, columns, outs, rfl, rfl,
                (Except.ok.inj h).symm, hchildren⟩
            case h_2 => cases h
      case h_2 => cases h

/-- No map gets through. -/
theorem coerceArray_map
    (hcast : CastCorrect cast) {entries : ArrowField} {sorted : Bool}
    {src out : Column} {t : ArrowField}
    (ht : t.dataType = .leaf (.other "Dictionary(Utf8)")) :
    coerceArray cast toPlainString (.map entries sorted) src t ≠ .ok out := by
  cases t with
  | mk name nullable metadata dataType =>
      obtain rfl : dataType = .leaf (.other "Dictionary(Utf8)") := ht
      rw [coerceArray]
      simp only [coerceLeaf, passOrCast]
      rw [if_neg (by simp)]
      exact hcast.dictionary entries sorted src out

/-! ## The trees -/

theorem supplies_map
    {path : List String} {seen values : AvroSchema} {t : ArrowField}
    {type : DataType} (hcast : CastCorrect cast)
    (h : Supplies origin path seen t (.map values))
    (htype : HasArrowType type seen) {src out : Column}
    (hout : coerceArray cast toPlainString type src t = .ok out) :
    t.dataType ≠ .leaf (.other "Dictionary(Utf8)") := by
  intro ht
  rw [Supplies] at h
  obtain ⟨seenValues, hpeel⟩ := h ht
  rw [hasArrowType_peel, hpeel, HasArrowType] at htype
  obtain ⟨entries, sorted, rfl⟩ := htype
  exact coerceArray_map hcast ht hout

mutual

/-- One row of a coerced column, by the writer's schema. -/
theorem kept_iff_readAsWritten (hcast : CastCorrect cast) :
    (schema : AvroSchema) →
    ∀ {path : List String} {seen : AvroSchema} {t : ArrowField}
    {v : AvroValue} {type : DataType} {src out : Column} {i : ℕ},
    Supplies origin path seen t schema → HasArrowType type seen →
    Decoded origin path v type src i (stripHighPrecisionDecimals schema) →
    coerceArray cast toPlainString type src t = .ok out →
    (Kept origin path v t out i schema ↔
      ReadAsWritten origin path v seen t schema)
  | .primitive _, _, _, _, _, _, _, _, _, _, _, _, _ => by
      rw [Kept, ReadAsWritten]
  | .bytes, _, _, _, _, _, _, _, _, _, _, _, _ => by
      rw [Kept, ReadAsWritten]
  | .fixed _, _, _, _, _, _, _, _, _, _, _, _, _ => by
      rw [Kept, ReadAsWritten]
  | .map values, path, seen, t, v, type, src, out, i, hsupplies, htype,
      hdecoded, hout => by
      rw [Kept, ReadAsWritten, iff_true]
      exact supplies_map hcast hsupplies htype hout
  | .decimal precision scale inner, path, seen, t, v, type, src, out, i,
      hsupplies, htype, hdecoded, hout => by
      unfold Kept ReadAsWritten
      cases v with
      | bytes value =>
          simp only
          cases ht : decimalType t with
          | none => simp only [KeptNumber, ReadAsDelivered, ht]
          | some pair =>
              rw [Supplies] at hsupplies
              obtain ⟨hseen, hprecision⟩ := hsupplies (by rw [ht]; rfl)
              exact keptNumber_iff hcast hseen hprecision htype hdecoded hout
      | _ => simp only
  | .nullable inner, path, seen, t, v, type, src, out, i, hsupplies, htype,
      hdecoded, hout => by
      rw [stripHighPrecisionDecimals] at hdecoded
      have hinner : Supplies origin path seen t inner := by
        rwa [Supplies] at hsupplies
      cases v with
      | null =>
          simp only [Kept, ReadAsWritten, iff_true]
          rw [Decoded] at hdecoded
          cases hdecimal : findDecimalSchema inner with
          | none => simp [KeptNull, hdecimal]
          | some decimal =>
              refine keptNull_of_decoded hcast ?_ htype hdecoded hout
              exact bytesOrDecimal_of_supplies inner (by rw [hdecimal]; rfl)
                hinner
      | _ =>
          simp only [Kept, ReadAsWritten, Decoded] at hdecoded ⊢
          exact kept_iff_readAsWritten hcast inner hinner htype hdecoded hout
  | .array items, path, seen, t, v, type, src, out, i, hsupplies, htype,
      hdecoded, hout => by
      rw [stripHighPrecisionDecimals] at hdecoded
      unfold Kept ReadAsWritten
      cases v with
      | array vs =>
          cases ht : t.dataType with
          | list child =>
              simp only
              rw [Supplies] at hsupplies
              obtain ⟨seenItems, hpeel, hitems⟩ := hsupplies child ht
              obtain ⟨element, offsets, validity, values, coerced, helement,
                rfl, rfl, hcoerced⟩ := coerceArray_list ht hout
              rw [hasArrowType_peel, hpeel, HasArrowType] at htype
              obtain ⟨seenChild, htypes, hchild⟩ := htype
              obtain rfl : seenChild.dataType = element := by
                rcases htypes with rfl | rfl <;>
                  simpa [listElement?] using helement
              unfold Decoded at hdecoded
              simp only [helement] at hdecoded
              obtain ⟨start, hstart, -, hvs⟩ := hdecoded
              have hrow : ∀ (k : ℕ) x, vs[k]? = some x →
                  (Kept origin path x child coerced (start + k) items ↔
                    ReadAsWritten origin path x seenItems child items) := by
                intro k x hx
                exact kept_iff_readAsWritten hcast items hitems hchild
                  (hvs k x hx) hcoerced
              simp only [hpeel]
              constructor
              · rintro ⟨_, _, _, heq, start', hstart', hkept⟩ k x hx
                obtain ⟨rfl, -, rfl⟩ := Column.list.inj heq
                obtain rfl : start = start' := by
                  simpa [hstart] using hstart'
                exact (hrow k x hx).mp (hkept k x hx)
              · intro hread
                refine ⟨offsets, validity, coerced, rfl, start, hstart, ?_⟩
                intro k x hx
                exact (hrow k x hx).mpr (hread k x hx)
          | _ => simp only
      | _ => simp only
  | .record fields, path, seen, t, v, type, src, out, i, hsupplies, htype,
      hdecoded, hout => by
      rw [stripHighPrecisionDecimals] at hdecoded
      unfold Kept ReadAsWritten
      cases v with
      | record vs =>
          cases ht : t.dataType with
          | struct ts =>
              simp only
              rw [Supplies] at hsupplies
              obtain ⟨seenFields, hpeel, hfields⟩ := hsupplies ts ht
              obtain ⟨sources, validity, columns, outs, rfl, rfl, rfl,
                hcoerced⟩ := coerceArray_struct ht hout
              rw [hasArrowType_peel, hpeel, HasArrowType] at htype
              obtain ⟨_, heq, htypes⟩ := htype
              obtain rfl := DataType.struct.inj heq
              unfold Decoded at hdecoded
              simp only at hdecoded
              have hall := keptAll_iff_readAllAsWritten hcast fields hfields
                htypes hdecoded hcoerced
              simp only [hpeel]
              rw [← hall]
              constructor
              · rintro ⟨_, _, heq, hkept⟩
                obtain ⟨-, rfl⟩ := Column.struct.inj heq
                exact hkept
              · intro hkept
                exact ⟨validity, outs, rfl, hkept⟩
          | _ => simp only
      | _ => simp only

theorem keptAll_iff_readAllAsWritten (hcast : CastCorrect cast) :
    (fields : List AvroField) →
    ∀ {path : List String} {seen : List AvroField}
    {ts sources : List ArrowField} {vs : List AvroValue}
    {columns outs : List Column} {rows i : ℕ},
    SuppliesAll origin path seen ts fields → HasArrowTypes sources seen →
    DecodedAll origin path vs sources columns i (stripFields fields) →
    coerceFields cast toPlainString sources columns rows ts = .ok outs →
    (KeptAll origin path vs ts outs i fields ↔
      ReadAllAsWritten origin path vs seen ts fields)
  | [], _, _, _, _, _, _, _, _, _, _, _, _, _ => by
      rw [KeptAll, ReadAllAsWritten]
  | .mk name schema :: fields, path, seen, ts, sources, vs, columns, outs,
      rows, i, hsupplies, htypes, hdecoded, hout => by
      cases vs with
      | nil => simp only [KeptAll, ReadAllAsWritten]
      | cons v vs =>
          rw [SuppliesAll] at hsupplies
          rw [stripFields, DecodedAll] at hdecoded
          rw [KeptAll, ReadAllAsWritten]
          refine and_congr ?_ (keptAll_iff_readAllAsWritten hcast fields
            hsupplies.2 htypes hdecoded.2 hout)
          -- the field of the output, the one it is found by, and the writer's
          have hfield : ∀ (k : ℕ) t, ts[k]? = some t →
              origin path t.name = name →
              ∃ seenField out, findAvroField t.name seen = some seenField ∧
                outs[k]? = some out ∧
                (Kept origin (t.name :: path) v t out i schema ↔
                  ReadAsWritten origin (t.name :: path) v seenField.schema t
                    schema) := by
            intro k t ht hname
            obtain ⟨seenField, hseen, hsupply⟩ :=
              hsupplies.1 t (List.mem_of_getElem? ht) hname
            obtain ⟨j, source, hfind, htype⟩ :=
              findField_of_hasArrowTypes htypes hseen
            obtain ⟨hsource, hsame⟩ := findField_eq_some hfind
            obtain ⟨column, out, hcolumn, hk, hcoerced⟩ :=
              coerceFields_getElem? hout ht hfind
            have hvalue := hdecoded.1 j source column hsource hcolumn
              (hsame ▸ hname)
            rw [hsame] at hvalue
            exact ⟨seenField, out, hseen, hk,
              kept_iff_readAsWritten hcast schema hsupply htype hvalue
                hcoerced⟩
          constructor
          · intro hkept t hmem hname found hfound
            obtain ⟨k, ht⟩ := List.mem_iff_getElem?.mp hmem
            obtain ⟨seenField, out, hseen, hk, hiff⟩ := hfield k t ht hname
            obtain rfl : seenField = found := by
              simpa [hseen] using hfound
            exact hiff.mp (hkept k t out ht hk hname)
          · intro hread k t out ht hk hname
            obtain ⟨seenField, out', hseen, hk', hiff⟩ :=
              hfield k t ht hname
            obtain rfl : out = out' := by simpa [hk] using hk'
            exact hiff.mpr
              (hread t (List.mem_of_getElem? ht) hname seenField hseen)

end

end Trees

end Avro

end Streamling
