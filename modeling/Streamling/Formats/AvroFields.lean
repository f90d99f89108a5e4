import Streamling.Formats.AvroTrees

/-!
# The output fields of a schema

The field of a schema depends on the schema without its unions.  A decimal's
field is a leaf that its stripped schema can fill, and lists and structs are
fields of arrays and records, so that a reader's schema supplies its own
fields.
-/

namespace Streamling

namespace Avro

open Arrow

/-! ## Fields of a schema -/

/-- The Arrow type of a schema before decimals are routed. -/
def AvroSchema.baseType : AvroSchema → DataType
  | .primitive type => .leaf type.leafType
  | .bytes => .leaf .binary
  | .fixed size => .leaf (.fixedSizeBinary size)
  | .decimal precision scale _ =>
      .leaf (.decimal128 (asU8 precision) (asI8 scale))
  | .array items => .list (schemaToField "element" false items)
  | .map _ => .leaf (.other "Dictionary(Utf8)")
  | .nullable inner => inner.baseType
  | .record fields => .struct (recordToFields fields)

theorem decimalArbField_eq_some
    {name : String} {precision scale : ℕ} {nullable : Bool}
    {hint : Option NativeIntKind} {field : ArrowField}
    (h : decimalArbField name precision scale nullable hint = some field) :
    field.name = name ∧ field.dataType = .leaf .largeBinary := by
  unfold decimalArbField at h
  split_ifs at h
  obtain rfl := Option.some.inj h
  exact ⟨rfl, rfl⟩

theorem name_routeDecimal
    (name : String) (nullable : Bool) (type : DataType)
    (decimal : Option (ℕ × ℕ)) :
    (routeDecimal name nullable type decimal).name = name := by
  cases decimal with
  | none => rfl
  | some pair =>
      obtain ⟨precision, scale⟩ := pair
      rw [routeDecimal]
      split_ifs
      · cases hfield : decimalArbField name (asU32 precision) (asU32 scale)
            nullable none with
        | none => rfl
        | some field => exact (decimalArbField_eq_some hfield).1
      · rfl
      · rfl

/-- Routing a type that was routed already changes nothing. -/
theorem routeDecimal_dataType
    (name name' : String) (nullable nullable' : Bool) (type : DataType)
    (decimal : Option (ℕ × ℕ)) :
    routeDecimal name nullable
        (routeDecimal name' nullable' type decimal).dataType decimal =
      routeDecimal name nullable type decimal := by
  cases decimal with
  | none => rfl
  | some pair =>
      obtain ⟨precision, scale⟩ := pair
      unfold routeDecimal
      simp only
      split_ifs with hwide hmiddle
      · unfold decimalArbField
        split_ifs <;> rfl
      · rfl
      · rfl

theorem schemaToField_eq_routeDecimal
    (name : String) : (schema : AvroSchema) → ∀ nullable,
    ∃ nullable', schemaToField name nullable schema =
      routeDecimal name nullable' schema.baseType (findDecimalSchema schema)
  | .nullable inner, nullable => by
      obtain ⟨nullable', heq⟩ := schemaToField_eq_routeDecimal name inner true
      refine ⟨true, ?_⟩
      rw [schemaToField, heq, findDecimalSchema, AvroSchema.baseType,
        routeDecimal_dataType]
  | .primitive _, nullable => ⟨nullable, by rw [schemaToField]; rfl⟩
  | .bytes, nullable => ⟨nullable, by rw [schemaToField]; rfl⟩
  | .fixed _, nullable => ⟨nullable, by rw [schemaToField]; rfl⟩
  | .decimal _ _ _, nullable => ⟨nullable, by rw [schemaToField]; rfl⟩
  | .array _, nullable => ⟨nullable, by rw [schemaToField]; rfl⟩
  | .map _, nullable => ⟨nullable, by rw [schemaToField]; rfl⟩
  | .record _, nullable => ⟨nullable, by rw [schemaToField]; rfl⟩

theorem name_schemaToField
    (name : String) (nullable : Bool) (schema : AvroSchema) :
    (schemaToField name nullable schema).name = name := by
  obtain ⟨nullable', heq⟩ := schemaToField_eq_routeDecimal name schema nullable
  rw [heq, name_routeDecimal]

theorem peel_of_findDecimalSchema :
    (schema : AvroSchema) → ∀ {precision scale : ℕ},
    findDecimalSchema schema = some (precision, scale) →
    ∃ inner, schema.peel = .decimal precision scale inner
  | .decimal _ _ inner, _, _, h => by
      obtain ⟨rfl, rfl⟩ := Prod.mk.inj (Option.some.inj h)
      exact ⟨inner, rfl⟩
  | .nullable inner, _, _, h => by
      rw [AvroSchema.peel]
      exact peel_of_findDecimalSchema inner h
  | .primitive _, _, _, h => by cases h
  | .bytes, _, _, h => by cases h
  | .fixed _, _, _, h => by cases h
  | .array _, _, _, h => by cases h
  | .map _, _, _, h => by cases h
  | .record _, _, _, h => by cases h

/-- Stripping sees through unions. -/
theorem peel_stripHighPrecisionDecimals :
    (schema : AvroSchema) → (stripHighPrecisionDecimals schema).peel =
      (stripHighPrecisionDecimals schema.peel).peel
  | .nullable inner => by
      rw [stripHighPrecisionDecimals, AvroSchema.peel, AvroSchema.peel]
      exact peel_stripHighPrecisionDecimals inner
  | .primitive _ => rfl
  | .bytes => rfl
  | .fixed _ => rfl
  | .decimal _ _ _ => rfl
  | .array _ => rfl
  | .map _ => rfl
  | .record _ => rfl

theorem peel_strip_decimal
    (precision scale : ℕ) (inner : DecimalInner) :
    (76 < precision ∧
      ((stripHighPrecisionDecimals (.decimal precision scale inner)).peel =
          .bytes ∨
        ∃ size, (stripHighPrecisionDecimals
          (.decimal precision scale inner)).peel = .fixed size)) ∨
      (precision ≤ 76 ∧
        (stripHighPrecisionDecimals (.decimal precision scale inner)).peel =
          .decimal precision scale inner) := by
  rw [stripHighPrecisionDecimals]
  split_ifs with hwide
  · left
    refine ⟨hwide, ?_⟩
    cases inner with
    | bytes => exact .inl rfl
    | fixed size => exact .inr ⟨size, rfl⟩
  · right
    exact ⟨by omega, rfl⟩

/-- The field is one that a reader's schema gives. -/
structure FieldOf (schema : AvroSchema) (t : ArrowField) : Prop where
  decimal : (decimalType t).isSome →
    BytesOrDecimal (stripHighPrecisionDecimals schema).peel ∧
      ¬Rescales (stripHighPrecisionDecimals schema) t
  list : ∀ child, t.dataType = .list child →
    ∃ items, schema.peel = .array items ∧
      child = schemaToField "element" false items
  struct : ∀ ts, t.dataType = .struct ts →
    ∃ fields, schema.peel = .record fields ∧ ts = recordToFields fields
  dictionary : t.dataType = .leaf (.other "Dictionary(Utf8)") →
    ∃ values, schema.peel = .map values

/-- A decimal's field is a leaf, and one of 256 bits only for more than 38
digits. -/
theorem fieldOf_of_decimal
    {schema : AvroSchema} {precision scale : ℕ} {inner : DecimalInner}
    (hpeel : schema.peel = .decimal precision scale inner) {t : ArrowField}
    {leaf : LeafType} (hleaf : t.dataType = .leaf leaf)
    (hother : leaf ≠ .other "Dictionary(Utf8)")
    (hwide : ∀ p s, leaf = .decimal256 p s → 38 < precision) :
    FieldOf schema t where
  decimal := by
    intro _
    have hstrip := peel_stripHighPrecisionDecimals schema
    rw [hpeel] at hstrip
    rcases peel_strip_decimal precision scale inner with
      ⟨-, hbytes | ⟨size, hfixed⟩⟩ | ⟨hsmall, hdecimal⟩
    · rw [hbytes] at hstrip
      simp [hstrip, BytesOrDecimal, Rescales]
    · rw [hfixed] at hstrip
      simp [hstrip, BytesOrDecimal, Rescales]
    · rw [hdecimal] at hstrip
      refine ⟨by rw [hstrip]; exact hsmall, ?_⟩
      intro hrescales
      simp only [Rescales, hstrip, hleaf] at hrescales
      split at hrescales
      case h_1 heq htype =>
        obtain ⟨rfl, -, -⟩ := AvroSchema.decimal.inj heq
        have hlt := hwide _ _ (DataType.leaf.inj htype)
        omega
      case h_2 => exact hrescales
  list := by
    intro child hchild
    rw [hleaf] at hchild
    cases hchild
  struct := by
    intro ts hts
    rw [hleaf] at hts
    cases hts
  dictionary := by
    intro hdictionary
    rw [hleaf] at hdictionary
    exact absurd (DataType.leaf.inj hdictionary) hother

theorem baseType_of_peel :
    (schema : AvroSchema) → schema.baseType = schema.peel.baseType
  | .nullable inner => by
      rw [AvroSchema.baseType, AvroSchema.peel]
      exact baseType_of_peel inner
  | .primitive _ => rfl
  | .bytes => rfl
  | .fixed _ => rfl
  | .decimal _ _ _ => rfl
  | .array _ => rfl
  | .map _ => rfl
  | .record _ => rfl

theorem findDecimalSchema_of_peel :
    (schema : AvroSchema) →
    findDecimalSchema schema = findDecimalSchema schema.peel
  | .nullable inner => by
      rw [findDecimalSchema, AvroSchema.peel]
      exact findDecimalSchema_of_peel inner
  | .primitive _ => rfl
  | .bytes => rfl
  | .fixed _ => rfl
  | .decimal _ _ _ => rfl
  | .array _ => rfl
  | .map _ => rfl
  | .record _ => rfl

theorem peel_ne_nullable :
    (schema : AvroSchema) → ∀ inner, schema.peel ≠ .nullable inner
  | .nullable schema, inner => by
      rw [AvroSchema.peel]
      exact peel_ne_nullable schema inner
  | .primitive _, _ => nofun
  | .bytes, _ => nofun
  | .fixed _, _ => nofun
  | .decimal _ _ _, _ => nofun
  | .array _, _ => nofun
  | .map _, _ => nofun
  | .record _, _ => nofun

/-- The field of a schema without a decimal has its base type. -/
theorem fieldOf_of_not_decimal
    {schema : AvroSchema} (hnone : findDecimalSchema schema = none)
    {name : String} {nullable : Bool} :
    FieldOf schema (.mk name nullable .empty schema.baseType) := by
  rw [findDecimalSchema_of_peel] at hnone
  have hne := peel_ne_nullable schema
  constructor
  · intro h
    rw [baseType_of_peel] at h
    cases hpeel : schema.peel with
    | primitive type =>
        rw [hpeel] at h
        cases type <;> simp [decimalType, AvroSchema.baseType,
          AvroPrimitive.leafType, ArrowField.dataType, ArrowField.decimalArb,
          ArrowField.metadata, Metadata.empty] at h
    | decimal precision scale inner =>
        rw [hpeel] at hnone
        cases hnone
    | nullable inner => exact absurd hpeel (hne inner)
    | _ =>
        rw [hpeel] at h
        simp [decimalType, AvroSchema.baseType, ArrowField.dataType,
          ArrowField.decimalArb] at h
  · intro child h
    rw [ArrowField.dataType, baseType_of_peel] at h
    cases hpeel : schema.peel with
    | array items =>
        rw [hpeel] at h
        exact ⟨items, rfl, (DataType.list.inj h).symm⟩
    | nullable inner => exact absurd hpeel (hne inner)
    | _ =>
        rw [hpeel] at h
        cases h
  · intro ts h
    rw [ArrowField.dataType, baseType_of_peel] at h
    cases hpeel : schema.peel with
    | record fields =>
        rw [hpeel] at h
        exact ⟨fields, rfl, (DataType.struct.inj h).symm⟩
    | nullable inner => exact absurd hpeel (hne inner)
    | _ =>
        rw [hpeel] at h
        cases h
  · intro h
    rw [ArrowField.dataType, baseType_of_peel] at h
    cases hpeel : schema.peel with
    | map values => exact ⟨values, rfl⟩
    | primitive type =>
        rw [hpeel] at h
        cases type <;> simp [AvroSchema.baseType, AvroPrimitive.leafType] at h
    | nullable inner => exact absurd hpeel (hne inner)
    | _ =>
        rw [hpeel] at h
        simp [AvroSchema.baseType] at h

theorem fieldOf_schemaToField
    (name : String) (nullable : Bool) (schema : AvroSchema) :
    FieldOf schema (schemaToField name nullable schema) := by
  obtain ⟨nullable', heq⟩ := schemaToField_eq_routeDecimal name schema nullable
  rw [heq]
  cases hdecimal : findDecimalSchema schema with
  | none => exact fieldOf_of_not_decimal hdecimal
  | some pair =>
      obtain ⟨precision, scale⟩ := pair
      obtain ⟨inner, hpeel⟩ := peel_of_findDecimalSchema schema hdecimal
      have hbase : schema.baseType =
          .leaf (.decimal128 (asU8 precision) (asI8 scale)) := by
        rw [baseType_of_peel, hpeel, AvroSchema.baseType]
      rw [routeDecimal, hbase]
      split_ifs with hwide hmiddle
      · cases hfield : decimalArbField name (asU32 precision) (asU32 scale)
            nullable' none with
        | none => exact fieldOf_of_decimal hpeel rfl (by simp) (by simp)
        | some field =>
            exact fieldOf_of_decimal hpeel (decimalArbField_eq_some hfield).2
              (by simp) (by simp)
      · refine fieldOf_of_decimal hpeel rfl (by simp) ?_
        intro _ _ _
        exact hmiddle
      · exact fieldOf_of_decimal hpeel rfl (by simp) (by simp)

theorem fieldOf_topLevelDecimalField
    {schema : AvroSchema} {precision scale : ℕ} {inner : DecimalInner}
    (hpeel : schema.peel = .decimal precision scale inner) (name : String)
    (scale' : ℕ) (nullable : Bool) :
    (topLevelDecimalField name precision scale' nullable).name = name ∧
      FieldOf schema (topLevelDecimalField name precision scale' nullable) := by
  unfold topLevelDecimalField
  split_ifs with hwide hzero hmiddle
  · cases hfield : decimalArbField name (asU32 precision) 0 nullable
        (some .u256) with
    | none => exact ⟨rfl, fieldOf_of_decimal hpeel rfl (by simp) (by simp)⟩
    | some field =>
        obtain ⟨hname, htype⟩ := decimalArbField_eq_some hfield
        exact ⟨hname, fieldOf_of_decimal hpeel htype (by simp) (by simp)⟩
  · cases hfield : decimalArbField name (asU32 precision) (asU32 scale')
        nullable none with
    | none => exact ⟨rfl, fieldOf_of_decimal hpeel rfl (by simp) (by simp)⟩
    | some field =>
        obtain ⟨hname, htype⟩ := decimalArbField_eq_some hfield
        exact ⟨hname, fieldOf_of_decimal hpeel htype (by simp) (by simp)⟩
  · refine ⟨rfl, fieldOf_of_decimal hpeel rfl (by simp) ?_⟩
    intro _ _ _
    exact hmiddle
  · exact ⟨rfl, fieldOf_of_decimal hpeel rfl (by simp) (by simp)⟩

theorem fieldOf_topLevelField
    {schema schema' : AvroSchema}
    (h : postProcessForReading schema = .ok schema') (name : String) :
    (topLevelField name schema').name = name ∧
      FieldOf schema (topLevelField name schema') := by
  have hother : schema' = schema →
      (topLevelField name schema').name = name ∧
        FieldOf schema (topLevelField name schema') := by
    rintro rfl
    unfold topLevelField
    cases hdecimal : findDecimalSchema schema' with
    | none =>
        exact ⟨name_schemaToField _ _ _, fieldOf_schemaToField _ _ _⟩
    | some pair =>
        obtain ⟨precision, scale⟩ := pair
        obtain ⟨inner, hpeel⟩ := peel_of_findDecimalSchema schema' hdecimal
        exact fieldOf_topLevelDecimalField hpeel _ _ _
  cases schema with
  | decimal precision scale inner =>
      unfold postProcessForReading at h
      simp only at h
      split_ifs at h with hlimit
      obtain rfl := Except.ok.inj h
      exact fieldOf_topLevelDecimalField (by rfl) _ _ _
  | _ => exact hother (Except.ok.inj h).symm

/-- Every target field is the field of one of the schema's. -/
theorem exists_fieldOf_of_convert
    {fields : List AvroField} {target : List ArrowField}
    (h : convertAvroSchemaToArrow fields = .ok target) {t : ArrowField}
    (ht : t ∈ target) :
    ∃ field ∈ fields, t.name = field.name ∧ FieldOf field.schema t := by
  induction fields generalizing target with
  | nil =>
      obtain rfl := Except.ok.inj h
      simp at ht
  | cons field fields ih =>
      cases field with
      | mk name schema =>
          rw [convertAvroSchemaToArrow] at h
          cases hprocess : postProcessForReading schema with
          | error e => simp [hprocess, bind, Except.bind] at h
          | ok schema' =>
              cases hrest : convertAvroSchemaToArrow fields with
              | error e => simp [hprocess, hrest, bind, Except.bind] at h
              | ok rest =>
                  simp only [hprocess, hrest, bind, Except.bind, pure,
                    Except.pure] at h
                  obtain rfl := Except.ok.inj h
                  rcases List.mem_cons.mp ht with rfl | hmem
                  · obtain ⟨hname, hfield⟩ :=
                      fieldOf_topLevelField hprocess name
                    exact ⟨_, List.mem_cons_self, hname, hfield⟩
                  · obtain ⟨field, hfield, hof⟩ := ih hrest hmem
                    exact ⟨field, List.mem_cons_of_mem _ hfield, hof⟩

end Avro

end Streamling
