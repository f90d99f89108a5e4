import Streamling.Formats.AvroFields

/-!
# Decimals through the decoder

Over every run of the decoder, a row of a flushed batch keeps the numbers of
the message it was decoded from exactly if each of them is read as it was
written: it is a number of the output field, and its integer is read at the
scale it was delivered at unless it is cast or zero.
-/

namespace Streamling

namespace Avro

open Arrow

/-! ## The writer's schema supplies every field -/

theorem findAvroField_stripFields
    {fields : List AvroField} (hnodup : (fields.map AvroField.name).Nodup)
    {name : String} {schema : AvroSchema} (h : .mk name schema ∈ fields) :
    findAvroField name (stripFields fields) =
      some (.mk name (stripHighPrecisionDecimals schema)) := by
  induction fields with
  | nil => simp at h
  | cons first fields ih =>
      cases first with
      | mk first firstSchema =>
          rw [List.map_cons, List.nodup_cons] at hnodup
          rw [stripFields, findAvroField]
          rcases List.mem_cons.mp h with heq | hmem
          · obtain ⟨rfl, rfl⟩ := AvroField.mk.inj heq
            rw [List.find?_cons_of_pos (by simp [AvroField.name])]
          · have hne : first ≠ name := by
              rintro rfl
              have hname := List.mem_map_of_mem (f := AvroField.name) hmem
              exact hnodup.1 hname
            rw [List.find?_cons_of_neg (by simp [AvroField.name, hne])]
            exact ih hnodup.2 hmem

section Supplied

variable {origin : List String → String → String}

/-- Only the schema without its unions matters. -/
theorem supplies_of_peel_eq
    {path : List String} {seen seen' : AvroSchema} {t : ArrowField}
    (hpeel : seen.peel = seen'.peel) : (schema : AvroSchema) →
    Supplies origin path seen t schema → Supplies origin path seen' t schema
  | .nullable inner, h => by
      rw [Supplies] at h ⊢
      exact supplies_of_peel_eq hpeel inner h
  | .decimal _ _ _, h => by
      rw [Supplies] at h ⊢
      simpa only [Rescales, hpeel] using h
  | .map _, h => by
      rw [Supplies] at h ⊢
      simpa only [hpeel] using h
  | .array _, h => by
      rw [Supplies] at h ⊢
      simpa only [hpeel] using h
  | .record _, h => by
      rw [Supplies] at h ⊢
      simpa only [hpeel] using h
  | .primitive _, _ => by
      rw [Supplies]
      trivial
  | .bytes, _ => by
      rw [Supplies]
      trivial
  | .fixed _, _ => by
      rw [Supplies]
      trivial

mutual

/-- Decoded against itself, a schema supplies any field. -/
theorem supplies_strip : (schema : AvroSchema) → schema.DistinctNames →
    ∀ {path : List String} {t : ArrowField},
    Supplies (fun _ name => name) path (stripHighPrecisionDecimals schema) t
      schema
  | .primitive _, _, _, _ => by
      rw [Supplies]
      trivial
  | .bytes, _, _, _ => by
      rw [Supplies]
      trivial
  | .fixed _, _, _, _ => by
      rw [Supplies]
      trivial
  | .map values, _, _, _ => by
      rw [Supplies, stripHighPrecisionDecimals]
      intro _
      exact ⟨_, rfl⟩
  | .decimal precision scale inner, _, _, t => by
      rw [Supplies]
      intro _
      rcases peel_strip_decimal precision scale inner with
        ⟨-, hbytes | ⟨size, hfixed⟩⟩ | ⟨hsmall, hdecimal⟩
      · simp [hbytes, BytesOrDecimal, Rescales]
      · simp [hfixed, BytesOrDecimal, Rescales]
      · rw [hdecimal]
        exact ⟨hsmall, fun _ => hsmall⟩
  | .nullable inner, hnames, path, t => by
      rw [AvroSchema.DistinctNames] at hnames
      rw [Supplies, stripHighPrecisionDecimals]
      exact supplies_of_peel_eq (by rw [AvroSchema.peel]) inner
        (supplies_strip inner hnames)
  | .array items, hnames, path, t => by
      rw [AvroSchema.DistinctNames] at hnames
      rw [Supplies, stripHighPrecisionDecimals]
      intro child _
      exact ⟨_, rfl, supplies_strip items hnames⟩
  | .record fields, hnames, path, t => by
      rw [AvroSchema.DistinctNames] at hnames
      rw [Supplies, stripHighPrecisionDecimals]
      intro ts _
      refine ⟨_, rfl, suppliesAll_strip fields hnames.2 ?_⟩
      intro name schema hmem
      exact findAvroField_stripFields hnames.1 hmem

theorem suppliesAll_strip : (fields : List AvroField) →
    AllDistinctNames fields →
    ∀ {path : List String} {seen : List AvroField} {ts : List ArrowField},
    (∀ name schema, .mk name schema ∈ fields →
      findAvroField name seen =
        some (.mk name (stripHighPrecisionDecimals schema))) →
    SuppliesAll (fun _ name => name) path seen ts fields
  | [], _, _, _, _, _ => by
      rw [SuppliesAll]
      trivial
  | .mk name schema :: fields, hnames, path, seen, ts, hseen => by
      rw [AllDistinctNames] at hnames
      rw [SuppliesAll]
      constructor
      · rintro t _ rfl
        exact ⟨_, hseen _ _ List.mem_cons_self,
          supplies_strip schema hnames.1⟩
      · apply suppliesAll_strip fields hnames.2
        intro name schema hmem
        exact hseen name schema (List.mem_cons_of_mem _ hmem)

end

/-! ## The reader's schema supplies its own fields -/

theorem mem_recordToFields
    {fields : List AvroField} {t : ArrowField}
    (h : t ∈ recordToFields fields) :
    ∃ name schema, .mk name schema ∈ fields ∧
      t = schemaToField name false schema := by
  induction fields with
  | nil => simp [recordToFields] at h
  | cons field fields ih =>
      cases field with
      | mk name schema =>
          rw [recordToFields] at h
          rcases List.mem_cons.mp h with rfl | hmem
          · exact ⟨name, schema, List.mem_cons_self, rfl⟩
          · obtain ⟨name', schema', hfield, ht⟩ := ih hmem
            exact ⟨name', schema', List.mem_cons_of_mem _ hfield, ht⟩

theorem distinctNames_peel :
    (schema : AvroSchema) → schema.DistinctNames → schema.peel.DistinctNames
  | .nullable inner, h => by
      rw [AvroSchema.DistinctNames] at h
      rw [AvroSchema.peel]
      exact distinctNames_peel inner h
  | .primitive _, h => h
  | .bytes, h => h
  | .fixed _, h => h
  | .decimal _ _ _, h => h
  | .array _, h => h
  | .map _, h => h
  | .record _, h => h

theorem distinctNames_of_mem
    {fields : List AvroField} (h : AllDistinctNames fields) {name : String}
    {schema : AvroSchema} (hmem : .mk name schema ∈ fields) :
    schema.DistinctNames := by
  induction fields with
  | nil => simp at hmem
  | cons field fields ih =>
      cases field with
      | mk first firstSchema =>
          rw [AllDistinctNames] at h
          rcases List.mem_cons.mp hmem with heq | hmem
          · obtain ⟨rfl, rfl⟩ := AvroField.mk.inj heq
            exact h.1
          · exact ih h.2 hmem

/-- A reader's field is found under its name. -/
theorem exists_seenField
    {fields : List AvroField}
    (hnames : (AvroSchema.record fields).DistinctNames)
    {field : AvroField} (hmem : field ∈ fields) :
    findAvroField field.name (stripFields fields) =
        some (.mk field.name (stripHighPrecisionDecimals field.schema)) ∧
      field.schema.DistinctNames := by
  rw [AvroSchema.DistinctNames] at hnames
  cases field with
  | mk name schema =>
      exact ⟨findAvroField_stripFields hnames.1 hmem,
        distinctNames_of_mem hnames.2 hmem⟩

mutual

theorem supplies_reader : (schema : AvroSchema) →
    ∀ {path : List String} {reader : AvroSchema} {t : ArrowField},
    reader.DistinctNames → FieldOf reader t →
    Supplies origin path (stripHighPrecisionDecimals reader) t schema
  | .primitive _, _, _, _, _, _ => by
      rw [Supplies]
      trivial
  | .bytes, _, _, _, _, _ => by
      rw [Supplies]
      trivial
  | .fixed _, _, _, _, _, _ => by
      rw [Supplies]
      trivial
  | .map _, path, reader, t, hnames, hof => by
      rw [Supplies]
      intro ht
      obtain ⟨values, hpeel⟩ := hof.dictionary ht
      rw [peel_stripHighPrecisionDecimals, hpeel]
      exact ⟨_, rfl⟩
  | .decimal _ _ _, path, reader, t, hnames, hof => by
      rw [Supplies]
      intro ht
      obtain ⟨hseen, hrescales⟩ := hof.decimal ht
      exact ⟨hseen, fun h => absurd h hrescales⟩
  | .nullable inner, path, reader, t, hnames, hof => by
      rw [Supplies]
      exact supplies_reader inner hnames hof
  | .array items, path, reader, t, hnames, hof => by
      rw [Supplies]
      intro child ht
      obtain ⟨readerItems, hpeel, rfl⟩ := hof.list child ht
      have hitems := distinctNames_peel reader hnames
      rw [hpeel, AvroSchema.DistinctNames] at hitems
      rw [peel_stripHighPrecisionDecimals, hpeel]
      exact ⟨_, rfl, supplies_reader items hitems
        (fieldOf_schemaToField _ _ _)⟩
  | .record fields, path, reader, t, hnames, hof => by
      rw [Supplies]
      intro ts ht
      obtain ⟨readerFields, hpeel, rfl⟩ := hof.struct ts ht
      have hfields := distinctNames_peel reader hnames
      rw [hpeel] at hfields
      rw [peel_stripHighPrecisionDecimals, hpeel]
      refine ⟨_, rfl, suppliesAll_reader fields hfields ?_⟩
      intro t hmem
      obtain ⟨name, schema, hfield, rfl⟩ := mem_recordToFields hmem
      exact ⟨_, hfield, name_schemaToField _ _ _,
        fieldOf_schemaToField _ _ _⟩

theorem suppliesAll_reader : (fields : List AvroField) →
    ∀ {path : List String} {reader : List AvroField} {ts : List ArrowField},
    (AvroSchema.record reader).DistinctNames →
    (∀ t ∈ ts, ∃ field ∈ reader, t.name = field.name ∧
      FieldOf field.schema t) →
    SuppliesAll origin path (stripFields reader) ts fields
  | [], _, _, _, _, _ => by
      rw [SuppliesAll]
      trivial
  | .mk name schema :: fields, path, reader, ts, hnames, hts => by
      rw [SuppliesAll]
      refine ⟨?_, suppliesAll_reader fields hnames hts⟩
      intro t hmem _
      obtain ⟨field, hfield, hname, hof⟩ := hts t hmem
      obtain ⟨hfind, hdistinct⟩ := exists_seenField hnames hfield
      rw [hname]
      exact ⟨_, hfind, supplies_reader schema hdistinct hof⟩

end

end Supplied

/-! ## One generation -/

namespace ConfluentAvroDecoder

/-- The names by which fields are found: the reader's if there is one. -/
def names (reader : Option (List AvroField))
    (origin : List String → String → String) :
    List String → String → String :=
  match reader with
  | none => fun _ name => name
  | some _ => origin

/-- A row of a batch keeps the numbers of a message. -/
def RowKept (origin : List String → String → String)
    (reader : Option (List AvroField)) (writer : RecordSchema)
    (target : List ArrowField) (row : List AvroValue) (batch : RecordBatch)
    (r : ℕ) : Prop :=
  KeptAll (names reader origin) [] row target batch.columns r writer.fields

/-- Every number of a message is read as it was written. -/
def RowReadAsWritten (origin : List String → String → String)
    (reader : Option (List AvroField)) (writer : RecordSchema)
    (target : List ArrowField) (row : List AvroValue) : Prop :=
  ReadAllAsWritten (names reader origin) [] row
    (reader.getD (stripFields writer.fields)) target writer.fields

/-- A reader's schema goes with the target derived from it. -/
def ReaderOf (reader : Option (List AvroField)) (target : List ArrowField) :
    Prop :=
  ∀ fields ∈ reader, ∃ schema : RecordSchema,
    fields = stripFields schema.fields ∧
      convertAvroSchemaToArrow schema.fields = .ok target

section Decoding

variable {avro : ArrowAvro}
variable {cast : DataType → Column → DataType → Except AvroError Column}
variable {toPlainString : ℤ → ℤ → String}
variable {origin : List String → String → String}

/-- The rows of a generation's batch. -/
theorem rowKept_iff
    (havro : avro.Correct origin) (hcast : CastCorrect cast)
    {writer : RecordSchema} {reader : Option (List AvroField)}
    {target : List ArrowField} (hreader : ReaderOf reader target)
    {rows : List (List AvroValue)} {batch out : RecordBatch}
    (hflush : avro.flush (stripFields writer.fields) reader rows = .ok batch)
    (hout : coerceBatchToTarget cast toPlainString batch target = .ok out)
    {r : ℕ} {row : List AvroValue} (hrow : rows[r]? = some row) :
    RowKept origin reader writer target row out r ↔
      RowReadAsWritten origin reader writer target row := by
  have htypes := havro.types _ _ _ _ hflush
  have hvalues := havro.values _ _ _ _ hflush r row hrow
  obtain ⟨columns, hcoerced, rfl⟩ := coerceBatchToTarget_eq_ok hout
  have hnames := writer.distinct
  cases reader with
  | none =>
      have hsupplies : SuppliesAll (fun _ name => name) []
          (stripFields writer.fields) target writer.fields := by
        rw [AvroSchema.DistinctNames] at hnames
        apply suppliesAll_strip writer.fields hnames.2
        intro name schema hmem
        exact findAvroField_stripFields hnames.1 hmem
      exact keptAll_iff_readAllAsWritten hcast writer.fields hsupplies htypes
        hvalues hcoerced
  | some fields =>
      obtain ⟨schema, rfl, htarget⟩ := hreader fields rfl
      have hsupplies : SuppliesAll origin [] (stripFields schema.fields)
          target writer.fields := by
        apply suppliesAll_reader writer.fields schema.distinct
        intro t ht
        exact exists_fieldOf_of_convert htarget ht
      exact keptAll_iff_readAllAsWritten hcast writer.fields hsupplies htypes
        hvalues hcoerced

/-! ## Runs -/

/-- A decoder with or without a batch size. -/
def sized : Option ℕ → ConfluentAvroDecoder
  | none => new
  | some size => new.withBatchSize size

/-- A decoder with its settings, before any message. -/
def configured (reader : Option AvroRoot) (resolve : Bool) (size : Option ℕ) :
    Except AvroError ConfluentAvroDecoder := do
  let d ←
    match reader with
    | none => pure (sized size)
    | some reader => (sized size).withReaderSchema reader
  return d.withSchemaResolution resolve

variable {registry : ℕ → AvroRoot}

/-- The frames were all written with one schema of the registry. -/
def WrittenWith (registry : ℕ → AvroRoot) (writer : RecordSchema)
    (frames : List Frame) : Prop :=
  ∀ frame ∈ frames, ∃ index,
    (registry frame.writerId).record? = some (writer, index)

/-- The batch of one generation of frames. -/
def BatchOf (avro : ArrowAvro)
    (cast : DataType → Column → DataType → Except AvroError Column)
    (toPlainString : ℤ → ℤ → String) (registry : ℕ → AvroRoot)
    (reader : Option (List AvroField)) (target : List ArrowField)
    (frames : List Frame) (batch : RecordBatch) : Prop :=
  ∃ writer raw, WrittenWith registry writer frames ∧
    avro.flush (stripFields writer.fields) reader
      (frames.map Frame.values) = .ok raw ∧
    coerceBatchToTarget cast toPlainString raw target = .ok batch

/-- What holds of a decoder in a run: its schemas are those of the registry,
the pending batches are those of the finished generations, and the live
decoder holds the frames of the current one. -/
structure Tracks (avro : ArrowAvro)
    (cast : DataType → Column → DataType → Except AvroError Column)
    (toPlainString : ℤ → ℤ → String) (registry : ℕ → AvroRoot)
    (d : ConfluentAvroDecoder) (closed : List (List Frame))
    (current : List Frame) : Prop where
  reader : ∀ target ∈ d.targetSchema, ReaderOf d.resolution target
  store : ∀ id, ∀ fields ∈ d.store id, d.targetSchema.isSome ∧
    ∃ writer index, (registry id).record? = some (writer, index) ∧
      fields = stripFields writer.fields
  pending : ∀ target ∈ d.targetSchema,
    List.Forall₂
      (BatchOf avro cast toPlainString registry d.resolution target) closed
      d.pending
  empty : d.targetSchema = none →
    d.resolution = none ∧ closed = [] ∧ d.pending = []
  idle : d.decoder = none → current = []
  live : ∀ generation ∈ d.decoder, generation.reader = d.resolution ∧
    generation.rows = current.map Frame.values ∧
    ∃ id writer index, d.activeWriterId = some id ∧
      (registry id).record? = some (writer, index) ∧
      generation.writer = stripFields writer.fields ∧
      ∀ frame ∈ current, frame.writerId = id

theorem prepareArrowAvroSchema_eq_ok
    {root : AvroRoot} {fields : List AvroField} {index : Option ℤ}
    (h : prepareArrowAvroSchema root = .ok (fields, index)) :
    ∃ schema, root.record? = some (schema, index) ∧
      fields = stripFields schema.fields := by
  unfold prepareArrowAvroSchema at h
  cases hrecord : root.record? with
  | none => simp [hrecord] at h
  | some pair =>
      obtain ⟨schema, found⟩ := pair
      simp only [hrecord] at h
      obtain ⟨rfl, rfl⟩ := Prod.mk.inj (Except.ok.inj h)
      exact ⟨schema, rfl, rfl⟩

theorem targetOf_eq
    {root : AvroRoot} {schema : RecordSchema} {index : Option ℤ}
    (h : root.record? = some (schema, index)) :
    targetOf root = convertAvroSchemaToArrow schema.fields := by
  simp only [targetOf, h]

theorem tracks_configured
    {reader : Option AvroRoot} {resolve : Bool} {size : Option ℕ}
    {d : ConfluentAvroDecoder} (h : configured reader resolve size = .ok d) :
    Tracks avro cast toPlainString registry d [] [] := by
  have hsized : (sized size).store = (fun _ => none) ∧
      (sized size).readerSchema = none ∧ (sized size).targetSchema = none ∧
      (sized size).pending = [] := by
    cases size with
    | none => exact ⟨rfl, rfl, rfl, rfl⟩
    | some size => exact ⟨rfl, rfl, rfl, rfl⟩
  obtain ⟨hstore, hreader, htarget, hpending⟩ := hsized
  unfold configured at h
  cases reader with
  | none =>
      simp only [bind, Except.bind, pure, Except.pure] at h
      rw [← Except.ok.inj h]
      constructor
      · simp [withSchemaResolution, htarget]
      · simp [withSchemaResolution, hstore]
      · simp [withSchemaResolution, htarget]
      · intro _
        simp [withSchemaResolution, resolution, hreader, hpending]
      · intro _
        rfl
      · simp [withSchemaResolution]
  | some reader =>
      simp only [bind, Except.bind, pure, Except.pure, withReaderSchema] at h
      cases hprepare : prepareArrowAvroSchema reader with
      | error e => simp [hprepare] at h
      | ok pair =>
          obtain ⟨fields, index⟩ := pair
          obtain ⟨schema, hrecord, rfl⟩ :=
            prepareArrowAvroSchema_eq_ok hprepare
          cases hconvert : convertAvroSchemaToArrow schema.fields with
          | error e => simp [hprepare, targetOf_eq hrecord, hconvert] at h
          | ok target =>
              simp only [hprepare, targetOf_eq hrecord, hconvert] at h
              rw [← Except.ok.inj h]
              constructor
              · rintro _ ⟨⟩ fields hfields
                refine ⟨schema, ?_, hconvert⟩
                simp only [withSchemaResolution, resolution,
                  Option.mem_def] at hfields
                cases resolve with
                | true => simpa using hfields.symm
                | false => simp at hfields
              · simp [withSchemaResolution, hstore]
              · simp [withSchemaResolution, hpending]
              · simp [withSchemaResolution]
              · intro _
                rfl
              · simp [withSchemaResolution]

section Steps

variable {d d' : ConfluentAvroDecoder} {closed : List (List Frame)}
variable {current : List Frame}

/-- Flushing ends the current generation. -/
theorem exists_flushed
    (h : Tracks avro cast toPlainString registry d closed current)
    {flushed : Option RecordBatch}
    (hflush : flushInner avro cast toPlainString d = .ok flushed) :
    ∃ ended : List (List Frame), ended.flatten = current ∧
      (∀ target ∈ d.targetSchema, List.Forall₂
        (BatchOf avro cast toPlainString registry d.resolution target)
        (closed ++ ended) (d.pending ++ flushed.toList)) ∧
      (d.targetSchema = none → ended = [] ∧ flushed = none) := by
  unfold flushInner at hflush
  cases hdecoder : d.decoder with
  | none =>
      simp only [hdecoder] at hflush
      obtain rfl := Except.ok.inj hflush
      refine ⟨[], (h.idle hdecoder).symm, ?_, fun _ => ⟨rfl, rfl⟩⟩
      simpa using h.pending
  | some generation =>
      obtain ⟨hreader, hrows, id, writer, index, -, hwriter, hfields,
        hframes⟩ := h.live generation hdecoder
      simp only [hdecoder] at hflush
      cases htarget : d.targetSchema with
      | none => simp [htarget] at hflush
      | some target =>
          simp only [htarget] at hflush
          split_ifs at hflush with hempty
          · obtain rfl := Except.ok.inj hflush
            rw [hrows, List.isEmpty_iff, List.map_eq_nil_iff] at hempty
            refine ⟨[], hempty.symm, ?_, by simp⟩
            simpa [htarget] using h.pending target htarget
          · cases hraw : avro.flush generation.writer generation.reader
                generation.rows with
            | error e => simp [hraw, bind, Except.bind] at hflush
            | ok raw =>
                cases hbatch : coerceBatchToTarget cast toPlainString raw
                    target with
                | error e =>
                    simp [hraw, hbatch, bind, Except.bind] at hflush
                | ok batch =>
                    simp only [hraw, hbatch, bind, Except.bind, pure,
                      Except.pure] at hflush
                    obtain rfl := Except.ok.inj hflush
                    refine ⟨[current], by simp, ?_, by simp⟩
                    rintro _ ⟨⟩
                    apply List.rel_append (h.pending target htarget)
                    refine .cons ⟨writer, raw, ?_, ?_, hbatch⟩ .nil
                    · intro frame hframe
                      rw [hframes frame hframe]
                      exact ⟨index, hwriter⟩
                    · rwa [hfields, hreader, hrows] at hraw

theorem tracks_switchWriter
    (h : Tracks avro cast toPlainString registry d closed current) {id : ℕ}
    (hswitch : switchWriter avro cast toPlainString d id = .ok d') :
    ∃ closed' current',
      closed'.flatten ++ current' = closed.flatten ++ current ∧
      Tracks avro cast toPlainString registry d' closed' current' ∧
      d'.activeWriterId = some id := by
  unfold switchWriter at hswitch
  cases hactive : d.activeWriterId with
  | none =>
      simp only [hactive] at hswitch
      rw [← Except.ok.inj hswitch]
      refine ⟨closed, current, rfl, ?_, rfl⟩
      refine ⟨h.reader, h.store, h.pending, h.empty, h.idle, ?_⟩
      intro generation hgeneration
      obtain ⟨-, -, _, _, _, hsome, -⟩ := h.live generation hgeneration
      rw [hactive] at hsome
      cases hsome
  | some active =>
      simp only [hactive] at hswitch
      split_ifs at hswitch with hsame
      · rw [← Except.ok.inj hswitch]
        exact ⟨closed, current, rfl, h, hsame ▸ hactive⟩
      · cases hflush : flushInner avro cast toPlainString d with
        | error e => simp [hflush, bind, Except.bind] at hswitch
        | ok flushed =>
            simp only [hflush, bind, Except.bind, pure, Except.pure]
              at hswitch
            rw [← Except.ok.inj hswitch]
            obtain ⟨ended, hended, hpending, hnone⟩ := exists_flushed h hflush
            refine ⟨closed ++ ended, [], ?_, ?_, rfl⟩
            · rw [List.flatten_append, hended, List.append_nil]
            · refine ⟨h.reader, h.store, hpending, ?_, fun _ => rfl, by simp⟩
              intro htarget
              obtain ⟨hresolution, hclosed, hempty⟩ := h.empty htarget
              obtain ⟨rfl, rfl⟩ := hnone htarget
              exact ⟨hresolution, by simp [hclosed], by simp [hempty]⟩

/-- The generation that a message joins. -/
theorem ensureDecoder_spec
    (h : Tracks avro cast toPlainString registry d closed current) {id : ℕ}
    (hactive : d.activeWriterId = some id) {generation : Generation}
    (hensure : ensureDecoder d id = .ok generation) :
    generation.reader = d.resolution ∧
      generation.rows = current.map Frame.values ∧
      ∃ writer index, (registry id).record? = some (writer, index) ∧
        generation.writer = stripFields writer.fields ∧
        ∀ frame ∈ current, frame.writerId = id := by
  unfold ensureDecoder at hensure
  cases hdecoder : d.decoder with
  | some live =>
      simp only [hdecoder] at hensure
      obtain rfl := Except.ok.inj hensure
      obtain ⟨hreader, hrows, id', writer, index, hid, hrest⟩ :=
        h.live live hdecoder
      obtain rfl : id = id' := by simpa [hactive] using hid
      exact ⟨hreader, hrows, writer, index, hrest⟩
  | none =>
      simp only [hdecoder] at hensure
      cases hstore : d.store id with
      | none => simp [hstore] at hensure
      | some fields =>
          simp only [hstore] at hensure
          obtain rfl := Except.ok.inj hensure
          obtain ⟨-, writer, index, hwriter, hfields⟩ :=
            h.store id fields hstore
          obtain rfl := h.idle hdecoder
          exact ⟨rfl, rfl, writer, index, hwriter, hfields, by simp⟩

theorem tracks_decode
    (h : Tracks avro cast toPlainString registry d closed current)
    {frame : Frame}
    (hdecode : decode avro cast toPlainString d frame = .ok d') :
    ∃ closed' current',
      closed'.flatten ++ current' = closed.flatten ++ current ++ [frame] ∧
      Tracks avro cast toPlainString registry d' closed' current' := by
  unfold decode at hdecode
  cases hswitch : switchWriter avro cast toPlainString d frame.writerId with
  | error e => simp [hswitch, bind, Except.bind] at hdecode
  | ok switched =>
      obtain ⟨closed', current', hframes, htracks, hactive⟩ :=
        tracks_switchWriter h hswitch
      simp only [hswitch, bind, Except.bind] at hdecode
      cases hbranch : checkBranch switched frame with
      | error e => simp [hbranch] at hdecode
      | ok _ =>
          simp only [hbranch] at hdecode
          cases hensure : ensureDecoder switched frame.writerId with
          | error e => simp [hensure] at hdecode
          | ok generation =>
              simp only [hensure] at hdecode
              obtain ⟨hreader, hrows, writer, index, hwriter, hfields,
                hsame⟩ := ensureDecoder_spec htracks hactive hensure
              split_ifs at hdecode with hfull
              simp only [pure, Except.pure] at hdecode
              cases haccept : avro.decode generation.writer
                  generation.reader generation.rows frame.values with
              | error e => simp [haccept] at hdecode
              | ok _ =>
                  simp only [haccept] at hdecode
                  rw [← Except.ok.inj hdecode]
                  refine ⟨closed', current' ++ [frame], ?_, ?_⟩
                  · rw [← List.append_assoc, hframes]
                  · refine ⟨htracks.reader, htracks.store, htracks.pending,
                      htracks.empty, by simp, ?_⟩
                    rintro _ ⟨⟩
                    refine ⟨hreader, ?_, frame.writerId, writer, index,
                      hactive, hwriter, hfields, ?_⟩
                    · rw [hrows, List.map_append]
                      rfl
                    · intro other hother
                      rcases List.mem_append.mp hother with hother | hother
                      · exact hsame other hother
                      · rw [List.mem_singleton.mp hother]

theorem tracks_registerWriterSchema
    (h : Tracks avro cast toPlainString registry d closed current) {id : ℕ}
    (hregister : d.registerWriterSchema id (registry id) = .ok d') :
    Tracks avro cast toPlainString registry d' closed current := by
  unfold registerWriterSchema at hregister
  cases hprepare : prepareArrowAvroSchema (registry id) with
  | error e => simp [hprepare, bind, Except.bind] at hregister
  | ok pair =>
      obtain ⟨fields, index⟩ := pair
      obtain ⟨writer, hwriter, rfl⟩ := prepareArrowAvroSchema_eq_ok hprepare
      simp only [hprepare, bind, Except.bind, pure, Except.pure] at hregister
      have hstore : ∀ (target : List ArrowField) other,
          ∀ fields ∈ Function.update d.store id
            (some (stripFields writer.fields)) other,
          (some target).isSome ∧ ∃ writer index,
            (registry other).record? = some (writer, index) ∧
              fields = stripFields writer.fields := by
        intro target other fields hfields
        refine ⟨rfl, ?_⟩
        by_cases hsame : other = id
        · subst hsame
          rw [Function.update_self] at hfields
          exact ⟨writer, index, hwriter, (Option.some.inj hfields).symm⟩
        · rw [Function.update_of_ne hsame] at hfields
          exact (h.store other fields hfields).2
      cases htarget : d.targetSchema with
      | some target =>
          simp only [htarget] at hregister
          rw [← Except.ok.inj hregister]
          refine ⟨?_, hstore target, ?_, by simp, h.idle, h.live⟩
          · rintro _ ⟨⟩
            exact h.reader target htarget
          · rintro _ ⟨⟩
            exact h.pending target htarget
      | none =>
          obtain ⟨hresolution, rfl, hpending⟩ := h.empty htarget
          simp only [htarget] at hregister
          cases htargetOf : targetOf (registry id) with
          | error e => simp [htargetOf] at hregister
          | ok target =>
              simp only [htargetOf] at hregister
              rw [← Except.ok.inj hregister]
              refine ⟨?_, hstore target, ?_, by simp, h.idle, h.live⟩
              · rintro _ ⟨⟩ fields hfields
                simp only [resolution] at hresolution hfields
                rw [hresolution] at hfields
                cases hfields
              · rintro _ ⟨⟩
                simp only [hpending]
                exact .nil

theorem tracks_flush
    (h : Tracks avro cast toPlainString registry d closed current)
    {batches : List RecordBatch}
    (hflush : flush avro cast toPlainString d = .ok (d', batches)) :
    Tracks avro cast toPlainString registry d' [] [] ∧
      ∃ target generations, d.targetSchema = some target ∧
        generations.flatten = closed.flatten ++ current ∧
        List.Forall₂
          (BatchOf avro cast toPlainString registry d.resolution target)
          generations batches := by
  unfold flush at hflush
  cases htarget : d.targetSchema with
  | none => simp [htarget] at hflush
  | some target =>
      simp only [htarget] at hflush
      cases hinner : flushInner avro cast toPlainString d with
      | error e => simp [hinner, bind, Except.bind] at hflush
      | ok flushed =>
          simp only [hinner, bind, Except.bind, pure, Except.pure] at hflush
          obtain ⟨rfl, rfl⟩ := Prod.mk.inj (Except.ok.inj hflush)
          obtain ⟨ended, hended, hpending, -⟩ := exists_flushed h hinner
          constructor
          · refine ⟨?_, ?_, ?_, by simp, fun _ => rfl, by simp⟩
            · rw [← htarget]
              exact h.reader
            · intro id fields hfields
              exact ⟨rfl, (h.store id fields hfields).2⟩
            · intro _ _
              exact .nil
          · refine ⟨target, closed ++ ended, rfl, ?_,
              hpending target htarget⟩
            rw [List.flatten_append, hended]

/-- The frames since the last flush are those of the finished generations and
of the current one. -/
theorem tracks_run
    {events : List Event}
    (h : Tracks avro cast toPlainString registry d closed current)
    (hrun : run avro cast toPlainString registry d events = .ok d') :
    ∃ closed' current',
      closed'.flatten ++ current' =
        buffered (closed.flatten ++ current) events ∧
      Tracks avro cast toPlainString registry d' closed' current' := by
  induction events generalizing d closed current with
  | nil =>
      obtain rfl := Except.ok.inj hrun
      exact ⟨closed, current, rfl, h⟩
  | cons event events ih =>
      rw [run] at hrun
      cases hstep : step avro cast toPlainString registry d event with
      | error e => simp [hstep, bind, Except.bind] at hrun
      | ok next =>
          simp only [hstep, bind, Except.bind] at hrun
          cases event with
          | register id => exact ih (tracks_registerWriterSchema h hstep) hrun
          | decode frame =>
              obtain ⟨closed', current', hframes, htracks⟩ :=
                tracks_decode h hstep
              rw [buffered, ← hframes]
              exact ih htracks hrun
          | flush =>
              cases hflush : flush avro cast toPlainString d with
              | error e => simp [step, hflush, Except.map] at hstep
              | ok pair =>
                  obtain ⟨emptied, batches⟩ := pair
                  simp only [step, hflush, Except.map] at hstep
                  obtain rfl := Except.ok.inj hstep
                  exact ih (tracks_flush h hflush).1 hrun

end Steps

/-- In every run, each row of a flushed batch belongs to one of the messages
decoded since the last flush, and it keeps the message's numbers exactly if
each of them is read as it was written. -/
theorem avro_decimals_keep_their_number_iff
    (havro : avro.Correct origin) (hcast : CastCorrect cast)
    {reader : Option AvroRoot} {resolve : Bool} {size : Option ℕ}
    {start d d' : ConfluentAvroDecoder}
    (hstart : configured reader resolve size = .ok start)
    {events : List Event}
    (hrun : run avro cast toPlainString registry start events = .ok d)
    {batches : List RecordBatch}
    (hflush : flush avro cast toPlainString d = .ok (d', batches)) :
    ∃ target generations, d.targetSchema = some target ∧
      generations.flatten = buffered [] events ∧
      List.Forall₂
        (fun frames batch => ∃ writer,
          WrittenWith registry writer frames ∧
            ∀ (r : ℕ) frame, frames[r]? = some frame →
              (RowKept origin d.resolution writer target frame.values batch
                  r ↔
                RowReadAsWritten origin d.resolution writer target
                  frame.values))
        generations batches := by
  obtain ⟨closed, current, hframes, htracks⟩ :=
    tracks_run (tracks_configured hstart) hrun
  obtain ⟨-, target, generations, htarget, hflatten, hbatches⟩ :=
    tracks_flush htracks hflush
  refine ⟨target, generations, htarget, hflatten.trans hframes, ?_⟩
  refine hbatches.imp ?_
  rintro frames batch ⟨writer, raw, hwriter, hraw, hbatch⟩
  refine ⟨writer, hwriter, ?_⟩
  intro r frame hframe
  have hrow : (frames.map Frame.values)[r]? = some frame.values := by
    rw [List.getElem?_map, hframe]
    rfl
  exact rowKept_iff havro hcast (htracks.reader target htarget) hraw hbatch
    hrow

end Decoding

/-! ## Records with one wide decimal -/

/-- The cells of messages with one binary field. -/
def binaryCells (rows : List (List AvroValue)) : List (Option Cell) :=
  rows.map fun row =>
    match row with
    | .bytes value :: _ => some (.bytes value)
    | _ => none

/-- The names of a record with one binary field and of the record it is
decoded against, if they are equal. -/
def binaryName? (writer reader : List AvroField) : Option String :=
  match writer, reader with
  | [.mk name .bytes], [.mk readerName .bytes] =>
      if name = readerName then some name else none
  | _, _ => none

/-- arrow-avro for records with one binary field. -/
def binaryAvro : ArrowAvro where
  decode := fun _ _ _ _ => .ok ()
  flush := fun writer reader rows =>
    match binaryName? writer (reader.getD writer) with
    | some name =>
        .ok ⟨[.mk name true .empty (.leaf .binary)],
          [.leaf (binaryCells rows)], rows.length⟩
    | none => .error (.library "unsupported")

theorem binaryName?_eq_some
    {writer reader : List AvroField} {name : String}
    (h : binaryName? writer reader = some name) :
    writer = [.mk name .bytes] ∧ reader = [.mk name .bytes] := by
  unfold binaryName? at h
  split at h
  case h_1 =>
    split_ifs at h with hname
    obtain rfl := Option.some.inj h
    exact ⟨rfl, by rw [hname]⟩
  case h_2 => cases h

theorem binaryAvro_flush
    {writer : List AvroField} {reader : Option (List AvroField)}
    {rows : List (List AvroValue)} {batch : RecordBatch}
    (h : binaryAvro.flush writer reader rows = .ok batch) :
    ∃ name, writer = [.mk name .bytes] ∧
      reader.getD writer = [.mk name .bytes] ∧
      batch = ⟨[.mk name true .empty (.leaf .binary)],
        [.leaf (binaryCells rows)], rows.length⟩ := by
  simp only [binaryAvro] at h
  cases hname : binaryName? writer (reader.getD writer) with
  | none => simp [hname] at h
  | some name =>
      simp only [hname] at h
      obtain ⟨hwriter, hreader⟩ := binaryName?_eq_some hname
      exact ⟨name, hwriter, hreader, (Except.ok.inj h).symm⟩

theorem binaryAvro_correct : binaryAvro.Correct fun _ name => name where
  types := by
    intro writer reader rows batch h
    obtain ⟨name, -, hreader, rfl⟩ := binaryAvro_flush h
    rw [hreader, HasArrowTypes]
    exact ⟨_, _, rfl, rfl, rfl, rfl⟩
  values := by
    intro writer reader rows batch h r row hrow
    obtain ⟨name, rfl, -, rfl⟩ := binaryAvro_flush h
    cases row with
    | nil => simp [DecodedAll]
    | cons v vs =>
        rw [DecodedAll]
        refine ⟨?_, by simp [DecodedAll]⟩
        intro k source column hsource hcolumn _
        cases k with
        | succ k => simp at hsource
        | zero =>
            obtain rfl := Option.some.inj hsource
            obtain rfl := Option.some.inj hcolumn
            rw [Decoded]
            cases v with
            | bytes value =>
                refine ⟨_, rfl, ?_⟩
                rw [binaryCells, List.getElem?_map, hrow]
                rfl
            | _ => trivial

def noCast (_ : DataType) (_ : Column) (_ : DataType) :
    Except AvroError Column :=
  .error (.library "unsupported")

theorem noCast_correct : CastCorrect noCast where
  decimal := nofun
  dictionary := nofun

/-- A record with one decimal of 100 digits. -/
def wideRecord (scale : ℕ) : AvroRoot :=
  .record ⟨[.mk "v" (.decimal 100 scale .bytes)], by
    simp [AvroSchema.DistinctNames, AllDistinctNames]⟩

/-- Register the writer and decode the message 12345. -/
def wideEvents : List Event :=
  [.register 1, .decode ⟨1, none, [.bytes [0x30, 0x39]]⟩]

/-- A run with one scale. -/
theorem avro_decimals_wide_run :
    ∃ start d d' batches,
      configured (some (wideRecord 2)) true none = .ok start ∧
      run binaryAvro noCast (fun _ _ => "") (fun _ => wideRecord 2) start
        wideEvents = .ok d ∧
      flush binaryAvro noCast (fun _ _ => "") d = .ok (d', batches) ∧
      ∃ target generations, d.targetSchema = some target ∧
        generations.flatten = buffered [] wideEvents ∧
        List.Forall₂
          (fun frames batch => ∃ writer,
            WrittenWith (fun _ => wideRecord 2) writer frames ∧
              ∀ (r : ℕ) frame, frames[r]? = some frame →
                (RowKept (fun _ name => name) d.resolution writer target
                    frame.values batch r ↔
                  RowReadAsWritten (fun _ name => name) d.resolution writer
                    target frame.values))
          generations batches := by
  obtain ⟨start, d, d', batches, hstart, hrun, hflush⟩ :
      ∃ start d d' batches,
        configured (some (wideRecord 2)) true none = .ok start ∧
        run binaryAvro noCast (fun _ _ => "") (fun _ => wideRecord 2) start
          wideEvents = .ok d ∧
        flush binaryAvro noCast (fun _ _ => "") d = .ok (d', batches) :=
    ⟨_, _, _, _, rfl, rfl, rfl⟩
  refine ⟨start, d, d', batches, hstart, hrun, hflush, ?_⟩
  exact avro_decimals_keep_their_number_iff binaryAvro_correct noCast_correct
    hstart hrun hflush

/-- The number 123.45 of a writer with scale 2 becomes 12345 for a reader with
scale 0, without an error. -/
theorem avro_decimals_relabelled :
    ¬ ∀ (avro : ArrowAvro) (origin : List String → String → String)
      (cast : DataType → Column → DataType → Except AvroError Column)
      (toPlainString : ℤ → ℤ → String) (registry : ℕ → AvroRoot)
      (reader : Option AvroRoot) (resolve : Bool) (size : Option ℕ)
      (start d d' : ConfluentAvroDecoder) (events : List Event)
      (batches : List RecordBatch),
      avro.Correct origin → CastCorrect cast →
      configured reader resolve size = .ok start →
      run avro cast toPlainString registry start events = .ok d →
      flush avro cast toPlainString d = .ok (d', batches) →
      ∃ target generations, d.targetSchema = some target ∧
        generations.flatten = buffered [] events ∧
        List.Forall₂
          (fun frames batch => ∃ writer, WrittenWith registry writer frames ∧
            ∀ (r : ℕ) frame, frames[r]? = some frame →
              RowKept origin d.resolution writer target frame.values batch r)
          generations batches := by
  intro h
  obtain ⟨start, d, d', t, hstart, hrun, hflush, htarget, hresolution, hname,
      htype⟩ :
      ∃ start d d' t,
        configured (some (wideRecord 0)) true none = .ok start ∧
        run binaryAvro noCast (fun _ _ => "") (fun _ => wideRecord 2) start
          wideEvents = .ok d ∧
        flush binaryAvro noCast (fun _ _ => "") d =
          .ok (d', [⟨[t], [.leaf [some (.bytes [0x00, 0x30, 0x39])]], 1⟩]) ∧
        d.targetSchema = some [t] ∧
        d.resolution = some [.mk "v" .bytes] ∧ t.name = "v" ∧
        decimalType t = some (100, 0) :=
    ⟨_, _, _, _, rfl, rfl, rfl, rfl, rfl, rfl, rfl⟩
  obtain ⟨target, generations, htarget', hframes, hbatches⟩ :=
    h binaryAvro (fun _ name => name) noCast (fun _ _ => "")
      (fun _ => wideRecord 2) (some (wideRecord 0)) true none start d d'
      wideEvents _ binaryAvro_correct noCast_correct hstart hrun hflush
  obtain rfl := Option.some.inj (htarget.symm.trans htarget')
  obtain _ | ⟨hbatch, hnil⟩ := hbatches
  obtain _ | _ := hnil
  obtain ⟨writer, hwritten, hrows⟩ := hbatch
  simp only [List.flatten_cons, List.flatten_nil, List.append_nil] at hframes
  subst hframes
  obtain ⟨index, hwriter⟩ := hwritten _ List.mem_cons_self
  obtain ⟨rfl, -⟩ := Prod.mk.inj (Option.some.inj hwriter)
  have hkept := hrows 0 _ rfl
  rw [hresolution] at hkept
  have hnumber := hkept.1 0 _ _ rfl rfl hname
  simp only [Kept, KeptNumber, htype] at hnumber
  obtain ⟨cells, cell, m, hcells, hcell, hm, hvalue, -⟩ := hnumber
  obtain rfl := Column.leaf.inj hcells
  obtain rfl := Option.some.inj (Option.some.inj hcell)
  obtain rfl : (12345 : ℤ) = m := Option.some.inj hm
  have hwritten : BigEndian.ofSignedBytes [0x30, 0x39] = 12345 := by decide
  rw [hwritten] at hvalue
  norm_num [BigDecimal.value] at hvalue

end ConfluentAvroDecoder

end Avro

end Streamling
