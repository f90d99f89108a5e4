import Mathlib
import Streamling.Formats.ConfluentOrder

/-!
# One row for a frame, over every run

From a decoder without rows, a run whose calls succeed leaves the frames since
the last flush: a flush gives their rows in order and the state that the
registrations alone give.  The Kafka source puts the operation and metadata of
a message beside the row of its frame.
-/

namespace Streamling

namespace Avro

open Arrow

namespace FrameDecoder

variable {σ : Type}

/-- No schema is registered and no frame is held. -/
def Fresh (d : FrameDecoder σ) : Prop :=
  d.store = (fun _ => none) ∧ d.decoder = none ∧ d.activeWriterId = none ∧
    d.pending = []

theorem fresh_new : Fresh (new : FrameDecoder σ) :=
  ⟨rfl, rfl, rfl, rfl⟩

theorem Fresh.withSchemaResolution
    {d : FrameDecoder σ} (h : Fresh d) (enabled : Bool) :
    Fresh (d.withSchemaResolution enabled) :=
  ⟨h.1, rfl, h.2.2⟩

theorem Fresh.withBatchSize
    {d : FrameDecoder σ} (h : Fresh d) (size : ℕ) :
    Fresh (d.withBatchSize size) :=
  ⟨h.1, rfl, h.2.2⟩

theorem Fresh.withReaderSchema
    {d d' : FrameDecoder σ} (h : Fresh d) {reader : WriterSchema}
    {aliases : List String}
    (hreader : d.withReaderSchema reader aliases = .ok d') : Fresh d' := by
  unfold FrameDecoder.withReaderSchema at hreader
  cases hprepare : prepareArrowAvroSchema reader.root with
  | error e => simp [hprepare, bind, Except.bind] at hreader
  | ok prepared =>
      cases htarget : targetOf reader.root with
      | error e => simp [hprepare, htarget, bind, Except.bind] at hreader
      | ok target =>
          simp only [hprepare, htarget, bind, Except.bind, pure, Except.pure]
            at hreader
          rw [← Except.ok.inj hreader]
          exact ⟨h.1, rfl, h.2.2⟩

theorem Fresh.reset_eq
    {d : FrameDecoder σ} (h : Fresh d) : d.reset = d := by
  obtain ⟨-, hdecoder, hactive, hpending⟩ := h
  unfold reset
  rw [← hdecoder, ← hactive, ← hpending]

theorem readerRecord_registerWriterSchema
    {d d' : FrameDecoder σ} {id : ℕ} {writer : WriterSchema}
    (h : d.registerWriterSchema id writer = .ok d') :
    d'.readerRecord = d.readerRecord := by
  unfold registerWriterSchema at h
  cases hprepare : prepareArrowAvroSchema writer.root with
  | error e => simp [hprepare, bind, Except.bind] at h
  | ok prepared =>
      simp only [hprepare, bind, Except.bind, pure, Except.pure] at h
      split at h
      · rw [← Except.ok.inj h]
        rfl
      · cases htarget : targetOf writer.root with
        | error e => simp [htarget] at h
        | ok target =>
            simp only [htarget] at h
            rw [← Except.ok.inj h]
            rfl

theorem readerRecord_registerAll
    {registry : ℕ → WriterSchema} {d d' : FrameDecoder σ}
    {events : List Event} (h : registerAll registry d events = .ok d') :
    d'.readerRecord = d.readerRecord := by
  induction events generalizing d with
  | nil =>
      rw [registerAll] at h
      rw [Except.ok.inj h]
  | cons event events ih =>
      cases event with
      | register id =>
          rw [registerAll] at h
          cases hregister : d.registerWriterSchema id (registry id) with
          | error e =>
              simp [hregister, bind, Except.bind, Except.mapError] at h
          | ok after =>
              simp only [hregister, bind, Except.bind, Except.mapError] at h
              rw [ih h, readerRecord_registerWriterSchema hregister]
      | decode framed =>
          rw [registerAll] at h
          exact ih h
      | flush =>
          rw [registerAll] at h
          exact ih h

section Runs

variable {arrow : ArrowDecoder σ} {laws : DecodesFrames arrow}
variable {cast : DataType → Column → DataType → Except AvroError Column}
variable {toPlainString : ℤ → ℤ → String}
variable {concat : List ArrowField → List RecordBatch →
  Except String RecordBatch}
variable {registry : ℕ → WriterSchema}
variable {d d' : FrameDecoder σ}
variable {closed : List (List (List UInt8))} {current : List (List UInt8)}

theorem tracks_fresh
    (h : Fresh d) : Tracks laws cast toPlainString registry d [] [] := by
  obtain ⟨hstore, hdecoder, -, hpending⟩ := h
  constructor
  · constructor
    · simp [hstore]
    · exact fun _ => ⟨hpending, rfl⟩
    · intro _ _
      rw [hpending]
      exact .nil
    · simp [hdecoder]
  · rw [taken_eq_of_decoder_none hdecoder]
    exact .nil
  · simp [hdecoder]
  · simp
  · exact fun _ => rfl

theorem tracks_reset
    (h : Tracks laws cast toPlainString registry d closed current) :
    Tracks laws cast toPlainString registry d.reset [] [] := by
  refine ⟨⟨h.holds.registered, fun _ => ⟨rfl, rfl⟩, fun _ _ => .nil, ?_⟩,
    .nil, ?_, by simp, fun _ => rfl⟩
  · rintro _ ⟨⟩
  · rintro _ ⟨⟩

/-- What one event does to the frames held. -/
theorem tracks_step
    (hconcat : Concatenates concat)
    (h : Tracks laws cast toPlainString registry d closed current)
    {event : Event}
    (hone : ∀ framed, event = .decode framed → OneRecord laws registry framed)
    (hstep : step arrow cast toPlainString concat registry d event =
      .ok d') :
    ∃ closed' current',
      closed'.flatten ++ current' =
        unflushed (closed.flatten ++ current) [event] ∧
      Tracks laws cast toPlainString registry d' closed' current' ∧
      registerAll registry d.reset [event] = .ok d'.reset := by
  cases event with
  | register id =>
      rw [step] at hstep
      cases hregister : d.registerWriterSchema id (registry id) with
      | error e => simp [hregister, Except.mapError] at hstep
      | ok after =>
          simp only [hregister, Except.mapError] at hstep
          obtain rfl := Except.ok.inj hstep
          refine ⟨closed, current, rfl,
            tracks_registerWriterSchema h hregister, ?_⟩
          simp [registerAll, registerWriterSchema_reset hregister, bind,
            Except.bind, Except.mapError]
  | decode framed =>
      rw [step] at hstep
      rcases hdecode : decode arrow cast toPlainString d framed with
        ⟨_ | n, after⟩
      · simp [hdecode, finished] at hstep
      · simp only [hdecode, finished] at hstep
        obtain rfl := Except.ok.inj hstep
        obtain ⟨closed', current', hframes, htracks, hreset⟩ :=
          tracks_decode h (hone framed rfl) hdecode
        refine ⟨closed', current', hframes, htracks, ?_⟩
        rw [registerAll, registerAll, hreset]
  | flush =>
      rw [step] at hstep
      rcases hflush : flush arrow cast toPlainString concat d with
        ⟨_ | out, after⟩
      · simp [hflush, finished] at hstep
      · simp only [hflush, finished] at hstep
        obtain rfl := Except.ok.inj hstep
        obtain ⟨-, -, -, -, rfl, -⟩ := flush_rows h.holds hconcat hflush
        exact ⟨[], [], rfl, tracks_reset h, rfl⟩

theorem unflushed_cons (frames : List (List UInt8)) (event : Event)
    (events : List Event) :
    unflushed frames (event :: events) =
      unflushed (unflushed frames [event]) events := by
  cases event <;> rfl

theorem registerAll_cons
    {d d' : FrameDecoder σ} {event : Event} {events : List Event}
    (h : registerAll registry d [event] = .ok d') :
    registerAll registry d (event :: events) =
      registerAll registry d' events := by
  cases event with
  | register id =>
      rw [registerAll] at h ⊢
      cases hregister : d.registerWriterSchema id (registry id) with
      | error e => simp [hregister, bind, Except.bind, Except.mapError] at h
      | ok after =>
          simp only [hregister, bind, Except.bind, Except.mapError,
            registerAll] at h ⊢
          rw [Except.ok.inj h]
  | decode framed =>
      rw [registerAll, registerAll] at h
      rw [registerAll, Except.ok.inj h]
  | flush =>
      rw [registerAll, registerAll] at h
      rw [registerAll, Except.ok.inj h]

variable (laws registry) in
/-- Every frame that is decoded has one record. -/
def OneRecordEach (events : List Event) : Prop :=
  ∀ framed, .decode framed ∈ events → OneRecord laws registry framed

/-- What a run does to the frames held. -/
theorem tracks_run
    (hconcat : Concatenates concat) {events : List Event}
    (hone : OneRecordEach laws registry events)
    (h : Tracks laws cast toPlainString registry d closed current)
    (hrun : run arrow cast toPlainString concat registry d events =
      .ok d') :
    ∃ closed' current',
      closed'.flatten ++ current' =
        unflushed (closed.flatten ++ current) events ∧
      Tracks laws cast toPlainString registry d' closed' current' ∧
      registerAll registry d.reset events = .ok d'.reset := by
  induction events generalizing d closed current with
  | nil =>
      rw [run] at hrun
      obtain rfl := Except.ok.inj hrun
      exact ⟨closed, current, rfl, h, rfl⟩
  | cons event events ih =>
      rw [run] at hrun
      cases hstep : step arrow cast toPlainString concat registry d event with
      | error e => simp [hstep, bind, Except.bind] at hrun
      | ok after =>
          simp only [hstep, bind, Except.bind] at hrun
          obtain ⟨closed₁, current₁, hframes₁, htracks₁, hregister₁⟩ :=
            tracks_step hconcat h
              (fun framed hevent => hone framed (by simp [hevent])) hstep
          obtain ⟨closed₂, current₂, hframes₂, htracks₂, hregister₂⟩ :=
            ih (fun framed hmem => hone framed (List.mem_cons_of_mem _ hmem))
              htracks₁ hrun
          refine ⟨closed₂, current₂, ?_, htracks₂, ?_⟩
          · rw [hframes₂, hframes₁, ← unflushed_cons]
          · rw [registerAll_cons hregister₁, hregister₂]

/-! ## The Kafka source -/

theorem unflushed_append (frames : List (List UInt8))
    (events events' : List Event) :
    unflushed frames (events ++ events') =
      unflushed (unflushed frames events) events' := by
  induction events generalizing frames with
  | nil => rfl
  | cons event events ih =>
      rw [List.cons_append, unflushed_cons, ih, ← unflushed_cons]

theorem run_append
    {events events' : List Event}
    (hrun : run arrow cast toPlainString concat registry d events =
      .ok d') :
    run arrow cast toPlainString concat registry d (events ++ events') =
      run arrow cast toPlainString concat registry d' events' := by
  induction events generalizing d with
  | nil =>
      rw [run] at hrun
      rw [List.nil_append, Except.ok.inj hrun]
  | cons event events ih =>
      rw [run] at hrun
      rw [List.cons_append, run]
      cases hstep : step arrow cast toPlainString concat registry d event with
      | error e => simp [hstep, bind, Except.bind] at hrun
      | ok after =>
          simp only [hstep, bind, Except.bind] at hrun ⊢
          exact ih hrun

theorem decodeAndBuffer_eq_ok
    {framed : List UInt8}
    (h : decodeAndBuffer arrow cast toPlainString registry d framed =
      .ok d') :
    ∃ events, run arrow cast toPlainString concat registry d events =
        .ok d' ∧
      (∀ frames, unflushed frames events = frames ++ [framed]) ∧
      ∀ other, .decode other ∈ events → other = framed := by
  unfold decodeAndBuffer at h
  split_ifs at h with hframe
  · simp [throw, throwThe, MonadExceptOf.throw, bind, Except.bind] at h
  · simp only [pure, Except.pure, bind, Except.bind] at h
    by_cases hhas : d.hasWriterSchema (frameId framed) = true
    · simp only [hhas, if_true] at h
      refine ⟨[.decode framed], ?_, fun _ => rfl, by simp⟩
      rw [run, step, h]
      rfl
    · simp only [if_neg hhas] at h
      cases hregister : d.registerWriterSchema (frameId framed)
          (registry (frameId framed)) with
      | error e => simp [hregister, Except.mapError] at h
      | ok after =>
          simp only [hregister, Except.mapError] at h
          refine ⟨[.register (frameId framed), .decode framed], ?_,
            fun _ => rfl, by simp⟩
          simp only [run, step, hregister, Except.mapError, bind,
            Except.bind, h]

theorem forall₂_zip
    {τ β γ : Type} {R : β → γ → Prop} {messages : List (τ × β)}
    {rows : List γ} (h : List.Forall₂ R (messages.map Prod.snd) rows) :
    List.Forall₂ (fun message row => row.1 = message.1 ∧ R message.2 row.2)
      messages ((messages.map Prod.fst).zip rows) := by
  induction messages generalizing rows with
  | nil => exact .nil
  | cons message messages ih =>
      obtain ⟨row, rest, hhead, htail, rfl⟩ :=
        List.forall₂_cons_left_iff.mp h
      exact .cons ⟨rfl, hhead⟩ (ih htail)

/-- The messages of an interval are a run that decodes each of their frames
once, in order. -/
theorem poll_eq_ok
    {τ : Type} {messages : List (τ × List UInt8)} {tags tags' : List τ}
    (hpoll : poll arrow cast toPlainString registry d tags messages =
      .ok (tags', d')) :
    tags' = tags ++ messages.map Prod.fst ∧
      ∃ events, run arrow cast toPlainString concat registry d events =
          .ok d' ∧
        (∀ frames, unflushed frames events =
          frames ++ messages.map Prod.snd) ∧
        ∀ framed, .decode framed ∈ events →
          framed ∈ messages.map Prod.snd := by
  induction messages generalizing d tags with
  | nil =>
      rw [poll] at hpoll
      obtain ⟨rfl, rfl⟩ := Prod.mk.inj (Except.ok.inj hpoll)
      exact ⟨by simp, [], rfl, by simp [unflushed], by simp⟩
  | cons message messages ih =>
      obtain ⟨tag, framed⟩ := message
      rw [poll] at hpoll
      cases hdecode : decodeAndBuffer arrow cast toPlainString registry d
          framed with
      | error e => simp [hdecode, bind, Except.bind] at hpoll
      | ok after =>
          simp only [hdecode, bind, Except.bind] at hpoll
          obtain ⟨first, hfirst, hone, honly⟩ :=
            decodeAndBuffer_eq_ok hdecode
          obtain ⟨htags, events, hevents, hrest, hframes⟩ := ih hpoll
          refine ⟨by simp [htags], first ++ events, ?_, ?_, ?_⟩
          · rw [run_append hfirst, hevents]
          · intro frames
            rw [unflushed_append, hone, hrest]
            simp
          · intro other hother
            rw [List.map_cons, List.mem_cons]
            exact (List.mem_append.mp hother).imp (honly other)
              (hframes other)

variable (laws) in
/-- The frames since the last flush, flushed. -/
theorem flush_run
    (hconcat : Concatenates concat) {start : FrameDecoder σ}
    (hstart : Fresh start) {events : List Event}
    (hone : OneRecordEach laws registry events)
    (hrun : run arrow cast toPlainString concat registry start events =
      .ok d)
    {out : Option RecordBatch}
    (hflush : flush arrow cast toPlainString concat d = (.ok out, d')) :
    (∃ target, d.targetSchema = some target ∧
      List.Forall₂
        (FrameRow laws cast toPlainString registry start.readerRecord target)
        (unflushed [] events) (out.toList.flatMap RecordBatch.rows)) ∧
    (out = none ↔ unflushed [] events = []) ∧
    registerAll registry start events = .ok d' := by
  have hempty : Tracks laws cast toPlainString registry start [] [] :=
    tracks_fresh hstart
  obtain ⟨closed, current, hframes, htracks, hregister⟩ :=
    tracks_run hconcat hone hempty hrun
  obtain ⟨target, rows, extra, htarget, rfl, hout, hrows, hextra, hnone⟩ :=
    flush_rows htracks.holds hconcat hflush
  rw [hstart.reset_eq] at hregister
  have hreader : d.readerRecord = start.readerRecord := by
    rw [← readerRecord_registerAll hregister]
    rfl
  have hcurrent := forall₂_frameRow htracks.holds htracks.framed hextra
  rw [List.flatten_nil, List.nil_append] at hframes
  rw [hreader] at hrows hcurrent
  refine ⟨⟨target, htarget, ?_⟩, ?_, hregister⟩
  · rw [hout, ← hframes]
    exact List.rel_append hrows hcurrent
  · rw [hnone htracks.sound, ← hframes]
    have hlength := htracks.framed.length_eq
    constructor
    · rintro ⟨rfl, htaken⟩
      rw [htaken] at hlength
      rw [List.eq_nil_of_length_eq_zero hlength]
      rfl
    · intro hnil
      obtain ⟨hclosed, rfl⟩ := List.append_eq_nil_iff.mp hnil
      refine ⟨?_, List.eq_nil_of_length_eq_zero hlength.symm⟩
      have hpending := htracks.holds.pending target htarget
      rcases closed with _ | ⟨generation, closed⟩
      · rfl
      · obtain ⟨batch, batches, hhead, -, -⟩ :=
          List.forall₂_cons_left_iff.mp hpending
        rw [List.flatten_cons, List.append_eq_nil_iff] at hclosed
        exact absurd hclosed.1 hhead.1

variable (laws) in
/-- The decoder after a frame that failed, flushed. -/
theorem flush_run_error
    (hconcat : Concatenates concat) {start : FrameDecoder σ}
    (hstart : Fresh start) {events : List Event}
    (hone : OneRecordEach laws registry events)
    (hrun : run arrow cast toPlainString concat registry start events =
      .ok d)
    {framed : List UInt8} {e : FrameError} {after : FrameDecoder σ}
    (hdecode : decode arrow cast toPlainString d framed = (.error e, after))
    {out : Option RecordBatch}
    (hflush : flush arrow cast toPlainString concat after = (.ok out, d')) :
    ∃ target kept rows extra, d.targetSchema = some target ∧
      kept <+: unflushed [] events ∧
      out.toList.flatMap RecordBatch.rows = rows ++ extra ∧
      List.Forall₂
        (FrameRow laws cast toPlainString registry start.readerRecord target)
        kept rows ∧
      (extra ≠ [] → HasRest laws registry framed extra.length) := by
  have hempty : Tracks laws cast toPlainString registry start [] [] :=
    tracks_fresh hstart
  obtain ⟨closed, current, hframes, htracks, hregister⟩ :=
    tracks_run hconcat hone hempty hrun
  obtain ⟨closed', current', frames, left, hkept, hholds, hframed, htaken,
    hrest, hreset⟩ := holds_decode_error htracks hdecode
  obtain ⟨target, rows, extra, htarget, -, hout, hrows, hextra, -⟩ :=
    flush_rows hholds hconcat hflush
  rw [hstart.reset_eq] at hregister
  have hreader : after.readerRecord = start.readerRecord := by
    rw [← readerRecord_registerAll hregister, ← hreset]
    rfl
  have htarget' : d.targetSchema = some target := by
    calc
      d.targetSchema = after.reset.targetSchema := by rw [hreset]; rfl
      _ = some target := htarget
  rw [htaken] at hextra
  have hkeptRows := List.forall₂_take frames.length hextra
  have hleft := (List.forall₂_drop frames.length hextra).length_eq
  rw [List.take_left] at hkeptRows
  rw [List.drop_left] at hleft
  have hcurrent := forall₂_frameRow hholds hframed hkeptRows
  rw [hreader] at hrows hcurrent
  rw [List.flatten_nil, List.nil_append] at hframes
  rw [hframes] at hkept
  refine ⟨target, _, rows ++ extra.take frames.length,
    extra.drop frames.length, htarget', hkept, ?_,
    List.rel_append hrows hcurrent, ?_⟩
  · rw [hout, List.append_assoc, List.take_append_drop]
  · intro hne
    rw [← hleft]
    apply hrest
    rintro rfl
    exact hne (List.eq_nil_of_length_eq_zero hleft.symm)

variable (laws) in
/-- The batch of an interval has a row for every message, beside its own
operation and metadata. -/
theorem interval_eq
    (hconcat : Concatenates concat) {start : FrameDecoder σ}
    (hstart : Fresh start) {events : List Event}
    (hone : OneRecordEach laws registry events)
    (hrun : run arrow cast toPlainString concat registry start events =
      .ok d) (hflushed : unflushed [] events = []) {τ : Type}
    {messages : List (τ × List UInt8)} {tags : List τ}
    (hmessages : ∀ message ∈ messages, OneRecord laws registry message.2)
    {after : FrameDecoder σ}
    (hpoll : poll arrow cast toPlainString registry d [] messages =
      .ok (tags, after))
    {out : Option RecordBatch}
    (hflush : flush arrow cast toPlainString concat after = (.ok out, d')) :
    ∃ target batch, after.targetSchema = some target ∧
      interval arrow cast toPlainString concat registry d messages =
        .ok (batch, d') ∧
      List.Forall₂ (fun message row => row.1 = message.1 ∧
        FrameRow laws cast toPlainString registry start.readerRecord target
          message.2 row.2) messages batch := by
  obtain ⟨htags, polled, hpolled, hunflushed, hframes⟩ := poll_eq_ok hpoll
  rw [List.nil_append] at htags
  have hall : run arrow cast toPlainString concat registry start
      (events ++ polled) = .ok after := by
    rw [run_append hrun, hpolled]
  have honeAll : OneRecordEach laws registry (events ++ polled) := by
    intro framed hmem
    rcases List.mem_append.mp hmem with hmem | hmem
    · exact hone framed hmem
    · obtain ⟨message, hmessage, rfl⟩ := List.mem_map.mp (hframes framed hmem)
      exact hmessages message hmessage
  obtain ⟨⟨target, htarget, hrows⟩, -, -⟩ :=
    flush_run laws hconcat hstart honeAll hall hflush
  rw [unflushed_append, hflushed, hunflushed, List.nil_append] at hrows
  have hlength : tags.length =
      (out.toList.flatMap RecordBatch.rows).length := by
    rw [← hrows.length_eq, htags, List.length_map, List.length_map]
  refine ⟨target, tags.zip (out.toList.flatMap RecordBatch.rows), htarget, ?_,
    ?_⟩
  · simp only [interval, hpoll, hflush, bind, Except.bind, pure, Except.pure]
    rw [if_neg (not_not.mpr hlength)]
  · rw [htags]
    exact forall₂_zip hrows

/-- Over every run of the decoder on frames of one record each: a flush gives
one row for every frame, in order, and leaves what the registrations alone
leave; the row is the frame's own; a frame that fails has no row, unless there
is more after its records; and the Kafka source puts the operation and metadata
of a message beside its row. -/
theorem one_row_per_frame
    (laws : DecodesFrames arrow) (hcast : CastLocal cast)
    (hconcat : Concatenates concat) {start : FrameDecoder σ}
    (hstart : Fresh start) {events : List Event}
    (hone : OneRecordEach laws registry events)
    (hrun : run arrow cast toPlainString concat registry start events =
      .ok d) :
    (∀ out d', flush arrow cast toPlainString concat d = (.ok out, d') →
      (∃ target, d.targetSchema = some target ∧
        List.Forall₂ (FrameRow laws cast toPlainString registry
            start.readerRecord target)
          (unflushed [] events) (out.toList.flatMap RecordBatch.rows)) ∧
      (out = none ↔ unflushed [] events = []) ∧
      registerAll registry start events = .ok d' ∧ d'.decoder = none ∧
      d'.activeWriterId = none ∧ d'.pending = []) ∧
    (∀ target framed row row',
      FrameRow laws cast toPlainString registry start.readerRecord target
        framed row →
      FrameRow laws cast toPlainString registry start.readerRecord target
        framed row' → row = row') ∧
    (∀ framed e after out d',
      decode arrow cast toPlainString d framed = (.error e, after) →
      flush arrow cast toPlainString concat after = (.ok out, d') →
      ∃ target kept rows extra, d.targetSchema = some target ∧
        kept <+: unflushed [] events ∧
        out.toList.flatMap RecordBatch.rows = rows ++ extra ∧
        List.Forall₂ (FrameRow laws cast toPlainString registry
          start.readerRecord target) kept rows ∧
        (extra ≠ [] → HasRest laws registry framed extra.length)) ∧
    (∀ (τ : Type) (messages : List (τ × List UInt8)) tags after out d',
      unflushed [] events = [] →
      (∀ message ∈ messages, OneRecord laws registry message.2) →
      poll arrow cast toPlainString registry d [] messages =
        .ok (tags, after) →
      flush arrow cast toPlainString concat after = (.ok out, d') →
      ∃ target batch, after.targetSchema = some target ∧
        interval arrow cast toPlainString concat registry d messages =
          .ok (batch, d') ∧
        List.Forall₂ (fun message row => row.1 = message.1 ∧
          FrameRow laws cast toPlainString registry start.readerRecord target
            message.2 row.2) messages batch) := by
  refine ⟨?_, ?_, ?_, ?_⟩
  · intro out d' hflush
    obtain ⟨hrows, hnone, hregister⟩ :=
      flush_run laws hconcat hstart hone hrun hflush
    have hempty : Tracks laws cast toPlainString registry start [] [] :=
      tracks_fresh hstart
    obtain ⟨_, _, -, htracks, -⟩ := tracks_run hconcat hone hempty hrun
    obtain ⟨-, -, -, -, rfl, -⟩ := flush_rows htracks.holds hconcat hflush
    exact ⟨hrows, hnone, hregister, rfl, rfl, rfl⟩
  · intro target framed row row' hrow hrow'
    exact frameRow_unique hcast hrow hrow'
  · intro framed e after out d' hdecode hflush
    exact flush_run_error laws hconcat hstart hone hrun hdecode hflush
  · intro τ messages tags after out d' hflushed hmessages hpoll hflush
    exact interval_eq laws hconcat hstart hone hrun hflushed hmessages hpoll
      hflush

end Runs

/-! ## Records of one boolean -/

/-- A decoder of arrow-avro for records of one boolean field: its store and the
frames of its rows.  It is given one record at a time, or one with a few bytes
behind. -/
structure FlagState where
  store : ℕ → Option (List AvroField)
  frames : List (List UInt8)

/-- The name of the field, if the record is one boolean. -/
def flagName : List AvroField → Option String
  | [.mk name (.primitive .boolean)] => some name
  | _ => none

def flagField (name : String) : ArrowField :=
  .mk name false .empty (.leaf (.other "Boolean"))

def flagCell (frame : List UInt8) : Cell :=
  .other ((frame[5]?).getD 0).toNat

def flagDecoder : ArrowDecoder FlagState where
  build store reader _ :=
    match reader with
    | none => .ok ⟨store, []⟩
    | some _ => .error "schema resolution"
  decode s frame :=
    match (s.store (frameId frame)).bind flagName with
    | some _ =>
        if frame.length < 6 then (.ok 5, s)
        else
          let after := { s with frames := s.frames ++ [frame.take 6] }
          if ((frame.drop 6).head?.all (· = 0)) = true then (.ok 6, after)
          else (.error "Missing magic bytes and fingerprint", after)
    | none => (.error "Unknown fingerprint", s)
  flush s :=
    match s.frames with
    | [] => (.ok none, s)
    | frame :: _ =>
        match (s.store (frameId frame)).bind flagName with
        | some name =>
            (.ok (some ⟨[flagField name],
              [.leaf (s.frames.map fun frame => some (flagCell frame))],
              s.frames.length⟩), { s with frames := [] })
        | none => (.error "unknown fingerprint", s)

theorem frameId_take_six (frame : List UInt8) :
    frameId (frame.take 6) = frameId frame := by
  unfold frameId
  rw [List.drop_take, List.take_take]
  rfl

/-- The frames are whole records of one writer. -/
def FlagState.Sound (s : FlagState) : Prop :=
  (∀ frame ∈ s.frames, frame.length = 6 ∧
    ((s.store (frameId frame)).bind flagName).isSome) ∧
  ∀ frame ∈ s.frames, ∀ other ∈ s.frames, frameId frame = frameId other

theorem FlagState.Sound.push
    {s : FlagState} (h : s.Sound) {frame : List UInt8}
    (hlong : 6 ≤ frame.length)
    (hname : ((s.store (frameId frame)).bind flagName).isSome)
    (hsame : ∀ f ∈ s.frames, frameId f = frameId frame) :
    FlagState.Sound { s with frames := s.frames ++ [frame.take 6] } := by
  constructor
  · intro f hf
    rcases List.mem_append.mp hf with hf | hf
    · exact h.1 f hf
    · rw [List.mem_singleton.mp hf, frameId_take_six, List.length_take]
      exact ⟨by omega, hname⟩
  · have hid : ∀ f ∈ s.frames ++ [frame.take 6],
        frameId f = frameId frame := by
      intro f hf
      rcases List.mem_append.mp hf with hf | hf
      · exact hsame f hf
      · rw [List.mem_singleton.mp hf, frameId_take_six]
    intro f hf other hother
    rw [hid f hf, hid other hother]

def flagDecodes : DecodesFrames flagDecoder where
  store := FlagState.store
  reader := fun _ => none
  frames := FlagState.frames
  Sound := FlagState.Sound
  Holds := FlagState.Sound
  IsRecord := fun _ record => record.length = 6
  rawFields := fun writer _ => ((flagName writer).map flagField).toList
  rawRow := fun _ _ frame => [.cell (flagCell frame)]
  holds := fun _ h => h
  build := by
    intro store reader size s h
    cases reader with
    | none =>
        obtain rfl := Except.ok.inj h
        exact ⟨⟨by simp, by simp⟩, rfl, rfl, rfl⟩
    | some json => simp [flagDecoder] at h
  known := by
    intro s frame s' _ h _
    simp only [flagDecoder] at h
    split at h
    · rename_i name hname
      obtain ⟨fields, hfields, -⟩ := Option.bind_eq_some_iff.mp hname
      simp [hfields]
    · simp at h
  decode := by
    intro s frame s' writer h hsound hsame _ hlength
    have htail : frame.drop 6 = [] := List.drop_eq_nil_of_le hlength.le
    simp only [flagDecoder, hlength, htail, Nat.lt_irrefl, if_false,
      List.head?_nil, Option.all_none, if_true] at h
    split at h
    · rename_i name hname
      obtain ⟨-, rfl⟩ := Prod.mk.inj h
      refine ⟨hsound.push hlength.ge (by simp [hname]) hsame, ?_, rfl, rfl⟩
      rw [← hlength, List.take_length]
    · simp at h
  stops := by
    intro s frame r s' _ h hall hsound hsame
    simp only [flagDecoder] at h
    split at h
    · rename_i name hname
      obtain ⟨fields, hfields, -⟩ := Option.bind_eq_some_iff.mp hname
      split_ifs at h with hshort htail
      · obtain ⟨-, rfl⟩ := Prod.mk.inj h
        exact ⟨hsound, rfl, rfl, [], by simp, by simp⟩
      all_goals
        obtain ⟨rfl, rfl⟩ := Prod.mk.inj h
        refine ⟨hsound.push (by omega) (by simp [hname]) hsame, rfl, rfl,
          [frame.take 6], rfl, fun _ => ⟨fields, frame.drop 6, ?_, by simp,
            hfields, by simp; omega⟩⟩
      · -- all six bytes were taken, so there are others
        have hlength := hall 6 rfl
        rw [ne_eq, List.drop_eq_nil_iff]
        omega
      · intro hnil
        simp [hnil] at htail
    · obtain ⟨-, rfl⟩ := Prod.mk.inj h
      exact ⟨hsound, rfl, rfl, [], by simp, by simp⟩
  flush := by
    intro s b s' h hsound
    simp only [flagDecoder] at h
    split at h
    · rename_i hnil
      obtain ⟨hnone, -⟩ := Prod.mk.inj h
      obtain rfl := Except.ok.inj hnone
      simp [hnil]
    · rename_i first rest hframes
      split at h
      · rename_i name hname
        obtain ⟨hsome, -⟩ := Prod.mk.inj h
        obtain rfl := Except.ok.inj hsome
        refine ⟨by simp, by simp [hframes], ?_⟩
        rintro _ ⟨⟩
        refine ⟨?_, rfl, ?_⟩
        · simp [flagField, HaveTypes, HasType]
        · intro k frame hframe
          have hmem := List.mem_of_getElem? hframe
          have hsame := hsound.2 frame hmem first (by simp [hframes])
          obtain ⟨fields, hfields, hflag⟩ :=
            Option.bind_eq_some_iff.mp hname
          refine ⟨fields, by rw [hsame, hfields], ?_, ?_⟩
          · simp [hflag]
          · simp [RecordBatch.row, flagField, valuesAt, valueAt, hframe]
      · simp at h
  drains := by
    intro s r s' h hsound
    simp only [flagDecoder] at h
    split at h
    · obtain ⟨-, rfl⟩ := Prod.mk.inj h
      exact ⟨hsound, rfl, rfl, List.prefix_refl _⟩
    · split at h
      · obtain ⟨-, rfl⟩ := Prod.mk.inj h
        exact ⟨⟨by simp, by simp⟩, rfl, rfl, List.nil_prefix⟩
      · obtain ⟨-, rfl⟩ := Prod.mk.inj h
        exact ⟨hsound, rfl, rfl, List.prefix_refl _⟩

/-- The cells of a batch of one leaf column. -/
def leafCells (batch : RecordBatch) : Option (List (Option Cell)) :=
  match batch.fields, batch.columns with
  | [.mk _ _ _ (.leaf _)], [.leaf cells] =>
      if cells.length = batch.numRows then some cells else none
  | _, _ => none

def leafRow (cell : Option Cell) : List Value :=
  [cell.elim .null .cell]

theorem rows_of_leafCells
    {batch : RecordBatch} {cells : List (Option Cell)}
    (h : leafCells batch = some cells) : batch.rows = cells.map leafRow := by
  obtain ⟨fields, columns, rows⟩ := batch
  unfold leafCells at h
  split at h
  · rename_i name nullable metadata type held hfields hcolumns
    split_ifs at h with hlength
    obtain rfl := Option.some.inj h
    simp only at hfields hcolumns hlength
    subst hfields hcolumns hlength
    apply List.ext_getElem
    · simp
    · intro k hk hk'
      have hcell : k < held.length := by simpa using hk'
      simp only [RecordBatch.rows, RecordBatch.row, List.getElem_map,
        List.getElem_range, valuesAt, valueAt, List.getElem?_eq_getElem hcell,
        Option.join_some, leafRow]
      cases held[k] <;> rfl
  · cases h

theorem rows_leaf
    (name : String) (nullable : Bool) (metadata : Metadata) (type : LeafType)
    (cells : List (Option Cell)) :
    RecordBatch.rows ⟨[.mk name nullable metadata (.leaf type)],
      [.leaf cells], cells.length⟩ = cells.map leafRow :=
  rows_of_leafCells (by simp [leafCells])

/-- Arrow's concatenation, for batches of one leaf column. -/
def concatLeaves (target : List ArrowField) (batches : List RecordBatch) :
    Except String RecordBatch :=
  match target, batches.mapM leafCells with
  | [.mk name nullable metadata (.leaf type)], some cells =>
      .ok ⟨[.mk name nullable metadata (.leaf type)], [.leaf cells.flatten],
        cells.flatten.length⟩
  | _, _ => .error "unsupported"

theorem concatenates_concatLeaves : Concatenates concatLeaves := by
  intro target batches out h
  unfold concatLeaves at h
  split at h
  · rename_i cells hcells
    obtain rfl := Except.ok.inj h
    rw [rows_leaf]
    clear h
    induction batches generalizing cells with
    | nil =>
        obtain rfl : [] = cells := by simpa using hcells
        rfl
    | cons batch batches ih =>
        rw [List.mapM_cons] at hcells
        obtain ⟨head, hhead, hcells⟩ := Option.bind_eq_some_iff.mp hcells
        obtain ⟨rest, hrest, hcells⟩ := Option.bind_eq_some_iff.mp hcells
        obtain rfl := Option.some.inj hcells
        rw [List.flatten_cons, List.map_append, List.flatMap_cons,
          rows_of_leafCells hhead, ih rest hrest]
  · cases h

/-- A record of one boolean, also as the second variant of a union. -/
def flagRecord : RecordSchema :=
  ⟨[.mk "flag" (.primitive .boolean)], by
    simp [AvroSchema.DistinctNames, AllDistinctNames]⟩

def flagRegistry (id : ℕ) : WriterSchema :=
  if id = 1 then ⟨.record flagRecord, some "Flag"⟩
  else ⟨.union [none, some flagRecord], some "Flag"⟩

def noCast (_ : DataType) (_ : Column) (_ : DataType) :
    Except AvroError Column :=
  .error (.library "unsupported cast")

/-- Three frames of two writers, one of them under a union. -/
def flagEvents : List Event :=
  [.register 1, .decode [0, 0, 0, 0, 1, 1], .register 2,
    .decode [0, 0, 0, 0, 2, 2, 0], .decode [0, 0, 0, 0, 1, 0]]

/-- The bytes after a record make the frame fail, but its row is flushed. -/
theorem frame_with_rest_keeps_row :
    Nonempty (DecodesFrames flagDecoder) ∧ ∃ d after batch,
      run flagDecoder noCast (fun _ _ => "") concatLeaves flagRegistry new
        [.register 1] = .ok d ∧
      decode flagDecoder noCast (fun _ _ => "") d [0, 0, 0, 0, 1, 1, 0] =
        (.error (.notConsumed 6 7 1), after) ∧
      flush flagDecoder noCast (fun _ _ => "") concatLeaves after =
        (.ok (some batch), d) ∧
      batch.rows = [[.cell (.other 1)]] :=
  ⟨⟨flagDecodes⟩, _, _, _, rfl, rfl, rfl, rfl⟩

theorem one_row_per_frame_flags :
    ∃ d out d',
      run flagDecoder noCast (fun _ _ => "") concatLeaves flagRegistry new
        flagEvents = .ok d ∧
      flush flagDecoder noCast (fun _ _ => "") concatLeaves d =
        (.ok (some out), d') ∧
      out.rows = [[.cell (.other 1)], [.cell (.other 0)],
        [.cell (.other 0)]] ∧
      registerAll flagRegistry new flagEvents = .ok d' := by
  refine ⟨_, _, _, rfl, rfl, rfl, ?_⟩
  have hrun : run flagDecoder noCast (fun _ _ => "") concatLeaves
      flagRegistry new flagEvents = .ok _ := rfl
  have hcast : CastLocal noCast := by
    rintro _ _ _ _ _ _ _ _ ⟨⟩
  have hone : OneRecordEach flagDecodes flagRegistry flagEvents := by
    intro framed hmem
    simp only [flagEvents, List.mem_cons, reduceCtorEq, Event.decode.injEq,
      List.not_mem_nil, or_false, false_or] at hmem
    rcases hmem with rfl | rfl | rfl
    · exact ⟨flagRecord, none, _, rfl, rfl, rfl⟩
    · exact ⟨flagRecord, some 1, _, rfl, rfl, rfl⟩
    · exact ⟨flagRecord, none, _, rfl, rfl, rfl⟩
  have hall := one_row_per_frame flagDecodes hcast concatenates_concatLeaves
    fresh_new hone hrun
  exact (hall.1 _ _ rfl).2.2.1

end FrameDecoder

end Avro

end Streamling
