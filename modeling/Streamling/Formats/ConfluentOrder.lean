import Mathlib
import Streamling.Formats.AvroDecimals
import Streamling.Formats.ConfluentRows
import Streamling.Support.ExceptLists

/-!
# Rows of a run of frames

What each operation of the decoder does to the frames it holds, and from it
what a run does.  The state without its rows is that of the registrations
alone.
-/

namespace Streamling

namespace Avro

open Arrow

/-! ## The branch of a union root -/

theorem frameId_take_append
    {framed rest : List UInt8} (h : 5 ≤ framed.length) :
    frameId (framed.take 5 ++ rest) = frameId framed := by
  unfold frameId
  rw [List.drop_append_of_le_length (by rw [List.length_take]; omega)]
  rw [List.take_append_of_le_length (by
    rw [List.length_drop, List.length_take]; omega)]
  rw [List.drop_take, List.take_take]
  rfl

theorem frameId_stripBranch
    {index : Option ℤ} {framed frame : List UInt8} (h : 5 ≤ framed.length)
    (hstrip : stripBranch index framed = .ok frame) :
    frameId frame = frameId framed := by
  cases index with
  | none =>
      obtain rfl := Except.ok.inj hstrip
      rfl
  | some record =>
      simp only [stripBranch, bind, Except.bind] at hstrip
      cases hlong : readAvroLong (framed.drop 5) with
      | error e => simp [hlong] at hstrip
      | ok read =>
          obtain ⟨branch, consumed⟩ := read
          simp only [hlong] at hstrip
          by_cases hbranch : branch = record
          · simp only [hbranch, ne_eq, not_true_eq_false, if_false, pure,
              Except.pure] at hstrip
            obtain rfl := Except.ok.inj hstrip
            exact frameId_take_append h
          · simp [hbranch, throw, throwThe, MonadExceptOf.throw] at hstrip

theorem head?_stripBranch
    {index : Option ℤ} {framed frame : List UInt8}
    (hstrip : stripBranch index framed = .ok frame)
    (h : 5 ≤ framed.length) :
    5 ≤ frame.length ∧ frame.head? = framed.head? := by
  cases index with
  | none =>
      obtain rfl := Except.ok.inj hstrip
      exact ⟨h, rfl⟩
  | some record =>
      simp only [stripBranch, bind, Except.bind] at hstrip
      cases hlong : readAvroLong (framed.drop 5) with
      | error e => simp [hlong] at hstrip
      | ok read =>
          obtain ⟨branch, consumed⟩ := read
          simp only [hlong] at hstrip
          by_cases hbranch : branch = record
          · simp only [hbranch, ne_eq, not_true_eq_false, if_false, pure,
              Except.pure] at hstrip
            obtain rfl := Except.ok.inj hstrip
            constructor
            · rw [List.length_append, List.length_take]
              omega
            · cases framed with
              | nil => simp at h
              | cons first rest => rfl
          · simp [hbranch, throw, throwThe, MonadExceptOf.throw] at hstrip

namespace FrameDecoder

variable {σ : Type}

theorem IsFrame.stripBranch
    {index : Option ℤ} {framed frame : List UInt8} (h : IsFrame framed)
    (hstrip : Avro.stripBranch index framed = .ok frame) : IsFrame frame := by
  obtain ⟨hlength, hhead⟩ := head?_stripBranch hstrip h.1
  exact ⟨hlength, hhead.trans h.2⟩

/-! ## The state without its rows -/

@[simp] theorem reset_reset (d : FrameDecoder σ) : d.reset.reset = d.reset :=
  rfl

/-- Only the registrations decide what is left after a flush. -/
theorem registerWriterSchema_reset
    {d d' : FrameDecoder σ} {id : ℕ} {writer : WriterSchema}
    (h : d.registerWriterSchema id writer = .ok d') :
    d.reset.registerWriterSchema id writer = .ok d'.reset := by
  unfold registerWriterSchema at h ⊢
  cases hprepare : prepareArrowAvroSchema writer.root with
  | error e => simp [hprepare, bind, Except.bind] at h
  | ok prepared =>
      simp only [hprepare, bind, Except.bind, reset] at h ⊢
      cases htarget : d.targetSchema with
      | some target =>
          simp only [htarget, pure, Except.pure] at h ⊢
          rw [← Except.ok.inj h]
      | none =>
          simp only [htarget] at h ⊢
          cases hof : targetOf writer.root with
          | error e => simp [hof] at h
          | ok target =>
              simp only [hof, pure, Except.pure] at h ⊢
              rw [← Except.ok.inj h]

section Steps

variable {arrow : ArrowDecoder σ} {laws : DecodesFrames arrow}
variable {cast : DataType → Column → DataType → Except AvroError Column}
variable {toPlainString : ℤ → ℤ → String}
variable {concat : List ArrowField → List RecordBatch →
  Except String RecordBatch}
variable {registry : ℕ → WriterSchema}
variable {d d' : FrameDecoder σ}
variable {closed : List (List (List UInt8))} {current : List (List UInt8)}

/-! ## The frames of the live decoder -/

theorem taken_eq_of_decoder_none
    (h : d.decoder = none) : taken laws d = [] := by
  rw [taken, h, Option.elim_none]

theorem taken_eq
    {s : σ} (h : d.decoder = some s) : taken laws d = laws.frames s := by
  rw [taken, h, Option.elim_some]

/-- A flush of the live decoder changes nothing else and leaves no frames
that were not there. -/
theorem flushInner_state
    {r : Except FrameError (Option RecordBatch)}
    (hflush : flushInner arrow cast toPlainString d = (r, d'))
    (hlive : ∀ s, d.decoder = some s → laws.Holds s) :
    d' = { d with decoder := d'.decoder } ∧
      taken laws d' <+: taken laws d ∧
      ∀ s', d'.decoder = some s' → laws.Holds s' ∧ ∃ s, d.decoder = some s ∧
        laws.store s' = laws.store s ∧ laws.reader s' = laws.reader s := by
  unfold flushInner at hflush
  cases hdecoder : d.decoder with
  | none =>
      simp only [hdecoder] at hflush
      obtain ⟨-, rfl⟩ := Prod.mk.inj hflush
      exact ⟨rfl, List.prefix_refl _, by simp [hdecoder]⟩
  | some s =>
      simp only [hdecoder] at hflush
      obtain ⟨hholds, hstore, hreader, hframes⟩ :=
        laws.drains s _ _ (Prod.mk.eta (p := arrow.flush s)).symm
          (hlive s hdecoder)
      have hstate : d' = d ∨
          d' = { d with decoder := some (arrow.flush s).2 } := by
        split at hflush
        · exact .inl (Prod.mk.inj hflush).2.symm
        · split at hflush
          · exact .inr (Prod.mk.inj hflush).2.symm
          · exact .inr (Prod.mk.inj hflush).2.symm
          · split at hflush
            · exact .inr (Prod.mk.inj hflush).2.symm
            · exact .inr (Prod.mk.inj hflush).2.symm
      rcases hstate with rfl | rfl
      · refine ⟨rfl, List.prefix_refl _, ?_⟩
        intro s' hs'
        obtain rfl := Option.some.inj (hdecoder.symm.trans hs')
        exact ⟨hlive s hdecoder, s, rfl, rfl, rfl⟩
      · refine ⟨rfl, ?_, ?_⟩
        · rw [taken_eq rfl, taken_eq hdecoder]
          exact hframes
        · rintro _ ⟨⟩
          exact ⟨hholds, s, rfl, hstore, hreader⟩

/-- The batch of the live decoder has the rows of its frames. -/
theorem flushInner_rows
    (hholds : Holds laws cast toPlainString registry d closed)
    {target : List ArrowField} (htarget : d.targetSchema = some target)
    {flushed : Option RecordBatch}
    (hflush : flushInner arrow cast toPlainString d = (.ok flushed, d')) :
    List.Forall₂ (TakenRow laws cast toPlainString d target) (taken laws d)
        (flushed.toList.flatMap RecordBatch.rows) ∧
      ((∀ s, d.decoder = some s → laws.Sound s) →
        (flushed = none ↔ taken laws d = [])) := by
  unfold flushInner at hflush
  cases hdecoder : d.decoder with
  | none =>
      simp only [hdecoder] at hflush
      obtain ⟨hnone, -⟩ := Prod.mk.inj hflush
      obtain rfl := Except.ok.inj hnone
      rw [taken_eq_of_decoder_none hdecoder]
      simp
  | some s =>
      obtain ⟨hholdsS, hstored, hreader⟩ := hholds.live s hdecoder
      simp only [hdecoder, htarget] at hflush
      rw [taken_eq hdecoder]
      rcases hraw : arrow.flush s with ⟨_ | _ | batch, s'⟩
      · simp [hraw] at hflush
      · obtain ⟨hempty, -, -⟩ := laws.flush s none s' hraw hholdsS
        simp only [hraw] at hflush
        obtain ⟨hnone, -⟩ := Prod.mk.inj hflush
        obtain rfl := Except.ok.inj hnone
        simp [hempty rfl]
      · obtain ⟨-, hsome, hbatch⟩ :=
          laws.flush s (some batch) s' hraw hholdsS
        obtain ⟨htypes, hlength, hrows⟩ := hbatch batch rfl
        simp only [hraw] at hflush
        cases hcoerce : coerceBatchToTarget cast toPlainString batch
            target with
        | error e => simp [hcoerce] at hflush
        | ok coerced =>
            simp only [hcoerce] at hflush
            obtain ⟨hok, -⟩ := Prod.mk.inj hflush
            obtain rfl := Except.ok.inj hok
            constructor
            · simp only [Option.toList_some, List.flatMap_singleton]
              obtain ⟨columns, -, hout⟩ := coerceBatchToTarget_eq_ok hcoerce
              have hnum : coerced.numRows = batch.numRows := by rw [hout]
              apply List.forall₂_iff_get.mpr
              constructor
              · rw [RecordBatch.length_rows, hnum, hlength]
              · intro k hk hk'
                obtain ⟨fields, hfields, hraw, hvalues⟩ :=
                  hrows k _ (List.getElem?_eq_getElem hk)
                rw [hreader] at hraw hvalues
                refine ⟨fields, hstored _ _ hfields, batch, coerced, k, hraw,
                  htypes, hcoerce, hvalues, ?_⟩
                simp [RecordBatch.rows]
            · intro hsound
              have hne : laws.frames s ≠ [] := by
                intro hnil
                cases hsome (hsound s rfl) hnil
              simp [hne]

/-- What is in the live decoder are the rows of its frames. -/
theorem forall₂_frameRow
    (hholds : Holds laws cast toPlainString registry d closed)
    {target : List ArrowField} {frames : List (List UInt8)}
    {rows : List (List Value)}
    (hframed : List.Forall₂ (Framed registry) current frames)
    (hrows : List.Forall₂ (TakenRow laws cast toPlainString d target) frames
      rows) :
    List.Forall₂ (FrameRow laws cast toPlainString registry d.readerRecord
      target) current rows := by
  induction hframed generalizing rows with
  | nil =>
      cases hrows
      exact .nil
  | cons hframe _ ih =>
      obtain ⟨writer, index, hwriter, hstrip, hid⟩ := hframe
      rcases hrows with _ | ⟨⟨fields, hfields, hrow⟩, hrest⟩
      refine .cons ?_ (ih hrest)
      obtain ⟨-, writer', index', hwriter', rfl, -⟩ :=
        hholds.registered _ _ hfields
      rw [hid, hwriter] at hwriter'
      obtain ⟨rfl, rfl⟩ := Prod.mk.inj (Option.some.inj hwriter')
      exact ⟨writer, index, _, hwriter, hstrip, hrow⟩

theorem Holds.of_live
    (hholds : Holds laws cast toPlainString registry d closed)
    {decoder : Option σ} {active : Option ℕ}
    (hlive : ∀ s, decoder = some s → laws.Holds s ∧
      (∀ id fields, laws.store s id = some fields →
        d.store id = some fields) ∧
      (laws.reader s).map ReaderJson.record = d.readerRecord) :
    Holds laws cast toPlainString registry
      { d with decoder := decoder, activeWriterId := active } closed :=
  ⟨hholds.registered, hholds.empty, hholds.pending, hlive⟩

/-- A flush of the live decoder that fails keeps what a flush needs. -/
theorem holds_flushInner
    (hholds : Holds laws cast toPlainString registry d closed)
    {r : Except FrameError (Option RecordBatch)}
    (hflush : flushInner arrow cast toPlainString d = (r, d')) :
    Holds laws cast toPlainString registry d' closed ∧
      taken laws d' <+: taken laws d ∧ d'.reset = d.reset := by
  obtain ⟨hd', htaken, hlive⟩ := flushInner_state hflush
    fun s hs => (hholds.live s hs).1
  refine ⟨?_, htaken, by rw [hd']; rfl⟩
  rw [hd']
  apply hholds.of_live
  intro s' hs'
  obtain ⟨hs'holds, s, hs, hstore, hreader⟩ := hlive s' hs'
  obtain ⟨-, hstored, hrenames⟩ := hholds.live s hs
  rw [hstore, hreader]
  exact ⟨hs'holds, hstored, hrenames⟩

/-! ## Switching the writer -/

/-- The frames of the other writer become a finished generation. -/
theorem tracks_switchWriter
    (h : Tracks laws cast toPlainString registry d closed current) {id : ℕ}
    (hswitch : switchWriter arrow cast toPlainString d id = (.ok (), d')) :
    ∃ closed' current',
      closed'.flatten ++ current' = closed.flatten ++ current ∧
      Tracks laws cast toPlainString registry d' closed' current' ∧
      d'.activeWriterId = some id ∧ d'.reset = d.reset := by
  unfold switchWriter at hswitch
  split_ifs at hswitch with hsame
  · obtain ⟨-, rfl⟩ := Prod.mk.inj hswitch
    refine ⟨closed, current, rfl, ?_, rfl, rfl⟩
    refine ⟨h.holds.of_live h.holds.live, h.framed, h.sound, ?_, h.target⟩
    intro framed hframed
    simpa [h.active framed hframed, eq_comm] using hsame
  · rcases hflush : flushInner arrow cast toPlainString d with
      ⟨_ | flushed, after⟩
    · simp [hflush] at hswitch
    · simp only [hflush] at hswitch
      obtain ⟨-, rfl⟩ := Prod.mk.inj hswitch
      obtain ⟨hafter, -, -⟩ := flushInner_state hflush
        fun s hs => (h.holds.live s hs).1
      obtain ⟨ended, hended, hpending, hnone⟩ :
          ∃ ended : List (List (List UInt8)), ended.flatten = current ∧
            (∀ target, d.targetSchema = some target → List.Forall₂
              (fun generation batch => generation ≠ [] ∧ List.Forall₂
                (FrameRow laws cast toPlainString registry d.readerRecord
                  target) generation batch.rows) ended flushed.toList) ∧
            (d.targetSchema = none → ended = [] ∧ flushed = none) := by
        cases htarget : d.targetSchema with
        | none =>
            refine ⟨[], (h.target htarget).symm, by simp, ?_⟩
            intro _
            refine ⟨rfl, ?_⟩
            unfold flushInner at hflush
            cases hdecoder : d.decoder with
            | none =>
                simp only [hdecoder] at hflush
                exact (Except.ok.inj (Prod.mk.inj hflush).1).symm
            | some s => simp [hdecoder, htarget] at hflush
        | some target =>
            obtain ⟨hrows, hempty⟩ := flushInner_rows h.holds htarget hflush
            have hframes := forall₂_frameRow h.holds h.framed hrows
            have hlength := h.framed.length_eq
            cases flushed with
            | none =>
                rw [(hempty h.sound).mp rfl] at hlength
                refine ⟨[], ?_, by simp, by simp⟩
                exact (List.eq_nil_of_length_eq_zero hlength).symm
            | some batch =>
                refine ⟨[current], by simp, ?_, by simp⟩
                rintro _ ⟨⟩
                refine .cons ⟨?_, by simpa using hframes⟩ .nil
                rintro rfl
                have := (hempty h.sound).mpr
                  (List.eq_nil_of_length_eq_zero hlength.symm)
                cases this
      refine ⟨closed ++ ended, [], ?_, ?_, rfl, ?_⟩
      · rw [List.flatten_append, hended, List.append_nil]
      · rw [hafter]
        refine ⟨⟨h.holds.registered, ?_, ?_, by simp⟩, .nil, by simp,
          by simp, by simp⟩
        · intro htarget
          obtain ⟨hnil, rfl⟩ := h.holds.empty htarget
          obtain ⟨rfl, rfl⟩ := hnone htarget
          simp [hnil]
        · intro target htarget
          exact List.rel_append (h.holds.pending target htarget)
            (hpending target htarget)
      · rw [hafter]
        rfl

/-- A switch that fails leaves only frames that were there. -/
theorem holds_switchWriter_error
    (h : Tracks laws cast toPlainString registry d closed current) {id : ℕ}
    {e : FrameError}
    (hswitch : switchWriter arrow cast toPlainString d id = (.error e, d')) :
    Holds laws cast toPlainString registry d' closed ∧
      taken laws d' <+: taken laws d ∧ d'.reset = d.reset := by
  unfold switchWriter at hswitch
  split_ifs at hswitch with hsame
  · simp at hswitch
  · rcases hflush : flushInner arrow cast toPlainString d with
      ⟨error | flushed, after⟩
    · simp only [hflush] at hswitch
      obtain ⟨-, rfl⟩ := Prod.mk.inj hswitch
      exact holds_flushInner h.holds hflush
    · simp [hflush] at hswitch

/-! ## Decoding a frame -/

/-- The live decoder, or a new one, is ready for a frame of the active
writer. -/
theorem ensureDecoder_spec
    (h : Tracks laws cast toPlainString registry d closed current)
    {id : ℕ} (hactive : d.activeWriterId = some id) {s : σ}
    (hensure : ensureDecoder arrow d = .ok s) :
    laws.Sound s ∧ laws.frames s = taken laws d ∧
      (∀ f ∈ laws.frames s, frameId f = id) ∧
      (∀ id fields, laws.store s id = some fields →
        d.store id = some fields) ∧
      (laws.reader s).map ReaderJson.record = d.readerRecord := by
  have htaken : ∀ f ∈ taken laws d, frameId f = id := by
    intro f hf
    obtain ⟨framed, hframed, hrel⟩ :=
      ExceptLists.exists_of_mem_right h.framed hf
    obtain ⟨writer, index, -, -, hid⟩ := hrel
    have := h.active framed hframed
    rw [hactive, ← hid] at this
    exact (Option.some.inj this).symm
  unfold ensureDecoder at hensure
  cases hdecoder : d.decoder with
  | some live =>
      simp only [hdecoder] at hensure
      obtain rfl := Except.ok.inj hensure
      obtain ⟨-, hstored, hreader⟩ := h.holds.live live hdecoder
      rw [taken_eq hdecoder] at htaken ⊢
      exact ⟨h.sound live hdecoder, rfl, htaken, hstored, hreader⟩
  | none =>
      simp only [hdecoder] at hensure
      cases hbuild : arrow.build d.store
          (if d.resolveAgainstReader then d.readerJsonWithAliases else none)
          d.batchSize with
      | error text => simp [hbuild, Except.mapError] at hensure
      | ok built =>
          simp only [hbuild, Except.mapError] at hensure
          obtain rfl := Except.ok.inj hensure
          obtain ⟨hsound, hframes, hstore, hreader⟩ :=
            laws.build _ _ _ _ hbuild
          rw [taken_eq_of_decoder_none hdecoder, hframes, hstore, hreader]
          refine ⟨hsound, rfl, by simp, fun _ _ hfields => hfields, ?_⟩
          unfold readerRecord readerJsonWithAliases
          split_ifs
          · rw [Option.map_map]
            rfl
          · rfl

/-- The two ends of a frame that is handed to arrow-avro. -/
theorem feed_cases
    {s : σ} {id : ℕ} {frame : List UInt8} {r : Except FrameError ℕ}
    (hfeed : feed arrow d s id frame = (r, d')) :
    ∃ taken s', arrow.decode s frame = (taken, s') ∧
      d' = { d with decoder := some s' } ∧
      ((∃ n, r = .ok n) ↔ taken = .ok frame.length) := by
  unfold feed at hfeed
  rcases hdecode : arrow.decode s frame with ⟨text | consumed, s'⟩
  · simp only [hdecode] at hfeed
    obtain ⟨rfl, rfl⟩ := Prod.mk.inj hfeed
    exact ⟨_, s', rfl, rfl, by simp⟩
  · simp only [hdecode] at hfeed
    split_ifs at hfeed with hall
    · obtain ⟨rfl, rfl⟩ := Prod.mk.inj hfeed
      exact ⟨_, s', rfl, rfl, by simp [hall]⟩
    · obtain ⟨rfl, rfl⟩ := Prod.mk.inj hfeed
      exact ⟨_, s', rfl, rfl, by simpa using hall⟩

/-- What a frame goes through. -/
theorem decode_cases
    {framed : List UInt8} {r : Except FrameError ℕ}
    (hdecode : decode arrow cast toPlainString d framed = (r, d')) :
    (d' = d ∧ ∃ e, r = .error e) ∨
    (IsFrame framed ∧ ((∃ e, r = .error e ∧
      switchWriter arrow cast toPlainString d (frameId framed) =
        (.error e, d')) ∨
    ∃ after, switchWriter arrow cast toPlainString d (frameId framed) =
        (.ok (), after) ∧ ((d' = after ∧ ∃ e, r = .error e) ∨
      ∃ frame s, stripBranch (after.unionRecordIndices (frameId framed))
          framed = .ok frame ∧ ensureDecoder arrow after = .ok s ∧
        feed arrow after s (frameId framed) frame = (r, d')))) := by
  unfold decode at hdecode
  split_ifs at hdecode with hshort hmagic
  · obtain ⟨rfl, rfl⟩ := Prod.mk.inj hdecode
    exact .inl ⟨rfl, _, rfl⟩
  · obtain ⟨rfl, rfl⟩ := Prod.mk.inj hdecode
    exact .inl ⟨rfl, _, rfl⟩
  · refine .inr ⟨⟨by omega, by simpa using hmagic⟩, ?_⟩
    rcases hswitch : switchWriter arrow cast toPlainString d
      (frameId framed) with ⟨e | _, after⟩
    · simp only [hswitch] at hdecode
      obtain ⟨rfl, rfl⟩ := Prod.mk.inj hdecode
      exact .inl ⟨e, rfl, rfl⟩
    · refine .inr ⟨after, rfl, ?_⟩
      simp only [hswitch] at hdecode
      cases hstrip : stripBranch
          (after.unionRecordIndices (frameId framed)) framed with
      | error e =>
          simp only [hstrip] at hdecode
          obtain ⟨rfl, rfl⟩ := Prod.mk.inj hdecode
          exact .inl ⟨rfl, _, rfl⟩
      | ok frame =>
          simp only [hstrip] at hdecode
          cases hensure : ensureDecoder arrow after with
          | error e =>
              simp only [hensure] at hdecode
              obtain ⟨rfl, rfl⟩ := Prod.mk.inj hdecode
              exact .inl ⟨rfl, _, rfl⟩
          | ok s =>
              simp only [hensure] at hdecode
              exact .inr ⟨frame, s, rfl, rfl, hdecode⟩

/-- A frame that is decoded is the last one. -/
theorem tracks_decode
    (h : Tracks laws cast toPlainString registry d closed current)
    {framed : List UInt8} (hone : OneRecord laws registry framed) {n : ℕ}
    (hdecode : decode arrow cast toPlainString d framed = (.ok n, d')) :
    ∃ closed' current',
      closed'.flatten ++ current' = closed.flatten ++ current ++ [framed] ∧
      Tracks laws cast toPlainString registry d' closed' current' ∧
      d'.reset = d.reset := by
  rcases decode_cases hdecode with ⟨-, e, he⟩ | ⟨hlong, hrest⟩
  · cases he
  rcases hrest with ⟨e, he, -⟩ | ⟨after, hswitch, hrest⟩
  · cases he
  rcases hrest with ⟨-, e, he⟩ | ⟨frame, s, hstrip, hensure, hfeed⟩
  · cases he
  obtain ⟨closed', current', hframes, htracks, hactive, hreset⟩ :=
    tracks_switchWriter h hswitch
  obtain ⟨hsound, htaken, hsame, hstored, hreader⟩ :=
    ensureDecoder_spec htracks hactive hensure
  obtain ⟨r, s', hr, rfl, hall⟩ := feed_cases hfeed
  obtain rfl := hall.mp ⟨n, rfl⟩
  have hid := frameId_stripBranch hlong.1 hstrip
  obtain ⟨fields, hfields⟩ := Option.isSome_iff_exists.mp
    (laws.known s frame s' (hlong.stripBranch hstrip) hr hsound)
  have hregistered := hstored _ _ hfields
  obtain ⟨htarget, writer, index, hwriter, rfl, hindex⟩ :=
    htracks.holds.registered _ _ hregistered
  rw [hid] at hwriter hindex
  rw [hindex] at hstrip
  have hrecord : laws.IsRecord (stripFields writer.fields) frame := by
    obtain ⟨writer', index', frame', hwriter', hstrip', hrecord⟩ := hone
    rw [hwriter] at hwriter'
    obtain ⟨rfl, rfl⟩ := Prod.mk.inj (Option.some.inj hwriter')
    rw [hstrip] at hstrip'
    exact Except.ok.inj hstrip' ▸ hrecord
  obtain ⟨hsound', hframes', hstore', hreader'⟩ :=
    laws.decode s frame s' _ hr hsound (by rwa [hid]) hfields hrecord
  refine ⟨closed', current' ++ [framed], ?_, ?_, ?_⟩
  · rw [← List.append_assoc, hframes]
  · refine ⟨htracks.holds.of_live ?_, ?_, ?_, ?_, ?_⟩
    · rintro _ ⟨⟩
      rw [hstore', hreader']
      exact ⟨laws.holds s' hsound', hstored, hreader⟩
    · rw [taken_eq rfl, hframes', htaken]
      exact List.rel_append htracks.framed
        (.cons ⟨writer, index, hwriter, hstrip, hid⟩ .nil)
    · rintro _ ⟨⟩
      exact hsound'
    · intro other hother
      rcases List.mem_append.mp hother with hother | hother
      · exact htracks.active other hother
      · rw [List.mem_singleton.mp hother]
        exact hactive
    · intro hnone
      rw [hnone] at htarget
      cases htarget
  · exact hreset

/-- A frame that fails adds no row, unless there is more after its records:
what is left to flush are rows of frames before it. -/
theorem holds_decode_error
    (h : Tracks laws cast toPlainString registry d closed current)
    {framed : List UInt8} {e : FrameError}
    (hdecode : decode arrow cast toPlainString d framed = (.error e, d')) :
    ∃ closed' current' frames extra,
      closed'.flatten ++ current' <+: closed.flatten ++ current ∧
      Holds laws cast toPlainString registry d' closed' ∧
      List.Forall₂ (Framed registry) current' frames ∧
      taken laws d' = frames ++ extra ∧
      (extra ≠ [] → HasRest laws registry framed extra.length) ∧
      d'.reset = d.reset := by
  have hkept : ∀ {after : FrameDecoder σ} {closed' current'},
      closed'.flatten ++ current' = closed.flatten ++ current →
      Tracks laws cast toPlainString registry after closed' current' →
      after.reset = d.reset →
      ∃ closed' current' frames extra,
        closed'.flatten ++ current' <+: closed.flatten ++ current ∧
        Holds laws cast toPlainString registry after closed' ∧
        List.Forall₂ (Framed registry) current' frames ∧
        taken laws after = frames ++ extra ∧
        (extra ≠ [] → HasRest laws registry framed extra.length) ∧
        after.reset = d.reset := by
    intro after closed' current' hframes htracks hreset
    exact ⟨closed', current', taken laws after, [],
      hframes ▸ List.prefix_refl _, htracks.holds, htracks.framed, by simp,
      by simp, hreset⟩
  rcases decode_cases hdecode with ⟨rfl, -⟩ | ⟨hlong, hrest⟩
  · exact hkept rfl h rfl
  rcases hrest with ⟨e, -, hswitch⟩ | ⟨after, hswitch, hrest⟩
  · -- the other writer's generation could not be finished
    obtain ⟨hholds, hprefix, hreset⟩ := holds_switchWriter_error h hswitch
    obtain ⟨lost, hlost⟩ := hprefix
    have hframed := List.forall₂_take_append _ _ _ (hlost ▸ h.framed)
    refine ⟨closed, current.take (taken laws d').length, taken laws d', [],
      ?_, hholds, hframed, by simp, by simp, hreset⟩
    exact (List.prefix_append_right_inj _).mpr (List.take_prefix _ _)
  obtain ⟨closed', current', hframes, htracks, hactive, hreset⟩ :=
    tracks_switchWriter h hswitch
  rcases hrest with ⟨rfl, -⟩ | ⟨frame, s, hstrip, hensure, hfeed⟩
  · exact hkept hframes htracks hreset
  obtain ⟨hsound, htaken, hsame, hstored, hreader⟩ :=
    ensureDecoder_spec htracks hactive hensure
  obtain ⟨r, s', hr, rfl, hall⟩ := feed_cases hfeed
  have hid := frameId_stripBranch hlong.1 hstrip
  have hstops : ∀ n, r = .ok n → n ≠ frame.length := by
    rintro n rfl rfl
    obtain ⟨n, hn⟩ := hall.mpr rfl
    cases hn
  obtain ⟨hholds', hstore', hreader', records, hrecords, hrest⟩ :=
    laws.stops s frame r s' (hlong.stripBranch hstrip) hr hstops hsound
      (by rwa [hid])
  have hholds : Holds laws cast toPlainString registry
      { after with decoder := some s' } closed' := by
    apply htracks.holds.of_live
    rintro _ ⟨⟩
    rw [hstore', hreader']
    exact ⟨hholds', hstored, hreader⟩
  refine ⟨closed', current', taken laws after, records,
    hframes ▸ List.prefix_refl _, hholds, htracks.framed, ?_, ?_, hreset⟩
  · rw [taken_eq rfl, hrecords, htaken]
  · intro hne
    obtain ⟨fields, rest, hmore, rfl, hfields, hall⟩ := hrest hne
    obtain ⟨-, writer, index, hwriter, rfl, hindex⟩ :=
      htracks.holds.registered _ _ (hstored _ _ hfields)
    rw [hid] at hwriter hindex
    rw [hindex] at hstrip
    exact ⟨writer, index, rest, records, hwriter, hstrip, hmore, hall, rfl⟩

/-! ## Registrations -/

theorem tracks_registerWriterSchema
    (h : Tracks laws cast toPlainString registry d closed current) {id : ℕ}
    (hregister : d.registerWriterSchema id (registry id) = .ok d') :
    Tracks laws cast toPlainString registry d' closed current := by
  unfold registerWriterSchema at hregister
  cases hprepare : prepareArrowAvroSchema (registry id).root with
  | error e => simp [hprepare, bind, Except.bind] at hregister
  | ok prepared =>
      obtain ⟨fields, index⟩ := prepared
      obtain ⟨writer, hwriter, rfl⟩ :=
        ConfluentAvroDecoder.prepareArrowAvroSchema_eq_ok hprepare
      simp only [hprepare, bind, Except.bind, pure, Except.pure] at hregister
      obtain ⟨target, hd', htarget⟩ : ∃ target,
          d' = { d with
            targetSchema := some target
            writerAliases :=
              aliasesWith d.readerSchemaJson (registry id) d.writerAliases
            unionRecordIndices :=
              Function.update d.unionRecordIndices id index
            store := Function.update d.store id
              (some (stripFields writer.fields)) } ∧
          (d.targetSchema = none ∨ d.targetSchema = some target) := by
        split at hregister
        · rename_i target heq
          exact ⟨target, (Except.ok.inj hregister).symm, .inr heq⟩
        · rename_i heq
          cases htargetOf : targetOf (registry id).root with
          | error e => simp [htargetOf] at hregister
          | ok target =>
              simp only [htargetOf] at hregister
              exact ⟨target, (Except.ok.inj hregister).symm, .inl heq⟩
      have hstored : ∀ other fields, d.store other = some fields →
          d'.store other = some fields := by
        intro other fields hfields
        rw [hd']
        by_cases hsame : other = id
        · subst hsame
          obtain ⟨-, writer', index', hwriter', rfl, -⟩ :=
            h.holds.registered _ _ hfields
          rw [hwriter] at hwriter'
          obtain ⟨rfl, -⟩ := Prod.mk.inj (Option.some.inj hwriter')
          exact Function.update_self _ _ _
        · simpa [Function.update_of_ne hsame] using hfields
      have hreader : d'.readerRecord = d.readerRecord := by
        rw [hd']
        rfl
      have htargets : ∀ other, d'.targetSchema = some other →
          d.targetSchema = some other ∨ d.targetSchema = none := by
        intro other hother
        rw [hd'] at hother
        obtain rfl := Option.some.inj hother
        exact htarget.symm
      constructor
      · constructor
        · intro other fields hfields
          rw [hd'] at hfields ⊢
          refine ⟨rfl, ?_⟩
          by_cases hsame : other = id
          · subst hsame
            simp only [Function.update_self] at hfields ⊢
            exact ⟨writer, index, hwriter, (Option.some.inj hfields).symm,
              rfl⟩
          · simp only [Function.update_of_ne hsame] at hfields ⊢
            exact (h.holds.registered other fields hfields).2
        · intro hnone
          rw [hd'] at hnone
          cases hnone
        · intro other hother
          have hpending : d'.pending = d.pending := by rw [hd']
          rw [hreader, hpending]
          rcases htargets other hother with heq | hnone
          · exact h.holds.pending other heq
          · obtain ⟨hnil, rfl⟩ := h.holds.empty hnone
            rw [hnil]
            exact .nil
        · intro s hs
          have hs : d.decoder = some s := by rw [← hs, hd']
          obtain ⟨hholds, hlive, hrecord⟩ := h.holds.live s hs
          refine ⟨hholds, fun other fields hfields => ?_, ?_⟩
          · exact hstored _ _ (hlive other fields hfields)
          · rw [hreader, hrecord]
      · have htaken : taken laws d' = taken laws d := by rw [hd']; rfl
        rw [htaken]
        exact h.framed
      · intro s hs
        exact h.sound s (by rw [← hs, hd'])
      · intro framed hframed
        rw [hd']
        exact h.active framed hframed
      · intro hnone
        rw [hd'] at hnone
        cases hnone

/-! ## Flushes -/

theorem forall₂_pending
    {reader : Option (List AvroField)} {target : List ArrowField}
    {generations : List (List (List UInt8))} {batches : List RecordBatch}
    (h : List.Forall₂ (fun generation batch => generation ≠ [] ∧
      List.Forall₂ (FrameRow laws cast toPlainString registry reader target)
        generation batch.rows) generations batches) :
    List.Forall₂ (FrameRow laws cast toPlainString registry reader target)
      generations.flatten (batches.flatMap RecordBatch.rows) := by
  induction h with
  | nil => exact .nil
  | cons hhead _ ih =>
      rw [List.flatten_cons, List.flatMap_cons]
      exact List.rel_append hhead.2 ih

/-- A flush gives the rows of the finished generations and then those of the
live decoder, and keeps the registrations only. -/
theorem flush_rows
    (hholds : Holds laws cast toPlainString registry d closed)
    (hconcat : Concatenates concat) {out : Option RecordBatch}
    (hflush : flush arrow cast toPlainString concat d = (.ok out, d')) :
    ∃ target rows extra, d.targetSchema = some target ∧ d' = d.reset ∧
      out.toList.flatMap RecordBatch.rows = rows ++ extra ∧
      List.Forall₂
        (FrameRow laws cast toPlainString registry d.readerRecord target)
        closed.flatten rows ∧
      List.Forall₂ (TakenRow laws cast toPlainString d target) (taken laws d)
        extra ∧
      ((∀ s, d.decoder = some s → laws.Sound s) →
        (out = none ↔ closed = [] ∧ taken laws d = [])) := by
  unfold flush at hflush
  cases htarget : d.targetSchema with
  | none => simp [htarget] at hflush
  | some target =>
      simp only [htarget] at hflush
      rcases hinner : flushInner arrow cast toPlainString d with
        ⟨_ | flushed, after⟩
      · simp [hinner] at hflush
      · obtain ⟨hafter, -, -⟩ := flushInner_state hinner
          fun s hs => (hholds.live s hs).1
        obtain ⟨hextra, hnone⟩ := flushInner_rows hholds htarget hinner
        have hreset : after.reset = d.reset := by
          rw [hafter]
          rfl
        have hpending : after.pending = d.pending := by rw [hafter]
        have hrows := hholds.pending target htarget
        have hbatches : out.toList.flatMap RecordBatch.rows =
              (d.pending ++ flushed.toList).flatMap RecordBatch.rows ∧
            d' = d.reset ∧
            (out = none ↔ d.pending ++ flushed.toList = []) := by
          simp only [hinner, hpending, hreset] at hflush
          split at hflush
          · rename_i hnil
            obtain ⟨hout, rfl⟩ := Prod.mk.inj hflush
            obtain rfl := Except.ok.inj hout
            simp [hnil]
          · rename_i batch hsingle
            obtain ⟨hout, rfl⟩ := Prod.mk.inj hflush
            obtain rfl := Except.ok.inj hout
            simp [hsingle]
          · rename_i batches hne _
            obtain ⟨hout, rfl⟩ := Prod.mk.inj hflush
            cases hbatch : concat target (d.pending ++ flushed.toList) with
            | error text => simp [hbatch, Except.mapError, Except.map] at hout
            | ok batch =>
                simp only [hbatch, Except.mapError, Except.map] at hout
                obtain rfl := Except.ok.inj hout
                refine ⟨?_, rfl, by simpa using hne⟩
                simp [hconcat _ _ _ hbatch]
        obtain ⟨hout, hd', hempty⟩ := hbatches
        refine ⟨target, _, _, rfl, hd', ?_, forall₂_pending hrows, hextra, ?_⟩
        · rw [hout, List.flatMap_append]
        · intro hsound
          rw [hempty, List.append_eq_nil_iff, Option.toList_eq_nil_iff,
            hnone hsound]
          have hlength := hrows.length_eq
          constructor
          · rintro ⟨hnil, htaken⟩
            rw [hnil] at hlength
            exact ⟨List.eq_nil_of_length_eq_zero hlength, htaken⟩
          · rintro ⟨rfl, htaken⟩
            exact ⟨List.eq_nil_of_length_eq_zero hlength.symm, htaken⟩

end Steps

end FrameDecoder

end Avro

end Streamling
