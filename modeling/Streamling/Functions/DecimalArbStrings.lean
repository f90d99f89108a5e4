import Mathlib
import Streamling.Sinks.Postgres
import Streamling.Types.DecimalArbArray

/-!
# Casts from text

The throwing constructor parses every text as it stands and fails for one that
is no decimal or does not fit; its twin makes such a row null.  The twin takes
the white space off the ends of a text before it parses it.

The parser of decimals is a parameter.  It accepts no white space.
-/

namespace Streamling

open DecimalArbValue
open Postgres (trim)

inductive StringCastError where
  | notADecimal (text : String)
  | value (error : DecimalArbError)
  deriving DecidableEq, Repr

variable (parse : String → Option BigDecimal)

/-- The value of a text, as `append_str` reads it. -/
def parsedRow (cell : Option String) :
    Except StringCastError (Option DecimalArbValue) :=
  match cell with
  | none => .ok none
  | some text =>
      match parse text with
      | none => .error (.notADecimal text)
      | some bd => .ok (some (fromBigdecimal bd))

def toDecimalArbFromString (column : String) (precision scale : ℕ)
    (strings : List (Option String)) :
    Except StringCastError DecimalArbArray :=
  buildRows .value column precision scale (parsedRow parse) strings

/-- Parse and range-check the value; either failure is a null row. -/
def tryParsedRow (column : String) (precision scale : ℕ)
    (cell : Option String) :
    Except StringCastError (Option DecimalArbValue) :=
  match cell with
  | none => .ok none
  | some text =>
      match parse (trim text) with
      | none => .ok none
      | some bd =>
          let value := fromBigdecimal bd
          match value.checkFits precision scale column with
          | .ok () => .ok (some value)
          | .error _ => .ok none

def tryToDecimalArbFromString (column : String) (precision scale : ℕ)
    (strings : List (Option String)) :
    Except StringCastError DecimalArbArray :=
  buildRows .value column precision scale
    (tryParsedRow parse column precision scale) strings

/-! ## Rows -/

/-- The text is a decimal that fits. -/
def Converts (precision scale : ℕ) (text : String) : Prop :=
  ∃ bd, parse text = some bd ∧ FitsAt precision scale bd.value

/-- The parser accepts no text with white space at its ends. -/
def RejectsWhitespace : Prop :=
  ∀ text bd, parse text = some bd → trim text = text

variable {parse} {column : String} {precision scale : ℕ}

theorem RejectsWhitespace.trim_eq_of_converts
    (hparse : RejectsWhitespace parse) {text : String}
    (h : Converts parse precision scale text) : trim text = text := by
  obtain ⟨bd, hbd, -⟩ := h
  exact hparse text bd hbd

/-- The cell that the throwing constructor stores for a text. -/
theorem parsedRow_stores_iff {text : String} {cell : Option (List UInt8)} :
    (∃ v, parsedRow parse (some text) = .ok v ∧
      Stores precision scale v cell) ↔
      ∃ bd, parse text = some bd ∧
        Stores precision scale (some (fromBigdecimal bd)) cell := by
  cases hparsed : parse text with
  | none => simp [parsedRow, hparsed]
  | some bd => simp [parsedRow, hparsed]

theorem tryParsedRow_stores_iff
    (hvalid : validatePrecisionScale precision scale = .ok ())
    {text : String} {cell : Option (List UInt8)} :
    (∃ v, tryParsedRow parse column precision scale (some text) = .ok v ∧
      Stores precision scale v cell) ↔
      (∃ bd, parse (trim text) = some bd ∧
        Stores precision scale (some (fromBigdecimal bd)) cell) ∨
      (¬ Converts parse precision scale (trim text) ∧ cell = none) := by
  cases hparsed : parse (trim text) with
  | none => simp [tryParsedRow, hparsed, Stores, Converts]
  | some bd =>
      have hcheck := checkFits_eq_ok_iff (fromBigdecimal bd) precision scale
        column
      rw [value_fromBigdecimal, hvalid] at hcheck
      have hconverts : Converts parse precision scale (trim text) ↔
          FitsAt precision scale bd.value := by
        simp [Converts, hparsed]
      rw [hconverts]
      cases hfits : (fromBigdecimal bd).checkFits precision scale column with
      | error e =>
          have hnot : ¬ FitsAt precision scale bd.value := by
            intro hfit
            have hok := hcheck.mpr ⟨rfl, hfit⟩
            rw [hfits] at hok
            simp at hok
          simp [tryParsedRow, hparsed, hfits, Stores, hnot]
      | ok u =>
          have hfit := (hcheck.mp hfits).2
          simp [tryParsedRow, hparsed, hfits, hfit]

/-- The throwing constructor on one row. -/
theorem toDecimalArbFromString_single_iff
    (hvalid : validatePrecisionScale precision scale = .ok ())
    {cell : Option String} {stored : Option (List UInt8)} :
    toDecimalArbFromString parse column precision scale [cell] =
        .ok ⟨[stored], precision, scale⟩ ↔
      ∃ v, parsedRow parse cell = .ok v ∧
        Stores precision scale v stored := by
  rw [toDecimalArbFromString, buildRows_eq_ok_iff]
  simp [hvalid]

theorem toDecimalArbFromString_fails_iff
    (hvalid : validatePrecisionScale precision scale = .ok ())
    {text : String} :
    (∃ e, toDecimalArbFromString parse column precision scale [some text] =
      .error e) ↔ ¬ Converts parse precision scale text := by
  rw [ExceptLists.exists_error_iff, not_iff_not]
  constructor
  · rintro ⟨out, hout⟩
    obtain ⟨-, -, -, hrows⟩ := buildRows_eq_ok_iff.mp hout
    obtain ⟨stored, -, hrow, -⟩ := List.forall₂_cons_left_iff.mp hrows
    obtain ⟨bd, hbd, hfits, -⟩ := parsedRow_stores_iff.mp hrow
    rw [value_fromBigdecimal] at hfits
    exact ⟨bd, hbd, hfits⟩
  · rintro ⟨bd, hbd, hfits⟩
    refine ⟨⟨[_], precision, scale⟩,
      (toDecimalArbFromString_single_iff hvalid).mpr
        (parsedRow_stores_iff.mpr ⟨bd, hbd, ?_, rfl⟩)⟩
    rw [value_fromBigdecimal]
    exact hfits

/-! ## Agreement of the twins -/

/-- The row of the twin is what the throwing constructor stores for the text
alone, and null for a null and for a text on which that fails. -/
def TwinsAgree (parse : String → Option BigDecimal) (column : String)
    (precision scale : ℕ) (cell : Option String)
    (row : Option (List UInt8)) : Prop :=
  (∀ bytes, row = some bytes ↔
    toDecimalArbFromString parse column precision scale [cell] =
      .ok ⟨[some bytes], precision, scale⟩) ∧
  (row = none ↔ cell = none ∨
    ∃ e, toDecimalArbFromString parse column precision scale [cell] =
      .error e)

theorem twinsAgree_iff
    (hparse : RejectsWhitespace parse)
    (hvalid : validatePrecisionScale precision scale = .ok ())
    {cell : Option String} {row : Option (List UInt8)}
    (hrow : ∃ v, tryParsedRow parse column precision scale cell = .ok v ∧
      Stores precision scale v row) :
    TwinsAgree parse column precision scale cell row ↔
      ∀ text, cell = some text → trim text = text ∨
        ¬ Converts parse precision scale (trim text) := by
  rcases cell with _ | text
  · obtain ⟨v, hv, hstores⟩ := hrow
    obtain rfl : v = none := (Except.ok.inj hv).symm
    obtain rfl : row = none := hstores
    simp [TwinsAgree, toDecimalArbFromString_single_iff hvalid, parsedRow,
      Stores]
  · simp only [TwinsAgree, toDecimalArbFromString_single_iff hvalid,
      parsedRow_stores_iff, toDecimalArbFromString_fails_iff hvalid,
      reduceCtorEq, false_or, Option.some.injEq, forall_eq']
    rw [tryParsedRow_stores_iff hvalid] at hrow
    rcases hrow with ⟨bd, hbd, hfits, hcell⟩ | ⟨hnot, rfl⟩
    · have hconverts : Converts parse precision scale (trim text) := by
        rw [value_fromBigdecimal] at hfits
        exact ⟨bd, hbd, hfits⟩
      constructor
      · rintro ⟨hsome, -⟩
        obtain ⟨bd', hbd', -⟩ := (hsome _).mp hcell
        exact Or.inl (hparse text bd' hbd')
      · rintro (htrim | hnot)
        · rw [htrim] at hbd hconverts
          constructor
          · intro bytes
            rw [hcell]
            rw [value_fromBigdecimal] at hfits
            simp [hbd, Stores, hfits, eq_comm]
          · rw [hcell]
            simp [hconverts]
        · exact absurd hconverts hnot
    · have hfails : ¬ Converts parse precision scale text := by
        intro hconverts
        rw [hparse.trim_eq_of_converts hconverts] at hnot
        exact hnot hconverts
      constructor
      · intro _
        exact Or.inr hnot
      · intro _
        constructor
        · intro bytes
          simp only [reduceCtorEq, false_iff]
          rintro ⟨bd, hbd, hfits, -⟩
          rw [value_fromBigdecimal] at hfits
          exact hfails ⟨bd, hbd, hfits⟩
        · simp [hfails]

/-- The twins agree on every row of a batch exactly if no text that converts
without the white space at its ends has any. -/
theorem try_cast_agrees_iff
    (hparse : RejectsWhitespace parse)
    (hvalid : validatePrecisionScale precision scale = .ok ())
    (strings : List (Option String)) :
    (∃ out, tryToDecimalArbFromString parse column precision scale strings =
        .ok out ∧
      List.Forall₂ (TwinsAgree parse column precision scale) strings
        out.inner) ↔
      ∀ text, some text ∈ strings → trim text = text ∨
        ¬ Converts parse precision scale (trim text) := by
  have htotal (cell : Option String) : ∃ row v,
      tryParsedRow parse column precision scale cell = .ok v ∧
        Stores precision scale v row := by
    rcases cell with _ | text
    · exact ⟨none, none, rfl, rfl⟩
    · simp only [tryParsedRow_stores_iff hvalid]
      by_cases hconverts : Converts parse precision scale (trim text)
      · obtain ⟨bd, hbd, hfits⟩ := hconverts
        refine ⟨_, Or.inl ⟨bd, hbd, ?_, rfl⟩⟩
        rw [value_fromBigdecimal]
        exact hfits
      · exact ⟨none, Or.inr ⟨hconverts, rfl⟩⟩
  obtain ⟨rows, hrows⟩ := ExceptLists.exists_forall₂_iff.mpr
    fun cell (_ : cell ∈ strings) => htotal cell
  have hout : tryToDecimalArbFromString parse column precision scale strings =
      .ok ⟨rows, precision, scale⟩ := by
    rw [tryToDecimalArbFromString, buildRows_eq_ok_iff]
    exact ⟨hvalid, rfl, rfl, hrows⟩
  have hagree : List.Forall₂ (TwinsAgree parse column precision scale)
      strings rows ↔ _ :=
    ExceptLists.forall₂_iff_of_forall₂ hrows fun cell row hrow =>
      twinsAgree_iff hparse hvalid hrow
  constructor
  · rintro ⟨out, hout', hall⟩
    obtain rfl := Except.ok.inj (hout.symm.trans hout')
    intro text htext
    exact hagree.mp hall (some text) htext text rfl
  · intro hall
    refine ⟨_, hout, hagree.mpr ?_⟩
    rintro _ hmem text rfl
    exact hall text hmem

/-- A parser that knows one text. -/
def parseOnlySeven (text : String) : Option BigDecimal :=
  if text = "7" then some ⟨7, 0⟩ else none

theorem parseOnlySeven_rejectsWhitespace :
    RejectsWhitespace parseOnlySeven := by
  intro text bd h
  unfold parseOnlySeven at h
  split_ifs at h with htext
  rw [htext]
  decide

/-- A text and a null on which the twins agree. -/
theorem try_cast_agrees_seven :
    ∃ out, tryToDecimalArbFromString parseOnlySeven "c" 5 2
        [some "7", none, some "x"] = .ok out ∧
      List.Forall₂ (TwinsAgree parseOnlySeven "c" 5 2)
        [some "7", none, some "x"] out.inner := by
  apply (try_cast_agrees_iff parseOnlySeven_rejectsWhitespace (by decide)
    _).mpr
  intro text htext
  obtain rfl | rfl : text = "7" ∨ text = "x" := by simpa using htext
  · exact Or.inl (by decide)
  · exact Or.inl (by decide)

/-- With a blank before it, the throwing constructor fails and its twin has a
value. -/
theorem try_cast_accepts_blank :
    tryToDecimalArbFromString parseOnlySeven "c" 5 2 [some " 7"] =
        .ok ⟨[some [0, 2, 188]], 5, 2⟩ ∧
      toDecimalArbFromString parseOnlySeven "c" 5 2 [some " 7"] =
        .error (.notADecimal " 7") ∧
      ¬ ∃ out, tryToDecimalArbFromString parseOnlySeven "c" 5 2
          [some " 7"] = .ok out ∧
        List.Forall₂ (TwinsAgree parseOnlySeven "c" 5 2) [some " 7"]
          out.inner := by
  have htry : tryToDecimalArbFromString parseOnlySeven "c" 5 2
      [some " 7"] = .ok ⟨[some [0, 2, 188]], 5, 2⟩ := by
    decide +kernel
  have hcast : toDecimalArbFromString parseOnlySeven "c" 5 2 [some " 7"] =
      .error (.notADecimal " 7") := by
    decide +kernel
  refine ⟨htry, hcast, ?_⟩
  rintro ⟨out, hout, hagree⟩
  obtain rfl := Except.ok.inj (htry.symm.trans hout)
  obtain ⟨_, _, hrow, -, hcells⟩ := List.forall₂_cons_left_iff.mp hagree
  obtain ⟨rfl, -⟩ := List.cons.inj hcells
  have hsame := (hrow.1 _).mp rfl
  rw [hcast] at hsame
  simp at hsame

end Streamling
