import Mathlib
import Streamling.Functions.DecimalArbUnify

/-!
# Unified members compare as numbers

The common type holds every value of every member, so re-encoding at it is
exact; a member that is already at the common scale needs none.  At one scale
canonical bytes are equal exactly if the numbers are.
-/

namespace Streamling

open DecimalArbValue

/-! ## The common type -/

/-- The digits that a type for all members needs. -/
def unifiedPrecision (metas : List (ℕ × ℕ)) : ℕ :=
  widestInteger metas + widestScale metas

theorem scale_le_widestScale
    {metas : List (ℕ × ℕ)} {m : ℕ × ℕ} (hm : m ∈ metas) :
    m.2 ≤ widestScale metas :=
  List.le_max?_getD_of_mem (List.mem_map.mpr ⟨m, hm, rfl⟩)

theorem integer_le_widestInteger
    {metas : List (ℕ × ℕ)} {m : ℕ × ℕ} (hm : m ∈ metas) :
    m.1 - m.2 ≤ widestInteger metas :=
  List.le_max?_getD_of_mem (List.mem_map.mpr ⟨m, hm, rfl⟩)

theorem commonPrecisionScale_eq_ok_iff
    {metas : List (ℕ × ℕ)} {p s : ℕ} :
    commonPrecisionScale metas = .ok (p, s) ↔
      unifiedPrecision metas ≤ maxPrecision ∧
        p = max (unifiedPrecision metas) 1 ∧ s = widestScale metas := by
  unfold commonPrecisionScale
  change (if unifiedPrecision metas ≤ maxPrecision then _ else _) = _ ↔ _
  split_ifs with hle
  · rw [Except.ok.injEq, Prod.mk.injEq]
    constructor
    · rintro ⟨rfl, rfl⟩
      exact ⟨hle, rfl, rfl⟩
    · rintro ⟨-, rfl, rfl⟩
      exact ⟨rfl, rfl⟩
  · simp [hle]

theorem commonPrecisionScale_error
    {metas : List (ℕ × ℕ)} (h : maxPrecision < unifiedPrecision metas) :
    ∃ e, commonPrecisionScale metas = .error e := by
  rw [ExceptLists.exists_error_iff]
  rintro ⟨⟨p, s⟩, hok⟩
  have hle := (commonPrecisionScale_eq_ok_iff.mp hok).1
  omega

theorem commonPrecisionScale_valid
    {metas : List (ℕ × ℕ)} {p s : ℕ}
    (h : commonPrecisionScale metas = .ok (p, s)) :
    validatePrecisionScale p s = .ok () := by
  obtain ⟨hle, rfl, rfl⟩ := commonPrecisionScale_eq_ok_iff.mp h
  rw [validatePrecisionScale_eq_ok_iff]
  unfold unifiedPrecision maxPrecision at *
  omega

/-- What fits a member fits the common type. -/
theorem fits_common
    {metas : List (ℕ × ℕ)} {p s : ℕ} {m : ℕ × ℕ} {x : ℚ}
    (h : commonPrecisionScale metas = .ok (p, s)) (hm : m ∈ metas)
    (hfits : FitsAt m.1 m.2 x) : FitsAt p s x := by
  obtain ⟨-, rfl, rfl⟩ := commonPrecisionScale_eq_ok_iff.mp h
  have hscale := scale_le_widestScale hm
  have hinteger := integer_le_widestInteger hm
  apply hfits.mono hscale
  unfold unifiedPrecision
  omega

/-! ## Re-encoding -/

theorem Stores.mono
    {p s p' : ℕ} {v : Option DecimalArbValue} {cell : Option (List UInt8)}
    (h : Stores p s v cell)
    (hfits : ∀ w, v = some w → FitsAt p s w.value → FitsAt p' s w.value) :
    Stores p' s v cell := by
  rcases v with _ | v
  · exact h
  · exact ⟨hfits v rfl h.1, h.2⟩

/-- A stored value is decoded as a value of the same number. -/
theorem decodeValue_of_stores
    {p s : ℕ} {v : Option DecimalArbValue} {cell : Option (List UInt8)}
    (h : Stores p s v cell) :
    ∃ w, decodeValue cell s = .ok w ∧ w.map value = v.map value := by
  rcases v with _ | v
  · obtain rfl : cell = none := h
    exact ⟨none, rfl, rfl⟩
  · obtain ⟨hfits, rfl⟩ := h
    obtain ⟨w, hw, hvalue⟩ := decodeValue_of_fits hfits
    exact ⟨some w, hw, congrArg some hvalue⟩

theorem stores_congr
    {p s : ℕ} {v w : Option DecimalArbValue} {cell : Option (List UInt8)}
    (h : Stores p s v cell) (heq : v.map value = w.map value) :
    Stores p s w cell := by
  rcases v with _ | v
  · rcases w with _ | w
    · exact h
    · simp at heq
  · rcases w with _ | w
    · simp at heq
    · have hvalue : v.value = w.value := Option.some.inj heq
      refine ⟨hvalue ▸ h.1, ?_⟩
      rw [h.2, toCanonicalBytesAtScale_congr h.1 hvalue]

/-- Values that fit the target are re-encoded as they are. -/
theorem rescaleValues_of_stores
    {p s p' s' : ℕ} {values : List (Option DecimalArbValue)}
    {cells : List (Option (List UInt8))} (column : String)
    (hvalid : validatePrecisionScale p' s' = .ok ())
    (hcells : List.Forall₂ (Stores p s) values cells)
    (hfits : ∀ x, FitsAt p s x → FitsAt p' s' x) :
    ∃ out, rescaleValues cells s column p' s' = .ok out ∧
      List.Forall₂ (Stores p' s') values out.inner := by
  have hrow (v : Option DecimalArbValue) (cell : Option (List UInt8))
      (h : Stores p s v cell) : Stores p' s' v
        (v.map fun w => w.toCanonicalBytesAtScale s') := by
    rcases v with _ | v
    · exact Eq.refl none
    · exact ⟨hfits _ h.1, rfl⟩
  refine ⟨⟨values.map fun v => v.map fun w => w.toCanonicalBytesAtScale s',
    p', s'⟩, ?_, ?_⟩
  · unfold rescaleValues
    rw [buildRows_eq_ok_iff]
    refine ⟨hvalid, rfl, rfl, ?_⟩
    rw [List.forall₂_map_right_iff]
    refine hcells.flip.imp ?_
    intro cell v h
    obtain ⟨w, hw, hvalue⟩ := decodeValue_of_stores h
    exact ⟨w, hw, stores_congr (hrow v cell h) hvalue.symm⟩
  · rw [List.forall₂_map_right_iff, List.forall₂_same]
    intro v hv
    obtain ⟨cell, h⟩ :=
      ExceptLists.exists_forall₂_iff.mp ⟨cells, hcells⟩ v hv
    exact hrow v cell h

/-- Re-encoding keeps every number or fails; it does not round. -/
theorem rescaleValues_exact
    {cells : List (Option (List UInt8))} {s p' s' : ℕ} {column : String}
    {out : DecimalArbArray}
    (h : rescaleValues cells s column p' s' = .ok out) :
    List.Forall₂ (fun cell cell' => ∃ v w, decodeValue cell s = .ok v ∧
      decodeValue cell' s' = .ok w ∧ w.map value = v.map value)
      cells out.inner := by
  obtain ⟨-, -, -, hrows⟩ := buildRows_eq_ok_iff.mp h
  refine hrows.imp ?_
  rintro cell cell' ⟨v, hv, hstores⟩
  obtain ⟨w, hw, hvalue⟩ := decodeValue_of_stores hstores
  exact ⟨v, w, hv, hw, hvalue⟩

/-! ## Operands -/

variable {parse : String → Option BigDecimal}

/-- What an operand denotes on a batch: the values of its rows, which fit its
type.  A literal has its value on every row. -/
def Operand.Denotes (parse : String → Option BigDecimal) (rows : ℕ) :
    Operand → List (Option DecimalArbValue) → Prop
  | .decimalArb p s cells, values =>
      validatePrecisionScale p s = .ok () ∧
        List.Forall₂ (Stores p s) values cells
  | .decimal128 p s words, values =>
      (1 ≤ p ∧ p ≤ 38 ∧ 0 ≤ s ∧ s ≤ p) ∧
        (∀ x, some x ∈ words → |x.toInt| < 10 ^ p) ∧
        values = words.map fun cell =>
          cell.map fun x => fromBigintAndScale x.toInt s
  | .decimal256 p s words, values =>
      (1 ≤ p ∧ p ≤ 76 ∧ 0 ≤ s ∧ s ≤ p) ∧
        (∀ x, some x ∈ words → |x.toInt| < 10 ^ p) ∧
        values = words.map fun cell =>
          cell.map fun x => fromBigintAndScale x.toInt s
  | .int ints, values =>
      (∀ x, some x ∈ ints → -2 ^ 63 ≤ x ∧ x < 2 ^ 64) ∧
        values = ints.map fun cell => cell.map (fromBigintAndScale · 0)
  | .textLiteral text, values =>
      ∃ bd, parse text = some bd ∧
        (fromBigdecimal bd).integerDigitCount +
          (fromBigdecimal bd).fractionalDigitCount ≤ maxPrecision ∧
        values = List.replicate rows (some (fromBigdecimal bd))
  | .null, values => values = List.replicate rows none
  | .nullText, _ | .textExpression _, _ | .other, _ => False

/-- The expression evaluates, and its cells store the values. -/
def DecimalExpr.Yields (parse : String → Option BigDecimal) (rows p s : ℕ)
    (e : DecimalExpr) (values : List (Option DecimalArbValue)) : Prop :=
  ∃ cells, e.eval parse rows = .ok cells ∧
    List.Forall₂ (Stores p s) values cells

theorem outputField_eq_some_iff {p s p' s' : ℕ} :
    DecimalExpr.outputField p s = some (p', s') ↔
      validatePrecisionScale p s = .ok () ∧ p = p' ∧ s = s' := by
  unfold DecimalExpr.outputField
  split_ifs with hvalid
  · simp [hvalid]
  · simp [hvalid]

/-- A loop over rows whose values fit stores them. -/
theorem buildRows_of_fits
    {α ε : Type} {lift : DecimalArbError → ε} {column : String} {p s : ℕ}
    {rows : List α} {f : α → Except ε (Option DecimalArbValue)}
    {row : α → Option DecimalArbValue}
    (hvalid : validatePrecisionScale p s = .ok ())
    (hrow : ∀ x ∈ rows, f x = .ok (row x))
    (hfits : ∀ x ∈ rows, ∀ v, row x = some v → FitsAt p s v.value) :
    ∃ out, buildRows lift column p s f rows = .ok out ∧
      List.Forall₂ (Stores p s) (rows.map row) out.inner := by
  have hstores (x : α) (hx : x ∈ rows) : Stores p s (row x)
      ((row x).map fun w => w.toCanonicalBytesAtScale s) := by
    cases hvalue : row x with
    | none => exact Eq.refl none
    | some v => exact ⟨hfits x hx v hvalue, rfl⟩
  refine ⟨⟨rows.map fun x => (row x).map fun w =>
    w.toCanonicalBytesAtScale s, p, s⟩, ?_, ?_⟩
  · rw [buildRows_eq_ok_iff]
    refine ⟨hvalid, rfl, rfl, ?_⟩
    rw [List.forall₂_map_right_iff, List.forall₂_same]
    intro x hx
    exact ⟨row x, hrow x hx, hstores x hx⟩
  · rw [List.forall₂_map_left_iff, List.forall₂_map_right_iff,
      List.forall₂_same]
    exact hstores

theorem fits_word
    {w : ℕ} {p s : ℕ} {x : BitVec w} (h : |x.toInt| < 10 ^ p) :
    FitsAt p s (fromBigintAndScale x.toInt s).value :=
  ⟨x.toInt, value_fromBigintAndScale_mul x.toInt s, h⟩

/-- Words below the power of ten of the precision are stored. -/
theorem buildRows_of_words
    {w : ℕ} {p s : ℕ} {words : List (Option (BitVec w))} (column : String)
    (hvalid : validatePrecisionScale p s = .ok ())
    (hrange : ∀ x, some x ∈ words → |x.toInt| < 10 ^ p) :
    ∃ out, buildRows id column p s (fun cell : Option (BitVec w) =>
        .ok (cell.map fun x => fromBigintAndScale x.toInt s)) words =
          .ok out ∧
      List.Forall₂ (Stores p s)
        (words.map fun cell => cell.map fun x =>
          fromBigintAndScale x.toInt s) out.inner := by
  apply buildRows_of_fits hvalid fun _ _ => rfl
  rintro (_ | x) hx v hv
  · simp at hv
  · obtain rfl := Option.some.inj hv
    exact fits_word (hrange x hx)

/-- An integer of at most 64 bits has at most 20 digits. -/
theorem fits_int {x : ℤ} (h : -2 ^ 63 ≤ x ∧ x < 2 ^ 64) :
    FitsAt intCoercePrecision 0 (fromBigintAndScale x 0).value := by
  refine ⟨x, value_fromBigintAndScale_mul x 0, ?_⟩
  rw [abs_lt, intCoercePrecision]
  omega

theorem buildRows_of_ints
    {ints : List (Option ℤ)}
    (hvalid : validatePrecisionScale intCoercePrecision 0 = .ok ())
    (hrange : ∀ x, some x ∈ ints → -2 ^ 63 ≤ x ∧ x < 2 ^ 64) :
    ∃ out, buildRows id "to_decimal_arb_from_int" intCoercePrecision 0
        (fun cell : Option ℤ => .ok (cell.map (fromBigintAndScale · 0)))
          ints = .ok out ∧
      List.Forall₂ (Stores intCoercePrecision 0)
        (ints.map fun cell => cell.map (fromBigintAndScale · 0))
        out.inner := by
  apply buildRows_of_fits hvalid fun _ _ => rfl
  rintro (_ | x) hx v hv
  · simp at hv
  · obtain rfl := Option.some.inj hv
    exact fits_int (hrange x hx)

/-- A literal has its value on every row. -/
theorem toDecimalArbFromString_replicate
    {text : String} {bd : BigDecimal} {p s : ℕ} (column : String) (rows : ℕ)
    (hvalid : validatePrecisionScale p s = .ok ())
    (hparse : parse text = some bd)
    (hfits : FitsAt p s (fromBigdecimal bd).value) :
    ∃ out, toDecimalArbFromString parse column p s
        (List.replicate rows (some text)) = .ok out ∧
      List.Forall₂ (Stores p s)
        (List.replicate rows (some (fromBigdecimal bd))) out.inner := by
  have hmap : List.replicate rows (some (fromBigdecimal bd)) =
      (List.replicate rows (some text)).map fun _ =>
        some (fromBigdecimal bd) := by rw [List.map_replicate]
  rw [hmap]
  apply buildRows_of_fits hvalid
  · intro cell hcell
    obtain rfl := List.eq_of_mem_replicate hcell
    simp only [parsedRow, hparse]
  · intro cell _ v hv
    obtain rfl := Option.some.inj hv
    exact hfits

theorem exactPrecisionScale_eq
    {v : DecimalArbValue}
    (h : v.integerDigitCount + v.fractionalDigitCount ≤ maxPrecision) :
    exactPrecisionScale v =
      (max (v.integerDigitCount + v.fractionalDigitCount) 1,
        v.fractionalDigitCount) := by
  unfold exactPrecisionScale
  unfold maxPrecision at h
  have hword {n : ℕ} (hn : n ≤ 65535) : n % 2 ^ 32 = n :=
    Nat.mod_eq_of_lt (by omega)
  have hfraction := hword (n := v.fractionalDigitCount) (by omega)
  have hinteger := hword (n := v.integerDigitCount) (by omega)
  simp only [hfraction, hinteger, hword h]

/-- A value fits its smallest type. -/
theorem fits_exactPrecisionScale
    {v : DecimalArbValue}
    (h : v.integerDigitCount + v.fractionalDigitCount ≤ maxPrecision) :
    FitsAt (exactPrecisionScale v).1 (exactPrecisionScale v).2 v.value := by
  rw [exactPrecisionScale_eq h, ← digit_counts_iff]
  · show _ ≤ max _ 1 - _ ∧ _ ≤ _
    omega
  · show _ ≤ max _ 1
    omega

theorem exactPrecisionScale_valid
    {v : DecimalArbValue}
    (h : v.integerDigitCount + v.fractionalDigitCount ≤ maxPrecision) :
    validatePrecisionScale (exactPrecisionScale v).1
      (exactPrecisionScale v).2 = .ok () := by
  rw [exactPrecisionScale_eq h, validatePrecisionScale_eq_ok_iff]
  unfold maxPrecision at *
  show 1 ≤ max _ 1 ∧ max _ 1 ≤ _ ∧ _ ≤ max _ 1
  omega

/-- A coerced operand yields its values at a type that they fit. -/
theorem coerce_yields
    {rows p s : ℕ} {o : Operand} {e : DecimalExpr}
    {values : List (Option DecimalArbValue)}
    (hcoerce : coerce parse o = .ok (some e))
    (htype : e.precisionScale = some (p, s))
    (hvalues : o.Denotes parse rows values) :
    validatePrecisionScale p s = .ok () ∧ e.Yields parse rows p s values := by
  cases o with
  | decimalArb p' s' cells =>
      obtain rfl := Option.some.inj (Except.ok.inj hcoerce)
      obtain ⟨rfl, rfl⟩ : p' = p ∧ s' = s := by
        simpa [DecimalExpr.precisionScale] using htype
      exact ⟨hvalues.1, cells, rfl, hvalues.2⟩
  | decimal128 p' s' words =>
      obtain rfl := Option.some.inj (Except.ok.inj hcoerce)
      obtain ⟨⟨-, -, hnonneg, -⟩, hrange, rfl⟩ := hvalues
      obtain ⟨scale, rfl⟩ := Int.eq_ofNat_of_zero_le hnonneg
      simp only [DecimalExpr.precisionScale, if_neg (not_lt.mpr hnonneg),
        Int.toNat_natCast] at htype
      obtain ⟨hvalid, rfl, rfl⟩ := outputField_eq_some_iff.mp htype
      obtain ⟨out, hout, hstores⟩ := buildRows_of_words
        "to_decimal_arb_from_decimal128" hvalid hrange
      refine ⟨hvalid, out.inner, ?_, hstores⟩
      simp only [DecimalExpr.eval, if_neg (not_lt.mpr hnonneg),
        Int.toNat_natCast, DecimalArbArray.fromDecimal128, hout]
      rfl
  | decimal256 p' s' words =>
      obtain rfl := Option.some.inj (Except.ok.inj hcoerce)
      obtain ⟨⟨-, -, hnonneg, -⟩, hrange, rfl⟩ := hvalues
      obtain ⟨scale, rfl⟩ := Int.eq_ofNat_of_zero_le hnonneg
      simp only [DecimalExpr.precisionScale, if_neg (not_lt.mpr hnonneg),
        Int.toNat_natCast] at htype
      obtain ⟨hvalid, rfl, rfl⟩ := outputField_eq_some_iff.mp htype
      obtain ⟨out, hout, hstores⟩ := buildRows_of_words
        "to_decimal_arb_from_decimal256" hvalid hrange
      refine ⟨hvalid, out.inner, ?_, hstores⟩
      simp only [DecimalExpr.eval, if_neg (not_lt.mpr hnonneg),
        Int.toNat_natCast, fromDecimal256_eq, hout]
      rfl
  | int ints =>
      obtain rfl := Option.some.inj (Except.ok.inj hcoerce)
      obtain ⟨hrange, rfl⟩ := hvalues
      obtain ⟨hvalid, rfl, rfl⟩ := outputField_eq_some_iff.mp htype
      obtain ⟨out, hout, hstores⟩ := buildRows_of_ints hvalid hrange
      refine ⟨hvalid, out.inner, ?_, hstores⟩
      simp only [DecimalExpr.eval, hout]
      rfl
  | textLiteral text =>
      obtain ⟨bd, hparse, hdigits, rfl⟩ := hvalues
      simp only [coerce, hparse] at hcoerce
      obtain rfl := Option.some.inj (Except.ok.inj hcoerce)
      obtain ⟨hvalid, rfl, rfl⟩ := outputField_eq_some_iff.mp htype
      obtain ⟨out, hout, hstores⟩ := toDecimalArbFromString_replicate
        "to_decimal_arb_from_string" rows hvalid hparse
        (fits_exactPrecisionScale hdigits)
      refine ⟨hvalid, out.inner, ?_, hstores⟩
      simp only [DecimalExpr.eval, hout]
      rfl
  | nullText => exact absurd hvalues id
  | textExpression expression => exact absurd hvalues id
  | null => simp [coerce] at hcoerce
  | other => exact absurd hvalues id

/-! ## Unification -/

theorem branches_eq_some_iff {os : List Operand} {items : List Branch} :
    branches parse os = .ok (some items) ↔
      List.Forall₂ (fun o item => branchOf parse o = .ok (some item)) os
        items := by
  induction os generalizing items with
  | nil =>
      rw [List.forall₂_nil_left_iff, branches, Except.ok.injEq,
        Option.some.injEq]
      exact eq_comm
  | cons o os ih =>
      rw [List.forall₂_cons_left_iff, branches]
      rcases hitem : branchOf parse o with e | _ | item
      · simp [bind, Except.bind]
      · simp [bind, Except.bind, pure, Except.pure]
      · rcases hrest : branches parse os with e | _ | rest
        · simp [bind, Except.bind, ← ih, hrest]
        · simp [bind, Except.bind, pure, Except.pure, ← ih, hrest]
        · simp only [bind, Except.bind, pure, Except.pure, ← ih, hrest,
            Except.ok.injEq, Option.some.injEq]
          constructor
          · rintro rfl
            exact ⟨item, rest, rfl, rfl, rfl⟩
          · rintro ⟨_, _, rfl, rfl, rfl⟩
            rfl

/-- A branch is null, or a coerced operand with its type. -/
theorem branchOf_eq_some
    {o : Operand} {item : Branch} (h : branchOf parse o = .ok (some item)) :
    (o = .null ∧ item = .null o) ∨
      ∃ e p s, item = .arb e p s ∧ coerce parse o = .ok (some e) ∧
        e.precisionScale = some (p, s) := by
  by_cases hnull : o = .null
  · subst hnull
    refine Or.inl ⟨rfl, ?_⟩
    exact (Option.some.inj (Except.ok.inj h)).symm
  · right
    unfold branchOf at h
    split at h
    · exact absurd rfl hnull
    rcases hcoerce : coerce parse o with e | _ | coerced
    · simp [hcoerce, bind, Except.bind] at h
    · simp [hcoerce, bind, Except.bind, pure, Except.pure] at h
    · rcases htype : coerced.precisionScale with _ | ⟨p, s⟩
      · simp [hcoerce, htype, bind, Except.bind, pure, Except.pure] at h
      · refine ⟨coerced, p, s, ?_, rfl, htype⟩
        simpa [hcoerce, htype, bind, Except.bind, pure, Except.pure]
          using h.symm

theorem unify_eq_some
    {operands : List Operand} {exprs : List DecimalExpr} {p s : ℕ}
    (h : unify parse operands = .ok (some (exprs, p, s))) :
    ∃ items, branches parse operands = .ok (some items) ∧
      commonPrecisionScale (items.filterMap Branch.meta?) = .ok (p, s) ∧
      exprs = items.map (Branch.unified p s) := by
  unfold unify at h
  split_ifs at h with hany
  · rcases hitems : branches parse operands with e | _ | items
    · simp [hitems, bind, Except.bind] at h
    · simp [hitems, bind, Except.bind, pure, Except.pure] at h
    · simp only [hitems, bind, Except.bind, pure, Except.pure] at h
      split_ifs at h with hempty
      · simp at h
      · rcases hcommon : commonPrecisionScale (items.filterMap Branch.meta?)
          with e | ⟨p', s'⟩
        · simp [hcommon] at h
        · simp only [hcommon, Except.ok.injEq, Option.some.injEq,
            Prod.mk.injEq] at h
          obtain ⟨rfl, rfl, rfl⟩ := h
          exact ⟨items, rfl, hcommon, rfl⟩
  · simp at h

/-- Every branch yields its values at the common type. -/
theorem unified_yields
    {rows p s : ℕ} {o : Operand} {item : Branch} {items : List Branch}
    {values : List (Option DecimalArbValue)}
    (hcommon : commonPrecisionScale (items.filterMap Branch.meta?) =
      .ok (p, s))
    (hmem : item ∈ items) (hbranch : branchOf parse o = .ok (some item))
    (hvalues : o.Denotes parse rows values) :
    (item.unified p s).Yields parse rows p s values := by
  rcases branchOf_eq_some hbranch with ⟨rfl, rfl⟩ | ⟨e, p', s', rfl, hcoerce,
    htype⟩
  · obtain rfl := hvalues
    refine ⟨List.replicate rows none, rfl, ?_⟩
    exact ExceptLists.forall₂_replicate rows (Eq.refl none)
  · have hmeta : (p', s') ∈ items.filterMap Branch.meta? :=
      List.mem_filterMap.mpr ⟨_, hmem, rfl⟩
    obtain ⟨-, cells, heval, hcells⟩ := coerce_yields hcoerce htype hvalues
    have hfits (x : ℚ) : FitsAt p' s' x → FitsAt p s x :=
      fits_common hcommon hmeta
    change (if s' = s then e else .rescale e p s).Yields parse rows p s
      values
    split_ifs with hscale
    · subst hscale
      exact ⟨cells, heval, hcells.imp fun v cell h =>
        Stores.mono h fun w _ => hfits w.value⟩
    · obtain ⟨out, hout, hstores⟩ := rescaleValues_of_stores
        "decimal_arb_rescale" (commonPrecisionScale_valid hcommon) hcells
        hfits
      refine ⟨out.inner, ?_, hstores⟩
      simp only [DecimalExpr.eval, heval, htype, hout, bind, Except.bind]
      rfl

theorem unify_valid
    {operands : List Operand} {exprs : List DecimalExpr} {p s : ℕ}
    (h : unify parse operands = .ok (some (exprs, p, s))) :
    validatePrecisionScale p s = .ok () := by
  obtain ⟨items, -, hcommon, -⟩ := unify_eq_some h
  exact commonPrecisionScale_valid hcommon

/-- The unified expressions evaluate to columns of the values at the common
type. -/
theorem unify_yields
    {rows p s : ℕ} {operands : List Operand} {exprs : List DecimalExpr}
    {values : List (List (Option DecimalArbValue))}
    (h : unify parse operands = .ok (some (exprs, p, s)))
    (hvalues : List.Forall₂ (Operand.Denotes parse rows) operands values) :
    ∃ columns, List.Forall₂ (fun e cells => e.eval parse rows = .ok cells)
        exprs columns ∧
      List.Forall₂ (List.Forall₂ (Stores p s)) values columns := by
  obtain ⟨items, hitems, hcommon, rfl⟩ := unify_eq_some h
  have hbranches := branches_eq_some_iff.mp hitems
  have hyields (item : Branch) (hmem : item ∈ items) (o : Operand)
      (hbranch : branchOf parse o = .ok (some item))
      (row : List (Option DecimalArbValue))
      (hrow : o.Denotes parse rows row) :
      (item.unified p s).Yields parse rows p s row :=
    unified_yields hcommon hmem hbranch hrow
  clear hitems hcommon h
  induction hbranches generalizing values with
  | nil =>
      obtain rfl := List.forall₂_nil_left_iff.mp hvalues
      exact ⟨[], .nil, .nil⟩
  | @cons o item os items hbranch _ ih =>
      obtain ⟨row, rest, hrow, hrest, rfl⟩ :=
        List.forall₂_cons_left_iff.mp hvalues
      obtain ⟨cells, heval, hcells⟩ :=
        hyields item List.mem_cons_self o hbranch row hrow
      obtain ⟨columns, hcolumns, hstores⟩ := ih hrest fun item hmem =>
        hyields item (List.mem_cons_of_mem _ hmem)
      exact ⟨cells :: columns, .cons heval hcolumns, .cons hcells hstores⟩

/-! ## Columns of decimals -/

def Operand.declaredType : Operand → Option (ℕ × ℕ)
  | .decimalArb p s _ => some (p, s)
  | _ => none

/-- A decimal column, or null. -/
def Operand.IsMember (o : Operand) : Prop :=
  o = .null ∨ ∃ p s cells, o = .decimalArb p s cells

theorem branches_of_members
    (parse : String → Option BigDecimal)
    {operands : List Operand} (h : ∀ o ∈ operands, o.IsMember) :
    ∃ items, branches parse operands = .ok (some items) ∧
      items.filterMap Branch.meta? =
        operands.filterMap Operand.declaredType := by
  induction operands with
  | nil => exact ⟨[], rfl, rfl⟩
  | cons o os ih =>
      rw [List.forall_mem_cons] at h
      obtain ⟨items, hitems, hmetas⟩ := ih h.2
      rcases h.1 with rfl | ⟨p, s, cells, rfl⟩
      · refine ⟨.null .null :: items, ?_, ?_⟩
        · simp [branches, branchOf, hitems, bind, Except.bind, pure,
            Except.pure]
        · rw [List.filterMap_cons_none (by rfl),
            List.filterMap_cons_none (by rfl), hmetas]
      · refine ⟨.arb (.operand (.decimalArb p s cells)) p s :: items, ?_, ?_⟩
        · simp [branches, branchOf, coerce, DecimalExpr.precisionScale,
            hitems, bind, Except.bind, pure, Except.pure]
        · simpa [Branch.meta?, Operand.declaredType] using hmetas

/-- Columns of decimals are unified exactly if their common type exists. -/
theorem unify_of_members
    {operands : List Operand} (h : ∀ o ∈ operands, o.IsMember)
    (hany : operands.any Operand.isDecimalArb) :
    (∀ p s, commonPrecisionScale (operands.filterMap
        Operand.declaredType) = .ok (p, s) →
      ∃ exprs, unify parse operands = .ok (some (exprs, p, s))) ∧
    ∀ e, commonPrecisionScale (operands.filterMap Operand.declaredType) =
        .error e → unify parse operands = .error e := by
  obtain ⟨items, hitems, hmetas⟩ := branches_of_members parse h
  have hne : ¬ (items.filterMap Branch.meta?).isEmpty := by
    rw [hmetas]
    obtain ⟨o, ho, hdecimal⟩ := List.any_eq_true.mp hany
    rcases h o ho with rfl | ⟨p, s, cells, rfl⟩
    · simp [Operand.isDecimalArb] at hdecimal
    · have hmem : (p, s) ∈ operands.filterMap Operand.declaredType :=
        List.mem_filterMap.mpr ⟨_, ho, rfl⟩
      rw [List.isEmpty_iff]
      exact List.ne_nil_of_mem hmem
  constructor
  · intro p s hcommon
    refine ⟨items.map (Branch.unified p s), ?_⟩
    rw [unify, if_neg (not_not.mpr hany), hitems]
    rw [hmetas] at hne
    simp only [bind, Except.bind, hmetas, if_neg hne, hcommon]
    rfl
  · intro e hcommon
    rw [unify, if_neg (not_not.mpr hany), hitems]
    rw [hmetas] at hne
    simp only [bind, Except.bind, hmetas, if_neg hne, hcommon]

end Streamling
