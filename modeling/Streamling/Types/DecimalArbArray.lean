import Mathlib
import Streamling.Support.ExceptLists
import Streamling.Types.DecimalArbFits

/-!
# Arrays of arbitrary-precision decimals

A builder checks every value against the declared precision and scale and
stores its canonical bytes at the scale; an array decodes a row at the same
scale.  A loop that appends a row for every row of its input succeeds exactly
if every row does, and row `i` of its result is that of row `i`.
-/

namespace Streamling

/-! ## Builder and array -/

structure DecimalArbArrayBuilder where
  column : String
  precision : ℕ
  scale : ℕ
  builder : List (Option (List UInt8))

/-- The rows are canonical bytes at the scale, or null. -/
structure DecimalArbArray where
  inner : List (Option (List UInt8))
  precision : ℕ
  scale : ℕ
  deriving DecidableEq, Repr

namespace DecimalArbArrayBuilder

def withCapacity (column : String) (precision scale : ℕ) :
    Except DecimalArbError DecimalArbArrayBuilder := do
  validatePrecisionScale precision scale
  return { column, precision, scale, builder := [] }

def appendValue (b : DecimalArbArrayBuilder) (value : DecimalArbValue) :
    Except DecimalArbError DecimalArbArrayBuilder := do
  value.checkFits b.precision b.scale b.column
  let bytes := value.toCanonicalBytesAtScale b.scale
  return { b with builder := b.builder ++ [some bytes] }

def appendNull (b : DecimalArbArrayBuilder) : DecimalArbArrayBuilder :=
  { b with builder := b.builder ++ [none] }

def finish (b : DecimalArbArrayBuilder) : DecimalArbArray where
  inner := b.builder
  precision := b.precision
  scale := b.scale

end DecimalArbArrayBuilder

/-- A row of stored bytes at a scale. -/
def decodeValue (cell : Option (List UInt8)) (scale : ℕ) :
    Except DecimalArbError (Option DecimalArbValue) :=
  match cell with
  | none => .ok none
  | some bytes => do
      let value ← DecimalArbValue.fromCanonicalBytesAtScale bytes scale
      return some value

/-- A value, or null, is appended for every row.  What computes the values may
have errors of its own, and `lift` are those of the builder among them. -/
def appendRows {α ε : Type} (lift : DecimalArbError → ε)
    (value : α → Except ε (Option DecimalArbValue)) :
    DecimalArbArrayBuilder → List α → Except ε DecimalArbArrayBuilder
  | b, [] => .ok b
  | b, row :: rows => do
      match ← value row with
      | none => appendRows lift value b.appendNull rows
      | some v =>
          let b ← (b.appendValue v).mapError lift
          appendRows lift value b rows

/-- A builder for the column, a row for every row, and the array. -/
def buildRows {α ε : Type} (lift : DecimalArbError → ε) (column : String)
    (precision scale : ℕ) (value : α → Except ε (Option DecimalArbValue))
    (rows : List α) : Except ε DecimalArbArray := do
  let b ← (DecimalArbArrayBuilder.withCapacity column precision
    scale).mapError lift
  let b ← appendRows lift value b rows
  return b.finish

/-! ## Cells -/

namespace DecimalArbValue

/-- The cell stores the value, or the null, in a column of the precision and
scale. -/
def Stores (precision scale : ℕ) :
    Option DecimalArbValue → Option (List UInt8) → Prop
  | none, cell => cell = none
  | some v, cell =>
      FitsAt precision scale v.value ∧
        cell = some (v.toCanonicalBytesAtScale scale)

theorem Stores.functional
    {precision scale : ℕ} {v : Option DecimalArbValue}
    {cell cell' : Option (List UInt8)}
    (h : Stores precision scale v cell)
    (h' : Stores precision scale v cell') : cell = cell' := by
  rcases v with _ | v
  · exact Eq.trans h (Eq.symm h')
  · exact h.2.trans h'.2.symm

/-- A value that fits is decoded as a value of the same number. -/
theorem exists_decoded_of_fits
    {precision scale : ℕ} {v : DecimalArbValue}
    (h : FitsAt precision scale v.value) :
    ∃ w, fromCanonicalBytesAtScale (v.toCanonicalBytesAtScale scale) scale =
      .ok w ∧ w.value = v.value := by
  obtain ⟨m, hm, -⟩ := h
  refine ⟨fromBigintAndScale m scale, ?_, ?_⟩
  · rw [toCanonicalBytesAtScale_of_units hm]
    exact fromCanonicalBytesAtScale_encodeDigits m scale
  · exact (value_eq_iff_units (value_fromBigintAndScale_mul m scale)
      hm).mpr rfl

theorem decodeValue_of_fits
    {precision scale : ℕ} {v : DecimalArbValue}
    (h : FitsAt precision scale v.value) :
    ∃ w, decodeValue (some (v.toCanonicalBytesAtScale scale)) scale =
      .ok (some w) ∧ w.value = v.value := by
  obtain ⟨w, hw, hvalue⟩ := exists_decoded_of_fits h
  refine ⟨w, ?_, hvalue⟩
  rw [decodeValue, hw]
  rfl

theorem toCanonicalBytesAtScale_congr
    {precision scale : ℕ} {v w : DecimalArbValue}
    (h : FitsAt precision scale v.value) (heq : v.value = w.value) :
    v.toCanonicalBytesAtScale scale = w.toCanonicalBytesAtScale scale := by
  obtain ⟨m, hm, -⟩ := h
  rw [toCanonicalBytesAtScale_of_units hm,
    toCanonicalBytesAtScale_of_units (heq ▸ hm)]

end DecimalArbValue

/-! ## Loops over rows -/

namespace DecimalArbArrayBuilder

theorem withCapacity_eq_ok_iff
    {column : String} {precision scale : ℕ} {b : DecimalArbArrayBuilder} :
    withCapacity column precision scale = .ok b ↔
      validatePrecisionScale precision scale = .ok () ∧
        b = { column, precision, scale, builder := [] } := by
  unfold withCapacity
  cases validatePrecisionScale precision scale with
  | error e => simp [bind, Except.bind]
  | ok u =>
      simp only [bind, Except.bind, pure, Except.pure, Except.ok.injEq,
        true_and]
      exact eq_comm

theorem appendValue_eq_ok_iff
    {b b' : DecimalArbArrayBuilder} {v : DecimalArbValue} :
    b.appendValue v = .ok b' ↔
      v.checkFits b.precision b.scale b.column = .ok () ∧
        b' = { b with
          builder := b.builder ++ [some (v.toCanonicalBytesAtScale b.scale)] }
    := by
  unfold appendValue
  cases v.checkFits b.precision b.scale b.column with
  | error e => simp [bind, Except.bind]
  | ok u =>
      simp only [bind, Except.bind, pure, Except.pure, Except.ok.injEq,
        true_and]
      exact eq_comm

/-- One more cell. -/
def push (b : DecimalArbArrayBuilder) (cell : Option (List UInt8)) :
    DecimalArbArrayBuilder :=
  { b with builder := b.builder ++ [cell] }

end DecimalArbArrayBuilder

open DecimalArbArrayBuilder DecimalArbValue

variable {α ε : Type} {lift : DecimalArbError → ε}
  {value : α → Except ε (Option DecimalArbValue)}

/-- A row appends the cell that stores its value. -/
theorem appendRows_cons_eq_ok_iff
    {b b' : DecimalArbArrayBuilder} {row : α} {rows : List α}
    (hvalid : validatePrecisionScale b.precision b.scale = .ok ()) :
    appendRows lift value b (row :: rows) = .ok b' ↔
      ∃ v cell, value row = .ok v ∧ Stores b.precision b.scale v cell ∧
        appendRows lift value (b.push cell) rows = .ok b' := by
  rw [appendRows]
  rcases hrow : value row with e | _ | v
  · simp [bind, Except.bind]
  · simp [bind, Except.bind, Stores, push, appendNull]
  · have hfits := checkFits_eq_ok_iff v b.precision b.scale b.column
    rw [hvalid] at hfits
    simp only [bind, Except.bind, Except.ok.injEq, exists_and_left,
      exists_eq_left', Stores]
    cases happend : b.appendValue v with
    | error e =>
        have hnot : ¬ FitsAt b.precision b.scale v.value := by
          intro hfit
          have hok := (appendValue_eq_ok_iff (b := b) (v := v)).mpr
            ⟨hfits.mpr ⟨rfl, hfit⟩, rfl⟩
          rw [happend] at hok
          simp at hok
        simp [Except.mapError, hnot]
    | ok b₁ =>
        obtain ⟨hcheck, rfl⟩ := appendValue_eq_ok_iff.mp happend
        simp [Except.mapError, (hfits.mp hcheck).2, push]

theorem appendRows_eq_ok_iff
    {b b' : DecimalArbArrayBuilder} {rows : List α}
    (hvalid : validatePrecisionScale b.precision b.scale = .ok ()) :
    appendRows lift value b rows = .ok b' ↔
      ∃ cells, List.Forall₂ (fun row cell => ∃ v, value row = .ok v ∧
          Stores b.precision b.scale v cell) rows cells ∧
        b' = { b with builder := b.builder ++ cells } := by
  induction rows generalizing b with
  | nil =>
      simp only [appendRows, List.forall₂_nil_left_iff, exists_eq_left,
        List.append_nil, Except.ok.injEq]
      exact eq_comm
  | cons row rows ih =>
      rw [appendRows_cons_eq_ok_iff hvalid]
      constructor
      · rintro ⟨v, cell, hv, hcell, hrest⟩
        obtain ⟨cells, hcells, rfl⟩ :=
          (ih (b := b.push cell) hvalid).mp hrest
        refine ⟨cell :: cells, .cons ⟨v, hv, hcell⟩ hcells, ?_⟩
        simp [push]
      · rintro ⟨_, hcells, rfl⟩
        obtain ⟨cell, cells, ⟨v, hv, hcell⟩, hrest, rfl⟩ :=
          List.forall₂_cons_left_iff.mp hcells
        refine ⟨v, cell, hv, hcell, ?_⟩
        rw [ih (b := b.push cell) hvalid]
        exact ⟨cells, hrest, by simp [push]⟩

/-- An error is one of the builder or that of a row. -/
theorem error_of_appendRows
    {b : DecimalArbArrayBuilder} {rows : List α} {e : ε}
    (h : appendRows lift value b rows = .error e) :
    (∃ cause, e = lift cause) ∨ ∃ row ∈ rows, value row = .error e := by
  induction rows generalizing b with
  | nil => exact absurd h (by simp [appendRows])
  | cons row rows ih =>
      have hrest : ∀ b', appendRows lift value b' rows = .error e →
          (∃ cause, e = lift cause) ∨
            ∃ row' ∈ row :: rows, value row' = .error e := by
        intro b' hb'
        rcases ih hb' with hcause | ⟨row', hmem, hrow'⟩
        · exact .inl hcause
        · exact .inr ⟨row', List.mem_cons_of_mem row hmem, hrow'⟩
      rw [appendRows] at h
      rcases hrow : value row with e' | _ | v
      · rw [hrow] at h
        obtain rfl := Except.error.inj h
        exact .inr ⟨row, List.mem_cons_self, hrow⟩
      · rw [hrow] at h
        exact hrest _ h
      · rw [hrow] at h
        cases happend : b.appendValue v with
        | error cause =>
            simp only [bind, Except.bind, happend, Except.mapError,
              Except.error.injEq] at h
            exact .inl ⟨cause, h.symm⟩
        | ok b' =>
            simp only [bind, Except.bind, happend, Except.mapError] at h
            exact hrest b' h

theorem error_of_buildRows
    {column : String} {precision scale : ℕ} {rows : List α} {e : ε}
    (h : buildRows lift column precision scale value rows = .error e) :
    (∃ cause, e = lift cause) ∨ ∃ row ∈ rows, value row = .error e := by
  unfold buildRows at h
  cases hbuilder : withCapacity column precision scale with
  | error cause =>
      simp only [hbuilder, bind, Except.bind, Except.mapError,
        Except.error.injEq] at h
      exact .inl ⟨cause, h.symm⟩
  | ok b =>
      cases happend : appendRows lift value b rows with
      | error e' =>
          simp only [hbuilder, happend, bind, Except.bind, Except.mapError,
            Except.error.injEq] at h
          obtain rfl := h
          exact error_of_appendRows happend
      | ok b' =>
          simp [hbuilder, happend, bind, Except.bind, Except.mapError, pure,
            Except.pure] at h

theorem storedRow_functional {precision scale : ℕ} :
    Relator.RightUnique fun (row : α) cell => ∃ v, value row = .ok v ∧
      Stores precision scale v cell := by
  rintro row cell cell' ⟨v, hv, hcell⟩ ⟨w, hw, hcell'⟩
  obtain rfl := Except.ok.inj (hv.symm.trans hw)
  exact hcell.functional hcell'

/-- A loop over rows gives an array exactly if the precision and scale are
valid and every row has a value that fits. -/
theorem buildRows_eq_ok_iff
    {column : String} {precision scale : ℕ} {rows : List α}
    {out : DecimalArbArray} :
    buildRows lift column precision scale value rows = .ok out ↔
      validatePrecisionScale precision scale = .ok () ∧
      out.precision = precision ∧ out.scale = scale ∧
      List.Forall₂ (fun row cell => ∃ v, value row = .ok v ∧
        Stores precision scale v cell) rows out.inner := by
  unfold buildRows
  cases hbuilder : withCapacity column precision scale with
  | error e =>
      have hnot : validatePrecisionScale precision scale ≠ .ok () := by
        intro hvalid
        have hok := withCapacity_eq_ok_iff.mpr
          (And.intro hvalid (Eq.refl (DecimalArbArrayBuilder.mk column
            precision scale [])))
        rw [hbuilder] at hok
        simp at hok
      simp [Except.mapError, bind, Except.bind, hnot]
  | ok b =>
      obtain ⟨hvalid, rfl⟩ := withCapacity_eq_ok_iff.mp hbuilder
      simp only [Except.mapError, bind, Except.bind, hvalid, true_and]
      cases happend : appendRows lift value
          { column, precision, scale, builder := [] } rows with
      | error e =>
          simp only [reduceCtorEq, false_iff, not_and]
          rintro - - hcells
          have hok : appendRows lift value
              { column, precision, scale, builder := [] } rows =
                .ok { column, precision, scale, builder := [] ++ out.inner } :=
            (appendRows_eq_ok_iff hvalid).mpr ⟨out.inner, hcells, rfl⟩
          rw [happend] at hok
          simp at hok
      | ok b =>
          obtain ⟨cells, hcells, rfl⟩ :=
            (appendRows_eq_ok_iff hvalid).mp happend
          constructor
          · intro h
            obtain rfl := Except.ok.inj h
            exact ⟨rfl, rfl, hcells⟩
          · rintro ⟨rfl, rfl, hinner⟩
            have heq : cells = out.inner :=
              List.right_unique_forall₂' storedRow_functional hcells hinner
            rw [heq]
            rfl

end Streamling
