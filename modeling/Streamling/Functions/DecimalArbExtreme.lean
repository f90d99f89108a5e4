import Mathlib
import Streamling.Functions.DecimalArbUnifyExact

/-!
# Greatest and least of members

Arguments at different scales are decoded each at its own, compared as
numbers, and the extreme is encoded once at the common type.
-/

namespace Streamling

open DecimalArbValue

/-! ## Extremes -/

/-- The number bounds the other on the side of the extreme. -/
def ExtremeKind.Bounds (kind : ExtremeKind) (m x : ℚ) : Prop :=
  match kind with
  | .greatest => x ≤ m
  | .least => m ≤ x

/-- The extreme of the numbers that are not null; null if there is none. -/
def IsExtreme (kind : ExtremeKind) (args : List (Option ℚ)) :
    Option ℚ → Prop
  | none => ∀ x ∈ args, x = none
  | some m => some m ∈ args ∧ ∀ x, some x ∈ args → kind.Bounds m x

theorem ExtremeKind.Bounds.trans
    {kind : ExtremeKind} {m x y : ℚ}
    (hm : kind.Bounds m x) (hx : kind.Bounds x y) : kind.Bounds m y := by
  cases kind with
  | greatest => exact le_trans hx hm
  | least => exact le_trans hm hx

/-- The kept value is one of the two and bounds both. -/
theorem keepExtreme_spec
    (kind : ExtremeKind) (current : Option DecimalArbValue)
    (v : DecimalArbValue) :
    ∃ w, keepExtreme kind current v = some w ∧
      (w = v ∨ current = some w) ∧ kind.Bounds w.value v.value ∧
      ∀ c, current = some c → kind.Bounds w.value c.value := by
  rcases current with _ | c
  · refine ⟨v, rfl, Or.inl rfl, ?_, by simp⟩
    cases kind <;> exact le_refl _
  · by_cases hkeep : kind.keep v c = true
    · refine ⟨v, by simp [keepExtreme, hkeep], Or.inl rfl, ?_, ?_⟩
      · cases kind <;> exact le_refl _
      · rintro _ ⟨⟩
        cases kind with
        | greatest => exact le_of_lt (by simpa [ExtremeKind.keep] using hkeep)
        | least => exact le_of_lt (by simpa [ExtremeKind.keep] using hkeep)
    · refine ⟨c, by simp [keepExtreme, hkeep], Or.inr rfl, ?_, ?_⟩
      · cases kind with
        | greatest => exact not_lt.mp (by simpa [ExtremeKind.keep] using hkeep)
        | least => exact not_lt.mp (by simpa [ExtremeKind.keep] using hkeep)
      · rintro _ ⟨⟩
        cases kind <;> exact le_refl _

/-- A row of a column has a value of the number. -/
def RowHolds (row : ℕ) (column : List (Option (List UInt8)) × ℕ)
    (x : Option ℚ) : Prop :=
  ∃ cell v, column.1[row]? = some cell ∧
    decodeValue cell column.2 = .ok v ∧ v.map value = x

/-- The loop over the columns keeps the extreme of those it has passed. -/
theorem extremeRow_spec
    (kind : ExtremeKind) {row : ℕ}
    {columns : List (List (Option (List UInt8)) × ℕ)} {xs : List (Option ℚ)}
    (h : List.Forall₂ (RowHolds row) columns xs)
    (current : Option DecimalArbValue) :
    ∃ r, extremeRow kind row current columns = .ok r ∧
      IsExtreme kind (current.map value :: xs) (r.map value) := by
  induction h generalizing current with
  | nil =>
      refine ⟨current, rfl, ?_⟩
      rcases current with _ | c
      · simp [IsExtreme]
      · refine ⟨by simp, ?_⟩
        intro x hx
        obtain rfl : x = c.value := by simpa using hx
        cases kind <;> exact le_refl _
  | @cons column x columns xs hrow _ ih =>
      obtain ⟨cell, v, hcell, hdecode, rfl⟩ := hrow
      rcases v with _ | v
      · obtain ⟨r, hr, hextreme⟩ := ih current
        refine ⟨r, ?_, ?_⟩
        · simp [extremeRow, hcell, hdecode, Except.mapError, bind,
            Except.bind, hr]
        · rcases r with _ | r
          · simpa [IsExtreme] using hextreme
          · simpa [IsExtreme] using hextreme
      · obtain ⟨w, hkeep, hmem, hv, hcurrent⟩ :=
          keepExtreme_spec kind current v
        obtain ⟨r, hr, hextreme⟩ := ih (some w)
        refine ⟨r, ?_, ?_⟩
        · simp [extremeRow, hcell, hdecode, Except.mapError, bind,
            Except.bind, hkeep, hr]
        · rcases r with _ | r
          · simp [IsExtreme] at hextreme
          · obtain ⟨hr, hbounds⟩ := hextreme
            have hw : kind.Bounds r.value w.value :=
              hbounds w.value List.mem_cons_self
            refine ⟨?_, ?_⟩
            · rcases List.mem_cons.mp hr with heq | hr
              · rcases hmem with rfl | rfl
                · rw [heq]
                  simp
                · rw [heq]
                  simp
              · exact List.mem_cons_of_mem _ (List.mem_cons_of_mem _ hr)
            · intro x hx
              rcases List.mem_cons.mp hx with hx | hx
              · obtain ⟨c, rfl, rfl⟩ := Option.map_eq_some_iff.mp hx.symm
                exact hw.trans (hcurrent c rfl)
              · rcases List.mem_cons.mp hx with hx | hx
                · obtain rfl : x = v.value := by simpa using hx
                  exact hw.trans hv
                · exact hbounds x (List.mem_cons_of_mem _ hx)

/-- Typed columns of the arguments of a batch and the values they store. -/
def StoredColumn (rows : ℕ) (column : (ℕ × ℕ) × List (Option (List UInt8)))
    (values : List (Option DecimalArbValue)) : Prop :=
  column.2.length = rows ∧
    List.Forall₂ (Stores column.1.1 column.1.2) values column.2

/-- The numbers of row `k`. -/
def rowNumbers (columns : List (List (Option DecimalArbValue))) (k : ℕ) :
    List (Option ℚ) :=
  columns.map fun values => (values[k]?).join.map value

theorem rowHolds_of_stored
    {rows k : ℕ} {columns : List ((ℕ × ℕ) × List (Option (List UInt8)))}
    {values : List (List (Option DecimalArbValue))}
    (h : List.Forall₂ (StoredColumn rows) columns values) (hk : k < rows) :
    List.Forall₂ (RowHolds k)
      (columns.map fun column => (column.2, column.1.2))
      (rowNumbers values k) := by
  rw [rowNumbers, List.forall₂_map_left_iff, List.forall₂_map_right_iff]
  refine h.imp ?_
  rintro column row ⟨hlength, hstores⟩
  obtain ⟨hvalues, hget⟩ := List.forall₂_iff_get.mp hstores
  have hcell : k < column.2.length := hlength ▸ hk
  have hvalue : k < row.length := hvalues ▸ hcell
  obtain ⟨w, hw, hnumber⟩ := decodeValue_of_stores (hget k hvalue hcell)
  refine ⟨_, w, List.getElem?_eq_getElem hcell, hw, ?_⟩
  rw [hnumber, List.getElem?_eq_getElem hvalue]
  rfl

/-- A number of a row fits the type of its column. -/
theorem fits_of_mem_rowNumbers
    {rows k p s : ℕ} {columns : List ((ℕ × ℕ) × List (Option (List UInt8)))}
    {values : List (List (Option DecimalArbValue))}
    (h : List.Forall₂ (StoredColumn rows) columns values)
    (hcommon : commonPrecisionScale (columns.map Prod.fst) = .ok (p, s))
    {x : ℚ} (hx : some x ∈ rowNumbers values k) : FitsAt p s x := by
  obtain ⟨row, hrow, hnumber⟩ := List.mem_map.mp hx
  obtain ⟨v, hv, rfl⟩ := Option.map_eq_some_iff.mp hnumber
  obtain ⟨column, hcolumn, -, hstores⟩ :=
    ExceptLists.exists_of_mem_right h hrow
  obtain ⟨hlength, hget⟩ := List.forall₂_iff_get.mp hstores
  have hlookup : row[k]? = some (some v) := Option.join_eq_some_iff.mp hv
  obtain ⟨hk, hvalue⟩ := List.getElem?_eq_some_iff.mp hlookup
  have hcell := hget k hk (hlength ▸ hk)
  rw [List.get_eq_getElem, hvalue] at hcell
  exact fits_common hcommon (List.mem_map.mpr ⟨column, hcolumn, rfl⟩) hcell.1

/-- The function gives the extreme of every row. -/
theorem extremeFunc_spec
    (kind : ExtremeKind) {rows p s : ℕ}
    {columns : List ((ℕ × ℕ) × List (Option (List UInt8)))}
    {values : List (List (Option DecimalArbValue))}
    (hne : columns ≠ [])
    (h : List.Forall₂ (StoredColumn rows) columns values)
    (hcommon : commonPrecisionScale (columns.map Prod.fst) = .ok (p, s)) :
    ∃ out, extremeFunc kind rows p s
        (columns.map fun column => (column.2, column.1.2)) = .ok out ∧
      List.Forall₂ (fun k cell => ∃ v,
        IsExtreme kind (rowNumbers values k) (v.map value) ∧
          Stores p s v cell) (List.range rows) out.inner := by
  have hrow (k : ℕ) (hk : k ∈ List.range rows) : ∃ cell, ∃ v,
      extremeRow kind k none
          (columns.map fun column => (column.2, column.1.2)) = .ok v ∧
        IsExtreme kind (rowNumbers values k) (v.map value) ∧
        Stores p s v cell := by
    have hholds := rowHolds_of_stored h (List.mem_range.mp hk)
    obtain ⟨v, hv, hextreme⟩ := extremeRow_spec kind hholds none
    have hrest : IsExtreme kind (rowNumbers values k) (v.map value) := by
      rcases v with _ | v
      · simpa [IsExtreme] using hextreme
      · simpa [IsExtreme] using hextreme
    rcases v with _ | v
    · exact ⟨none, none, hv, hrest, Eq.refl none⟩
    · have hfits := fits_of_mem_rowNumbers h hcommon hrest.1
      exact ⟨_, some v, hv, hrest, hfits, rfl⟩
  obtain ⟨cells, hcells⟩ := ExceptLists.exists_forall₂_iff.mpr hrow
  refine ⟨⟨cells, p, s⟩, ?_, ?_⟩
  · rw [extremeFunc, if_neg (by simpa using hne), buildRows_eq_ok_iff]
    refine ⟨commonPrecisionScale_valid hcommon, rfl, rfl, ?_⟩
    exact hcells.imp fun k cell ⟨v, hv, _, hstores⟩ => ⟨v, hv, hstores⟩
  · exact hcells.imp fun k cell ⟨v, _, hextreme, hstores⟩ =>
      ⟨v, hextreme, hstores⟩

/-! ## Members compare as numbers -/

/-- The entry of a row of a column that is not null. -/
def entryAt {β : Type} (columns : List (List (Option β))) (i k : ℕ) :
    Option β :=
  ((columns[i]?).bind fun column => column[k]?).join

theorem stores_eq_iff
    {p s : ℕ} {x y : DecimalArbValue} {cell cell' : Option (List UInt8)}
    (hx : Stores p s (some x) cell) (hy : Stores p s (some y) cell') :
    cell = cell' ↔ x.value = y.value := by
  obtain ⟨⟨m, hm, -⟩, rfl⟩ := hx
  obtain ⟨⟨k, hk, -⟩, rfl⟩ := hy
  rw [toCanonicalBytesAtScale_of_units hm,
    toCanonicalBytesAtScale_of_units hk, Option.some.injEq, encodeDigits_inj,
    value_eq_iff_units hm hk]

theorem entryAt_stores
    {p s i k : ℕ} {values : List (List (Option DecimalArbValue))}
    {columns : List (List (Option (List UInt8)))}
    (h : List.Forall₂ (List.Forall₂ (Stores p s)) values columns)
    {x : DecimalArbValue} (hx : entryAt values i k = some x) :
    Stores p s (some x) (entryAt columns i k) := by
  obtain ⟨row, hrow, hk⟩ :=
    Option.bind_eq_some_iff.mp (Option.join_eq_some_iff.mp hx)
  obtain ⟨column, hcolumn, hstores⟩ :=
    ExceptLists.exists_getElem?_of_forall₂ h hrow
  obtain ⟨cell, hcell, hstored⟩ :=
    ExceptLists.exists_getElem?_of_forall₂ hstores hk
  have hentry : entryAt columns i k = cell := by
    simp [entryAt, hcolumn, hcell]
  rw [hentry]
  exact hstored

/-- Every value of a member is re-encoded exactly at the common type, which
exists unless it needs too many digits; re-encoding never rounds.  After
unification two values have equal bytes exactly if they are equal numbers,
and the extreme functions give the extremes of the numbers. -/
theorem unified_bytes_numeric (parse : String → Option BigDecimal) :
    (∀ metas : List (ℕ × ℕ),
      (∀ m ∈ metas, validatePrecisionScale m.1 m.2 = .ok ()) →
      (unifiedPrecision metas ≤ maxPrecision →
        ∃ p s, commonPrecisionScale metas = .ok (p, s) ∧
          validatePrecisionScale p s = .ok () ∧
          ∀ m ∈ metas, ∀ column values cells,
            List.Forall₂ (Stores m.1 m.2) values cells →
            ∃ out, rescaleValues cells m.2 column p s = .ok out ∧
              List.Forall₂ (Stores p s) values out.inner) ∧
      (maxPrecision < unifiedPrecision metas →
        ∃ e, commonPrecisionScale metas = .error e)) ∧
    (∀ cells s column p' s' out,
      rescaleValues cells s column p' s' = .ok out →
      List.Forall₂ (fun cell cell' => ∃ v w, decodeValue cell s = .ok v ∧
        decodeValue cell' s' = .ok w ∧ w.map value = v.map value)
        cells out.inner) ∧
    (∀ operands : List Operand, (∀ o ∈ operands, o.IsMember) →
      operands.any Operand.isDecimalArb →
      (∀ p s, commonPrecisionScale (operands.filterMap
          Operand.declaredType) = .ok (p, s) →
        ∃ exprs, unify parse operands = .ok (some (exprs, p, s))) ∧
      ∀ e, commonPrecisionScale (operands.filterMap Operand.declaredType) =
        .error e → unify parse operands = .error e) ∧
    (∀ rows operands exprs p s values,
      unify parse operands = .ok (some (exprs, p, s)) →
      List.Forall₂ (Operand.Denotes parse rows) operands values →
      validatePrecisionScale p s = .ok () ∧
      ∃ columns, List.Forall₂ (fun e cells => e.eval parse rows = .ok cells)
          exprs columns ∧
        List.Forall₂ (List.Forall₂ (Stores p s)) values columns ∧
        ∀ i j k l x y, entryAt values i k = some x →
          entryAt values j l = some y →
          (entryAt columns i k = entryAt columns j l ↔
            x.value = y.value)) ∧
    ∀ (kind : ExtremeKind) (rows p s : ℕ) columns values, columns ≠ [] →
      List.Forall₂ (StoredColumn rows) columns values →
      commonPrecisionScale (columns.map Prod.fst) = .ok (p, s) →
      ∃ out, extremeFunc kind rows p s
          (columns.map fun column => (column.2, column.1.2)) = .ok out ∧
        List.Forall₂ (fun k cell => ∃ v,
          IsExtreme kind (rowNumbers values k) (v.map value) ∧
            Stores p s v cell) (List.range rows) out.inner := by
  refine ⟨?_, ?_, ?_, ?_, ?_⟩
  · intro metas _
    refine ⟨?_, commonPrecisionScale_error⟩
    intro hle
    have hcommon : commonPrecisionScale metas =
        .ok (max (unifiedPrecision metas) 1, widestScale metas) :=
      commonPrecisionScale_eq_ok_iff.mpr ⟨hle, rfl, rfl⟩
    refine ⟨_, _, hcommon, commonPrecisionScale_valid hcommon, ?_⟩
    intro m hm column values cells hcells
    exact rescaleValues_of_stores column (commonPrecisionScale_valid hcommon)
      hcells fun x => fits_common hcommon hm
  · intro cells s column p' s' out hout
    exact rescaleValues_exact hout
  · intro operands hmembers hany
    exact unify_of_members hmembers hany
  · intro rows operands exprs p s values hunify hvalues
    obtain ⟨columns, hcolumns, hstores⟩ := unify_yields hunify hvalues
    refine ⟨unify_valid hunify, columns, hcolumns, hstores, ?_⟩
    intro i j k l x y hx hy
    exact stores_eq_iff (entryAt_stores hstores hx)
      (entryAt_stores hstores hy)
  · intro kind rows p s columns values hne hstored hcommon
    exact extremeFunc_spec kind hne hstored hcommon

/-- A column that is already at the common scale and a literal that is not. -/
theorem unified_bytes_numeric_seven :
    ∃ exprs columns,
      unify parseOnlySeven [.decimalArb 3 1 [some [0, 70]],
        .textLiteral "7"] = .ok (some (exprs, 3, 1)) ∧
      List.Forall₂ (fun (e : DecimalExpr) cells =>
        e.eval parseOnlySeven 1 = .ok cells) exprs columns ∧
      entryAt columns 0 0 = entryAt columns 1 0 := by
  obtain ⟨-, -, -, hunify, -⟩ := unified_bytes_numeric parseOnlySeven
  have hexprs : unify parseOnlySeven [.decimalArb 3 1 [some [0, 70]],
      .textLiteral "7"] = .ok (some ([.operand (.decimalArb 3 1
        [some [0, 70]]), .rescale (.fromString (.textLiteral "7") 1 0) 3 1],
        3, 1)) := by
    decide +kernel
  have hcolumn : Operand.Denotes parseOnlySeven 1
      (.decimalArb 3 1 [some [0, 70]]) [some (fromBigintAndScale 70 1)] := by
    refine ⟨by decide, .cons ⟨?_, ?_⟩ .nil⟩
    · exact ⟨70, value_fromBigintAndScale_mul 70 1, by norm_num⟩
    · decide +kernel
  have hliteral : Operand.Denotes parseOnlySeven 1 (.textLiteral "7")
      [some (fromBigdecimal ⟨7, 0⟩)] :=
    ⟨⟨7, 0⟩, by decide, by decide +kernel, rfl⟩
  obtain ⟨-, columns, hcolumns, -, heq⟩ := hunify 1 _ _ 3 1 _ hexprs
    (.cons hcolumn (.cons hliteral .nil))
  refine ⟨_, columns, hexprs, hcolumns, ?_⟩
  apply (heq 0 1 0 0 _ _ rfl rfl).mpr
  rw [value_fromBigdecimal, fromBigintAndScale, value_canonicalize]
  norm_num [BigDecimal.value]

end Streamling
