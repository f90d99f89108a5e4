import Mathlib
import Streamling.Types.LegacyWideInt
import Streamling.Types.DecimalArbFits

/-!
# The words of the retired integer types

A word and the integer it stands for determine one another in the 256-bit
range, a decimal has a word exactly if it is such an integer, and a leaf is
upgraded to the canonical bytes of the same integers.
-/

namespace BigDecimal

theorem digits_withScale
    {d : BigDecimal} {n : ℤ} (h : d.value = n) :
    (d.withScale 0).digits = n := by
  unfold withScale
  split
  · rename_i hscale
    have hexp : ((-d.scale).toNat : ℤ) = -d.scale :=
      Int.toNat_of_nonneg (by omega)
    rw [value, ← hexp, zpow_natCast] at h
    rw [zero_sub]
    exact_mod_cast h
  · rename_i hscale
    obtain ⟨k, hk⟩ := Int.eq_ofNat_of_zero_le (not_le.mp hscale).le
    have hdigits : d.digits = n * 10 ^ k := by
      have hmul := value_mul_zpow d d.scale
      rw [h, sub_self, zpow_zero, mul_one, hk, zpow_natCast] at hmul
      exact_mod_cast hmul.symm
    rw [sub_zero, hk, Int.toNat_natCast, hdigits]
    exact Int.mul_tdiv_cancel n (by positivity)

end BigDecimal

namespace Streamling

namespace ArrowTree

open DecimalArbValue BigEndian

/-! ## Words and integers -/

/-- The 256-bit range of a kind. -/
def WideIntRange : NativeIntKind → ℤ → Prop
  | .u256, n => 0 ≤ n ∧ n < 2 ^ 256
  | .i256, n => -2 ^ 255 ≤ n ∧ n < 2 ^ 255

theorem wideInt_range
    (kind : NativeIntKind) {be : List UInt8} (hlength : be.length = 32) :
    WideIntRange kind (wideInt kind be) := by
  cases kind with
  | u256 =>
      have hlt := ofBytes_lt be
      rw [hlength] at hlt
      have hpow : 256 ^ 32 = 2 ^ 256 := by norm_num
      rw [hpow] at hlt
      refine ⟨Int.natCast_nonneg _, ?_⟩
      show (ofBytes be : ℤ) < 2 ^ 256
      exact_mod_cast hlt
  | i256 =>
      obtain ⟨hlow, hhigh⟩ := ofSignedBytes_bounds (k := 31) hlength
      have hpow : (128 * 256 ^ 31 : ℤ) = 2 ^ 255 := by norm_num
      rw [hpow] at hlow hhigh
      exact ⟨hlow, hhigh⟩

theorem wideInt_injective
    {kind : NativeIntKind} {a b : List UInt8} (ha : a.length = 32)
    (hb : b.length = 32) (h : wideInt kind a = wideInt kind b) : a = b := by
  apply eq_of_ofBytes_eq (ha.trans hb.symm)
  cases kind with
  | u256 => exact Int.natCast_inj.mp h
  | i256 =>
      have hmoda := ofSignedBytes_modEq a
      have hmodb := ofSignedBytes_modEq b
      have hequal : ofSignedBytes a = ofSignedBytes b := h
      rw [hequal] at hmoda
      rw [ha] at hmoda
      rw [hb] at hmodb
      have hmod := hmoda.symm.trans hmodb
      have hlta := ofBytes_lt a
      have hltb := ofBytes_lt b
      rw [ha] at hlta
      rw [hb] at hltb
      have hnat : ofBytes a ≡ ofBytes b [MOD 256 ^ 32] := by
        exact_mod_cast hmod
      exact hnat.eq_of_lt_of_lt hlta hltb

theorem length_shortestSigned_le_iff (n : ℤ) :
    (shortestSigned n).length ≤ 32 ↔ WideIntRange .i256 n := by
  constructor
  · intro h
    obtain ⟨hsign, hvalue⟩ := shortestSigned_spec n
    have hextended := ofSignedBytes_replicate_append
      (32 - (shortestSigned n).length) (shortestSigned n)
    have hlength : (List.replicate (32 - (shortestSigned n).length)
        (fillByte (signBit (shortestSigned n))) ++
          shortestSigned n).length = 32 := by
      rw [List.length_append, List.length_replicate]
      omega
    have hrange := wideInt_range .i256 hlength
    rw [wideInt, hextended, hvalue] at hrange
    exact hrange
  · rintro ⟨hlow, hhigh⟩
    by_cases hleast : n = -2 ^ 255
    · rw [hleast]
      decide +kernel
    · apply length_shortestSigned_le
      have hpow : 128 * 256 ^ 31 = 2 ^ 255 := by norm_num
      rw [hpow]
      omega

theorem bigIntToBytesBe_spec (n : ℤ) :
    ((bigIntToBytesBe n).1 = .minus ↔ n < 0) ∧
      (bigIntToBytesBe n).2 = magnitudeBytes n := by
  unfold bigIntToBytesBe magnitudeBytes
  split
  · rename_i hzero
    simp [hzero]
  · split
    · rename_i hneg
      simp [hneg]
    · rename_i hneg
      simp [hneg]

theorem wideIntBytes_spec
    {kind : NativeIntKind} {n : ℤ} {be : List UInt8}
    (h : wideIntBytes kind n = some be) :
    be.length = 32 ∧ wideInt kind be = n := by
  cases kind with
  | u256 =>
      simp only [wideIntBytes] at h
      split at h
      · simp at h
      · rename_i hsign
        obtain rfl := Option.some.inj h
        obtain ⟨hminus, hmagnitude⟩ := bigIntToBytesBe_spec n
        rw [hminus, hmagnitude] at hsign
        rw [hmagnitude]
        constructor
        · rw [List.length_append, List.length_replicate]
          omega
        · rw [wideInt, ofBytes_replicate_append, ofBytes_magnitudeBytes]
          omega
  | i256 =>
      obtain ⟨hsign, hvalue⟩ := shortestSigned_spec n
      simp only [wideIntBytes] at h
      split at h
      · simp at h
      · rename_i hlength
        obtain rfl := Option.some.inj h
        rw [← hsign]
        refine ⟨?_, ?_⟩
        · rw [List.length_append, List.length_replicate]
          omega
        · exact (ofSignedBytes_replicate_append _ _).trans hvalue

theorem exists_wideIntBytes_iff {kind : NativeIntKind} {n : ℤ} :
    (∃ be, wideIntBytes kind n = some be) ↔ WideIntRange kind n := by
  constructor
  · rintro ⟨be, hbe⟩
    obtain ⟨hlength, hvalue⟩ := wideIntBytes_spec hbe
    rw [← hvalue]
    exact wideInt_range kind hlength
  · intro hrange
    cases kind with
    | u256 =>
        obtain ⟨hminus, hmagnitude⟩ := bigIntToBytesBe_spec n
        obtain ⟨hlow, hhigh⟩ := hrange
        have hlength : (magnitudeBytes n).length ≤ 32 := by
          unfold magnitudeBytes
          split
          · simp
          · rw [length_toBytes_le_iff]
            have hpow : 256 ^ 32 = 2 ^ 256 := by norm_num
            rw [hpow]
            omega
        have hnot : ¬ ((bigIntToBytesBe n).1 = .minus ∨
            32 < (bigIntToBytesBe n).2.length) := by
          rw [hminus, hmagnitude]
          omega
        simp only [wideIntBytes, if_neg hnot]
        exact ⟨_, rfl⟩
    | i256 =>
        have hlength := (length_shortestSigned_le_iff n).mpr hrange
        simp only [wideIntBytes, if_neg (not_lt.mpr hlength)]
        exact ⟨_, rfl⟩

/-- A number has a word exactly if the word stands for it. -/
theorem wideIntBytes_eq_some_iff
    {kind : NativeIntKind} {n : ℤ} {be : List UInt8} :
    wideIntBytes kind n = some be ↔ be.length = 32 ∧ wideInt kind be = n := by
  constructor
  · exact wideIntBytes_spec
  · rintro ⟨hlength, rfl⟩
    obtain ⟨be', hbe'⟩ := exists_wideIntBytes_iff.mpr
      (wideInt_range kind hlength)
    obtain ⟨hlength', hvalue'⟩ := wideIntBytes_spec hbe'
    rw [hbe', wideInt_injective hlength' hlength hvalue']

theorem WideIntRange.fits
    {kind : NativeIntKind} {n : ℤ} (h : WideIntRange kind n) :
    |n| < 10 ^ legacyWideIntPrecision := by
  have hpow : (2 : ℤ) ^ 256 < 10 ^ legacyWideIntPrecision := by
    norm_num [legacyWideIntPrecision]
  have hbelow : -2 ^ 256 ≤ n ∧ n < 2 ^ 256 := by
    cases kind with
    | u256 =>
        obtain ⟨hlow, hhigh⟩ := h
        exact ⟨by omega, hhigh⟩
    | i256 =>
        obtain ⟨hlow, hhigh⟩ := h
        constructor
        · omega
        · omega
  rw [abs_lt]
  exact ⟨by linarith, by linarith⟩

/-! ## Decimals without a fraction -/

theorem fractionalDigitCount_eq_zero_iff (v : DecimalArbValue) :
    v.fractionalDigitCount = 0 ↔ ∃ n : ℤ, v.value = n := by
  constructor
  · intro h
    obtain ⟨m, hm⟩ := exists_units_of_fractionalDigitCount (le_of_eq h)
    exact ⟨m, by simpa using hm⟩
  · rintro ⟨n, hn⟩
    unfold fractionalDigitCount
    by_cases hzero : v.bd.digits = 0
    · rw [BigDecimal.normalized_of_digits_eq_zero hzero]
      rfl
    · have hscale := (BigDecimal.exists_units_iff (s := 0) hzero).mp
        ⟨n, by simpa [value] using hn⟩
      exact Int.toNat_of_nonpos hscale

/-- The word of a stored decimal, or the null of a null. -/
inductive LegacyWord (scale : ℕ) (kind : NativeIntKind) :
    Option Cell → Option Cell → Prop
  | null : LegacyWord scale kind none none
  | word {bytes be v} :
      fromCanonicalBytesAtScale bytes scale = .ok v → be.length = 32 →
      v.value = wideInt kind be →
      LegacyWord scale kind (some (.bytes bytes)) (some (.bytes be))

section

variable {name : String} {scale : ℕ} {kind : NativeIntKind} {row : ℕ}

theorem legacyCell_of_integer
    (name : String) (kind : NativeIntKind) (row : ℕ) {bytes : List UInt8}
    {v : DecimalArbValue} {n : ℤ}
    (hv : fromCanonicalBytesAtScale bytes scale = .ok v) (hn : v.value = n) :
    (∀ be, wideIntBytes kind n = some be →
      legacyCell name scale kind row (some (.bytes bytes)) =
        .ok (some (.bytes be))) ∧
    (wideIntBytes kind n = none →
      legacyCell name scale kind row (some (.bytes bytes)) =
        .error (.value "is out of range" name row)) := by
  have hfraction : ¬ v.fractionalDigitCount ≠ 0 :=
    not_not.mpr ((fractionalDigitCount_eq_zero_iff v).mpr ⟨n, hn⟩)
  have hdigits : (v.bd.withScale 0).digits = n :=
    BigDecimal.digits_withScale hn
  constructor
  · intro be hbe
    simp only [legacyCell, hv, Except.mapError, bind, Except.bind,
      if_neg hfraction, hdigits, hbe]
    rfl
  · intro hnone
    simp only [legacyCell, hv, Except.mapError, bind, Except.bind,
      if_neg hfraction, hdigits, hnone]
    rfl

theorem legacyCell_eq_ok_iff {cell word : Option Cell} :
    legacyCell name scale kind row cell = .ok word ↔
      LegacyWord scale kind cell word := by
  constructor
  · intro h
    rcases cell with _ | bytes | text | code
    · obtain rfl := Except.ok.inj h
      exact .null
    · cases hv : fromCanonicalBytesAtScale bytes scale with
      | error e =>
          simp [legacyCell, hv, Except.mapError, bind, Except.bind] at h
      | ok v =>
          by_cases hfraction : v.fractionalDigitCount = 0
          · obtain ⟨n, hn⟩ := (fractionalDigitCount_eq_zero_iff v).mp hfraction
            obtain ⟨hsome, hnone⟩ := legacyCell_of_integer name kind row hv hn
            cases hbe : wideIntBytes kind n with
            | none =>
                rw [hnone hbe] at h
                simp at h
            | some be =>
                rw [hsome be hbe] at h
                obtain rfl := Except.ok.inj h
                obtain ⟨hlength, hvalue⟩ := wideIntBytes_spec hbe
                refine .word hv hlength ?_
                rw [hn, hvalue]
          · simp [legacyCell, hv, Except.mapError, bind, Except.bind,
              hfraction, throw, throwThe, MonadExceptOf.throw] at h
    · simp [legacyCell] at h
    · simp [legacyCell] at h
  · intro h
    cases h with
    | null => rfl
    | word hv hlength hvalue =>
        exact (legacyCell_of_integer name kind row hv hvalue).1 _
          (wideIntBytes_eq_some_iff.mpr ⟨hlength, rfl⟩)

theorem legacyCells_eq_ok_iff {cells words : List (Option Cell)} :
    legacyCells name scale kind row cells = .ok words ↔
      List.Forall₂ (LegacyWord scale kind) cells words := by
  induction cells generalizing row words with
  | nil =>
      rw [List.forall₂_nil_left_iff, legacyCells, Except.ok.injEq]
      exact eq_comm
  | cons cell cells ih =>
      rw [List.forall₂_cons_left_iff]
      constructor
      · intro h
        rw [legacyCells] at h
        cases hword : legacyCell name scale kind row cell with
        | error e => simp [hword, bind, Except.bind] at h
        | ok word =>
            cases hrest : legacyCells name scale kind (row + 1) cells with
            | error e => simp [hword, hrest, bind, Except.bind] at h
            | ok rest =>
                simp only [hword, hrest, bind, Except.bind, pure, Except.pure,
                  Except.ok.injEq] at h
                exact ⟨word, rest, legacyCell_eq_ok_iff.mp hword,
                  ih.mp hrest, h.symm⟩
      · rintro ⟨word, rest, hword, hrest, rfl⟩
        rw [legacyCells, legacyCell_eq_ok_iff.mpr hword, ih.mpr hrest]
        rfl

theorem decimalArbToLegacyWideInt_eq_ok_iff
    {field : ArrowField} {cells words : List (Option Cell)} :
    decimalArbToLegacyWideInt field kind (.leaf .largeBinary cells) =
        .ok (.leaf (.fixedSizeBinary 32) words) ↔
      List.Forall₂ (LegacyWord (declaredScale field) kind) cells words := by
  rw [← legacyCells_eq_ok_iff]
  simp only [decimalArbToLegacyWideInt]
  cases legacyCells field.name (declaredScale field) kind 0 cells with
  | error e => simp [bind, Except.bind]
  | ok out => simp [bind, Except.bind, pure, Except.pure]

end

/-! ## Leaves -/

/-- The canonical bytes of the integer of a word. -/
inductive UpgradedCell (kind : NativeIntKind) :
    Option Cell → Option (List UInt8) → Prop
  | null : UpgradedCell kind none none
  | word {be} :
      UpgradedCell kind (some (.bytes be))
        (some (encodeDigits (wideInt kind be)))

/-- An integer of the range is stored by its canonical bytes. -/
theorem stores_of_integer
    {kind : NativeIntKind} {v : DecimalArbValue} {n : ℤ} (h : v.value = n)
    (hrange : WideIntRange kind n) :
    Stores legacyWideIntPrecision 0 (some v) (some (encodeDigits n)) := by
  have hunits : v.value * (10 : ℚ) ^ ((0 : ℕ) : ℤ) = n := by
    simpa using h
  refine ⟨⟨n, hunits, hrange.fits⟩, ?_⟩
  rw [toCanonicalBytesAtScale_of_units hunits]

theorem value_fromBigint (n : ℤ) : (fromBigintAndScale n 0).value = n := by
  simpa using value_fromBigintAndScale_mul n 0

/-- A leaf of words is upgraded. -/
theorem legacyWideIntToDecimalArb_eq_ok
    (name : String) (kind : NativeIntKind) {cells : List (Option Cell)}
    (hfits : ∀ cell ∈ cells, ∀ c ∈ cell, Cell.Fits (.fixedSizeBinary 32) c) :
    ∃ raw, legacyWideIntToDecimalArb name kind
        (.leaf (.fixedSizeBinary 32) cells) =
          .ok (.leaf .largeBinary (raw.map (Option.map Cell.bytes))) ∧
      List.Forall₂ (UpgradedCell kind) cells raw := by
  have hraw : ∃ raw, List.Forall₂ (fun cell bytes =>
      UpgradedCell kind cell bytes ∧ ∃ v, wideIntCell kind cell = .ok v ∧
        Stores legacyWideIntPrecision 0 v bytes) cells raw := by
    apply ExceptLists.exists_forall₂_iff.mpr
    intro cell hmem
    rcases cell with _ | cell
    · exact ⟨none, .null, none, rfl, rfl⟩
    · obtain ⟨be, rfl, hlength⟩ := hfits (some cell) hmem cell rfl
      exact ⟨_, .word, _, rfl, stores_of_integer (value_fromBigint _)
        (wideInt_range kind hlength)⟩
  obtain ⟨raw, hboth⟩ := hraw
  have hbuild : buildRows TreeError.leaf name legacyWideIntPrecision 0
      (wideIntCell kind) cells = .ok ⟨raw, legacyWideIntPrecision, 0⟩ :=
    buildRows_eq_ok_iff.mpr ⟨rfl, rfl, rfl, hboth.imp fun _ _ h => h.2⟩
  refine ⟨raw, ?_, hboth.imp fun _ _ h => h.1⟩
  simp only [legacyWideIntToDecimalArb, hbuild, bind, Except.bind]
  rfl

/-- What a word was upgraded to has the word. -/
theorem legacyWord_of_upgradedCell
    {kind : NativeIntKind} {cell : Option Cell} {bytes : Option (List UInt8)}
    (h : UpgradedCell kind cell bytes)
    (hfits : ∀ c ∈ cell, Cell.Fits (.fixedSizeBinary 32) c) :
    LegacyWord 0 kind (bytes.map Cell.bytes) cell := by
  cases h with
  | null => exact .null
  | @word be =>
      obtain ⟨be', hbe', hlength⟩ := hfits _ rfl
      obtain rfl := Cell.bytes.inj hbe'
      exact .word (fromCanonicalBytesAtScale_encodeDigits _ 0) hlength
        (value_fromBigint _)

theorem legacyWords_of_upgradedCells
    {kind : NativeIntKind} {cells : List (Option Cell)}
    {raw : List (Option (List UInt8))}
    (h : List.Forall₂ (UpgradedCell kind) cells raw)
    (hfits : ∀ cell ∈ cells, ∀ c ∈ cell, Cell.Fits (.fixedSizeBinary 32) c) :
    List.Forall₂ (LegacyWord 0 kind) (raw.map (Option.map Cell.bytes))
      cells := by
  induction h with
  | nil => exact .nil
  | cons hcell _ ih =>
      obtain ⟨hfirst, hrest⟩ := List.forall_mem_cons.mp hfits
      exact .cons (legacyWord_of_upgradedCell hcell hfirst) (ih hrest)

/-- The nulls of an upgraded leaf. -/
theorem isSome_of_upgradedCells
    {kind : NativeIntKind} {cells : List (Option Cell)}
    {raw : List (Option (List UInt8))}
    (h : List.Forall₂ (UpgradedCell kind) cells raw) :
    (raw.map (Option.map Cell.bytes)).map Option.isSome =
      cells.map Option.isSome := by
  rw [List.map_map]
  refine (ExceptLists.map_eq_map_of_forall₂ h ?_).symm
  intro cell bytes hcell
  cases hcell with
  | null => rfl
  | word => rfl

/-- Bytes are of the storage of a decimal. -/
theorem valid_largeBinary (raw : List (Option (List UInt8))) :
    (Column.leaf .largeBinary (raw.map (Option.map Cell.bytes))).Valid := by
  intro cell hmem c hc
  obtain ⟨bytes, -, rfl⟩ := List.mem_map.mp hmem
  obtain ⟨b, -, rfl⟩ := Option.map_eq_some_iff.mp hc
  exact ⟨b, rfl⟩

end ArrowTree

end Streamling
