import Streamling.Formats.AvroNumbers
import Streamling.Types.DecimalArbBytes

/-!
# Decimal leaves

How the bytes of a decimal are read in a fixed width, and when a coerced leaf
holds the writer's number: the integer is handed on as it was delivered and
read at the scale of the output field, so that the number changes with the
scale unless it is zero.  Cutting to 128 bits cannot make up for another
scale, because powers of ten less one are odd.
-/

namespace Streamling

namespace Avro

open Arrow

/-! ## Bytes in a width -/

/-- What fits a width is read as the number of all its bytes. -/
theorem beBytesToWidth_eq_ok
    {width : ℕ} {target : String} {bytes : List UInt8} {n : ℤ}
    (h : beBytesToWidth width target bytes = .ok n) :
    n = BigEndian.ofSignedBytes bytes := by
  unfold beBytesToWidth at h
  cases hfits : checkFitsWidth bytes width target with
  | error e => simp [hfits, bind, Except.bind] at h
  | ok _ =>
      simp only [hfits, bind, Except.bind, pure, Except.pure] at h
      rw [← Except.ok.inj h]
      by_cases hshort : bytes.length ≤ width
      · rw [Nat.min_eq_left hshort, Nat.sub_self, List.drop_zero]
        exact BigEndian.ofSignedBytes_replicate_append _ _
      · rw [Nat.min_eq_right (by omega), Nat.sub_self]
        rw [checkFitsWidth, if_neg hshort] at hfits
        simp only at hfits
        split_ifs at hfits with hcheck
        rw [Bool.and_eq_true, Bool.and_eq_true, List.all_eq_true,
          beq_iff_eq] at hcheck
        obtain ⟨hhigh, -, hsign⟩ := hcheck
        have hreplicate : bytes.take (bytes.length - width) =
            List.replicate (bytes.length - width)
              (BigEndian.fillByte (BigEndian.signBit bytes)) := by
          rw [List.eq_replicate_iff]
          refine ⟨by rw [List.length_take]; omega, ?_⟩
          intro b hb
          simpa using hhigh b hb
        have hextend := BigEndian.ofSignedBytes_replicate_append
          (bytes.length - width) (bytes.drop (bytes.length - width))
        rw [hsign, ← hreplicate, List.take_append_drop] at hextend
        rw [List.replicate_zero, List.nil_append, hextend]

theorem integerCells_getElem?
    {α : Type} {convert : α → Except AvroError ℤ} {rows : List (Option α)}
    {cells : List (Option Cell)} (h : integerCells convert rows = .ok cells)
    (i : ℕ) :
    (rows[i]? = some none → cells[i]? = some none) ∧
      ∀ a, rows[i]? = some (some a) → ∃ value, convert a = .ok value ∧
        cells[i]? = some (some (.integer value)) := by
  induction rows generalizing cells i with
  | nil => simp
  | cons row rows ih =>
      cases hrest : integerCells convert rows with
      | error e =>
          cases row with
          | none => simp [integerCells, hrest, bind, Except.bind] at h
          | some a =>
              cases ha : convert a <;>
                simp [integerCells, hrest, ha, bind, Except.bind] at h
      | ok rest =>
          have hindex := ih hrest
          cases row with
          | none =>
              simp only [integerCells, hrest, bind, Except.bind, pure,
                Except.pure] at h
              obtain rfl := Except.ok.inj h
              cases i with
              | zero => simp
              | succ i => simpa using hindex i
          | some a =>
              cases ha : convert a with
              | error e => simp [integerCells, ha, bind, Except.bind] at h
              | ok value =>
                  simp only [integerCells, hrest, ha, bind, Except.bind, pure,
                    Except.pure] at h
                  obtain rfl := Except.ok.inj h
                  cases i with
                  | zero => simp [ha]
                  | succ i => simpa using hindex i

/-! ## Scales -/

theorem value_eq_value_iff_digits {n m scale : ℤ} :
    BigDecimal.value ⟨n, scale⟩ = BigDecimal.value ⟨m, scale⟩ ↔ n = m := by
  have hpow : (10 : ℚ) ^ (-scale) ≠ 0 := zpow_ne_zero _ (by norm_num)
  constructor
  · intro h
    exact_mod_cast mul_right_cancel₀ hpow h
  · rintro rfl
    rfl

/-- The same digits at two scales are one number only if they are zero. -/
theorem value_eq_value_iff_scale {n a b : ℤ} :
    BigDecimal.value ⟨n, a⟩ = BigDecimal.value ⟨n, b⟩ ↔ n = 0 ∨ a = b := by
  constructor
  · intro h
    by_cases hn : n = 0
    · exact .inl hn
    · have hcast : (n : ℚ) ≠ 0 := by exact_mod_cast hn
      have hpow := mul_left_cancel₀ hcast h
      have hinj := zpow_right_injective₀ (by norm_num : (0 : ℚ) < 10)
        (by norm_num) hpow
      exact .inr (by simpa using hinj)
  · rintro (rfl | rfl)
    · simp [BigDecimal.value]
    · rfl

/-- A power of ten less one has no factor in common with a power of two. -/
theorem eq_zero_of_dvd_pow_ten_sub_one
    {n : ℤ} {k : ℕ} (hk : 0 < k) (h : (256 ^ 16 : ℤ) ∣ (10 ^ k - 1) * n) :
    (256 ^ 16 : ℤ) ∣ n := by
  have heven : Even ((10 : ℤ) ^ k) :=
    (by decide : Even (10 : ℤ)).pow_of_ne_zero (by omega)
  obtain ⟨c, hc⟩ := heven.sub_odd odd_one
  have htwo : IsCoprime (2 : ℤ) ((10 : ℤ) ^ k - 1) := by
    refine ⟨-c, 1, ?_⟩
    linarith
  have hcoprime : IsCoprime (256 ^ 16 : ℤ) ((10 : ℤ) ^ k - 1) := by
    have hpow : (256 ^ 16 : ℤ) = 2 ^ 128 := by norm_num
    rw [hpow]
    exact htwo.pow_left
  exact hcoprime.dvd_of_dvd_mul_left h

/-- The low 128 bits of an integer are the same number at another scale only
if the integer is zero. -/
theorem eq_of_value_low_bits
    {w n a b : ℤ} (hlow : w ≡ n [ZMOD 256 ^ 16])
    (hw : -(2 ^ 127) ≤ w ∧ w < 2 ^ 127)
    (h : BigDecimal.value ⟨w, a⟩ = BigDecimal.value ⟨n, b⟩) :
    n = 0 ∨ a = b := by
  have hzero : (256 ^ 16 : ℤ) ∣ w → w = 0 := by
    rintro ⟨c, hc⟩
    have hpow : (256 ^ 16 : ℤ) = 2 * 2 ^ 127 := by norm_num
    rw [hpow] at hc
    have hlower : -1 < c := by nlinarith
    have hupper : c < 1 := by nlinarith
    obtain rfl : c = 0 := by omega
    rw [hc, mul_zero]
  have hdvd := hlow.dvd
  have hvalue : (w : ℚ) * 10 ^ (-a) = n * 10 ^ (-b) := h
  rcases lt_trichotomy a b with hab | hab | hab
  · -- the low bits are the smaller number
    obtain ⟨k, hk, rfl⟩ : ∃ k : ℕ, 0 < k ∧ b = a + k :=
      ⟨(b - a).toNat, by omega, by omega⟩
    have hn : n = 10 ^ k * w := by
      rw [neg_add, zpow_add₀ (by norm_num), ← mul_assoc,
        mul_right_comm] at hvalue
      have hcancel := mul_right_cancel₀ (zpow_ne_zero _ (by norm_num)) hvalue
      rw [zpow_neg, zpow_natCast, eq_mul_inv_iff_mul_eq₀ (by positivity)]
        at hcancel
      have hcast : ((10 ^ k * w : ℤ) : ℚ) = (n : ℤ) := by
        push_cast
        linarith
      exact_mod_cast hcast.symm
    left
    have hsub : (256 ^ 16 : ℤ) ∣ (10 ^ k - 1) * w := by
      have heq : n - w = (10 ^ k - 1) * w := by rw [hn]; ring
      rwa [heq] at hdvd
    rw [hn, hzero (eq_zero_of_dvd_pow_ten_sub_one hk hsub), mul_zero]
  · exact .inr hab
  · obtain ⟨k, hk, rfl⟩ : ∃ k : ℕ, 0 < k ∧ a = b + k :=
      ⟨(a - b).toNat, by omega, by omega⟩
    have hwn : w = 10 ^ k * n := by
      rw [neg_add, zpow_add₀ (by norm_num), ← mul_assoc,
        mul_right_comm] at hvalue
      have hcancel := mul_right_cancel₀ (zpow_ne_zero _ (by norm_num)) hvalue
      rw [zpow_neg, zpow_natCast, mul_inv_eq_iff_eq_mul₀ (by positivity)]
        at hcancel
      have hcast : ((10 ^ k * n : ℤ) : ℚ) = (w : ℤ) := by
        push_cast
        linarith
      exact_mod_cast hcast.symm
    left
    have hsub : (256 ^ 16 : ℤ) ∣ (10 ^ k - 1) * n := by
      have heq : n - w = -((10 ^ k - 1) * n) := by rw [hwn]; ring
      rw [heq] at hdvd
      exact (dvd_neg.mp hdvd)
    have hn := eq_zero_of_dvd_pow_ten_sub_one hk hsub
    have hw0 := hzero (hwn ▸ hn.mul_left _)
    rw [hwn] at hw0
    simpa using hw0

/-! ## Types -/

theorem hasArrowType_peel
    {type : DataType} : (seen : AvroSchema) →
    (HasArrowType type seen ↔ HasArrowType type seen.peel)
  | .nullable inner => by
      rw [HasArrowType, AvroSchema.peel]
      exact hasArrowType_peel inner
  | .primitive _ => Iff.rfl
  | .bytes => Iff.rfl
  | .fixed _ => Iff.rfl
  | .decimal _ _ _ => Iff.rfl
  | .array _ => Iff.rfl
  | .map _ => Iff.rfl
  | .record _ => Iff.rfl

theorem decimalType_eq_some
    {t : ArrowField} {p : ℕ} {s : ℤ} (h : decimalType t = some (p, s)) :
    t.dataType = .leaf (.decimal128 p s) ∨
      t.dataType = .leaf (.decimal256 p s) ∨
      ∃ field, t.decimalArb = some field ∧ p = field.precision ∧
        s = field.scale := by
  unfold decimalType at h
  split at h
  case h_1 htype =>
    obtain ⟨rfl, rfl⟩ := Prod.mk.inj (Option.some.inj h)
    exact .inl htype
  case h_2 htype =>
    obtain ⟨rfl, rfl⟩ := Prod.mk.inj (Option.some.inj h)
    exact .inr (.inl htype)
  case h_3 =>
    obtain ⟨field, hfield, heq⟩ := Option.map_eq_some_iff.mp h
    obtain ⟨rfl, rfl⟩ := Prod.mk.inj heq
    exact .inr (.inr ⟨field, hfield, rfl, rfl⟩)

theorem decimalArb_dataType
    {t : ArrowField} {field : DecimalArbField}
    (h : t.decimalArb = some field) : t.dataType = .leaf .largeBinary := by
  unfold ArrowField.decimalArb at h
  split at h
  case h_1 htype _ => exact htype
  case h_2 => cases h

section Leaf

variable {cast : DataType → Column → DataType → Except AvroError Column}
variable {toPlainString : ℤ → ℤ → String}
variable {type : DataType} {src out : Column} {t : ArrowField}
variable {p : ℕ} {s : ℤ}

theorem coerceArray_decimal128
    (h : t.dataType = .leaf (.decimal128 p s)) :
    coerceArray cast toPlainString type src t =
      binaryOrPassthroughDecimal128 cast type src p s := by
  cases t with
  | mk name nullable metadata dataType =>
      obtain rfl : dataType = .leaf (.decimal128 p s) := h
      rw [coerceArray, coerceLeaf]

theorem coerceArray_decimal256
    (h : t.dataType = .leaf (.decimal256 p s)) :
    coerceArray cast toPlainString type src t =
      binaryOrPassthroughDecimal256 cast type src p s := by
  cases t with
  | mk name nullable metadata dataType =>
      obtain rfl : dataType = .leaf (.decimal256 p s) := h
      rw [coerceArray, coerceLeaf]

theorem coerceArray_decimalArb
    {field : DecimalArbField} (h : t.decimalArb = some field) :
    coerceArray cast toPlainString type src t =
      binaryToDecimalArb type src t := by
  have htype := decimalArb_dataType h
  have harb : t.isDecimalArbField = true := by
    rw [ArrowField.isDecimalArbField, h]
    rfl
  cases t with
  | mk name nullable metadata dataType =>
      obtain rfl : dataType = .leaf .largeBinary := htype
      rw [coerceArray, coerceLeaf, if_pos harb]

/-- The types in which bytes are delivered. -/
def IsBinary (type : DataType) : Prop :=
  type = .leaf .binary ∨ ∃ size, type = .leaf (.fixedSizeBinary size)

theorem asBinaryIter_of_isBinary
    (h : IsBinary type) (cells : List (Option Cell)) :
    asBinaryIter type (.leaf cells) =
      .ok (cells.map (Option.map Cell.toBytes)) := by
  rcases h with rfl | ⟨size, rfl⟩ <;> rfl

theorem exists_of_map_eq_ok
    {α β : Type} {f : α → β} {x : Except AvroError α} {b : β}
    (h : x.map f = .ok b) : ∃ a, x = .ok a ∧ f a = b := by
  cases x with
  | error e => simp [Except.map] at h
  | ok a => exact ⟨a, rfl, Except.ok.inj h⟩

/-- What a leaf holds after its bytes were read: the integers they denote, and
nulls where there were nulls. -/
def ReadsBytes (cells converted : List (Option Cell)) (i : ℕ) : Prop :=
  (cells[i]? = some none → converted[i]? = some none) ∧
    ∀ value, cells[i]? = some (some (.bytes value)) →
      ∃ cell, converted[i]? = some (some cell) ∧
        cell.unscaled = some (BigEndian.ofSignedBytes value)

theorem readsBytes_of_integerCells
    {width : ℕ} {target : String} {cells converted : List (Option Cell)}
    (h : integerCells (beBytesToWidth width target)
      (cells.map (Option.map Cell.toBytes)) = .ok converted) (i : ℕ) :
    ReadsBytes cells converted i := by
  obtain ⟨hnone, hsome⟩ := integerCells_getElem? h i
  constructor
  · intro hcell
    apply hnone
    rw [List.getElem?_map, hcell]
    rfl
  · intro value hcell
    have hrow : (cells.map (Option.map Cell.toBytes))[i]? =
        some (some value) := by
      rw [List.getElem?_map, hcell]
      rfl
    obtain ⟨n, hn, hconverted⟩ := hsome value hrow
    refine ⟨.integer n, hconverted, ?_⟩
    rw [beBytesToWidth_eq_ok hn]
    rfl

/-- The canonical bytes of an integer at a scale decode to it. -/
theorem unscaled_canonical (u : ℤ) (scale : ℕ) :
    (Cell.bytes ((DecimalArbValue.fromBigintAndScale u scale
      ).toCanonicalBytesAtScale scale)).unscaled = some u := by
  rw [DecimalArbValue.toCanonicalBytesAtScale_of_units
    (DecimalArbValue.value_fromBigintAndScale_mul u scale), Cell.unscaled,
    DecimalArbValue.decodeDigits_encodeDigits]
  rfl

/-- Bytes become the integer they denote, whatever the decimal type. -/
theorem coerceArray_of_bytes
    (htype : IsBinary type) {cells : List (Option Cell)}
    (ht : decimalType t = some (p, s))
    (h : coerceArray cast toPlainString type (.leaf cells) t = .ok out) :
    ∃ converted, out = .leaf converted ∧
      ∀ i, ReadsBytes cells converted i := by
  have hrows := asBinaryIter_of_isBinary htype cells
  rcases decimalType_eq_some ht with htarget | htarget | ⟨field, harb, -, -⟩
  · have hconvert : binaryOrPassthroughDecimal128 cast type (.leaf cells) p s =
        (integerCells beBytesToI128
          (cells.map (Option.map Cell.toBytes))).map Column.leaf := by
      rcases htype with rfl | ⟨size, rfl⟩ <;> rfl
    rw [coerceArray_decimal128 htarget, hconvert] at h
    obtain ⟨converted, hconverted, rfl⟩ := exists_of_map_eq_ok h
    exact ⟨converted, rfl, readsBytes_of_integerCells hconverted⟩
  · have hconvert : binaryOrPassthroughDecimal256 cast type (.leaf cells) p s =
        (integerCells beBytesToI256
          (cells.map (Option.map Cell.toBytes))).map Column.leaf := by
      rcases htype with rfl | ⟨size, rfl⟩ <;> rfl
    rw [coerceArray_decimal256 htarget, hconvert] at h
    obtain ⟨converted, hconverted, rfl⟩ := exists_of_map_eq_ok h
    exact ⟨converted, rfl, readsBytes_of_integerCells hconverted⟩
  · rw [coerceArray_decimalArb harb] at h
    simp only [binaryToDecimalArb, harb, hrows, bind, Except.bind, pure,
      Except.pure, List.map_map] at h
    obtain rfl := Except.ok.inj h
    refine ⟨_, rfl, ?_⟩
    intro i
    constructor
    · intro hcell
      rw [List.getElem?_map, hcell]
      rfl
    · intro value hcell
      refine ⟨_, ?_, unscaled_canonical _ field.scale⟩
      rw [List.getElem?_map, hcell]
      rfl

/-- Decimals of a fixed width do not become arbitrary ones. -/
theorem coerceArray_decimalArb_of_decimal
    {field : DecimalArbField} (harb : t.decimalArb = some field)
    {cells : List (Option Cell)}
    (htype : (∃ p s, type = .leaf (.decimal128 p s)) ∨
      ∃ p s, type = .leaf (.decimal256 p s)) :
    coerceArray cast toPlainString type (.leaf cells) t ≠ .ok out := by
  rw [coerceArray_decimalArb harb]
  rcases htype with ⟨p, s, rfl⟩ | ⟨p, s, rfl⟩ <;>
    simp [binaryToDecimalArb, harb, asBinaryIter, bind, Except.bind]

/-- A 256-bit decimal is cut to its low 128 bits. -/
theorem coerceArray_narrows
    (htarget : t.dataType = .leaf (.decimal128 p s)) {p' : ℕ} {s' : ℤ}
    {cells : List (Option Cell)}
    (h : coerceArray cast toPlainString (.leaf (.decimal256 p' s'))
      (.leaf cells) t = .ok out) :
    ∃ converted, out = .leaf converted ∧
      ∀ i : ℕ, (cells[i]? = some none → converted[i]? = some none) ∧
        ∀ n, cells[i]? = some (some (.integer n)) →
          ∃ w, converted[i]? = some (some (.integer w)) ∧
            w ≡ n [ZMOD 256 ^ 16] ∧ -(2 ^ 127) ≤ w ∧ w < 2 ^ 127 := by
  have hconvert : binaryOrPassthroughDecimal128 cast
      (.leaf (.decimal256 p' s')) (.leaf cells) p s =
        (integerCells
          (fun cell : Cell => beBytesToI128
            ((BigEndian.toSignedBytes 32 cell.toInteger).drop 16))
          cells).map Column.leaf := rfl
  rw [coerceArray_decimal128 htarget, hconvert] at h
  obtain ⟨converted, hconverted, rfl⟩ := exists_of_map_eq_ok h
  refine ⟨converted, rfl, ?_⟩
  intro i
  obtain ⟨hnone, hsome⟩ := integerCells_getElem? hconverted i
  refine ⟨hnone, ?_⟩
  intro n hn
  obtain ⟨w, hw, hcell⟩ := hsome _ hn
  have hlow := beBytesToWidth_eq_ok hw
  have hlength : ((BigEndian.toSignedBytes 32 n).drop 16).length = 15 + 1 := by
    rw [List.length_drop, BigEndian.length_toSignedBytes]
  obtain ⟨hlower, hupper⟩ := BigEndian.ofSignedBytes_bounds hlength
  have hmod := BigEndian.ofSignedBytes_drop_modEq 32 16 n
  simp only [Cell.toInteger] at hlow
  rw [← hlow] at hlower hupper hmod
  refine ⟨w, hcell, hmod, ?_, ?_⟩
  · exact le_trans (by norm_num) hlower
  · exact lt_of_lt_of_le hupper (by norm_num)

/-! ## Kept numbers -/

variable {precision scale : ℕ} {seen : AvroSchema}

theorem keptNumber_iff_of_cell
    (ht : decimalType t = some (p, s)) {cells : List (Option Cell)} {i : ℕ}
    {cell : Cell} (hcell : cells[i]? = some (some cell)) {k : ℤ}
    (hk : cell.unscaled = some k) {number : BigDecimal} :
    KeptNumber number t (.leaf cells) i ↔
      BigDecimal.value ⟨k, s⟩ = number.value ∧ |k| < 10 ^ p := by
  simp only [KeptNumber, ht]
  constructor
  · rintro ⟨_, cell', m, hcells, hcell', hm, hvalue, hlt⟩
    obtain rfl := Column.leaf.inj hcells
    obtain rfl : cell = cell' := by simpa [hcell] using hcell'
    obtain rfl : k = m := by simpa [hk] using hm
    exact ⟨hvalue, hlt⟩
  · rintro ⟨hvalue, hlt⟩
    exact ⟨cells, cell, k, rfl, hcell, hk, hvalue, hlt⟩

/-- Reading the delivered integer at the scale of the output gives the number
exactly if that is the scale it was delivered at, or it is zero. -/
theorem value_eq_iff_deliveredScale
    {k u : ℤ}
    (hk : BigDecimal.value ⟨k, deliveredScale precision scale seen⟩ =
      BigDecimal.value ⟨u, scale⟩) :
    BigDecimal.value ⟨k, s⟩ = BigDecimal.value ⟨u, scale⟩ ↔
      u = 0 ∨ deliveredScale precision scale seen = s := by
  have hzero : k = 0 ↔ u = 0 := by
    rw [← BigDecimal.value_eq_zero_iff
        (d := ⟨k, deliveredScale precision scale seen⟩), hk,
      BigDecimal.value_eq_zero_iff]
  rw [← hk, value_eq_value_iff_scale, hzero, eq_comm (a := s)]

/-- The integer is handed on as it is. -/
theorem readAsDelivered_iff_of_handed_on
    (ht : decimalType t = some (p, s)) (hrescales : ¬Rescales seen t)
    (hnarrows : ¬Narrows seen t) {k u : ℤ}
    (hk : BigDecimal.value ⟨k, deliveredScale precision scale seen⟩ =
      BigDecimal.value ⟨u, scale⟩) :
    ReadAsDelivered precision scale u seen t ↔
      BigDecimal.value ⟨k, s⟩ = BigDecimal.value ⟨u, scale⟩ ∧
        |k| < 10 ^ p := by
  simp only [ReadAsDelivered, ht, hrescales, hnarrows, false_or,
    false_implies, and_true]
  rw [← value_eq_iff_deliveredScale hk]
  constructor
  · rintro ⟨⟨m, hm, hlt⟩, hvalue⟩
    obtain rfl := value_eq_value_iff_digits.mp (hm.trans hvalue.symm)
    exact ⟨hvalue, hlt⟩
  · rintro ⟨hvalue, hlt⟩
    exact ⟨⟨k, hvalue, hlt⟩, hvalue⟩

/-- The integer is cut to its low 128 bits. -/
theorem readAsDelivered_iff_of_narrowed
    (ht : decimalType t = some (p, s)) (hrescales : ¬Rescales seen t)
    (hnarrows : Narrows seen t) {k w u : ℤ}
    (hk : BigDecimal.value ⟨k, deliveredScale precision scale seen⟩ =
      BigDecimal.value ⟨u, scale⟩)
    (hlow : w ≡ k [ZMOD 256 ^ 16]) (hw : -(2 ^ 127) ≤ w ∧ w < 2 ^ 127) :
    ReadAsDelivered precision scale u seen t ↔
      BigDecimal.value ⟨w, s⟩ = BigDecimal.value ⟨u, scale⟩ ∧
        |w| < 10 ^ p := by
  simp only [ReadAsDelivered, ht, hrescales, hnarrows, false_or,
    true_implies]
  have hzero : k = 0 ↔ u = 0 := by
    rw [← BigDecimal.value_eq_zero_iff
        (d := ⟨k, deliveredScale precision scale seen⟩), hk,
      BigDecimal.value_eq_zero_iff]
  constructor
  · rintro ⟨⟨m, hm, hlt, hbounds⟩, hscale⟩
    have hvalue := (value_eq_iff_deliveredScale hk).mpr hscale
    obtain rfl := value_eq_value_iff_digits.mp (hm.trans hvalue.symm)
    have hbound : (128 * 256 ^ 15 : ℤ) = 2 ^ 127 := by norm_num
    have hsame : w = m := BigEndian.eq_of_modEq_of_bounds (k := 15)
      (by rw [hbound]; exact hw) (by rw [hbound]; exact hbounds) hlow
    rw [hsame]
    exact ⟨hvalue, hlt⟩
  · rintro ⟨hvalue, hlt⟩
    refine ⟨⟨w, hvalue, hlt, hw⟩, ?_⟩
    rw [← hzero, eq_comm (a := deliveredScale precision scale seen)]
    exact eq_of_value_low_bits hlow hw (hvalue.trans hk.symm)

/-! ## A decimal leaf -/

/-- A schema whose values arrive as bytes or as decimals. -/
def BytesOrDecimal : AvroSchema → Prop
  | .bytes | .fixed _ => True
  | .decimal precision _ _ => precision ≤ 76
  | _ => False

/-- What `decoded_decimal` finds at a row of a decimal column. -/
def DeliveredInteger (precision scale : ℕ) (seen : AvroSchema) (u : ℤ)
    (src : Column) (i : ℕ) : Prop :=
  ∃ cells n, src = .leaf cells ∧ cells[i]? = some (some (.integer n)) ∧
    BigDecimal.value ⟨n, deliveredScale precision scale seen⟩ =
      BigDecimal.value ⟨u, scale⟩

variable {origin : List String → String → String} {path : List String}
variable {value : List UInt8} {inner : DecimalInner} {i : ℕ}

/-- Where bytes are delivered, they are those of the value. -/
theorem decoded_bytes
    (htype : IsBinary type)
    (h : Decoded origin path (.bytes value) type src i
      (stripHighPrecisionDecimals (.decimal precision scale inner))) :
    ∃ cells, src = .leaf cells ∧ cells[i]? = some (some (.bytes value)) := by
  rw [stripHighPrecisionDecimals] at h
  split_ifs at h with hwide
  · cases inner with
    | bytes =>
        rw [DecimalInner.schema, Decoded] at h
        rcases htype with rfl | ⟨size, rfl⟩ <;> exact h
    | fixed width =>
        rw [DecimalInner.schema, Decoded] at h
        rcases htype with rfl | ⟨size, rfl⟩ <;> exact h
  · rw [Decoded] at h
    rcases htype with rfl | ⟨size, rfl⟩ <;> exact h

/-- Where a decimal is delivered, it is the number at the delivered scale. -/
theorem decoded_decimal
    {p' s' : ℕ} {inner' : DecimalInner}
    (hpeel : seen.peel = .decimal p' s' inner')
    (htype : type = .leaf (.decimal128 p' s') ∨
      type = .leaf (.decimal256 p' s'))
    (h : Decoded origin path (.bytes value) type src i
      (stripHighPrecisionDecimals (.decimal precision scale inner))) :
    DeliveredInteger precision scale seen (BigEndian.ofSignedBytes value) src
      i := by
  rw [stripHighPrecisionDecimals] at h
  simp only [DeliveredInteger, deliveredScale, hpeel]
  split_ifs at h ⊢ with hwide
  · have hbytes : DecodedBytes (.bytes value) type src i := by
      cases inner with
      | bytes => rwa [DecimalInner.schema, Decoded] at h
      | fixed width => rwa [DecimalInner.schema, Decoded] at h
    obtain ⟨cells, rfl, hcell⟩ : ∃ cells, src = .leaf cells ∧
        cells[i]? =
          some (some (.integer (BigEndian.ofSignedBytes value))) := by
      rcases htype with rfl | rfl <;> exact hbytes
    exact ⟨cells, _, rfl, hcell, rfl⟩
  · rw [Decoded] at h
    rcases htype with rfl | rfl <;> exact h

/-- A coerced decimal leaf keeps the number exactly if the number is one of
the output's and is read as it was delivered. -/
theorem keptNumber_iff
    (hcast : CastCorrect cast)
    (hseen : BytesOrDecimal seen.peel)
    (hprecision : Rescales seen t → precision ≤ 76)
    (htype : HasArrowType type seen)
    (hdecoded : Decoded origin path (.bytes value) type src i
      (stripHighPrecisionDecimals (.decimal precision scale inner)))
    (hout : coerceArray cast toPlainString type src t = .ok out) :
    KeptNumber ⟨BigEndian.ofSignedBytes value, scale⟩ t out i ↔
      ReadAsDelivered precision scale (BigEndian.ofSignedBytes value) seen
        t := by
  cases ht : decimalType t with
  | none => simp only [KeptNumber, ReadAsDelivered, ht]
  | some pair =>
      obtain ⟨p, s⟩ := pair
      rw [hasArrowType_peel] at htype
      -- bytes are delivered: the integer is theirs
      have hbytes : IsBinary type → ¬Rescales seen t → ¬Narrows seen t →
          deliveredScale precision scale seen = scale →
          (KeptNumber ⟨BigEndian.ofSignedBytes value, scale⟩ t out i ↔
            ReadAsDelivered precision scale (BigEndian.ofSignedBytes value)
              seen t) := by
        intro hbinary hrescales hnarrows hscale
        obtain ⟨cells, rfl, hcell⟩ := decoded_bytes hbinary hdecoded
        obtain ⟨converted, rfl, hconverted⟩ :=
          coerceArray_of_bytes hbinary ht hout
        obtain ⟨cell, hout, hunscaled⟩ := (hconverted i).2 value hcell
        rw [keptNumber_iff_of_cell ht hout hunscaled,
          readAsDelivered_iff_of_handed_on ht hrescales hnarrows
            (k := BigEndian.ofSignedBytes value) (by rw [hscale])]
      cases hpeel : seen.peel with
      | bytes =>
          rw [hpeel, HasArrowType] at htype
          apply hbytes (.inl htype) <;>
            simp [Rescales, Narrows, deliveredScale, hpeel]
      | fixed size =>
          rw [hpeel, HasArrowType] at htype
          apply hbytes (.inr ⟨size, htype⟩) <;>
            simp [Rescales, Narrows, deliveredScale, hpeel]
      | decimal p' s' inner' =>
          rw [hpeel] at hseen htype
          have hsmall : p' ≤ 76 := hseen
          rw [HasArrowType] at htype
          have hboth : type = .leaf (.decimal128 p' s') ∨
              type = .leaf (.decimal256 p' s') := by
            split_ifs at htype
            · exact .inl htype
            · exact .inr htype
          obtain ⟨cells, n, rfl, hcell, hnumber⟩ :=
            decoded_decimal hpeel hboth hdecoded
          rcases decimalType_eq_some ht with
            htarget | htarget | ⟨field, harb, -, -⟩
          · have hrescales : ¬Rescales seen t := by
              simp [Rescales, hpeel, htarget]
            split_ifs at htype with hnarrow
            · -- the same width
              subst htype
              have hnarrows : ¬Narrows seen t := by
                simp only [Narrows, hpeel, htarget]
                omega
              rw [coerceArray_decimal128 htarget] at hout
              obtain rfl := Except.ok.inj hout
              rw [keptNumber_iff_of_cell ht hcell rfl,
                readAsDelivered_iff_of_handed_on ht hrescales hnarrows
                  hnumber]
            · -- the low 128 bits
              subst htype
              have hnarrows : Narrows seen t := by
                simp only [Narrows, hpeel, htarget]
                omega
              obtain ⟨converted, rfl, hconverted⟩ :=
                coerceArray_narrows htarget hout
              obtain ⟨w, hw, hlow, hbounds⟩ := (hconverted i).2 n hcell
              rw [keptNumber_iff_of_cell ht hw rfl,
                readAsDelivered_iff_of_narrowed ht hrescales hnarrows hnumber
                  hlow hbounds]
          · have hnarrows : ¬Narrows seen t := by
              simp [Narrows, hpeel, htarget]
            rw [coerceArray_decimal256 htarget] at hout
            split_ifs at htype with hnarrow
            · -- the cast
              subst htype
              have hrescales : Rescales seen t := by
                simpa only [Rescales, hpeel, htarget] using hnarrow
              have hscale : deliveredScale precision scale seen = s' := by
                have hle := hprecision hrescales
                simp only [deliveredScale, hpeel]
                rw [if_neg (by omega)]
              rw [hscale] at hnumber
              obtain ⟨converted, rfl, hconverted⟩ :=
                hcast.decimal _ _ _ _ _ _ hout
              simp only [ReadAsDelivered, ht, hrescales, hnarrows, true_or,
                and_true, false_implies]
              constructor
              · intro hkept
                simp only [KeptNumber, ht] at hkept
                obtain ⟨_, _, m, -, -, -, hm, hlt⟩ := hkept
                exact ⟨m, hm, hlt⟩
              · rintro ⟨m, hm, hlt⟩
                have hcell' := (hconverted i).2 n m hcell
                  (hm.trans hnumber.symm) hlt
                rw [keptNumber_iff_of_cell ht hcell' rfl]
                exact ⟨hm, hlt⟩
            · -- the same width
              subst htype
              have hrescales : ¬Rescales seen t := by
                simpa only [Rescales, hpeel, htarget] using hnarrow
              obtain rfl := Except.ok.inj hout
              rw [keptNumber_iff_of_cell ht hcell rfl,
                readAsDelivered_iff_of_handed_on ht hrescales hnarrows
                  hnumber]
          · refine absurd hout (coerceArray_decimalArb_of_decimal harb ?_)
            rcases hboth with rfl | rfl
            · exact .inl ⟨_, _, rfl⟩
            · exact .inr ⟨_, _, rfl⟩
      | primitive _ => rw [hpeel] at hseen; exact hseen.elim
      | array _ => rw [hpeel] at hseen; exact hseen.elim
      | map _ => rw [hpeel] at hseen; exact hseen.elim
      | nullable _ => rw [hpeel] at hseen; exact hseen.elim
      | record _ => rw [hpeel] at hseen; exact hseen.elim

/-- A decimal that is null stays null. -/
theorem keptNull_of_decoded
    (hcast : CastCorrect cast) {schema : AvroSchema}
    (hseen : (decimalType t).isSome → BytesOrDecimal seen.peel)
    (htype : HasArrowType type seen) (hnull : DecodedNull type src i)
    (hout : coerceArray cast toPlainString type src t = .ok out) :
    KeptNull schema t out i := by
  cases ht : decimalType t with
  | none =>
      unfold KeptNull
      cases findDecimalSchema schema <;> simp [ht]
  | some pair =>
      suffices hcells :
          ∃ cells, out = .leaf cells ∧ cells[i]? = some none by
        unfold KeptNull
        cases findDecimalSchema schema with
        | none => trivial
        | some _ => simpa only [ht] using hcells
      obtain ⟨p, s⟩ := pair
      have hseen := hseen (by rw [ht]; rfl)
      rw [hasArrowType_peel] at htype
      have hbytes : IsBinary type →
          ∃ cells, out = .leaf cells ∧ cells[i]? = some none := by
        intro hbinary
        obtain ⟨cells, rfl, hcell⟩ :
            ∃ cells, src = .leaf cells ∧ cells[i]? = some none := by
          rcases hbinary with rfl | ⟨size, rfl⟩ <;> exact hnull
        obtain ⟨converted, rfl, hconverted⟩ :=
          coerceArray_of_bytes hbinary ht hout
        exact ⟨converted, rfl, (hconverted i).1 hcell⟩
      cases hpeel : seen.peel with
      | bytes =>
          rw [hpeel, HasArrowType] at htype
          exact hbytes (.inl htype)
      | fixed size =>
          rw [hpeel, HasArrowType] at htype
          exact hbytes (.inr ⟨size, htype⟩)
      | decimal p' s' inner' =>
          rw [hpeel] at hseen htype
          have hsmall : p' ≤ 76 := hseen
          rw [HasArrowType] at htype
          rcases decimalType_eq_some ht with
            htarget | htarget | ⟨field, harb, -, -⟩
          · split_ifs at htype with hnarrow
            · subst htype
              obtain ⟨cells, rfl, hcell⟩ := hnull
              rw [coerceArray_decimal128 htarget] at hout
              obtain rfl := Except.ok.inj hout
              exact ⟨cells, rfl, hcell⟩
            · subst htype
              obtain ⟨cells, rfl, hcell⟩ := hnull
              obtain ⟨converted, rfl, hconverted⟩ :=
                coerceArray_narrows htarget hout
              exact ⟨converted, rfl, (hconverted i).1 hcell⟩
          · rw [coerceArray_decimal256 htarget] at hout
            split_ifs at htype with hnarrow
            · subst htype
              obtain ⟨cells, rfl, hcell⟩ := hnull
              obtain ⟨converted, rfl, hconverted⟩ :=
                hcast.decimal _ _ _ _ _ _ hout
              exact ⟨converted, rfl, (hconverted i).1 hcell⟩
            · subst htype
              obtain ⟨cells, rfl, hcell⟩ := hnull
              obtain rfl := Except.ok.inj hout
              exact ⟨cells, rfl, hcell⟩
          · split_ifs at htype with hnarrow
            · subst htype
              obtain ⟨cells, rfl, -⟩ := hnull
              exact absurd hout (coerceArray_decimalArb_of_decimal harb
                (.inl ⟨_, _, rfl⟩))
            · subst htype
              obtain ⟨cells, rfl, -⟩ := hnull
              exact absurd hout (coerceArray_decimalArb_of_decimal harb
                (.inr ⟨_, _, rfl⟩))
      | primitive _ => rw [hpeel] at hseen; exact hseen.elim
      | array _ => rw [hpeel] at hseen; exact hseen.elim
      | map _ => rw [hpeel] at hseen; exact hseen.elim
      | nullable _ => rw [hpeel] at hseen; exact hseen.elim
      | record _ => rw [hpeel] at hseen; exact hseen.elim

end Leaf

end Avro

end Streamling
