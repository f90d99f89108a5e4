import Mathlib
import Streamling.Support.ByteOrder
import Streamling.Types.DecimalArbBytes

/-!
# Sort keys of decimals

The canonical bytes of negative numbers do not compare as the numbers do.  A
sort key puts a leading byte for the sign and the length of the magnitude
before it, and inverts both for a negative number.  Keys of one scale compare
as the numbers, and no key is a proper beginning of another, so a row can be
sorted by the concatenated keys of its columns.
-/

namespace Streamling

/-- The bytes by which a canonical encoding is sorted.  The length is cut to
32 bits. -/
def decimalArbToSortKey : List UInt8 → List UInt8
  | [] => [1, 0, 0, 0, 0]
  | signByte :: magnitude =>
      let len := UInt32.ofNat magnitude.length
      if signByte = 0xFF then
        0 :: (BigEndian.u32Bytes (~~~ len) ++ magnitude.map (~~~ ·))
      else
        1 :: (BigEndian.u32Bytes len ++ magnitude)

namespace DecimalArbValue

open BigEndian (frame toBytes)

/-! ## The form of a key -/

theorem sortKey_of_negative
    {bytes : List UInt8} (h : bytes.head? = some 0xFF) :
    decimalArbToSortKey bytes = 0 :: (frame bytes.tail).map (~~~ ·) := by
  obtain ⟨magnitude, rfl⟩ := List.head?_eq_some_iff.mp h
  simp [decimalArbToSortKey, frame, BigEndian.u32Bytes_complement]

theorem sortKey_of_not_negative
    {bytes : List UInt8} (h : bytes.head? ≠ some 0xFF) :
    decimalArbToSortKey bytes = 1 :: frame bytes.tail := by
  rcases bytes with _ | ⟨signByte, magnitude⟩
  · decide
  · have hsign : signByte ≠ 0xFF := by simpa using h
    simp [decimalArbToSortKey, frame, hsign]

/-- No sort key is a proper beginning of another. -/
theorem sortKey_separate :
    OrderedCodes.Separate
      (decimalArbToSortKey '' {bytes | bytes.tail.length < 2 ^ 32}) := by
  rintro _ ⟨a, ha, rfl⟩ _ ⟨b, hb, rfl⟩ h
  have hframe (hinitial : frame a.tail <+: frame b.tail) :
      frame a.tail = frame b.tail :=
    BigEndian.frame_separate _ ⟨a.tail, ha, rfl⟩ _ ⟨b.tail, hb, rfl⟩ hinitial
  by_cases hsignA : a.head? = some 0xFF
  · by_cases hsignB : b.head? = some 0xFF
    · rw [sortKey_of_negative hsignA, sortKey_of_negative hsignB] at h ⊢
      have htail := (List.cons_prefix_cons.mp h).2
      rw [hframe ((List.prefix_map_iff_of_injective
        BigEndian.complement_strictAnti.injective).mp htail)]
    · rw [sortKey_of_negative hsignA, sortKey_of_not_negative hsignB] at h
      exact absurd (List.cons_prefix_cons.mp h).1 (by decide)
  · by_cases hsignB : b.head? = some 0xFF
    · rw [sortKey_of_not_negative hsignA, sortKey_of_negative hsignB] at h
      exact absurd (List.cons_prefix_cons.mp h).1 (by decide)
    · rw [sortKey_of_not_negative hsignA,
        sortKey_of_not_negative hsignB] at h ⊢
      rw [hframe (List.cons_prefix_cons.mp h).2]

theorem sortKey_encodeDigits_of_neg {m : ℤ} (h : m < 0) :
    decimalArbToSortKey (encodeDigits m) =
      0 :: (frame (toBytes m.natAbs)).map (~~~ ·) := by
  rw [encodeDigits_of_neg h]
  exact sortKey_of_negative (by simp)

theorem sortKey_encodeDigits_of_nonneg {m : ℤ} (h : 0 ≤ m) :
    decimalArbToSortKey (encodeDigits m) =
      1 :: frame (toBytes m.natAbs) := by
  rcases h.eq_or_lt with rfl | hpos
  · rw [encodeDigits_zero]
    decide
  · rw [encodeDigits_of_pos hpos]
    exact sortKey_of_not_negative (by simp)

theorem length_tail_encodeDigits (m : ℤ) :
    (encodeDigits m).tail.length = (toBytes m.natAbs).length := by
  rcases lt_trichotomy m 0 with h | rfl | h
  · rw [encodeDigits_of_neg h, List.tail_cons]
  · simp
  · rw [encodeDigits_of_pos h, List.tail_cons]

/-! ## The order of the keys -/

/-- Keys of integers are ordered as they are. -/
theorem sortKey_encodeDigits_lt
    {m k : ℤ} (hm : (toBytes m.natAbs).length < 2 ^ 32)
    (hk : (toBytes k.natAbs).length < 2 ^ 32) (h : m < k) :
    decimalArbToSortKey (encodeDigits m) <
      decimalArbToSortKey (encodeDigits k) := by
  by_cases hneg : m < 0
  · rw [sortKey_encodeDigits_of_neg hneg]
    by_cases hneg' : k < 0
    · have hlt := BigEndian.frame_toBytes_lt
        (show k.natAbs < m.natAbs by omega) hm
      rw [sortKey_encodeDigits_of_neg hneg', List.cons_lt_cons_iff]
      refine Or.inr ⟨rfl, OrderedCodes.map_lt_map_of_strictAnti
        BigEndian.complement_strictAnti hlt fun hinitial => ?_⟩
      exact hlt.ne (BigEndian.frame_separate _ ⟨_, hk, rfl⟩ _ ⟨_, hm, rfl⟩
        hinitial)
    · rw [sortKey_encodeDigits_of_nonneg (not_lt.mp hneg'),
        List.cons_lt_cons_iff]
      exact Or.inl (by decide)
  · have hlt := BigEndian.frame_toBytes_lt
      (show m.natAbs < k.natAbs by omega) hk
    rw [sortKey_encodeDigits_of_nonneg (not_lt.mp hneg),
      sortKey_encodeDigits_of_nonneg (by omega), List.cons_lt_cons_iff]
    exact Or.inr ⟨rfl, hlt⟩

/-- The value is a whole number of units at the scale. -/
def RepresentableAt (scale : ℕ) (v : DecimalArbValue) : Prop :=
  ∃ m : ℤ, v.value * (10 : ℚ) ^ (scale : ℤ) = m

/-- The sort key of a value in a column of the scale. -/
def sortKeyAt (scale : ℕ) (v : DecimalArbValue) : List UInt8 :=
  decimalArbToSortKey (v.toCanonicalBytesAtScale scale)

/-- The values of the scale whose magnitude has fewer than `2 ^ 32` bytes. -/
def sortable (scale : ℕ) : Set DecimalArbValue :=
  {v | v.RepresentableAt scale ∧
    (v.toCanonicalBytesAtScale scale).tail.length < 2 ^ 32}

theorem value_lt_iff_units
    {v w : DecimalArbValue} {scale : ℕ} {m k : ℤ}
    (hv : v.value * (10 : ℚ) ^ (scale : ℤ) = m)
    (hw : w.value * (10 : ℚ) ^ (scale : ℤ) = k) :
    v.value < w.value ↔ m < k := by
  have hpow : (0 : ℚ) < (10 : ℚ) ^ (scale : ℤ) := by positivity
  rw [← mul_lt_mul_iff_left₀ hpow, hv, hw]
  exact Int.cast_lt

theorem fromBigintAndScale_mem_sortable
    {m : ℤ} {scale : ℕ} (h : (toBytes m.natAbs).length < 2 ^ 32) :
    fromBigintAndScale m scale ∈ sortable scale := by
  have hunits := value_fromBigintAndScale_mul m scale
  refine ⟨⟨m, hunits⟩, ?_⟩
  rwa [toCanonicalBytesAtScale_of_units hunits, length_tail_encodeDigits]

theorem sortKeyAt_lt_iff
    {scale : ℕ} {v w : DecimalArbValue}
    (hv : v ∈ sortable scale) (hw : w ∈ sortable scale) :
    sortKeyAt scale v < sortKeyAt scale w ↔ v.value < w.value := by
  obtain ⟨⟨m, hm⟩, hlength⟩ := hv
  obtain ⟨⟨k, hk⟩, hlength'⟩ := hw
  rw [toCanonicalBytesAtScale_of_units hm,
    length_tail_encodeDigits] at hlength
  rw [toCanonicalBytesAtScale_of_units hk,
    length_tail_encodeDigits] at hlength'
  rw [sortKeyAt, sortKeyAt, toCanonicalBytesAtScale_of_units hm,
    toCanonicalBytesAtScale_of_units hk, value_lt_iff_units hm hk]
  constructor
  · intro hlt
    by_contra hnot
    rcases (not_lt.mp hnot).eq_or_lt with rfl | hgt
    · exact lt_irrefl _ hlt
    · exact hlt.asymm (sortKey_encodeDigits_lt hlength' hlength hgt)
  · exact sortKey_encodeDigits_lt hlength hlength'

theorem sortKeyAt_orders (scale : ℕ) :
    OrderedCodes.Orders (sortable scale) (sortKeyAt scale) value where
  lt_iff _ hv _ hw := sortKeyAt_lt_iff hv hw
  separate := by
    apply sortKey_separate.mono
    rintro _ ⟨v, hv, rfl⟩
    exact ⟨v.toCanonicalBytesAtScale scale, hv.2, rfl⟩

/-- The key of a row: the keys of its columns, one behind the other. -/
def compositeKey (scales : List ℕ) (values : List DecimalArbValue) :
    List UInt8 :=
  OrderedCodes.row sortKeyAt scales values

/-- Keys of one scale compare as the values do, no key is a proper beginning
of another, and the keys of rows compare as the rows do, column by column. -/
theorem sort_keys_order :
    (∀ (scale : ℕ) (a b : DecimalArbValue),
      a ∈ sortable scale → b ∈ sortable scale →
      (sortKeyAt scale a < sortKeyAt scale b ↔ a.value < b.value) ∧
      (sortKeyAt scale a = sortKeyAt scale b ↔ a.value = b.value) ∧
      (sortKeyAt scale b < sortKeyAt scale a ↔ b.value < a.value)) ∧
    (∀ ca cb : List UInt8,
      ca.tail.length < 2 ^ 32 → cb.tail.length < 2 ^ 32 →
      decimalArbToSortKey ca <+: decimalArbToSortKey cb →
      decimalArbToSortKey ca = decimalArbToSortKey cb) ∧
    ∀ (scales : List ℕ) (a b : List DecimalArbValue),
      List.Forall₂ (fun scale v => v ∈ sortable scale) scales a →
      List.Forall₂ (fun scale v => v ∈ sortable scale) scales b →
      (compositeKey scales a < compositeKey scales b ↔
        a.map value < b.map value) := by
  refine ⟨fun scale a b ha hb => ⟨?_, ?_, ?_⟩, ?_, ?_⟩
  · exact sortKeyAt_lt_iff ha hb
  · exact (sortKeyAt_orders scale).eq_iff ha hb
  · exact sortKeyAt_lt_iff hb ha
  · intro ca cb hca hcb
    exact sortKey_separate _ ⟨ca, hca, rfl⟩ _ ⟨cb, hcb, rfl⟩
  · intro scales a b ha hb
    exact OrderedCodes.row_lt_row_iff sortKeyAt_orders ha hb

/-- A negative number before a positive one with more bytes, and two rows
that differ in their second column. -/
theorem sort_keys_order_rows :
    sortKeyAt 2 (fromBigintAndScale (-307) 2) <
        sortKeyAt 2 (fromBigintAndScale 70000 2) ∧
      compositeKey [2, 0]
          [fromBigintAndScale (-307) 2, fromBigintAndScale (-9) 0] <
        compositeKey [2, 0]
          [fromBigintAndScale (-307) 2, fromBigintAndScale 0 0] := by
  have hmem {m : ℤ} {scale : ℕ} (h : m.natAbs < 256 ^ 3) :
      fromBigintAndScale m scale ∈ sortable scale :=
    fromBigintAndScale_mem_sortable (Nat.lt_of_le_of_lt
      (BigEndian.length_toBytes_le_iff.mpr h) (by norm_num))
  have hlt {m k : ℤ} {scale : ℕ} (h : m < k) :
      (fromBigintAndScale m scale).value <
        (fromBigintAndScale k scale).value :=
    (value_lt_iff_units (value_fromBigintAndScale_mul m scale)
      (value_fromBigintAndScale_mul k scale)).mpr h
  constructor
  · exact (sort_keys_order.1 2 _ _ (hmem (by norm_num))
      (hmem (by norm_num))).1.mpr (hlt (by norm_num))
  · apply (sort_keys_order.2.2 [2, 0] _ _
      (.cons (hmem (by norm_num)) (.cons (hmem (by norm_num)) .nil))
      (.cons (hmem (by norm_num)) (.cons (hmem (by norm_num)) .nil))).mpr
    simp only [List.map_cons, List.map_nil, List.cons_lt_cons_iff]
    exact Or.inr ⟨trivial, Or.inl (hlt (by norm_num))⟩

end DecimalArbValue

end Streamling
