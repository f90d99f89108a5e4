import Mathlib
import Streamling.Types.DecimalArb

/-!
# Canonical bytes and numbers

Within one scale the canonical bytes of an integer determine it, and every
value that is a whole number of units at the scale is encoded by that number:
equal bytes are equal numbers.  Decoding reads more strings than encoding
writes: a magnitude may begin with zero bytes, and only the empty magnitude is
refused as a negative zero.
-/

namespace Streamling

namespace DecimalArbValue

/-! ## Bytes of the digits -/

theorem dropWhile_eq_self_of_head?
    {bytes : List UInt8} (h : bytes.head? ≠ some 0) :
    bytes.dropWhile (· == 0) = bytes := by
  cases bytes with
  | nil => rfl
  | cons b rest =>
      have hb : (b == 0) = false := by
        simpa using h
      rw [List.dropWhile_cons, hb]
      rfl

@[simp] theorem encodeDigits_zero : encodeDigits 0 = [0x00] := by
  simp [encodeDigits, bigIntToBytesBe]

theorem encodeDigits_of_neg {m : ℤ} (h : m < 0) :
    encodeDigits m = 0xFF :: BigEndian.toBytes m.natAbs := by
  have hne : m ≠ 0 := by omega
  simp only [encodeDigits, bigIntToBytesBe, if_neg hne, if_pos h]
  rw [dropWhile_eq_self_of_head? (BigEndian.head?_toBytes_ne _)]

theorem encodeDigits_of_pos {m : ℤ} (h : 0 < m) :
    encodeDigits m = 0x00 :: BigEndian.toBytes m.natAbs := by
  have hne : m ≠ 0 := by omega
  have hnot : ¬ m < 0 := by omega
  simp only [encodeDigits, bigIntToBytesBe, if_neg hne, if_neg hnot]
  rw [dropWhile_eq_self_of_head? (BigEndian.head?_toBytes_ne _)]

/-- Decoding gives back the digits. -/
theorem decodeDigits_encodeDigits (m : ℤ) :
    decodeDigits (encodeDigits m) = .ok m := by
  rcases lt_trichotomy m 0 with h | h | h
  · have hmag := BigEndian.toBytes_isEmpty (Int.natAbs_ne_zero.mpr h.ne)
    have hvalue : -(m.natAbs : ℤ) = m := by omega
    rw [encodeDigits_of_neg h]
    simp only [decodeDigits, hmag, bigIntFromBytesBe,
      BigEndian.ofBytes_toBytes, hvalue]
    rfl
  · subst h
    rfl
  · have hmag := BigEndian.toBytes_isEmpty (Int.natAbs_ne_zero.mpr h.ne')
    have hvalue : (m.natAbs : ℤ) = m := by omega
    rw [encodeDigits_of_pos h]
    simp only [decodeDigits, hmag, bigIntFromBytesBe,
      BigEndian.ofBytes_toBytes, hvalue]
    rfl

theorem encodeDigits_inj {m k : ℤ} :
    encodeDigits m = encodeDigits k ↔ m = k := by
  refine ⟨fun h => ?_, fun h => by rw [h]⟩
  have hm := decodeDigits_encodeDigits m
  rw [h, decodeDigits_encodeDigits k] at hm
  exact (Except.ok.inj hm).symm

/-- What is written never has a zero byte after the sign. -/
theorem encodeDigits_second_ne (m : ℤ) : (encodeDigits m)[1]? ≠ some 0 := by
  rcases lt_trichotomy m 0 with h | h | h
  · rw [encodeDigits_of_neg h]
    simpa [List.head?_eq_getElem?] using BigEndian.head?_toBytes_ne m.natAbs
  · subst h
    simp
  · rw [encodeDigits_of_pos h]
    simpa [List.head?_eq_getElem?] using BigEndian.head?_toBytes_ne m.natAbs

/-- An accepted string is the one written for its digits exactly if its
magnitude has no leading zero byte. -/
theorem encodeDigits_eq_iff_of_decodeDigits
    {bytes : List UInt8} {m : ℤ} (h : decodeDigits bytes = .ok m) :
    encodeDigits m = bytes ↔ bytes[1]? ≠ some 0 := by
  constructor
  · rintro rfl
    exact encodeDigits_second_ne m
  · intro hsecond
    cases bytes with
    | nil => simp [decodeDigits] at h
    | cons signByte magnitude =>
        have hhead : magnitude.head? ≠ some 0 := by
          simpa [List.head?_eq_getElem?] using hsecond
        by_cases hempty : magnitude = []
        · subst hempty
          simp only [decodeDigits, List.isEmpty_nil, if_true] at h
          split at h
          · rename_i hsign
            obtain rfl : 0 = m := by simpa using h
            rw [hsign, encodeDigits_zero]
          · split at h <;> simp at h
        · have hpos := BigEndian.ofBytes_ne_zero hempty hhead
          have hback := BigEndian.toBytes_ofBytes hhead
          have hnot : magnitude.isEmpty = false := by simpa using hempty
          simp only [decodeDigits, hnot] at h
          split at h
          · rename_i hsign
            obtain rfl : (BigEndian.ofBytes magnitude : ℤ) = m := by
              simpa [bigIntFromBytesBe] using h
            rw [encodeDigits_of_pos (by omega), Int.natAbs_natCast, hback,
              hsign]
          · split at h
            · rename_i hsign
              obtain rfl : -(BigEndian.ofBytes magnitude : ℤ) = m := by
                simpa [bigIntFromBytesBe] using h
              rw [encodeDigits_of_neg (by omega), Int.natAbs_neg,
                Int.natAbs_natCast, hback, hsign]
            · simp at h

/-! ## Values -/

@[simp] theorem value_canonicalize (bd : BigDecimal) :
    (canonicalize bd).value = bd.value := by
  unfold canonicalize
  split
  · rename_i hzero
    rw [value, BigDecimal.value_eq_zero_iff.mpr hzero]
    exact BigDecimal.value_eq_zero_iff.mpr rfl
  · rfl

/-- A value with no more digits after the point than the scale is a whole
number of units. -/
theorem exists_units_of_fractionalDigitCount
    {v : DecimalArbValue} {scale : ℕ} (h : v.fractionalDigitCount ≤ scale) :
    ∃ m : ℤ, v.value * (10 : ℚ) ^ (scale : ℤ) = m := by
  apply BigDecimal.exists_units
  unfold fractionalDigitCount at h
  omega

/-- Such a value is encoded by the number of its units. -/
theorem toCanonicalBytesAtScale_of_units
    {v : DecimalArbValue} {scale : ℕ} {m : ℤ}
    (h : v.value * (10 : ℚ) ^ (scale : ℤ) = m) :
    v.toCanonicalBytesAtScale scale = encodeDigits m := by
  rw [toCanonicalBytesAtScale, BigDecimal.digits_withScaleRound h]

theorem fromCanonicalBytesAtScale_encodeDigits (m : ℤ) (scale : ℕ) :
    fromCanonicalBytesAtScale (encodeDigits m) scale =
      .ok (fromBigintAndScale m scale) := by
  simp only [fromCanonicalBytesAtScale, decodeDigits_encodeDigits]
  rfl

theorem fromCanonicalBytesAtScale_eq_ok_iff
    {bytes : List UInt8} {scale : ℕ} {v : DecimalArbValue} :
    fromCanonicalBytesAtScale bytes scale = .ok v ↔
      ∃ m, decodeDigits bytes = .ok m ∧
        v = fromBigintAndScale m scale := by
  unfold fromCanonicalBytesAtScale
  cases decodeDigits bytes with
  | error e => simp [bind, Except.bind]
  | ok m =>
      simp only [bind, Except.bind, pure, Except.pure, Except.ok.injEq,
        exists_eq_left']
      exact eq_comm

theorem value_fromBigintAndScale_mul (m : ℤ) (scale : ℕ) :
    (fromBigintAndScale m scale).value * (10 : ℚ) ^ (scale : ℤ) = m := by
  rw [fromBigintAndScale, value_canonicalize]
  exact BigDecimal.value_mk_mul_zpow m scale

theorem value_eq_iff_units
    {v w : DecimalArbValue} {scale : ℕ} {m k : ℤ}
    (hv : v.value * (10 : ℚ) ^ (scale : ℤ) = m)
    (hw : w.value * (10 : ℚ) ^ (scale : ℤ) = k) :
    v.value = w.value ↔ m = k := by
  have hpow : (10 : ℚ) ^ (scale : ℤ) ≠ 0 := zpow_ne_zero _ (by norm_num)
  constructor
  · intro heq
    have hcast : (m : ℚ) = k := by rw [← hv, ← hw, heq]
    exact_mod_cast hcast
  · rintro rfl
    exact mul_right_cancel₀ hpow (hv.trans hw.symm)

/-- At every scale, the values with no more significant digits after the
point than the scale are decoded from their bytes, and their bytes are equal
exactly if their numbers are.  A string that is accepted is what its value is
encoded as exactly if its magnitude does not begin with a zero byte. -/
theorem canonical_bytes_bijective_iff (scale : ℕ) :
    (∀ v : DecimalArbValue, v.fractionalDigitCount ≤ scale →
      ∃ w, fromCanonicalBytesAtScale (v.toCanonicalBytesAtScale scale)
          scale = .ok w ∧ w.value = v.value) ∧
      (∀ v w : DecimalArbValue, v.fractionalDigitCount ≤ scale →
        w.fractionalDigitCount ≤ scale →
        (v.toCanonicalBytesAtScale scale = w.toCanonicalBytesAtScale scale ↔
          v.value = w.value)) ∧
      ∀ (bytes : List UInt8) (v : DecimalArbValue),
        fromCanonicalBytesAtScale bytes scale = .ok v →
        (v.toCanonicalBytesAtScale scale = bytes ↔ bytes[1]? ≠ some 0) := by
  refine ⟨?_, ?_, ?_⟩
  · intro v hv
    obtain ⟨m, hm⟩ := exists_units_of_fractionalDigitCount hv
    refine ⟨fromBigintAndScale m scale, ?_, ?_⟩
    · rw [toCanonicalBytesAtScale_of_units hm]
      exact fromCanonicalBytesAtScale_encodeDigits m scale
    · exact (value_eq_iff_units (value_fromBigintAndScale_mul m scale)
        hm).mpr rfl
  · intro v w hv hw
    obtain ⟨m, hm⟩ := exists_units_of_fractionalDigitCount hv
    obtain ⟨k, hk⟩ := exists_units_of_fractionalDigitCount hw
    rw [toCanonicalBytesAtScale_of_units hm,
      toCanonicalBytesAtScale_of_units hk, encodeDigits_inj,
      value_eq_iff_units hm hk]
  · intro bytes v hv
    obtain ⟨m, hm, rfl⟩ := fromCanonicalBytesAtScale_eq_ok_iff.mp hv
    rw [toCanonicalBytesAtScale_of_units
      (value_fromBigintAndScale_mul m scale)]
    exact encodeDigits_eq_iff_of_decodeDigits hm

/-- A magnitude with a leading zero byte and a zero with the negative sign
are accepted, and encoded differently. -/
theorem canonical_bytes_accept_second_form :
    fromCanonicalBytesAtScale [0x00, 0x00, 0x07] 2 =
        .ok (fromBigintAndScale 7 2) ∧
      (fromBigintAndScale 7 2).toCanonicalBytesAtScale 2 = [0x00, 0x07] ∧
      fromCanonicalBytesAtScale [0xFF, 0x00] 2 =
        .ok (fromBigintAndScale 0 2) ∧
      (fromBigintAndScale 0 2).toCanonicalBytesAtScale 2 = [0x00] ∧
      ¬ ∀ (bytes : List UInt8) (v : DecimalArbValue),
        fromCanonicalBytesAtScale bytes 2 = .ok v →
        v.toCanonicalBytesAtScale 2 = bytes := by
  have hminus : fromCanonicalBytesAtScale [0xFF, 0x00] 2 =
      .ok (fromBigintAndScale 0 2) := rfl
  have hzero : (fromBigintAndScale 0 2).toCanonicalBytesAtScale 2 =
      [0x00] := by decide +kernel
  refine ⟨rfl, by decide +kernel, hminus, hzero, fun hall => ?_⟩
  have heq := hall [0xFF, 0x00] _ hminus
  rw [hzero] at heq
  simp at heq

end DecimalArbValue

end Streamling
