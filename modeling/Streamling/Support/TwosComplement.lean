import Mathlib
import Streamling.Support.ByteWords

/-!
# Two's complement

Big-endian bytes of any length as a signed number, extension by copies of the
sign byte, and the low bytes of a wider word.
-/

namespace BigEndian

/-- The signed number that bytes denote.  The empty string is zero. -/
def ofSignedBytes (bytes : List UInt8) : ℤ :=
  if signBit bytes then (ofBytes bytes : ℤ) - 256 ^ bytes.length
  else ofBytes bytes

/-- The byte by which a word is extended. -/
def fillByte (negative : Bool) : UInt8 :=
  if negative then 0xFF else 0x00

/-- The bytes of a number in a width of `width` bytes. -/
def toSignedBytes (width : ℕ) (n : ℤ) : List UInt8 :=
  let magnitude := toBytes (n % 256 ^ width).toNat
  List.replicate (width - magnitude.length) 0 ++ magnitude

@[simp] theorem ofSignedBytes_nil : ofSignedBytes [] = 0 := by
  simp [ofSignedBytes, signBit]

theorem signBit_fillByte_cons (negative : Bool) (bytes : List UInt8) :
    signBit (fillByte negative :: bytes) = negative := by
  rw [signBit, List.headD_cons]
  revert negative
  decide

theorem signBit_replicate_append (k : ℕ) (bytes : List UInt8) :
    signBit (List.replicate k (fillByte (signBit bytes)) ++ bytes) =
      signBit bytes := by
  cases k with
  | zero => simp
  | succ k =>
      rw [List.replicate_succ, List.cons_append, signBit_fillByte_cons]

theorem ofBytes_replicate_max_append (k : ℕ) (bytes : List UInt8) :
    ofBytes (List.replicate k 0xFF ++ bytes) + 256 ^ bytes.length =
      256 ^ (k + bytes.length) + ofBytes bytes := by
  induction k with
  | zero => simp [Nat.add_comm]
  | succ k ih =>
      rw [List.replicate_succ, List.cons_append, ofBytes_cons,
        List.length_append, List.length_replicate, Nat.add_assoc, ih,
        Nat.succ_add, pow_succ]
      have hbyte : (0xFF : UInt8).toNat = 255 := rfl
      rw [hbyte]
      ring

/-- Sign extension does not change the number. -/
theorem ofSignedBytes_replicate_append (k : ℕ) (bytes : List UInt8) :
    ofSignedBytes (List.replicate k (fillByte (signBit bytes)) ++ bytes) =
      ofSignedBytes bytes := by
  unfold ofSignedBytes
  rw [signBit_replicate_append]
  cases hsign : signBit bytes with
  | false => simp [fillByte]
  | true =>
      have hmax := ofBytes_replicate_max_append k bytes
      simp only [if_true, fillByte, List.length_append, List.length_replicate]
      have hcast : (ofBytes (List.replicate k 0xFF ++ bytes) : ℤ) +
          256 ^ bytes.length = 256 ^ (k + bytes.length) + ofBytes bytes := by
        exact_mod_cast hmax
      linarith

theorem ofSignedBytes_bounds
    {bytes : List UInt8} {k : ℕ} (hlength : bytes.length = k + 1) :
    -(128 * 256 ^ k : ℤ) ≤ ofSignedBytes bytes ∧
      ofSignedBytes bytes < 128 * 256 ^ k := by
  have hlt := ofBytes_lt bytes
  rw [hlength, pow_succ] at hlt
  have hltInt : (ofBytes bytes : ℤ) < 256 ^ k * 256 := by exact_mod_cast hlt
  have hpow : (0 : ℤ) < 256 ^ k := by positivity
  have hsign := signBit_iff hlength
  unfold ofSignedBytes
  rw [hlength, pow_succ]
  by_cases hbit : signBit bytes
  · have hle : (128 * 256 ^ k : ℤ) ≤ ofBytes bytes := by
      exact_mod_cast hsign.mp hbit
    rw [if_pos hbit]
    constructor <;> linarith
  · have hnotle : (ofBytes bytes : ℤ) < 128 * 256 ^ k := by
      have hnat := not_le.mp (fun h => hbit (hsign.mpr h))
      exact_mod_cast hnat
    rw [if_neg hbit]
    constructor
    · have hnonneg : (0 : ℤ) ≤ ofBytes bytes := Int.natCast_nonneg _
      linarith
    · exact hnotle

theorem ofSignedBytes_modEq (bytes : List UInt8) :
    ofSignedBytes bytes ≡ ofBytes bytes [ZMOD 256 ^ bytes.length] := by
  unfold ofSignedBytes
  split_ifs
  · exact Int.modEq_sub_modulus_iff.mpr rfl |>.symm
  · rfl

/-- Numbers of one width that are congruent are equal. -/
theorem eq_of_modEq_of_bounds
    {x y : ℤ} {k : ℕ}
    (hx : -(128 * 256 ^ k : ℤ) ≤ x ∧ x < 128 * 256 ^ k)
    (hy : -(128 * 256 ^ k : ℤ) ≤ y ∧ y < 128 * 256 ^ k)
    (h : x ≡ y [ZMOD 256 ^ (k + 1)]) : x = y := by
  rw [pow_succ] at h
  obtain ⟨c, hc⟩ := h.dvd
  have hpow : (0 : ℤ) < 256 ^ k := by positivity
  have hsmall : y - x < 256 ^ k * 256 := by linarith
  have hlarge : -(256 ^ k * 256 : ℤ) < y - x := by linarith
  have hzero : c = 0 := by
    rw [hc] at hsmall hlarge
    have hupper : c < 1 := by nlinarith
    have hlower : -1 < c := by nlinarith
    omega
  rw [hzero, mul_zero] at hc
  linarith

theorem length_toSignedBytes (width : ℕ) (n : ℤ) :
    (toSignedBytes width n).length = width := by
  have hpow : (0 : ℤ) < 256 ^ width := by positivity
  have hlt : (n % 256 ^ width).toNat < 256 ^ width := by
    have hmod := Int.emod_lt_of_pos n hpow
    zify
    rw [Int.toNat_of_nonneg (Int.emod_nonneg n hpow.ne')]
    exact hmod
  have hle := length_toBytes_le_iff.mpr hlt
  simp only [toSignedBytes, List.length_append, List.length_replicate]
  omega

theorem ofBytes_toSignedBytes_modEq (width : ℕ) (n : ℤ) :
    (ofBytes (toSignedBytes width n) : ℤ) ≡ n [ZMOD 256 ^ width] := by
  have hpow : (256 : ℤ) ^ width ≠ 0 := by positivity
  simp only [toSignedBytes, ofBytes_replicate_append, ofBytes_toBytes]
  rw [Int.toNat_of_nonneg (Int.emod_nonneg n hpow)]
  exact Int.mod_modEq n _

theorem ofBytes_append (a b : List UInt8) :
    ofBytes (a ++ b) = ofBytes a * 256 ^ b.length + ofBytes b := by
  induction a with
  | nil => simp
  | cons x a ih =>
      rw [List.cons_append, ofBytes_cons, ofBytes_cons, ih,
        List.length_append, pow_add]
      ring

/-- The low bytes of a word denote the number up to their width. -/
theorem ofSignedBytes_drop_modEq (width k : ℕ) (n : ℤ) :
    ofSignedBytes ((toSignedBytes width n).drop k) ≡ n
      [ZMOD 256 ^ (width - k)] := by
  have hlength : ((toSignedBytes width n).drop k).length = width - k := by
    rw [List.length_drop, length_toSignedBytes]
  have hsigned := ofSignedBytes_modEq ((toSignedBytes width n).drop k)
  have hall := ofBytes_toSignedBytes_modEq width n
  rw [← List.take_append_drop k (toSignedBytes width n), ofBytes_append,
    hlength] at hall
  rw [hlength] at hsigned
  have hdvd : (256 ^ (width - k) : ℤ) ∣ 256 ^ width :=
    pow_dvd_pow _ (Nat.sub_le _ _)
  have hlow := hall.of_dvd hdvd
  push_cast at hlow
  refine hsigned.trans (Int.ModEq.trans ?_ hlow)
  rw [Int.modEq_iff_dvd]
  exact ⟨_, by ring⟩

end BigEndian
