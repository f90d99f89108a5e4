import Mathlib
import Streamling.Support.TwosComplement

/-!
# Integers in words of a fixed width

The shortest two's-complement bytes of an integer, their extension to a word,
and powers of ten that are computed in the word by a multiplication that
saturates or wraps.
-/

namespace BigEndian

/-! ## Shortest signed bytes -/

/-- The bytes of the magnitude; zero has one. -/
def magnitudeBytes (i : ℤ) : List UInt8 :=
  if i = 0 then [0] else toBytes i.natAbs

/-- The highest bit of the magnitude is set.  A power of two whose bit is the
sign bit of a negative number needs no further byte. -/
def needsSpareByte (negative : Bool) (magnitude : List UInt8) : Bool :=
  0x7F < magnitude.headD 0 &&
    !(magnitude.headD 0 == 0x80 && magnitude.tail.all (· == 0) && negative)

def spared (negative : Bool) (magnitude : List UInt8) : List UInt8 :=
  if needsSpareByte negative magnitude then 0 :: magnitude else magnitude

/-- The shortest two's-complement bytes of an integer. -/
def shortestSigned (i : ℤ) : List UInt8 :=
  let bytes := spared (i < 0) (magnitudeBytes i)
  if i < 0 then negate bytes else bytes

theorem ofBytes_eq_zero_of_all
    {bytes : List UInt8} (h : bytes.all (· == 0) = true) :
    ofBytes bytes = 0 := by
  induction bytes with
  | nil => simp
  | cons b bytes ih =>
      simp only [List.all_cons, Bool.and_eq_true, beq_iff_eq] at h
      rw [ofBytes_cons, h.1, ih h.2]
      simp

theorem signBit_eq_decide
    {bytes : List UInt8} (h : bytes ≠ []) :
    signBit bytes =
      decide (128 * 256 ^ (bytes.length - 1) ≤ ofBytes bytes) := by
  have hlength : bytes.length = bytes.length - 1 + 1 := by
    have hpos := List.length_pos_of_ne_nil h
    omega
  rw [Bool.eq_iff_iff, signBit_iff hlength, decide_eq_true_eq]

/-- A word whose number does not pass the sign bit, or passes it only as the
least negative one. -/
structure Unsigned (i : ℤ) (bytes : List UInt8) : Prop where
  nonempty : bytes ≠ []
  number : ofBytes bytes = i.natAbs
  room : i.natAbs ≤ 128 * 256 ^ (bytes.length - 1)
  below : 0 ≤ i → i.natAbs < 128 * 256 ^ (bytes.length - 1)

theorem pow_length_eq {bytes : List UInt8} (h : bytes ≠ []) :
    256 ^ bytes.length = 2 * (128 * 256 ^ (bytes.length - 1)) := by
  obtain ⟨k, hk⟩ := Nat.exists_eq_succ_of_ne_zero
    (List.length_pos_of_ne_nil h).ne'
  rw [hk, Nat.succ_sub_one, pow_succ]
  omega

theorem ofSignedBytes_negate
    {i : ℤ} {bytes : List UInt8} (h : Unsigned i bytes) (hneg : i < 0) :
    signBit (negate bytes) = true ∧ ofSignedBytes (negate bytes) = i := by
  have hne : ofBytes bytes ≠ 0 := by
    rw [h.number]
    omega
  have hnumber := ofBytes_negate_of_ne_zero hne
  have hpow := pow_length_eq h.nonempty
  have hroom := h.room
  rw [h.number] at hnumber
  have hnonempty : negate bytes ≠ [] := by
    intro hnil
    have hlength := length_negate bytes
    rw [hnil] at hlength
    exact h.nonempty (List.length_eq_zero_iff.mp hlength.symm)
  have hsign : signBit (negate bytes) = true := by
    rw [signBit_eq_decide hnonempty, length_negate, hnumber,
      decide_eq_true_eq]
    omega
  refine ⟨hsign, ?_⟩
  rw [ofSignedBytes, if_pos hsign, length_negate, hnumber]
  have hle : i.natAbs ≤ 256 ^ bytes.length := by omega
  rw [Nat.cast_sub hle, Nat.cast_pow, Nat.cast_ofNat]
  omega

theorem ofSignedBytes_of_nonneg
    {i : ℤ} {bytes : List UInt8} (h : Unsigned i bytes) (hnonneg : 0 ≤ i) :
    signBit bytes = false ∧ ofSignedBytes bytes = i := by
  have hbelow := h.below hnonneg
  have hsign : signBit bytes = false := by
    rw [signBit_eq_decide h.nonempty, h.number, decide_eq_false_iff_not]
    omega
  refine ⟨hsign, ?_⟩
  rw [ofSignedBytes, hsign, h.number]
  simp only [Bool.false_eq_true, if_false]
  omega

/-- The first byte of a word against the powers of its length. -/
theorem headD_lt_iff {bytes : List UInt8} (h : bytes ≠ []) :
    0x7F < bytes.headD 0 ↔
      128 * 256 ^ (bytes.length - 1) ≤ ofBytes bytes := by
  obtain ⟨b, rest, rfl⟩ := List.exists_cons_of_ne_nil h
  have hlt := ofBytes_lt rest
  rw [List.headD_cons, ofBytes_cons, List.length_cons, Nat.add_sub_cancel,
    UInt8.lt_iff_toNat_lt]
  have hconst : (0x7F : UInt8).toNat = 127 := rfl
  rw [hconst]
  constructor
  · intro hb
    have hmul : 128 * 256 ^ rest.length ≤ b.toNat * 256 ^ rest.length :=
      Nat.mul_le_mul_right _ hb
    omega
  · intro hle
    by_contra hb
    have hmul : (b.toNat + 1) * 256 ^ rest.length ≤
        128 * 256 ^ rest.length := Nat.mul_le_mul_right _ (by omega)
    rw [Nat.add_mul, Nat.one_mul] at hmul
    omega

theorem magnitudeBytes_ne_nil (i : ℤ) : magnitudeBytes i ≠ [] := by
  unfold magnitudeBytes
  split_ifs with hzero
  · simp
  · exact List.isEmpty_eq_false_iff.mp
      (toBytes_isEmpty (Int.natAbs_ne_zero.mpr hzero))

theorem ofBytes_magnitudeBytes (i : ℤ) :
    ofBytes (magnitudeBytes i) = i.natAbs := by
  unfold magnitudeBytes
  split_ifs with hzero
  · rw [hzero]
    decide
  · exact ofBytes_toBytes _

/-- What is negated, or kept, stays off the sign bit. -/
theorem unsigned_spared (i : ℤ) :
    Unsigned i (spared (i < 0) (magnitudeBytes i)) := by
  have hne := magnitudeBytes_ne_nil i
  have hnumber := ofBytes_magnitudeBytes i
  generalize magnitudeBytes i = magnitude at hne hnumber ⊢
  have hhead := headD_lt_iff hne
  have hlt := ofBytes_lt magnitude
  rw [hnumber] at hhead hlt
  unfold spared
  split_ifs with hspare
  · have hzero : ofBytes (0 :: magnitude) = i.natAbs := by
      rw [ofBytes_cons, hnumber]
      simp
    have hpow := pow_length_eq hne
    have hroom : i.natAbs < 128 * 256 ^ ((0 :: magnitude).length - 1) := by
      rw [List.length_cons, Nat.add_sub_cancel]
      omega
    exact ⟨by simp, hzero, hroom.le, fun _ => hroom⟩
  · by_cases hhigh : 0x7F < magnitude.headD 0
    · obtain ⟨⟨hfirst, hzeros⟩, hneg⟩ :
          (magnitude.headD 0 = 0x80 ∧ magnitude.tail.all (· == 0) = true) ∧
            i < 0 := by
        simp only [needsSpareByte, hhigh, decide_true, Bool.true_and] at hspare
        rw [Bool.not_eq_true', Bool.not_eq_false] at hspare
        simpa only [Bool.and_eq_true, beq_iff_eq, decide_eq_true_eq]
          using hspare
      have hexact : i.natAbs = 128 * 256 ^ (magnitude.length - 1) := by
        obtain ⟨b, rest, rfl⟩ := List.exists_cons_of_ne_nil hne
        have hb : b = 0x80 := hfirst
        have hrest := ofBytes_eq_zero_of_all hzeros
        rw [List.tail_cons] at hrest
        rw [← hnumber, ofBytes_cons, hb, hrest, List.length_cons,
          Nat.add_sub_cancel]
        rfl
      exact ⟨hne, hnumber, hexact.le, fun h => absurd hneg (not_lt.mpr h)⟩
    · have hroom : i.natAbs < 128 * 256 ^ (magnitude.length - 1) :=
        not_le.mp fun h => hhigh (hhead.mpr h)
      exact ⟨hne, hnumber, hroom.le, fun _ => hroom⟩

/-- The shortest bytes denote the integer, and their highest bit is its
sign. -/
theorem shortestSigned_spec (i : ℤ) :
    signBit (shortestSigned i) = decide (i < 0) ∧
      ofSignedBytes (shortestSigned i) = i := by
  have hunsigned := unsigned_spared i
  unfold shortestSigned
  by_cases hneg : i < 0
  · rw [if_pos hneg]
    have hspec := ofSignedBytes_negate hunsigned hneg
    exact ⟨by rw [hspec.1, decide_eq_true hneg], hspec.2⟩
  · rw [if_neg hneg]
    have hspec := ofSignedBytes_of_nonneg hunsigned (not_lt.mp hneg)
    exact ⟨by rw [hspec.1, decide_eq_false hneg], hspec.2⟩

/-- A number that leaves the sign bit of a word free has no more bytes than
the word. -/
theorem length_shortestSigned_le
    {i : ℤ} {k : ℕ} (h : i.natAbs < 128 * 256 ^ k) :
    (shortestSigned i).length ≤ k + 1 := by
  have hne := magnitudeBytes_ne_nil i
  have hmagnitude : (magnitudeBytes i).length ≤ k + 1 := by
    unfold magnitudeBytes
    split_ifs
    · simp
    · rw [length_toBytes_le_iff, pow_succ]
      omega
  have hspared : (spared (i < 0) (magnitudeBytes i)).length ≤ k + 1 := by
    unfold spared
    split_ifs with hspare
    · have hhigh : 0x7F < (magnitudeBytes i).headD 0 :=
        of_decide_eq_true (Bool.and_elim_left hspare)
      have hle := (headD_lt_iff hne).mp hhigh
      rw [ofBytes_magnitudeBytes] at hle
      have hpow := (Nat.pow_lt_pow_iff_right (by norm_num : 1 < 256)).mp
        (Nat.lt_of_mul_lt_mul_left (Nat.lt_of_le_of_lt hle h))
      rw [List.length_cons]
      omega
    · exact hmagnitude
  unfold shortestSigned
  split_ifs
  · rw [length_negate]
    exact hspared
  · exact hspared

/-! ## Words -/

/-- An integer in a word of `bytes` bytes and `w` bits, its shortest bytes
extended by the byte of its sign. -/
def toWord (bytes w : ℕ) (i : ℤ) : Option (BitVec w) :=
  let shortest := shortestSigned i
  if bytes < shortest.length then none
  else
    some (BitVec.ofNat w (ofBytes
      (List.replicate (bytes - shortest.length) (fillByte (i < 0)) ++
        shortest)))

/-- A word read from its bytes denotes the signed number of the bytes. -/
theorem toInt_ofNat_ofBytes
    {bytes : List UInt8} {k : ℕ} (hlength : bytes.length = k + 1) :
    (BitVec.ofNat (8 * (k + 1)) (ofBytes bytes)).toInt =
      ofSignedBytes bytes := by
  have hlt := ofBytes_lt bytes
  have hpow : 256 ^ bytes.length = 2 ^ (8 * (k + 1)) := by
    rw [hlength, pow_mul]
    norm_num
  have hsign := signBit_iff hlength
  have hhalf : 256 ^ bytes.length = 2 * (128 * 256 ^ k) := by
    rw [hlength, pow_succ]
    omega
  rw [BitVec.toInt_eq_toNat_cond, BitVec.toNat_ofNat,
    Nat.mod_eq_of_lt (hpow ▸ hlt), ofSignedBytes, ← hpow]
  by_cases hbit : signBit bytes = true
  · have hle := hsign.mp hbit
    rw [if_neg (by omega), if_pos hbit]
    push_cast
    rfl
  · have hnot := mt hsign.mpr hbit
    rw [if_pos (by omega), if_neg hbit]

/-- An integer is found in the word exactly as the same number, and it is
found if it leaves the sign bit free. -/
theorem toWord_spec (i : ℤ) (k : ℕ) :
    (∀ x, toWord (k + 1) (8 * (k + 1)) i = some x → x.toInt = i) ∧
      (i.natAbs < 128 * 256 ^ k →
        ∃ x, toWord (k + 1) (8 * (k + 1)) i = some x) := by
  obtain ⟨hsign, hvalue⟩ := shortestSigned_spec i
  constructor
  · intro x hx
    simp only [toWord] at hx
    split_ifs at hx with hlength
    obtain rfl := Option.some.inj hx
    rw [toInt_ofNat_ofBytes, ← hsign, ofSignedBytes_replicate_append, hvalue]
    rw [List.length_append, List.length_replicate]
    omega
  · intro h
    have hle := length_shortestSigned_le h
    unfold toWord
    rw [if_neg (by omega)]
    exact ⟨_, rfl⟩

/-! ## Powers of ten in a word -/

/-- Multiplication that stops at the ends of the range. -/
def saturatingMul {w : ℕ} (a b : BitVec w) : BitVec w :=
  if a.smulOverflow b then
    if a.slt 0 = b.slt 0 then BitVec.intMax w else BitVec.intMin w
  else a * b

theorem toInt_saturatingMul
    {w : ℕ} {a b : BitVec w} (h : ¬ a.smulOverflow b) :
    (saturatingMul a b).toInt = a.toInt * b.toInt := by
  rw [saturatingMul, if_neg h]
  exact BitVec.toInt_mul_of_not_smulOverflow h

theorem not_smulOverflow_iff {w : ℕ} {a b : BitVec w} :
    ¬ a.smulOverflow b ↔
      -(2 : ℤ) ^ (w - 1) ≤ a.toInt * b.toInt ∧
        a.toInt * b.toInt < 2 ^ (w - 1) := by
  simp [BitVec.smulOverflow]
  tauto

/-- Repeated multiplication by ten that is exact within the range gives the
power of ten while that is in the range. -/
theorem toInt_iterate_ten
    {w : ℕ} {times : BitVec w → BitVec w} {one : BitVec w}
    (hone : one.toInt = 1)
    (htimes : ∀ x : BitVec w, 0 ≤ x.toInt →
      x.toInt * 10 < 2 ^ (w - 1) → (times x).toInt = x.toInt * 10)
    {p : ℕ} (hp : (10 : ℤ) ^ p < 2 ^ (w - 1)) :
    (times^[p] one).toInt = 10 ^ p := by
  induction p with
  | zero => exact hone
  | succ p ih =>
      have hstep : (10 : ℤ) ^ (p + 1) = 10 ^ p * 10 := pow_succ 10 p
      have hpos : (0 : ℤ) < 10 ^ p := by positivity
      have hpower := ih (by omega)
      rw [Function.iterate_succ_apply', htimes, hpower, hstep]
      · rw [hpower]
        exact hpos.le
      · rw [hpower, ← hstep]
        exact hp

/-- Comparing with a bound and its negation. -/
theorem slt_neg_and_slt_iff
    {w : ℕ} {x bound : BitVec w} (h : 0 < bound.toInt) :
    ((-bound).slt x && x.slt bound) = true ↔ |x.toInt| < bound.toInt := by
  have hneg : (-bound).toInt = -bound.toInt := by
    apply BitVec.toInt_neg_of_ne_intMin
    rintro rfl
    have hle : (BitVec.intMin w).toInt ≤ 0 := by
      rw [BitVec.toInt_intMin]
      have hnat := Int.natCast_nonneg (2 ^ (w - 1) % 2 ^ w)
      omega
    omega
  rw [Bool.and_eq_true, BitVec.slt_iff_toInt_lt, BitVec.slt_iff_toInt_lt,
    hneg, abs_lt]

end BigEndian
