import Mathlib
import Streamling.Support.BigEndian

/-!
# Big-endian words of a fixed width

Words of a given number of bytes: padding with zero bytes and stripping them
again, the sign bit, and negation as it is done byte by byte, by inverting
the bytes and adding one with a carry from the least significant byte.
-/

namespace BigEndian

/-! ## Words and the numbers below a power -/

theorem ofBytes_lt (bytes : List UInt8) :
    ofBytes bytes < 256 ^ bytes.length := by
  induction bytes with
  | nil => simp
  | cons b bytes ih =>
      have hb : b.toNat < 256 := b.toNat_lt
      rw [ofBytes_cons, List.length_cons, pow_succ]
      calc b.toNat * 256 ^ bytes.length + ofBytes bytes
          < b.toNat * 256 ^ bytes.length + 256 ^ bytes.length := by omega
        _ = (b.toNat + 1) * 256 ^ bytes.length := by ring
        _ ≤ 256 * 256 ^ bytes.length := Nat.mul_le_mul_right _ hb
        _ = 256 ^ bytes.length * 256 := Nat.mul_comm _ _

/-- Words of one width are equal if their numbers are. -/
theorem eq_of_ofBytes_eq
    {a b : List UInt8} (hlength : a.length = b.length)
    (h : ofBytes a = ofBytes b) : a = b := by
  induction a generalizing b with
  | nil => exact (List.length_eq_zero_iff.mp hlength.symm).symm
  | cons x a ih =>
      cases b with
      | nil => simp at hlength
      | cons y b =>
          have htail : a.length = b.length := by simpa using hlength
          have ha := ofBytes_lt a
          have hb := ofBytes_lt b
          rw [ofBytes_cons, ofBytes_cons, ← htail] at h
          rw [← htail] at hb
          have hhead : x.toNat = y.toNat := by
            have hx := Nat.mul_add_div (by omega : 256 ^ a.length > 0)
              x.toNat (ofBytes a)
            have hy := Nat.mul_add_div (by omega : 256 ^ a.length > 0)
              y.toNat (ofBytes b)
            rw [Nat.div_eq_of_lt ha, Nat.mul_comm] at hx
            rw [Nat.div_eq_of_lt hb, Nat.mul_comm] at hy
            rw [h] at hx
            omega
          have hrest : ofBytes a = ofBytes b := by
            rw [hhead] at h
            omega
          rw [UInt8.toNat_inj.mp hhead, ih htail hrest]

/-- The minimal bytes of a number fit a width exactly if the number is below
its power. -/
theorem length_toBytes_le_iff {n k : ℕ} :
    (toBytes n).length ≤ k ↔ n < 256 ^ k := by
  rw [toBytes, List.length_reverse, List.length_map]
  exact Nat.digits_length_le_iff (by norm_num) n

/-! ## Padding and stripping -/

@[simp] theorem ofBytes_replicate_append (k : ℕ) (bytes : List UInt8) :
    ofBytes (List.replicate k 0 ++ bytes) = ofBytes bytes := by
  induction k with
  | zero => simp
  | succ k ih => simp [List.replicate_succ, ofBytes_cons, ih]

@[simp] theorem ofBytes_dropWhile_zero (bytes : List UInt8) :
    ofBytes (bytes.dropWhile (· == 0)) = ofBytes bytes := by
  induction bytes with
  | nil => rfl
  | cons b bytes ih =>
      by_cases hb : b = 0
      · simp [hb, ofBytes_cons, ih]
      · simp [hb]

theorem head?_dropWhile_zero_ne (bytes : List UInt8) :
    (bytes.dropWhile (· == 0)).head? ≠ some 0 := by
  intro h
  have hfalse := List.head?_dropWhile_not (· == 0) bytes
  rw [h] at hfalse
  simp at hfalse

/-- Stripping the zero bytes of a word leaves the minimal bytes of its
number. -/
theorem dropWhile_zero_eq_toBytes (bytes : List UInt8) :
    bytes.dropWhile (· == 0) = toBytes (ofBytes bytes) := by
  rw [← ofBytes_dropWhile_zero,
    toBytes_ofBytes (head?_dropWhile_zero_ne bytes)]

/-! ## The sign bit -/

/-- The most significant bit of a word. -/
def signBit (bytes : List UInt8) : Bool :=
  (bytes.headD 0) &&& 0x80 != 0

theorem and_high_ne_zero_iff (b : UInt8) :
    (b &&& 0x80 != 0) = true ↔ 128 ≤ b.toNat := by
  revert b
  decide +kernel

/-- The sign bit is set exactly in the upper half of the words. -/
theorem signBit_iff
    {bytes : List UInt8} {k : ℕ} (hlength : bytes.length = k + 1) :
    signBit bytes = true ↔ 128 * 256 ^ k ≤ ofBytes bytes := by
  cases bytes with
  | nil => simp at hlength
  | cons b bytes =>
      have hk : bytes.length = k := by simpa using hlength
      have hlt := ofBytes_lt bytes
      rw [signBit, List.headD_cons, and_high_ne_zero_iff, ofBytes_cons, hk]
      rw [hk] at hlt
      constructor
      · intro hb
        exact le_trans (Nat.mul_le_mul_right _ hb) (Nat.le_add_right _ _)
      · intro hle
        by_contra hb
        have hstep : (b.toNat + 1) * 256 ^ k ≤ 128 * 256 ^ k :=
          Nat.mul_le_mul_right _ (by omega)
        rw [Nat.add_mul, Nat.one_mul] at hstep
        omega

/-! ## Negation -/

/-- Add a carry at the first byte of a little-endian word and hand it on
until it is zero. -/
def addCarry : List UInt8 → ℕ → List UInt8
  | [], _ => []
  | b :: bytes, carry =>
      let sum := b.toNat + carry
      let carry := sum / 256
      UInt8.ofNat (sum % 256) ::
        if carry = 0 then bytes else addCarry bytes carry

/-- Two's complement: invert the bytes of a big-endian word and add one. -/
def negate (bytes : List UInt8) : List UInt8 :=
  (addCarry (bytes.map (~~~ ·)).reverse 1).reverse

theorem length_addCarry (bytes : List UInt8) (carry : ℕ) :
    (addCarry bytes carry).length = bytes.length := by
  induction bytes generalizing carry with
  | nil => rfl
  | cons b bytes ih =>
      simp only [addCarry, List.length_cons]
      split_ifs
      · rfl
      · rw [ih]

@[simp] theorem length_negate (bytes : List UInt8) :
    (negate bytes).length = bytes.length := by
  simp [negate, length_addCarry]

theorem ofBytes_reverse_cons (b : UInt8) (bytes : List UInt8) :
    ofBytes (b :: bytes).reverse = b.toNat + 256 * ofBytes bytes.reverse := by
  simp [ofBytes, Nat.ofDigits_cons]

/-- Adding a carry of one to a little-endian word adds one to its number, up
to the width. -/
theorem ofBytes_addCarry (bytes : List UInt8) :
    ofBytes (addCarry bytes 1).reverse =
      (ofBytes bytes.reverse + 1) % 256 ^ bytes.length := by
  induction bytes with
  | nil => simp [addCarry]
  | cons b bytes ih =>
      have hb : b.toNat < 256 := b.toNat_lt
      have hlt := ofBytes_lt bytes.reverse
      rw [List.length_reverse] at hlt
      rw [ofBytes_reverse_cons, List.length_cons, pow_succ']
      by_cases hmax : b.toNat = 255
      · -- the byte overflows: the carry goes on
        have hsum : b.toNat + 256 * ofBytes bytes.reverse + 1 =
            256 * (ofBytes bytes.reverse + 1) := by
          omega
        have hstep : addCarry (b :: bytes) 1 = 0 :: addCarry bytes 1 := by
          simp [addCarry, hmax]
        rw [hstep, ofBytes_reverse_cons, ih, hsum, Nat.mul_mod_mul_left]
        simp
      · have hcarry : (b.toNat + 1) / 256 = 0 := by omega
        have hbyte : (UInt8.ofNat ((b.toNat + 1) % 256)).toNat =
            b.toNat + 1 := by
          have hsmall : (b.toNat + 1) % 256 < UInt8.size :=
            Nat.mod_lt _ (by decide)
          rw [UInt8.toNat_ofNat_of_lt' hsmall]
          omega
        have hstep : addCarry (b :: bytes) 1 =
            UInt8.ofNat ((b.toNat + 1) % 256) :: bytes := by
          simp [addCarry, hcarry]
        rw [hstep, ofBytes_reverse_cons, hbyte, Nat.mod_eq_of_lt (by omega)]
        omega

theorem toNat_complement (b : UInt8) : (~~~ b).toNat = 255 - b.toNat := by
  revert b
  decide +kernel

theorem ofBytes_map_complement (bytes : List UInt8) :
    ofBytes (bytes.map (~~~ ·)) + ofBytes bytes + 1 =
      256 ^ bytes.length := by
  induction bytes with
  | nil => simp
  | cons b bytes ih =>
      have hb : b.toNat < 256 := b.toNat_lt
      have hmul : (255 - b.toNat) * 256 ^ bytes.length +
          b.toNat * 256 ^ bytes.length = 255 * 256 ^ bytes.length := by
        rw [← Nat.add_mul]
        congr 1
        omega
      simp only [List.map_cons, ofBytes_cons, toNat_complement,
        List.length_map, List.length_cons, pow_succ]
      omega

/-- The number of the negated word. -/
theorem ofBytes_negate (bytes : List UInt8) :
    ofBytes (negate bytes) =
      (256 ^ bytes.length - ofBytes bytes) % 256 ^ bytes.length := by
  have hsum := ofBytes_map_complement bytes
  rw [negate, ofBytes_addCarry, List.reverse_reverse, List.length_reverse,
    List.length_map]
  congr 1
  omega

theorem ofBytes_negate_of_ne_zero
    {bytes : List UInt8} (h : ofBytes bytes ≠ 0) :
    ofBytes (negate bytes) = 256 ^ bytes.length - ofBytes bytes := by
  have hlt := ofBytes_lt bytes
  rw [ofBytes_negate, Nat.mod_eq_of_lt (by omega)]

end BigEndian
