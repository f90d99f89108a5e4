import Mathlib

/-!
# Big-endian bytes of a natural number

A number is written by its base-256 digits, the most significant one first
and without leading zeros; zero is the empty string.  Every byte string is
read, and exactly the strings without a leading zero byte are what is written
for the number they are read as.
-/

namespace BigEndian

/-- The minimal big-endian bytes of a number. -/
def toBytes (n : ℕ) : List UInt8 :=
  ((Nat.digits 256 n).map UInt8.ofNat).reverse

/-- The number a byte string denotes. -/
def ofBytes (bytes : List UInt8) : ℕ :=
  Nat.ofDigits 256 (bytes.reverse.map UInt8.toNat)

@[simp] theorem toBytes_zero : toBytes 0 = [] := by
  simp [toBytes]

@[simp] theorem ofBytes_nil : ofBytes [] = 0 := by
  simp [ofBytes]

theorem ofBytes_cons (b : UInt8) (bytes : List UInt8) :
    ofBytes (b :: bytes) = b.toNat * 256 ^ bytes.length + ofBytes bytes := by
  simp only [ofBytes, List.reverse_cons, List.map_append,
    Nat.ofDigits_append, List.length_map, List.length_reverse]
  simp [Nat.add_comm, Nat.mul_comm]

theorem toNat_ofNat_of_mem_digits {n d : ℕ} (h : d ∈ Nat.digits 256 n) :
    (UInt8.ofNat d).toNat = d := by
  have hlt : d < 256 := Nat.digits_lt_base (by norm_num) h
  exact UInt8.toNat_ofNat_of_lt' hlt

/-- Reading back what was written. -/
@[simp] theorem ofBytes_toBytes (n : ℕ) : ofBytes (toBytes n) = n := by
  have hdigits : ((Nat.digits 256 n).map UInt8.ofNat).map UInt8.toNat =
      Nat.digits 256 n := by
    rw [List.map_map]
    conv_rhs => rw [← List.map_id (Nat.digits 256 n)]
    apply List.map_congr_left
    intro d hd
    exact toNat_ofNat_of_mem_digits hd
  rw [ofBytes, toBytes, List.reverse_reverse, hdigits,
    Nat.ofDigits_digits]

theorem toBytes_isEmpty {n : ℕ} (h : n ≠ 0) : (toBytes n).isEmpty = false := by
  rw [List.isEmpty_eq_false_iff]
  intro hnil
  have hzero := ofBytes_toBytes n
  rw [hnil, ofBytes_nil] at hzero
  exact h hzero.symm

/-- A string without a leading zero byte is the one written for its
number. -/
theorem toBytes_ofBytes
    {bytes : List UInt8} (h : bytes.head? ≠ some 0) :
    toBytes (ofBytes bytes) = bytes := by
  have hdigits : Nat.digits 256 (ofBytes bytes) =
      bytes.reverse.map UInt8.toNat := by
    apply Nat.digits_ofDigits 256 (by norm_num)
    · intro d hd
      obtain ⟨b, -, rfl⟩ := List.mem_map.mp hd
      exact b.toNat_lt
    · intro hne
      rw [List.getLast_map, List.getLast_reverse]
      intro hzero
      apply h
      have hbytes : bytes ≠ [] := by simpa using hne
      rw [List.head?_eq_some_head hbytes]
      exact congrArg some (UInt8.toNat_inj.mp hzero)
  rw [toBytes, hdigits, List.map_map]
  have hid : UInt8.ofNat ∘ UInt8.toNat = id := by
    funext b
    simp
  simp [hid]

theorem ofBytes_ne_zero
    {bytes : List UInt8} (hne : bytes ≠ []) (h : bytes.head? ≠ some 0) :
    ofBytes bytes ≠ 0 := by
  intro hzero
  have hbytes := toBytes_ofBytes h
  rw [hzero, toBytes_zero] at hbytes
  exact hne hbytes.symm

/-- What is written never begins with a zero byte. -/
theorem head?_toBytes_ne (n : ℕ) : (toBytes n).head? ≠ some 0 := by
  rw [toBytes, List.head?_reverse, List.getLast?_map]
  by_cases hdigits : Nat.digits 256 n = []
  · simp [hdigits]
  · have hn : n ≠ 0 := Nat.digits_ne_nil_iff_ne_zero.mp hdigits
    have hlast := Nat.getLast_digit_ne_zero 256 hn
    have hmem := List.getLast_mem hdigits
    rw [List.getLast?_eq_some_getLast hdigits, Option.map_some]
    intro hzero
    apply hlast
    rw [← toNat_ofNat_of_mem_digits hmem, Option.some.inj hzero]
    rfl

end BigEndian
