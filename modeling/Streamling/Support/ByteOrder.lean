import Mathlib
import Streamling.Support.ByteWords
import Streamling.Support.OrderedCodes

/-!
# The order of byte strings

Bytes are ordered by their numbers.  Strings of one length compare as the
big-endian numbers they denote, inverting the bytes reverses them, and a
magnitude behind its length in four bytes compares as its number.
-/

namespace BigEndian

instance byteLinearOrder : LinearOrder UInt8 where
  le_refl a := Nat.le_refl a.toNat
  le_trans a b c := Nat.le_trans (n := a.toNat) (m := b.toNat) (k := c.toNat)
  lt_iff_le_not_ge a b := by
    simp only [UInt8.lt_iff_toNat_lt, UInt8.le_iff_toNat_le]
    omega
  le_antisymm a b hab hba := UInt8.toNat_inj.mp (Nat.le_antisymm hab hba)
  le_total a b := Nat.le_total a.toNat b.toNat
  toDecidableLE := inferInstance
  toDecidableLT := inferInstance
  toDecidableEq := inferInstance

/-- Strings of one length are ordered by their numbers. -/
theorem lt_iff_ofBytes_lt
    {a b : List UInt8} (hlength : a.length = b.length) :
    a < b ↔ ofBytes a < ofBytes b := by
  induction a generalizing b with
  | nil =>
      obtain rfl := List.length_eq_zero_iff.mp hlength.symm
      simp
  | cons x a ih =>
      obtain ⟨y, b, rfl⟩ :=
        List.exists_cons_of_length_eq_add_one hlength.symm
      have htail : a.length = b.length := by simpa using hlength
      have ha := ofBytes_lt a
      have hb := ofBytes_lt b
      rw [← htail] at hb
      rw [List.cons_lt_cons_iff, ih htail, ofBytes_cons, ofBytes_cons,
        ← htail, UInt8.lt_iff_toNat_lt]
      have hstep {m n : ℕ} (hmn : m < n) :
          m * 256 ^ a.length + 256 ^ a.length ≤ n * 256 ^ a.length := by
        rw [← Nat.succ_mul]
        exact Nat.mul_le_mul_right _ hmn
      rcases lt_trichotomy x.toNat y.toNat with hlt | heq | hgt
      · have hle := hstep hlt
        constructor
        · intro _
          omega
        · intro _
          exact Or.inl hlt
      · rw [UInt8.toNat_inj.mp heq]
        simp
      · have hle := hstep hgt
        constructor
        · rintro (hlt | ⟨rfl, -⟩) <;> omega
        · intro hlt
          omega

theorem complement_strictAnti : StrictAnti fun b : UInt8 => ~~~ b := by
  intro a b hab
  have ha : a.toNat < b.toNat := hab
  have hb := b.toNat_lt
  show (~~~ b).toNat < (~~~ a).toNat
  rw [toNat_complement, toNat_complement]
  omega

/-- A number with fewer bytes is smaller. -/
theorem length_toBytes_le {m n : ℕ} (h : m ≤ n) :
    (toBytes m).length ≤ (toBytes n).length :=
  length_toBytes_le_iff.mpr
    (Nat.lt_of_le_of_lt h (length_toBytes_le_iff.mp (Nat.le_refl _)))

/-! ## Lengths in four bytes -/

/-- The big-endian bytes of a 32-bit number. -/
def u32Bytes (n : UInt32) : List UInt8 :=
  [(n >>> 24).toUInt8, (n >>> 16).toUInt8, (n >>> 8).toUInt8, n.toUInt8]

@[simp] theorem length_u32Bytes (n : UInt32) : (u32Bytes n).length = 4 := by
  simp [u32Bytes]

theorem toNat_shiftRight_toUInt8
    (n k : UInt32) (hk : k.toNat < 32) :
    (n >>> k).toUInt8.toNat = n.toNat / 2 ^ k.toNat % 256 := by
  rw [UInt32.toNat_toUInt8, UInt32.toNat_shiftRight, Nat.mod_eq_of_lt hk,
    Nat.shiftRight_eq_div_pow]

theorem ofBytes_u32Bytes (n : UInt32) : ofBytes (u32Bytes n) = n.toNat := by
  have hn := n.toNat_lt
  simp only [u32Bytes, ofBytes_cons, ofBytes_nil, List.length_cons,
    List.length_nil, UInt32.toNat_toUInt8,
    toNat_shiftRight_toUInt8 n 24 (by decide),
    toNat_shiftRight_toUInt8 n 16 (by decide),
    toNat_shiftRight_toUInt8 n 8 (by decide)]
  simp only [UInt32.reduceToNat]
  omega

/-- The bytes of an inverted number are the inverted bytes. -/
theorem u32Bytes_complement (n : UInt32) :
    u32Bytes (~~~ n) = (u32Bytes n).map (~~~ ·) := by
  have hn := n.toNat_lt
  simp only [u32Bytes, List.map_cons, List.map_nil, List.cons.injEq,
    and_true, ← UInt8.toNat_inj, toNat_complement, UInt32.toNat_toUInt8,
    toNat_shiftRight_toUInt8 _ 24 (by decide),
    toNat_shiftRight_toUInt8 _ 16 (by decide),
    toNat_shiftRight_toUInt8 _ 8 (by decide), UInt32.toNat_not]
  simp only [UInt32.reduceToNat, UInt32.size]
  omega

theorem toNat_ofNat_length
    {bytes : List UInt8} (h : bytes.length < 2 ^ 32) :
    (UInt32.ofNat bytes.length).toNat = bytes.length :=
  UInt32.toNat_ofNat_of_lt' h

/-! ## Magnitudes behind their length -/

/-- A byte string behind its length in four bytes. -/
def frame (bytes : List UInt8) : List UInt8 :=
  u32Bytes (UInt32.ofNat bytes.length) ++ bytes

theorem length_eq_of_u32Bytes_eq
    {a b : List UInt8} (ha : a.length < 2 ^ 32) (hb : b.length < 2 ^ 32)
    (h : u32Bytes (UInt32.ofNat a.length) =
      u32Bytes (UInt32.ofNat b.length)) : a.length = b.length := by
  have hvalue := congrArg ofBytes h
  rwa [ofBytes_u32Bytes, ofBytes_u32Bytes, toNat_ofNat_length ha,
    toNat_ofNat_length hb] at hvalue

theorem frame_separate :
    OrderedCodes.Separate (frame '' {bytes | bytes.length < 2 ^ 32}) := by
  rintro _ ⟨a, ha, rfl⟩ _ ⟨b, hb, rfl⟩ h
  exact OrderedCodes.eq_of_header_prefix (by simp)
    (length_eq_of_u32Bytes_eq ha hb) h

/-- Framed magnitudes are ordered by their numbers. -/
theorem frame_toBytes_lt
    {m n : ℕ} (h : m < n) (hn : (toBytes n).length < 2 ^ 32) :
    frame (toBytes m) < frame (toBytes n) := by
  have hle := length_toBytes_le h.le
  have hm : (toBytes m).length < 2 ^ 32 := Nat.lt_of_le_of_lt hle hn
  rw [frame, frame, OrderedCodes.append_lt_append_iff_of_length (by simp),
    lt_iff_ofBytes_lt (by simp), ofBytes_u32Bytes, ofBytes_u32Bytes,
    toNat_ofNat_length hm, toNat_ofNat_length hn]
  rcases Nat.lt_or_eq_of_le hle with hlt | heq
  · exact Or.inl hlt
  · refine Or.inr ⟨by rw [heq], ?_⟩
    rw [lt_iff_ofBytes_lt heq, ofBytes_toBytes, ofBytes_toBytes]
    exact h

end BigEndian
