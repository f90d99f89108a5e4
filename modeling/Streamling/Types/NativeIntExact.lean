import Streamling.Types.NativeInt
import Streamling.Types.DecimalArbBytes

/-!
# The 256-bit encoding is exact

A word of 32 bytes stands for one integer of its type.  Writing succeeds on
exactly the integers of the type and gives the word that stands for them;
reading gives the canonical bytes of the integer a word stands for.  A column
that was written and is read back is either unchanged or refused, the latter
exactly for values its field does not hold.
-/

namespace Streamling

open DecimalArbValue (encodeDigits decodeDigits)

/-- The integers of the ClickHouse type. -/
def NativeIntKind.InRange : NativeIntKind → ℤ → Prop
  | .u256, v => 0 ≤ v ∧ v < 2 ^ 256
  | .i256, v => -2 ^ 255 ≤ v ∧ v < 2 ^ 255

/-- The value at the scale of the field, given by its unscaled digits, fits
the field. -/
def DecimalArbField.Holds (field : DecimalArbField) (digits : ℤ) : Prop :=
  (DecimalArbValue.fromBigintAndScale digits field.scale).checkFits
    field.precision field.scale field.name = .ok ()

instance (field : DecimalArbField) : DecidablePred field.Holds :=
  fun _ => inferInstanceAs (Decidable (_ = _))

namespace NativeInt

/-! ## The integer of a word -/

/-- The integer a big-endian word stands for. -/
def beValue (kind : NativeIntKind) (word : Word256) : ℤ :=
  match kind with
  | .u256 => BigEndian.ofBytes word.1
  | .i256 =>
      if BigEndian.ofBytes word.1 < 2 ^ 255 then BigEndian.ofBytes word.1
      else BigEndian.ofBytes word.1 - 2 ^ 256

/-- The integer a little-endian word stands for. -/
def nativeValue (kind : NativeIntKind) (word : Word256) : ℤ :=
  beValue kind (reversed word)

theorem ofBytes_word_lt (word : Word256) :
    BigEndian.ofBytes word.1 < 2 ^ 256 := by
  have hlt := BigEndian.ofBytes_lt word.1
  rw [word.2] at hlt
  calc BigEndian.ofBytes word.1 < 256 ^ 32 := hlt
    _ = 2 ^ 256 := by norm_num

theorem signBit_word_iff (word : Word256) :
    BigEndian.signBit word.1 = true ↔
      2 ^ 255 ≤ BigEndian.ofBytes word.1 := by
  have hpow : 128 * 256 ^ 31 = 2 ^ 255 := by norm_num
  rw [BigEndian.signBit_iff word.2, hpow]

theorem beValue_inRange (kind : NativeIntKind) (word : Word256) :
    kind.InRange (beValue kind word) := by
  have hlt := ofBytes_word_lt word
  cases kind with
  | u256 =>
      simp only [beValue, NativeIntKind.InRange]
      omega
  | i256 =>
      simp only [beValue, NativeIntKind.InRange]
      split_ifs <;> omega

theorem beValue_inj
    {kind : NativeIntKind} {a b : Word256}
    (h : beValue kind a = beValue kind b) : a = b := by
  have ha := ofBytes_word_lt a
  have hb := ofBytes_word_lt b
  have hnumber : BigEndian.ofBytes a.1 = BigEndian.ofBytes b.1 := by
    cases kind with
    | u256 =>
        simp only [beValue] at h
        omega
    | i256 =>
        simp only [beValue] at h
        split_ifs at h <;> omega
  exact Subtype.ext
    (BigEndian.eq_of_ofBytes_eq (a.2.trans b.2.symm) hnumber)

@[simp] theorem reversed_reversed (word : Word256) :
    reversed (reversed word) = word :=
  Subtype.ext (List.reverse_reverse _)

theorem nativeValue_inj
    {kind : NativeIntKind} {a b : Word256}
    (h : nativeValue kind a = nativeValue kind b) : a = b := by
  rw [← reversed_reversed a, ← reversed_reversed b, beValue_inj h]

/-! ## Writing one value -/

@[simp] theorem ofBytes_padded
    (magnitude : List UInt8) (h : magnitude.length ≤ 32) :
    BigEndian.ofBytes (padded magnitude h).1 =
      BigEndian.ofBytes magnitude :=
  BigEndian.ofBytes_replicate_append _ _

theorem ofBytes_negated
    (word : Word256) (h : BigEndian.ofBytes word.1 ≠ 0) :
    BigEndian.ofBytes (negated word).1 =
      2 ^ 256 - BigEndian.ofBytes word.1 := by
  have hpow : (256 : ℕ) ^ 32 = 2 ^ 256 := by norm_num
  rw [negated, BigEndian.ofBytes_negate_of_ne_zero h, word.2, hpow]

theorem length_magnitude_le_iff (v : ℤ) :
    (BigEndian.toBytes v.natAbs).length ≤ 32 ↔ v.natAbs < 2 ^ 256 := by
  have hpow : (256 : ℕ) ^ 32 = 2 ^ 256 := by norm_num
  rw [BigEndian.length_toBytes_le_iff, hpow]

/-- A value that is not negative. -/
theorem encodeDigits_of_nonneg {v : ℤ} (h : 0 ≤ v) :
    encodeDigits v = 0x00 :: BigEndian.toBytes v.natAbs := by
  rcases h.eq_or_lt with rfl | hpos
  · simp
  · exact DecimalArbValue.encodeDigits_of_pos hpos

/-- Every integer of the type has a word. -/
theorem exists_word
    {kind : NativeIntKind} {v : ℤ} (h : kind.InRange v) :
    ∃ word, nativeValue kind word = v := by
  have hpow : (256 : ℕ) ^ 32 = 2 ^ 256 := by norm_num
  have hlt : (v % 2 ^ 256).toNat < 2 ^ 256 := by omega
  have hlength :
      (BigEndian.toBytes (v % 2 ^ 256).toNat).length ≤ 32 := by
    rw [BigEndian.length_toBytes_le_iff, hpow]
    exact hlt
  have hnumber := ofBytes_padded _ hlength
  rw [BigEndian.ofBytes_toBytes] at hnumber
  refine ⟨reversed (padded _ hlength), ?_⟩
  rw [nativeValue, reversed_reversed]
  cases kind with
  | u256 =>
      simp only [NativeIntKind.InRange] at h
      simp only [beValue, hnumber]
      omega
  | i256 =>
      simp only [NativeIntKind.InRange] at h
      simp only [beValue, hnumber]
      split_ifs <;> omega

section Writing

variable {kind : NativeIntKind} {v : ℤ} {column : String} {row : ℕ}
variable {word written : Word256}

/-- A word that stands for the value is the one written. -/
theorem ok_reversed_iff
    (hin : kind.InRange v) (hvalue : beValue kind written = v) :
    (.ok (reversed written) : Except NativeIntError Word256) = .ok word ↔
      kind.InRange v ∧ nativeValue kind word = v := by
  have hnative : nativeValue kind (reversed written) = v := by
    rw [nativeValue, reversed_reversed, hvalue]
  rw [Except.ok.injEq]
  constructor
  · rintro rfl
    exact ⟨hin, hnative⟩
  · rintro ⟨-, hword⟩
    exact nativeValue_inj (hnative.trans hword.symm)

theorem error_iff
    (hnot : ¬ kind.InRange v) {error : NativeIntError} :
    (.error error : Except NativeIntError Word256) = .ok word ↔
      kind.InRange v ∧ nativeValue kind word = v := by
  simp [hnot]

/-- What is written for a value that is not negative. -/
theorem canonicalToClickhouseLe_of_nonneg (h : 0 ≤ v) :
    canonicalToClickhouseLe (encodeDigits v) kind column row = .ok word ↔
      kind.InRange v ∧ nativeValue kind word = v := by
  have hplus : (0x00 : UInt8) ≠ 0xFF := by decide
  rw [encodeDigits_of_nonneg h]
  by_cases hlength : (BigEndian.toBytes v.natAbs).length ≤ 32
  · have hlt := (length_magnitude_le_iff v).mp hlength
    have hnumber := ofBytes_padded _ hlength
    have hsign := signBit_word_iff (padded _ hlength)
    rw [BigEndian.ofBytes_toBytes] at hnumber
    rw [hnumber] at hsign
    simp only [canonicalToClickhouseLe, dif_pos hlength, if_neg hplus, ne_eq,
      not_true_eq_false, if_false]
    by_cases hguard : kind = .i256 ∧
        BigEndian.signBit (padded _ hlength).1 = true
    · rw [if_pos hguard]
      obtain ⟨rfl, hbit⟩ := hguard
      apply error_iff
      have := hsign.mp hbit
      simp only [NativeIntKind.InRange]
      omega
    · rw [if_neg hguard]
      have hin : kind.InRange v := by
        rw [hsign] at hguard
        cases kind with
        | u256 =>
            simp only [NativeIntKind.InRange]
            omega
        | i256 =>
            simp only [NativeIntKind.InRange, true_and] at hguard ⊢
            omega
      apply ok_reversed_iff hin
      cases kind with
      | u256 =>
          simp only [beValue, hnumber]
          omega
      | i256 =>
          simp only [NativeIntKind.InRange] at hin
          simp only [beValue, hnumber]
          split_ifs <;> omega
  · simp only [canonicalToClickhouseLe, dif_neg hlength]
    apply error_iff
    rw [length_magnitude_le_iff] at hlength
    cases kind with
    | u256 =>
        simp only [NativeIntKind.InRange]
        omega
    | i256 =>
        simp only [NativeIntKind.InRange]
        omega

/-- What is written for a negative value: the word of its magnitude negated,
if that sets the sign bit. -/
theorem canonicalToClickhouseLe_of_neg (h : v < 0) :
    canonicalToClickhouseLe (encodeDigits v) kind column row = .ok word ↔
      kind.InRange v ∧ nativeValue kind word = v := by
  rw [DecimalArbValue.encodeDigits_of_neg h]
  by_cases hlength : (BigEndian.toBytes v.natAbs).length ≤ 32
  · have hlt := (length_magnitude_le_iff v).mp hlength
    have hnumber := ofBytes_padded _ hlength
    rw [BigEndian.ofBytes_toBytes] at hnumber
    have hnegated := ofBytes_negated (padded _ hlength) (by omega)
    rw [hnumber] at hnegated
    have hsign := signBit_word_iff (negated (padded _ hlength))
    rw [hnegated] at hsign
    cases kind with
    | u256 =>
        simp only [canonicalToClickhouseLe, dif_pos hlength, if_true]
        apply error_iff
        simp only [NativeIntKind.InRange]
        omega
    | i256 =>
        simp only [canonicalToClickhouseLe, dif_pos hlength, if_true]
        by_cases hbit :
            BigEndian.signBit (negated (padded _ hlength)).1 = false
        · rw [if_pos hbit]
          apply error_iff
          rw [← Bool.not_eq_true, hsign] at hbit
          simp only [NativeIntKind.InRange]
          omega
        · rw [if_neg hbit]
          rw [Bool.not_eq_false, hsign] at hbit
          apply ok_reversed_iff
          · simp only [NativeIntKind.InRange]
            omega
          · simp only [beValue, hnegated]
            split_ifs <;> omega
  · simp only [canonicalToClickhouseLe, dif_neg hlength]
    apply error_iff
    rw [length_magnitude_le_iff] at hlength
    cases kind with
    | u256 =>
        simp only [NativeIntKind.InRange]
        omega
    | i256 =>
        simp only [NativeIntKind.InRange]
        omega

/-- Writing gives a word exactly for the integers of the type, and the word
that stands for them. -/
theorem canonicalToClickhouseLe_eq_ok_iff :
    canonicalToClickhouseLe (encodeDigits v) kind column row = .ok word ↔
      kind.InRange v ∧ nativeValue kind word = v := by
  rcases lt_or_ge v 0 with h | h
  · exact canonicalToClickhouseLe_of_neg h
  · exact canonicalToClickhouseLe_of_nonneg h

end Writing

/-! ## Reading one word -/

/-- Reading gives the canonical bytes of the integer of the word. -/
theorem clickhouseBeToCanonical_eq (word : Word256) (kind : NativeIntKind) :
    clickhouseBeToCanonical word kind =
      encodeDigits (beValue kind word) := by
  have hlt := ofBytes_word_lt word
  have hsign := signBit_word_iff word
  by_cases hnegative : kind = .i256 ∧ BigEndian.signBit word.1 = true
  · obtain ⟨rfl, hbit⟩ := hnegative
    have hge := hsign.mp hbit
    have hvalue : beValue .i256 word =
        BigEndian.ofBytes word.1 - 2 ^ 256 := by
      rw [beValue, if_neg (by omega)]
    have hneg : beValue .i256 word < 0 := by omega
    have hstripped : (negated word).1.dropWhile (· == 0) =
        BigEndian.toBytes (beValue .i256 word).natAbs := by
      rw [BigEndian.dropWhile_zero_eq_toBytes,
        ofBytes_negated word (by omega)]
      congr 1
      omega
    have hne : (BigEndian.toBytes (beValue .i256 word).natAbs).isEmpty =
        false :=
      BigEndian.toBytes_isEmpty (by omega)
    simp only [clickhouseBeToCanonical, hbit, decide_true, Bool.and_self,
      if_true, hstripped, hne, Bool.not_false]
    exact (DecimalArbValue.encodeDigits_of_neg hneg).symm
  · have hflag : (decide (kind = .i256) && BigEndian.signBit word.1) =
        false := by
      simpa using hnegative
    have hvalue : beValue kind word = BigEndian.ofBytes word.1 := by
      cases kind with
      | u256 => rfl
      | i256 =>
          rw [hsign] at hnegative
          rw [beValue, if_pos (by simpa using hnegative)]
    have hstripped : word.1.dropWhile (· == 0) =
        BigEndian.toBytes (beValue kind word).natAbs := by
      rw [BigEndian.dropWhile_zero_eq_toBytes, hvalue, Int.natAbs_natCast]
    simp only [clickhouseBeToCanonical, hflag, Bool.false_and,
      Bool.false_eq_true, if_false, hstripped]
    exact (encodeDigits_of_nonneg (by omega)).symm

/-- A word read back is accepted exactly if the field holds its integer, and
then gives the canonical bytes of it. -/
theorem readCell_eq_ok_iff
    {field : DecimalArbField} {kind : NativeIntKind} {row : ℕ}
    {word : Word256} {bytes : List UInt8} :
    readCell field kind row word = .ok bytes ↔
      field.Holds (nativeValue kind word) ∧
        bytes = encodeDigits (nativeValue kind word) := by
  have hbytes := DecimalArbValue.toCanonicalBytesAtScale_of_units
    (DecimalArbValue.value_fromBigintAndScale_mul (nativeValue kind word)
      field.scale)
  simp only [readCell, clickhouseBeToCanonical_eq,
    DecimalArbValue.fromCanonicalBytesAtScale_encodeDigits]
  change Except.mapError _
    (appendValue field (.fromBigintAndScale (nativeValue kind word)
      field.scale)) = _ ↔ _
  unfold appendValue DecimalArbField.Holds
  cases DecimalArbValue.checkFits
      (.fromBigintAndScale (nativeValue kind word) field.scale)
      field.precision field.scale field.name with
  | error e => simp [Except.mapError, bind, Except.bind]
  | ok _ =>
      simp [Except.mapError, bind, Except.bind, pure, Except.pure, hbytes,
        eq_comm]

/-! ## Columns -/

theorem rel_none_iff {α β : Type*} {R : α → β → Prop} {x : Option β} :
    Option.Rel R none x ↔ x = none := by
  constructor
  · rintro ⟨⟩
    rfl
  · rintro rfl
    exact .none

theorem rel_some_iff
    {α β : Type*} {R : α → β → Prop} {a : α} {x : Option β} :
    Option.Rel R (some a) x ↔ ∃ b, x = some b ∧ R a b := by
  constructor
  · rintro (⟨hab⟩ | _)
    exact ⟨_, rfl, hab⟩
  · rintro ⟨b, rfl, hab⟩
    exact .some hab

/-- A column is converted exactly if every value in it is, each to a value it
is related to, with nulls at the same rows. -/
theorem convertRows_eq_ok_iff
    {α β : Type*} {convert : ℕ → α → Except NativeIntError β}
    {R : α → β → Prop}
    (hR : ∀ row a b, convert row a = .ok b ↔ R a b)
    {row : ℕ} {cells : List (Option α)} {out : List (Option β)} :
    convertRows convert row cells = .ok out ↔
      List.Forall₂ (Option.Rel R) cells out := by
  induction cells generalizing row out with
  | nil => simp [convertRows, eq_comm]
  | cons cell cells ih =>
      have hrest : ∀ rest, List.Forall₂ (Option.Rel R) cells rest ↔
          convertRows convert (row + 1) cells = .ok rest :=
        fun rest => ih.symm
      simp only [List.forall₂_cons_left_iff, hrest]
      cases cell with
      | none =>
          simp only [convertRows, rel_none_iff]
          cases convertRows convert (row + 1) cells with
          | error e => simp [bind, Except.bind]
          | ok rest =>
              simp [bind, Except.bind, pure, Except.pure, eq_comm]
      | some a =>
          simp only [convertRows, rel_some_iff, ← hR row]
          cases convert row a with
          | error e => simp [bind, Except.bind]
          | ok b =>
              cases convertRows convert (row + 1) cells with
              | error e => simp [bind, Except.bind]
              | ok rest =>
                  simp [bind, Except.bind, pure, Except.pure, eq_comm]

theorem convertRows_map
    {α β γ : Type*} (convert : ℕ → α → Except NativeIntError β)
    (encode : γ → α) (row : ℕ) (cells : List (Option γ)) :
    convertRows convert row (cells.map (Option.map encode)) =
      convertRows (fun row cell => convert row (encode cell)) row cells := by
  induction cells generalizing row with
  | nil => rfl
  | cons cell cells ih =>
      cases cell with
      | none => simp [convertRows, ih]
      | some a => simp [convertRows, ih]

section Columns

variable {field : DecimalArbField} {kind : NativeIntKind}
variable {values : List (Option ℤ)} {native : List (Option Word256)}

/-- The canonical bytes of a column. -/
def stored (values : List (Option ℤ)) : List (Option (List UInt8)) :=
  values.map (Option.map encodeDigits)

/-- What a column is written as: it is refused unless all its values are in
range. -/
theorem decimalArbToClickhouseNative_eq_ok_iff
    (hkind : field.nativeIntKind = some kind) :
    decimalArbToClickhouseNative (stored values) field = .ok native ↔
      List.Forall₂
        (Option.Rel fun v word =>
          kind.InRange v ∧ nativeValue kind word = v) values native := by
  have hwrite : decimalArbToClickhouseNative (stored values) field =
      convertRows
        (fun row v =>
          canonicalToClickhouseLe (encodeDigits v) kind field.name row)
        0 values := by
    simp only [decimalArbToClickhouseNative, hkind]
    exact convertRows_map _ _ _ _
  rw [hwrite]
  apply convertRows_eq_ok_iff
  intro row v word
  exact canonicalToClickhouseLe_eq_ok_iff

/-- What a native column is read as: it is refused unless the field holds all
its integers. -/
theorem clickhouseNativeToDecimalArb_eq_ok_iff
    (hkind : field.nativeIntKind = some kind)
    {out : List (Option (List UInt8))} :
    clickhouseNativeToDecimalArb native field = .ok out ↔
      List.Forall₂
        (Option.Rel fun word bytes =>
          field.Holds (nativeValue kind word) ∧
            bytes = encodeDigits (nativeValue kind word)) native out := by
  have hread : clickhouseNativeToDecimalArb native field =
      convertRows (readCell field kind) 0 native := by
    simp only [clickhouseNativeToDecimalArb, hkind, field.valid]
    rfl
  rw [hread]
  apply convertRows_eq_ok_iff
  intro row word bytes
  exact readCell_eq_ok_iff

/-- A written column is read back unchanged or refused. -/
theorem read_eq_stored
    {out : List (Option (List UInt8))}
    (hwrite : List.Forall₂
      (Option.Rel fun v word =>
        kind.InRange v ∧ nativeValue kind word = v) values native)
    (hread : List.Forall₂
      (Option.Rel fun word bytes =>
        field.Holds (nativeValue kind word) ∧
          bytes = encodeDigits (nativeValue kind word)) native out) :
    out = stored values ∧ ∀ v, some v ∈ values → field.Holds v := by
  induction hwrite generalizing out with
  | nil =>
      obtain rfl := List.forall₂_nil_left_iff.mp hread
      exact ⟨rfl, by simp⟩
  | @cons value word values native hfirst _ ih =>
      obtain ⟨bytes, rest, hcell, hrest, rfl⟩ :=
        List.forall₂_cons_left_iff.mp hread
      obtain ⟨rfl, hholds⟩ := ih hrest
      cases hfirst with
      | none =>
          obtain rfl := rel_none_iff.mp hcell
          exact ⟨rfl, by simpa using hholds⟩
      | some hvalue =>
          obtain ⟨b, rfl, hfits, rfl⟩ := rel_some_iff.mp hcell
          rw [hvalue.2] at hfits ⊢
          refine ⟨rfl, ?_⟩
          intro v hv
          rcases List.mem_cons.mp hv with heq | hmem
          · rw [Option.some.inj heq]
            exact hfits
          · exact hholds v hmem

/-- A column of values in range is written. -/
theorem exists_written
    (hin : ∀ v, some v ∈ values → kind.InRange v) :
    ∃ native, List.Forall₂
      (Option.Rel fun v word =>
        kind.InRange v ∧ nativeValue kind word = v) values native := by
  induction values with
  | nil => exact ⟨[], .nil⟩
  | cons value values ih =>
      obtain ⟨native, hnative⟩ :=
        ih fun v hv => hin v (List.mem_cons_of_mem _ hv)
      cases value with
      | none => exact ⟨none :: native, .cons .none hnative⟩
      | some v =>
          have hv := hin v List.mem_cons_self
          obtain ⟨word, hword⟩ := exists_word hv
          exact ⟨some word :: native, .cons (.some ⟨hv, hword⟩) hnative⟩

theorem inRange_of_written
    (hwrite : List.Forall₂
      (Option.Rel fun v word =>
        kind.InRange v ∧ nativeValue kind word = v) values native) :
    ∀ v, some v ∈ values → kind.InRange v := by
  intro v hv
  induction hwrite with
  | nil => simp at hv
  | cons hfirst _ ih =>
      rcases List.mem_cons.mp hv with rfl | hmem
      · obtain ⟨_, _, hrange, -⟩ := rel_some_iff.mp hfirst
        exact hrange
      · exact ih hmem

/-- A written column whose values the field holds is read back. -/
theorem read_stored
    (hwrite : List.Forall₂
      (Option.Rel fun v word =>
        kind.InRange v ∧ nativeValue kind word = v) values native)
    (hholds : ∀ v, some v ∈ values → field.Holds v) :
    List.Forall₂
      (Option.Rel fun word bytes =>
        field.Holds (nativeValue kind word) ∧
          bytes = encodeDigits (nativeValue kind word))
      native (stored values) := by
  induction hwrite with
  | nil => exact .nil
  | cons hfirst _ ih =>
      have hrest := ih fun v hv => hholds v (List.mem_cons_of_mem _ hv)
      refine .cons ?_ hrest
      cases hfirst with
      | none => exact .none
      | some hvalue =>
          apply Option.Rel.some
          rw [hvalue.2]
          exact ⟨hholds _ List.mem_cons_self, rfl⟩

end Columns

/-! ## The result -/

/-- Writing a value succeeds exactly on the integers of the type and gives
the word that stands for it.  Reading any word gives the canonical bytes of
its integer, which are written as the same word.  A column is written exactly
if all its values are in range; read back, it is unchanged exactly if the
field holds all of them, and refused else. -/
theorem clickhouse_native_int_exact (kind : NativeIntKind) :
    (∀ v column row,
      ((∃ word, canonicalToClickhouseLe (encodeDigits v) kind column row =
          .ok word) ↔ kind.InRange v) ∧
      ∀ word, canonicalToClickhouseLe (encodeDigits v) kind column row =
        .ok word → nativeValue kind word = v) ∧
    (∀ word : Word256,
      let canonical := clickhouseBeToCanonical (reversed word) kind
      canonical = encodeDigits (nativeValue kind word) ∧
        decodeDigits canonical = .ok (nativeValue kind word) ∧
        ∀ column row,
          canonicalToClickhouseLe canonical kind column row = .ok word) ∧
    ∀ field : DecimalArbField, field.nativeIntKind = some kind →
      ∀ values : List (Option ℤ),
        ((∃ native,
            decimalArbToClickhouseNative (stored values) field =
              .ok native) ↔
          ∀ v, some v ∈ values → kind.InRange v) ∧
        ∀ native,
          decimalArbToClickhouseNative (stored values) field = .ok native →
          (clickhouseNativeToDecimalArb native field =
              .ok (stored values) ↔
            ∀ v, some v ∈ values → field.Holds v) ∧
          ∀ out, clickhouseNativeToDecimalArb native field = .ok out →
            out = stored values := by
  refine ⟨?_, ?_, ?_⟩
  · intro v column row
    simp only [canonicalToClickhouseLe_eq_ok_iff]
    refine ⟨?_, fun word h => h.2⟩
    constructor
    · rintro ⟨word, hin, -⟩
      exact hin
    · intro hin
      obtain ⟨word, hword⟩ := exists_word hin
      exact ⟨word, hin, hword⟩
  · intro word canonical
    have hcanonical : canonical = encodeDigits (nativeValue kind word) :=
      clickhouseBeToCanonical_eq _ _
    refine ⟨hcanonical, ?_, ?_⟩
    · rw [hcanonical]
      exact DecimalArbValue.decodeDigits_encodeDigits _
    · intro column row
      rw [hcanonical]
      exact canonicalToClickhouseLe_eq_ok_iff.mpr
        ⟨beValue_inRange kind _, rfl⟩
  · intro field hkind values
    simp only [decimalArbToClickhouseNative_eq_ok_iff hkind,
      clickhouseNativeToDecimalArb_eq_ok_iff hkind]
    refine ⟨⟨?_, exists_written⟩, ?_⟩
    · rintro ⟨native, hwrite⟩
      exact inRange_of_written hwrite
    · intro native hwrite
      refine ⟨⟨?_, read_stored hwrite⟩, ?_⟩
      · intro hread
        exact (read_eq_stored hwrite hread).2
      · intro out hread
        exact (read_eq_stored hwrite hread).1

/-- A signed column of minus five, a null and three hundred comes back. -/
theorem clickhouse_native_int_exact_signed :
    ∃ native,
      decimalArbToClickhouseNative (stored [some (-5), none, some 300])
          ⟨"balance", 78, 0, rfl, some .i256⟩ = .ok native ∧
        clickhouseNativeToDecimalArb native
            ⟨"balance", 78, 0, rfl, some .i256⟩ =
          .ok (stored [some (-5), none, some 300]) := by
  have hcolumns := (clickhouse_native_int_exact .i256).2.2
    ⟨"balance", 78, 0, rfl, some .i256⟩ rfl [some (-5), none, some 300]
  obtain ⟨native, hwrite⟩ := hcolumns.1.mpr (by
    intro v hv
    simp only [List.mem_cons, Option.some.injEq, reduceCtorEq,
      List.not_mem_nil, or_false, false_or] at hv
    rcases hv with rfl | rfl <;> simp [NativeIntKind.InRange])
  refine ⟨native, hwrite, (hcolumns.2 native hwrite).1.mpr ?_⟩
  intro v hv
  simp only [List.mem_cons, Option.some.injEq, reduceCtorEq,
    List.not_mem_nil, or_false, false_or] at hv
  rcases hv with rfl | rfl
  · decide +kernel
  · decide +kernel

end NativeInt

end Streamling
