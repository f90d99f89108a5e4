import Mathlib
import Streamling.Support.Numeral

/-!
# Decimals bound as text

A decimal column holds unscaled integers.  A value is bound to a query as the
text of a `NUMERIC`: the digits of the integer with the point placed `scale`
digits from the right.  A text is the list of its characters.
-/

namespace Streamling

namespace Postgres

def stripMinus (text : List Char) : Option (List Char) :=
  if text.head? = some '-' then some text.tail else none

/-- Split after `mid` characters; a split past the end panics. -/
def splitAt (mid : ℕ) (text : List Char) : Option (List Char × List Char) :=
  if mid ≤ text.length then some (text.take mid, text.drop mid) else none

def zeros (n : ℕ) : List Char :=
  List.replicate n '0'

/-- The text of an unscaled integer at a scale, `none` for a panic. -/
def unscaledToNumericString (unscaled : List Char) (scale : Int8) :
    Option (List Char) :=
  if scale.toInt = 0 then some unscaled
  else
    let (sign, digits) := match stripMinus unscaled with
      | some rest => (['-'], rest)
      | none => ([], unscaled)
    if digits.all (· == '0') then
      -- Never emit a negative zero.
      if 0 < scale.toInt then some ('0' :: '.' :: zeros scale.toInt.toNat)
      else some ['0']
    else if scale.toInt < 0 then
      -- The value is an integer with trailing zeros.
      some (sign ++ digits ++ zeros scale.toInt.natAbs)
    else
      let scale := scale.toInt.toNat
      if scale < digits.length then do
        let (intPart, fracPart) ← splitAt (digits.length - scale) digits
        return sign ++ (intPart ++ '.' :: fracPart)
      else
        some (sign ++
          ('0' :: '.' :: (zeros (scale - digits.length) ++ digits)))

/-- The text of an integer in base ten. -/
def integerText (u : ℤ) : List Char :=
  (toString u).toList

/-- The text bound for a value of a `Decimal128` or `Decimal256` column. -/
def boundDecimal (value : ℤ) (scale : Int8) : Option (List Char) :=
  unscaledToNumericString (integerText value) scale

/-! ## Numerals without an exponent -/

def signChars (negative : Bool) : List Char :=
  if negative then ['-'] else []

/-- The integer of a sign and digits. -/
def signed (negative : Bool) (digits : List Char) : ℤ :=
  if negative then -digitsValue digits else digitsValue digits

/-- The text is a numeral of the number with `scale` digits after the point,
and without a point if there are none. -/
structure Renders (number : ℚ) (scale : ℤ) (text : List Char) (n : Numeral) :
    Prop where
  read : Numeral.read text = some n
  exponent : n.unsigned.exponent = none
  whole : n.unsigned.whole ≠ []
  fraction : n.unsigned.fraction.map List.length =
    if 0 < scale then some scale.toNat else none
  value : n.value = number
  negative : n.negative = true → number ≠ 0

/-- A text of a sign, digits and a fraction renders its number. -/
theorem exists_renders
    (negative : Bool) (whole : List Char) (fraction : Option (List Char))
    {number : ℚ} {scale : ℤ}
    (hdigits : AllDigits (whole ++ fraction.getD [])) (hwhole : whole ≠ [])
    (hfraction : fraction.map List.length =
      if 0 < scale then some scale.toNat else none)
    (hvalue : BigDecimal.value
      ⟨signed negative (whole ++ fraction.getD []),
        (fraction.getD []).length⟩ = number)
    (hnegative : negative = true → number ≠ 0) :
    ∃ n, Renders number scale
      (signChars negative ++ (whole ++ Unsigned.fractionChars fraction)) n := by
  have hne : whole ++ fraction.getD [] ≠ [] := by
    simp [hwhole]
  let n : Numeral := ⟨negative, whole, fraction, none, hdigits, hne⟩
  have hchars : n.chars =
      signChars negative ++ (whole ++ Unsigned.fractionChars fraction) := by
    cases negative with
    | true => simp [n, Numeral.chars, Unsigned.chars,
        Unsigned.exponentChars, signChars]
    | false => simp [n, Numeral.chars, Unsigned.chars,
        Unsigned.exponentChars, signChars]
  refine ⟨n, ?_, rfl, hwhole, hfraction, ?_, hnegative⟩
  · rw [← hchars]
    exact n.read_chars
  · rw [← hvalue]
    simp [n, Numeral.value, Numeral.decimal, Unsigned.decimal, signed]

/-! ## The text of a sign and digits -/

theorem stripMinus_signChars
    (negative : Bool) {digits : List Char} (h : AllDigits digits) :
    (match stripMinus (signChars negative ++ digits) with
      | some rest => (['-'], rest)
      | none => ([], signChars negative ++ digits)) =
      (signChars negative, digits) := by
  cases negative with
  | true => simp [signChars, stripMinus]
  | false =>
      have hhead : digits.head? ≠ some '-' := by
        intro hhead
        have hminus : ¬ '-'.isDigit = true := by decide
        exact hminus (h _ (List.mem_of_head? hhead))
      simp [signChars, stripMinus, hhead]

theorem signed_ne_zero
    (negative : Bool) {digits : List Char} (h : AllDigits digits)
    (hzero : digits.all (· == '0') ≠ true) : signed negative digits ≠ 0 := by
  have hvalue := mt (digitsValue_eq_zero_iff h).mp hzero
  unfold signed
  split
  · omega
  · omega

theorem value_signed_append_zeros (negative : Bool) (digits : List Char)
    (n : ℕ) :
    BigDecimal.value ⟨signed negative (digits ++ zeros n), 0⟩ =
      BigDecimal.value ⟨signed negative digits, -n⟩ := by
  have hdigits : signed negative (digits ++ zeros n) =
      signed negative digits * 10 ^ n := by
    simp only [signed, zeros, digitsValue_append_zeros]
    split
    · push_cast
      ring
    · push_cast
      ring
  simp [BigDecimal.value, hdigits]

theorem renders_zero (scale : ℤ) :
    ∃ n, Renders 0 scale
      (if 0 < scale then '0' :: '.' :: zeros scale.toNat else ['0']) n := by
  by_cases hpos : 0 < scale
  · have hdigits : AllDigits (['0'] ++ zeros scale.toNat) :=
      allDigits_zeros (scale.toNat + 1)
    have hvalue : digitsValue (['0'] ++ zeros scale.toNat) = 0 := by
      apply (digitsValue_eq_zero_iff hdigits).mpr
      simp [zeros]
    rw [if_pos hpos]
    apply exists_renders false ['0'] (some (zeros scale.toNat)) hdigits
    · simp
    · simp [zeros, hpos]
    · rw [BigDecimal.value_eq_zero_iff]
      simpa [signed] using hvalue
    · simp
  · rw [if_neg hpos]
    apply exists_renders false ['0'] none
    · exact allDigits_zeros 1
    · simp
    · simp [hpos]
    · rw [BigDecimal.value_eq_zero_iff]
      have hvalue := (digitsValue_eq_zero_iff (allDigits_zeros 1)).mpr rfl
      simpa [signed] using hvalue
    · simp

section

variable {negative : Bool} {digits : List Char} {scale : ℤ}
  (hdigits : AllDigits digits)
  (hnumber : negative = true →
    BigDecimal.value ⟨signed negative digits, scale⟩ ≠ 0)

include hdigits hnumber

/-- A negative scale, or zero, appends zeros. -/
theorem exists_renders_integer (hne : digits ≠ []) (hscale : scale ≤ 0) :
    ∃ n, Renders (BigDecimal.value ⟨signed negative digits, scale⟩) scale
      (signChars negative ++ digits ++ zeros scale.natAbs) n := by
  have habs : -(scale.natAbs : ℤ) = scale := by omega
  have hvalue := value_signed_append_zeros negative digits scale.natAbs
  rw [habs] at hvalue
  rw [List.append_assoc, ← List.append_nil (digits ++ zeros scale.natAbs)]
  apply exists_renders negative (digits ++ zeros scale.natAbs) none
  · simpa [zeros] using hdigits
  · simp [hne]
  · simp [not_lt_of_ge hscale]
  · simpa using hvalue
  · exact hnumber

/-- Digits longer than the scale are split. -/
theorem exists_renders_split
    (hscale : 0 < scale) (hlong : scale.toNat < digits.length) :
    ∃ n, Renders (BigDecimal.value ⟨signed negative digits, scale⟩) scale
      (signChars negative ++ (digits.take (digits.length - scale.toNat) ++
        '.' :: digits.drop (digits.length - scale.toNat))) n := by
  have hlength :
      (digits.drop (digits.length - scale.toNat)).length = scale.toNat := by
    rw [List.length_drop]
    omega
  apply exists_renders negative _
    (some (digits.drop (digits.length - scale.toNat)))
  · simpa using hdigits
  · intro hnil
    have htake := congrArg List.length hnil
    simp only [List.length_take, List.length_nil] at htake
    omega
  · simp only [Option.map_some, hlength, if_pos hscale]
  · simp only [Option.getD_some, List.take_append_drop, hlength]
    rw [Int.toNat_of_nonneg hscale.le]
  · exact hnumber

/-- Shorter digits are padded with zeros. -/
theorem exists_renders_padded
    (hscale : 0 < scale) (hshort : digits.length ≤ scale.toNat) :
    ∃ n, Renders (BigDecimal.value ⟨signed negative digits, scale⟩) scale
      (signChars negative ++
        ('0' :: '.' :: (zeros (scale.toNat - digits.length) ++ digits))) n := by
  have hlength : (zeros (scale.toNat - digits.length) ++ digits).length =
      scale.toNat := by
    simp only [zeros, List.length_append, List.length_replicate]
    omega
  have hsigned : signed negative
      (['0'] ++ (zeros (scale.toNat - digits.length) ++ digits)) =
      signed negative digits := by
    have hzeros := digitsValue_zeros_append
      (scale.toNat - digits.length + 1) digits
    rw [List.replicate_succ] at hzeros
    simp only [signed, zeros, List.singleton_append]
    rw [← List.cons_append, hzeros]
  apply exists_renders negative ['0']
    (some (zeros (scale.toNat - digits.length) ++ digits))
  · rw [Option.getD_some, allDigits_append, allDigits_append]
    exact ⟨allDigits_zeros 1, allDigits_zeros _, hdigits⟩
  · simp
  · simp only [Option.map_some, hlength, if_pos hscale]
  · simp only [Option.getD_some, hlength]
    rw [hsigned, Int.toNat_of_nonneg hscale.le]
  · exact hnumber

end

/-- Only at scale zero the text is returned as it is, so that a zero keeps a
minus sign there. -/
theorem exists_text_of_digits
    {negative : Bool} {digits : List Char} {scale : Int8}
    (hdigits : AllDigits digits) (hne : digits ≠ [])
    (hzero : ¬ (scale.toInt = 0 ∧ negative = true ∧
      digitsValue digits = 0)) :
    ∃ text n,
      unscaledToNumericString (signChars negative ++ digits) scale =
        some text ∧
      Renders (signed negative digits * (10 : ℚ) ^ (-scale.toInt))
        scale.toInt text n := by
  by_cases hscale : scale.toInt = 0
  · have hnumber : negative = true →
        BigDecimal.value ⟨signed negative digits, scale.toInt⟩ ≠ 0 := by
      intro hnegative
      have hvalue : digitsValue digits ≠ 0 := fun h =>
        hzero ⟨hscale, hnegative, h⟩
      rw [ne_eq, BigDecimal.value_eq_zero_iff]
      simpa [signed, hnegative] using hvalue
    obtain ⟨n, hn⟩ := exists_renders_integer hdigits hnumber hne hscale.le
    have htext : signChars negative ++ digits ++ zeros scale.toInt.natAbs =
        signChars negative ++ digits := by
      simp [hscale, zeros]
    rw [htext] at hn
    exact ⟨_, n, if_pos hscale, hn⟩
  · have hparts := stripMinus_signChars negative hdigits
    unfold unscaledToNumericString
    rw [if_neg hscale, hparts]
    simp only
    by_cases hall : digits.all (· == '0') = true
    · have hvalue := (digitsValue_eq_zero_iff hdigits).mpr hall
      have hnumber :
          signed negative digits * (10 : ℚ) ^ (-scale.toInt) = 0 := by
        simp [signed, hvalue]
      obtain ⟨n, hn⟩ := renders_zero scale.toInt
      rw [if_pos hall, hnumber, ← apply_ite some]
      exact ⟨_, n, rfl, hn⟩
    · have hsigned := signed_ne_zero negative hdigits hall
      have hnumber : negative = true →
          BigDecimal.value ⟨signed negative digits, scale.toInt⟩ ≠ 0 := by
        intro _
        rwa [ne_eq, BigDecimal.value_eq_zero_iff]
      rw [if_neg hall]
      by_cases hneg : scale.toInt < 0
      · obtain ⟨n, hn⟩ :=
          exists_renders_integer hdigits hnumber hne hneg.le
        exact ⟨_, n, if_pos hneg, hn⟩
      · have hpos : 0 < scale.toInt := by omega
        rw [if_neg hneg]
        by_cases hlong : scale.toInt.toNat < digits.length
        · obtain ⟨n, hn⟩ := exists_renders_split hdigits hnumber hpos hlong
          have hsplit : digits.length - scale.toInt.toNat ≤ digits.length :=
            Nat.sub_le _ _
          rw [if_pos hlong]
          simp only [splitAt, if_pos hsplit]
          exact ⟨_, n, rfl, hn⟩
        · obtain ⟨n, hn⟩ :=
            exists_renders_padded hdigits hnumber hpos (not_lt.mp hlong)
          exact ⟨_, n, if_neg hlong, hn⟩

/-- A numeral behind a minus sign is negative, so zero has no such text. -/
theorem not_renders_minus_zero (scale : ℤ) (digits : List Char) (n : Numeral) :
    ¬ Renders 0 scale ('-' :: digits) n := by
  intro hn
  have hread := hn.read
  simp only [Numeral.read, List.head?_cons, List.tail_cons, if_true,
    Option.map_eq_some_iff] at hread
  obtain ⟨u, -, rfl⟩ := hread
  exact hn.negative rfl rfl

theorem text_of_digits_iff
    {negative : Bool} {digits : List Char} {scale : Int8}
    (hdigits : AllDigits digits) (hne : digits ≠ []) :
    (∃ text n,
      unscaledToNumericString (signChars negative ++ digits) scale =
        some text ∧
      Renders (signed negative digits * (10 : ℚ) ^ (-scale.toInt))
        scale.toInt text n) ↔
      ¬ (scale.toInt = 0 ∧ negative = true ∧ digitsValue digits = 0) := by
  constructor
  · rintro ⟨text, n, htext, hn⟩ ⟨hscale, rfl, hvalue⟩
    have hsame : '-' :: digits = text := by
      rw [unscaledToNumericString, if_pos hscale] at htext
      exact Option.some.inj htext
    have hnumber :
        (signed true digits : ℚ) * (10 : ℚ) ^ (-scale.toInt) = 0 := by
      simp [signed, hvalue]
    rw [← hsame, hnumber] at hn
    exact not_renders_minus_zero _ _ _ hn
  · exact exists_text_of_digits hdigits hne

/-! ## The text of an integer -/

theorem toDigits_injective {m n : ℕ}
    (h : Nat.toDigits 10 m = Nat.toDigits 10 n) : m = n := by
  rw [← digitsValue_toDigits m, ← digitsValue_toDigits n, h]

/-- The text that the digits of a natural number have behind a sign. -/
def signedText (negative : Bool) (n : ℕ) : List Char :=
  signChars negative ++ Nat.toDigits 10 n

theorem signedText_injective {negative negative' : Bool} {m n : ℕ}
    (h : signedText negative m = signedText negative' n) :
    negative = negative' ∧ m = n := by
  have hdigits := congrArg
    (fun text => match stripMinus text with
      | some rest => (['-'], rest)
      | none => ([], text)) h
  simp only [signedText,
    stripMinus_signChars _ (allDigits_toDigits _), Prod.mk.injEq] at hdigits
  obtain ⟨hsign, hdigits⟩ := hdigits
  refine ⟨?_, toDigits_injective hdigits⟩
  cases negative with
  | true => cases negative' with
    | true => rfl
    | false => simp [signChars] at hsign
  | false => cases negative' with
    | true => simp [signChars] at hsign
    | false => rfl

theorem integerText_eq (u : ℤ) :
    integerText u = signedText (decide (u < 0)) u.natAbs := by
  rw [signedText, integerText, Int.toString_eq_repr, Int.repr_eq_if]
  by_cases hneg : u < 0
  · have habs : (-u).toNat = u.natAbs := by omega
    simp [signChars, hneg, not_le.mpr hneg, habs]
  · have habs : u.toNat = u.natAbs := by omega
    simp [signChars, hneg, not_lt.mp hneg, habs]

theorem signed_toDigits (u : ℤ) :
    signed (decide (u < 0)) (Nat.toDigits 10 u.natAbs) = u := by
  simp only [signed, digitsValue_toDigits, decide_eq_true_eq]
  split
  · omega
  · omega

/-- The texts that a column binds are made from integers, so they never have
a signed zero. -/
theorem exists_boundDecimal (u : ℤ) (scale : Int8) :
    ∃ text n, boundDecimal u scale = some text ∧
      Renders (u * (10 : ℚ) ^ (-scale.toInt)) scale.toInt text n := by
  have hunsigned : ¬ (scale.toInt = 0 ∧ decide (u < 0) = true ∧
      digitsValue (Nat.toDigits 10 u.natAbs) = 0) := by
    rintro ⟨-, hneg, hvalue⟩
    have hneg := of_decide_eq_true hneg
    rw [digitsValue_toDigits] at hvalue
    omega
  have htext := exists_text_of_digits (allDigits_toDigits u.natAbs)
    Nat.toDigits_ne_nil hunsigned
  rw [signed_toDigits] at htext
  rwa [boundDecimal, integerText_eq]

theorem signed_toDigits_inj (negative negative' : Bool) (m n : ℕ) :
    signed negative (Nat.toDigits 10 m) =
        signed negative' (Nat.toDigits 10 n) ↔
      m = n ∧ (m = 0 ∨ negative = negative') := by
  simp only [signed, digitsValue_toDigits]
  cases negative with
  | true => cases negative' with
    | true => simp
    | false =>
        simp only [if_true, Bool.false_eq_true, if_false]
        constructor
        · intro h
          omega
        · rintro ⟨rfl, h⟩
          have hzero : m = 0 := h.resolve_right (by decide)
          omega
  | false => cases negative' with
    | true =>
        simp only [if_true, Bool.false_eq_true, if_false]
        constructor
        · intro h
          omega
        · rintro ⟨rfl, h⟩
          have hzero : m = 0 := h.resolve_right (by decide)
          omega
    | false => simp

/-- At a scale other than zero a zero loses its sign. -/
theorem unscaledToNumericString_zero
    (negative : Bool) {scale : Int8} (hscale : scale.toInt ≠ 0) :
    unscaledToNumericString (signedText negative 0) scale =
      unscaledToNumericString (signedText false 0) scale := by
  have hparts (negative : Bool) :=
    stripMinus_signChars negative (allDigits_toDigits 0)
  have hall : (Nat.toDigits 10 0).all (· == '0') = true := rfl
  simp only [unscaledToNumericString, signedText, if_neg hscale, hparts,
    if_pos hall]

theorem same_text_iff (negative negative' : Bool) (m n : ℕ) (scale : Int8) :
    unscaledToNumericString (signedText negative m) scale =
        unscaledToNumericString (signedText negative' n) scale ↔
      signed negative (Nat.toDigits 10 m) =
          signed negative' (Nat.toDigits 10 n) ∧
        ¬ (scale.toInt = 0 ∧ m = 0 ∧ negative ≠ negative') := by
  by_cases hscale : scale.toInt = 0
  · simp only [unscaledToNumericString, if_pos hscale, Option.some.injEq,
      signed_toDigits_inj]
    constructor
    · intro h
      obtain ⟨rfl, rfl⟩ := signedText_injective h
      simp
    · rintro ⟨⟨rfl, hsign⟩, hzero⟩
      have hsame : negative = negative' := by
        by_contra hne
        exact hzero ⟨hscale, hsign.resolve_right hne, hne⟩
      rw [hsame]
  · have hsigned (negative : Bool) (n : ℕ) :=
      @exists_text_of_digits negative _ scale
        (allDigits_toDigits n) Nat.toDigits_ne_nil
        (fun h => hscale h.1)
    constructor
    · intro h
      refine ⟨?_, fun h => hscale h.1⟩
      obtain ⟨text, r, htext, hr⟩ := hsigned negative m
      obtain ⟨text', r', htext', hr'⟩ := hsigned negative' n
      have hsame : text = text' :=
        Option.some.inj (htext.symm.trans (h.trans htext'))
      have hread : r = r' := by
        have hread := hr.read
        rw [hsame, hr'.read] at hread
        exact (Option.some.inj hread).symm
      have hpow : (10 : ℚ) ^ (-scale.toInt) ≠ 0 :=
        zpow_ne_zero _ (by norm_num)
      have hvalue := hr.value.symm.trans (hread ▸ hr'.value)
      exact Int.cast_injective (mul_right_cancel₀ hpow hvalue)
    · rintro ⟨hsame, -⟩
      obtain ⟨rfl, rfl | rfl⟩ := (signed_toDigits_inj _ _ _ _).mp hsame
      · rw [unscaledToNumericString_zero negative hscale,
          unscaledToNumericString_zero negative' hscale]
      · rfl

/-- The text of every sign and digits is a numeral of the exact value with as
many digits after the point as the scale says, without a point if that is not
positive, and without a sign at zero, unless a signed zero is rendered at
scale zero.  At one scale the texts of equal values, and only those, are
equal, with the same exception. -/
theorem decimals_render_exactly_iff (scale : Int8) :
    (∀ (negative : Bool) (digits : List Char),
      AllDigits digits → digits ≠ [] →
      ((∃ text n,
        unscaledToNumericString (signChars negative ++ digits) scale =
          some text ∧
        Renders (signed negative digits * (10 : ℚ) ^ (-scale.toInt))
          scale.toInt text n) ↔
        ¬ (scale.toInt = 0 ∧ negative = true ∧ digitsValue digits = 0))) ∧
    ∀ (negative negative' : Bool) (m n : ℕ),
      unscaledToNumericString (signedText negative m) scale =
          unscaledToNumericString (signedText negative' n) scale ↔
        (signed negative (Nat.toDigits 10 m) : ℚ) *
            (10 : ℚ) ^ (-scale.toInt) =
          signed negative' (Nat.toDigits 10 n) *
            (10 : ℚ) ^ (-scale.toInt) ∧
        ¬ (scale.toInt = 0 ∧ m = 0 ∧ negative ≠ negative') := by
  constructor
  · intro negative digits hdigits hne
    exact text_of_digits_iff hdigits hne
  · intro negative negative' m n
    have hpow : (10 : ℚ) ^ (-scale.toInt) ≠ 0 :=
      zpow_ne_zero _ (by norm_num)
    rw [same_text_iff, mul_left_inj' hpow, Int.cast_inj]

theorem decimals_render_exactly_padded :
    (∃ text n,
      unscaledToNumericString (signChars true ++ ['0', '5']) 3 = some text ∧
      Renders (signed true ['0', '5'] * (10 : ℚ) ^ (-(3 : Int8).toInt))
        (3 : Int8).toInt text n) ∧
    unscaledToNumericString (signChars true ++ ['0', '5']) 3 =
      some "-0.005".toList := by
  constructor
  · exact ((decimals_render_exactly_iff 3).1 true ['0', '5']
      (by simp [AllDigits]) (by simp)).mpr (fun h => absurd h.1 (by decide))
  · decide +kernel

/-- At scale zero the text of a signed zero stays `-0`, and so differs from
the text of the same value without the sign. -/
theorem minus_zero_keeps_its_sign :
    unscaledToNumericString ['-', '0'] 0 = some ['-', '0'] ∧
      (¬ ∃ text n, unscaledToNumericString ['-', '0'] 0 = some text ∧
        Renders 0 0 text n) ∧
      unscaledToNumericString ['-', '0'] 0 ≠
        unscaledToNumericString ['0'] 0 := by
  refine ⟨by decide, ?_, by decide⟩
  rintro ⟨text, n, htext, hn⟩
  have hsame : ['-', '0'] = text := Option.some.inj htext
  rw [← hsame] at hn
  exact not_renders_minus_zero _ _ _ hn

example :
    boundDecimal (-5) 3 = some "-0.005".toList ∧
      boundDecimal 12 (-2) = some "1200".toList := by
  decide +kernel

end Postgres

end Streamling
