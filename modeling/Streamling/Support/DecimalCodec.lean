import Mathlib
import Streamling.Support.Numeral

/-!
# Printing and parsing decimals

What a parser and a printer of decimals of arbitrary precision have to do, and
that a printed decimal is parsed as the same number.  A scale is held in 64
bits.
-/

namespace BigDecimal

/-- The scale of a decimal fits 64 bits. -/
def ScaleFits (d : BigDecimal) : Prop :=
  -2 ^ 63 ≤ d.scale ∧ d.scale < 2 ^ 63

instance instDecidableScaleFits (d : BigDecimal) : Decidable d.ScaleFits :=
  inferInstanceAs (Decidable (_ ∧ _))

end BigDecimal

/-- A parser of decimals: it reads the numerals whose scale fits 64 bits, and
rejects other scales and a second sign. -/
structure DecimalParser (parse : String → Option BigDecimal) : Prop where
  reads : ∀ n : Numeral, n.unsigned.decimal.ScaleFits →
    ∃ d, parse (String.ofList n.chars) = some d ∧ d.value = n.value
  overflows : ∀ n : Numeral, ¬ n.unsigned.decimal.ScaleFits →
    parse (String.ofList n.chars) = none
  second_sign : ∀ cs : List Char,
    parse (String.ofList ('-' :: '-' :: cs)) = none

/-- A printer of decimals without exponents: as many digits after the point as
the scale says. -/
structure DecimalPrinter (print : BigDecimal → String) : Prop where
  prints : ∀ d : BigDecimal, 0 ≤ d.scale → ∃ n : Numeral,
    print d = String.ofList n.chars ∧ n.value = d.value ∧
      n.unsigned.exponent = none ∧
      (n.unsigned.fraction.getD []).length = d.scale.toNat

/-- A printed decimal is parsed as the number it is. -/
theorem DecimalParser.parse_print
    {parse : String → Option BigDecimal} {print : BigDecimal → String}
    (hparse : DecimalParser parse) (hprint : DecimalPrinter print)
    {d : BigDecimal} (hnonneg : 0 ≤ d.scale) (hfits : d.scale < 2 ^ 63) :
    ∃ d', parse (print d) = some d' ∧ d'.value = d.value := by
  obtain ⟨n, htext, hvalue, hexponent, hlength⟩ := hprint.prints d hnonneg
  have hscale : n.unsigned.decimal.scale = d.scale := by
    simp only [Unsigned.decimal, hexponent, Option.elim_none, hlength,
      sub_zero]
    exact Int.toNat_of_nonneg hnonneg
  obtain ⟨d', hd', hvalue'⟩ := hparse.reads n (by
    rw [BigDecimal.ScaleFits, hscale]
    exact ⟨by omega, hfits⟩)
  refine ⟨d', ?_, hvalue'.trans hvalue⟩
  rw [htext]
  exact hd'

/-! ## A parser -/

/-- Read a numeral whose scale fits 64 bits. -/
def readDecimal (text : String) : Option BigDecimal :=
  (Numeral.read text.toList).bind fun n =>
    if n.unsigned.decimal.ScaleFits then some n.decimal else none

theorem readDecimal_decimalParser : DecimalParser readDecimal where
  reads n h := by
    refine ⟨n.decimal, ?_, rfl⟩
    simp only [readDecimal, String.toList_ofList, n.read_chars,
      Option.bind_some, if_pos h]
  overflows n h := by
    simp only [readDecimal, String.toList_ofList, n.read_chars,
      Option.bind_some, if_neg h]
  second_sign cs := by
    have hread : Numeral.read ('-' :: '-' :: cs) = none := by
      rw [Numeral.read, if_pos List.head?_cons, List.tail_cons,
        Unsigned.read_minus, Option.map_none]
    simp only [readDecimal, String.toList_ofList, hread, Option.bind_none]

/-! ## A printer -/

/-- A number below a power of ten in as many digits. -/
def padded (width n : ℕ) : List Char :=
  List.replicate (width - (Nat.toDigits 10 n).length) '0' ++
    Nat.toDigits 10 n

theorem allDigits_padded (width n : ℕ) : AllDigits (padded width n) := by
  rw [padded, allDigits_append]
  exact ⟨allDigits_zeros _, allDigits_toDigits n⟩

theorem length_padded
    {width n : ℕ} (hpos : 0 < width) (h : n < 10 ^ width) :
    (padded width n).length = width := by
  have hlength : (Nat.toDigits 10 n).length ≤ width :=
    (Nat.length_toDigits_le_iff (by norm_num) hpos).mpr h
  rw [padded, List.length_append, List.length_replicate]
  omega

theorem digitsValue_append (cs ds : List Char) :
    digitsValue (cs ++ ds) = digitsValue cs * 10 ^ ds.length +
      digitsValue ds := by
  rw [digitsValue, Nat.ofDigitChars_append,
    Nat.ofDigitChars_eq_ofDigitChars_zero, mul_comm]
  rfl

/-- The digits before the point and those after it. -/
def wholeDigits (digits : ℤ) (scale : ℕ) : List Char :=
  Nat.toDigits 10 (digits.natAbs / 10 ^ scale)

def fractionDigits (digits : ℤ) (scale : ℕ) : Option (List Char) :=
  if scale = 0 then none
  else some (padded scale (digits.natAbs % 10 ^ scale))

theorem allDigits_wholeDigits (digits : ℤ) (scale : ℕ) :
    AllDigits (wholeDigits digits scale ++
      (fractionDigits digits scale).getD []) := by
  rw [allDigits_append]
  refine ⟨allDigits_toDigits _, ?_⟩
  unfold fractionDigits
  split
  · exact allDigits_nil
  · exact allDigits_padded _ _

theorem wholeDigits_ne_nil (digits : ℤ) (scale : ℕ) :
    wholeDigits digits scale ++ (fractionDigits digits scale).getD [] ≠
      [] := by
  simp [wholeDigits, Nat.toDigits_ne_nil]

theorem length_fractionDigits (digits : ℤ) (scale : ℕ) :
    ((fractionDigits digits scale).getD []).length = scale := by
  by_cases h : scale = 0
  · simp [fractionDigits, h]
  · rw [fractionDigits, if_neg h, Option.getD_some]
    exact length_padded (Nat.pos_of_ne_zero h)
      (Nat.mod_lt _ (by positivity))

theorem digitsValue_wholeDigits (digits : ℤ) (scale : ℕ) :
    digitsValue (wholeDigits digits scale ++
      (fractionDigits digits scale).getD []) = digits.natAbs := by
  rw [digitsValue_append, length_fractionDigits, wholeDigits,
    digitsValue_toDigits]
  by_cases h : scale = 0
  · simp [fractionDigits, h, digitsValue]
  · rw [fractionDigits, if_neg h, Option.getD_some, padded,
      digitsValue_zeros_append, digitsValue_toDigits]
    exact Nat.div_add_mod' _ _

/-- The numeral of a decimal without an exponent. -/
def plainNumeral (digits : ℤ) (scale : ℕ) : Numeral where
  negative := digits < 0
  unsigned :=
    { whole := wholeDigits digits scale
      fraction := fractionDigits digits scale
      exponent := none
      allDigits := allDigits_wholeDigits digits scale
      digits_ne_nil := wholeDigits_ne_nil digits scale }

theorem value_plainNumeral (digits : ℤ) (scale : ℕ) :
    (plainNumeral digits scale).value =
      BigDecimal.value ⟨digits, scale⟩ := by
  have hdigits := digitsValue_wholeDigits digits scale
  have hlength := length_fractionDigits digits scale
  simp only [Numeral.value, Numeral.decimal, Unsigned.decimal, plainNumeral,
    hdigits, hlength, Option.elim_none, sub_zero, decide_eq_true_eq]
  congr 2
  split
  · omega
  · omega

/-- Trailing zeros stand for a negative scale. -/
def printDecimal (d : BigDecimal) : String :=
  String.ofList (plainNumeral (d.digits * 10 ^ (-d.scale).toNat)
    d.scale.toNat).chars

theorem printDecimal_decimalPrinter : DecimalPrinter printDecimal where
  prints d h := by
    have hneg : (-d.scale).toNat = 0 := by omega
    refine ⟨plainNumeral (d.digits * 10 ^ (-d.scale).toNat) d.scale.toNat,
      rfl, ?_, rfl, length_fractionDigits _ _⟩
    rw [value_plainNumeral, hneg, pow_zero, mul_one, Int.toNat_of_nonneg h]
