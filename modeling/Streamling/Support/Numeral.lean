import Mathlib
import Streamling.Support.BigDecimal

/-!
# Decimal numerals

A numeral is a word of digits, with a point and an exponent if it has them,
and a minus sign in front of a negative one.  A text is a list of characters;
each text is that of at most one numeral, which `read` finds.
-/

/-- Every character is a digit of base ten. -/
def AllDigits (cs : List Char) : Prop :=
  ∀ c ∈ cs, c.isDigit = true

instance : DecidablePred AllDigits := fun cs =>
  inferInstanceAs (Decidable (∀ c ∈ cs, c.isDigit = true))

/-- The number that a word of digits writes. -/
def digitsValue (cs : List Char) : ℕ :=
  Nat.ofDigitChars 10 cs 0

inductive ExponentSign where
  | bare
  | plus
  | minus
  deriving DecidableEq, Repr

/-- The exponent of a numeral, marked by `e` or `E`. -/
structure Exponent where
  upper : Bool
  sign : ExponentSign
  digits : List Char
  digits_ne_nil : digits ≠ []
  allDigits : AllDigits digits
  deriving DecidableEq

/-- A numeral without a sign.  It has a digit before the point or after it. -/
structure Unsigned where
  whole : List Char
  fraction : Option (List Char)
  exponent : Option Exponent
  allDigits : AllDigits (whole ++ fraction.getD [])
  digits_ne_nil : whole ++ fraction.getD [] ≠ []
  deriving DecidableEq

structure Numeral where
  negative : Bool
  unsigned : Unsigned
  deriving DecidableEq

/-! ## Texts and values -/

namespace Exponent

def chars (e : Exponent) : List Char :=
  (if e.upper then 'E' else 'e') ::
    match e.sign with
    | .bare => e.digits
    | .plus => '+' :: e.digits
    | .minus => '-' :: e.digits

def value (e : Exponent) : ℤ :=
  match e.sign with
  | .bare | .plus => digitsValue e.digits
  | .minus => -digitsValue e.digits

end Exponent

namespace Unsigned

def fractionChars (fraction : Option (List Char)) : List Char :=
  fraction.elim [] ('.' :: ·)

def exponentChars (exponent : Option Exponent) : List Char :=
  exponent.elim [] Exponent.chars

def chars (u : Unsigned) : List Char :=
  u.whole ++ (fractionChars u.fraction ++ exponentChars u.exponent)

/-- The decimal that a numeral denotes. -/
def decimal (u : Unsigned) : BigDecimal :=
  ⟨digitsValue (u.whole ++ u.fraction.getD []),
    (u.fraction.getD []).length - u.exponent.elim 0 Exponent.value⟩

end Unsigned

namespace Numeral

def chars (n : Numeral) : List Char :=
  if n.negative then '-' :: n.unsigned.chars else n.unsigned.chars

def decimal (n : Numeral) : BigDecimal :=
  ⟨if n.negative then -n.unsigned.decimal.digits
    else n.unsigned.decimal.digits, n.unsigned.decimal.scale⟩

def value (n : Numeral) : ℚ :=
  n.decimal.value

end Numeral

/-! ## Reading -/

def Exponent.of? (upper : Bool) (sign : ExponentSign) (digits : List Char) :
    Option Exponent :=
  if h : digits ≠ [] ∧ AllDigits digits then
    some ⟨upper, sign, digits, h.1, h.2⟩
  else none

/-- The digits after the mark of an exponent, with their sign. -/
def Exponent.readAfter (upper : Bool) : List Char → Option Exponent
  | '+' :: digits => of? upper .plus digits
  | '-' :: digits => of? upper .minus digits
  | digits => of? upper .bare digits

def Exponent.read : List Char → Option (Option Exponent)
  | [] => some none
  | mark :: rest =>
      if mark = 'e' ∨ mark = 'E' then
        (readAfter (mark = 'E') rest).map some
      else none

namespace Unsigned

def of? (whole : List Char) (fraction : Option (List Char))
    (exponent : Option Exponent) : Option Unsigned :=
  if h : AllDigits (whole ++ fraction.getD []) ∧
      whole ++ fraction.getD [] ≠ [] then
    some ⟨whole, fraction, exponent, h.1, h.2⟩
  else none

def read (cs : List Char) : Option Unsigned :=
  let whole := cs.takeWhile Char.isDigit
  let rest := cs.dropWhile Char.isDigit
  if rest.head? = some '.' then do
    let exponent ← Exponent.read (rest.tail.dropWhile Char.isDigit)
    of? whole (some (rest.tail.takeWhile Char.isDigit)) exponent
  else do
    let exponent ← Exponent.read rest
    of? whole none exponent

end Unsigned

def Numeral.read (cs : List Char) : Option Numeral :=
  if cs.head? = some '-' then (Unsigned.read cs.tail).map (⟨true, ·⟩)
  else (Unsigned.read cs).map (⟨false, ·⟩)

/-! ## Words of digits -/

@[simp] theorem allDigits_nil : AllDigits [] := by
  simp [AllDigits]

@[simp] theorem allDigits_cons
    {c : Char} {cs : List Char} :
    AllDigits (c :: cs) ↔ c.isDigit = true ∧ AllDigits cs := by
  simp [AllDigits]

@[simp] theorem allDigits_append
    {cs ds : List Char} :
    AllDigits (cs ++ ds) ↔ AllDigits cs ∧ AllDigits ds := by
  simp [AllDigits, or_imp, forall_and]

@[simp] theorem allDigits_zeros (n : ℕ) :
    AllDigits (List.replicate n '0') := by
  intro c hc
  obtain rfl := List.eq_of_mem_replicate hc
  rfl

theorem allDigits_toDigits (n : ℕ) : AllDigits (Nat.toDigits 10 n) := by
  intro c hc
  exact Nat.isDigit_of_mem_toDigits (by norm_num) le_rfl hc

/-- A zero word in front changes nothing. -/
@[simp] theorem digitsValue_zeros_append (n : ℕ) (cs : List Char) :
    digitsValue (List.replicate n '0' ++ cs) = digitsValue cs := by
  simp [digitsValue, Nat.ofDigitChars_append]

theorem digitsValue_append_zeros (cs : List Char) (n : ℕ) :
    digitsValue (cs ++ List.replicate n '0') = digitsValue cs * 10 ^ n := by
  rw [digitsValue, Nat.ofDigitChars_append, Nat.ofDigitChars_replicate_zero,
    mul_comm]
  rfl

@[simp] theorem digitsValue_toDigits (n : ℕ) :
    digitsValue (Nat.toDigits 10 n) = n :=
  Nat.ofDigitChars_ten_toDigits

theorem digitsValue_cons (c : Char) (cs : List Char) :
    digitsValue (c :: cs) =
      10 ^ cs.length * (c.toNat - '0'.toNat) + digitsValue cs := by
  rw [digitsValue, Nat.ofDigitChars_cons,
    Nat.ofDigitChars_eq_ofDigitChars_zero]
  simp [digitsValue]

/-- Only zeros write the number zero. -/
theorem digitsValue_eq_zero_iff
    {cs : List Char} (h : AllDigits cs) :
    digitsValue cs = 0 ↔ cs.all (· == '0') = true := by
  induction cs with
  | nil => simp [digitsValue]
  | cons c cs ih =>
      rw [allDigits_cons] at h
      have hdigit : '0'.toNat ≤ c.toNat := by
        have hc := h.1
        simp only [Char.isDigit, Bool.and_eq_true, decide_eq_true_eq] at hc
        exact hc.1
      have hchar : c.toNat - '0'.toNat = 0 ↔ c = '0' := by
        constructor
        · intro hsub
          apply Char.ext
          apply UInt32.toNat_inj.mp
          change c.toNat = '0'.toNat
          omega
        · rintro rfl
          rfl
      rw [digitsValue_cons, Nat.add_eq_zero_iff, mul_eq_zero, hchar, ih h.2]
      simp

/-- Reading the digits in front of a text that does not go on with one. -/
theorem takeWhile_digits
    {ds rest : List Char} (hds : AllDigits ds)
    (hrest : ∀ c ∈ rest.head?, c.isDigit = false) :
    (ds ++ rest).takeWhile Char.isDigit = ds ∧
      (ds ++ rest).dropWhile Char.isDigit = rest := by
  rw [List.takeWhile_append_of_pos hds, List.dropWhile_append_of_pos hds]
  rcases rest with _ | ⟨c, rest⟩
  · simp
  · have hc : c.isDigit = false := hrest c (by simp)
    simp [hc]

/-! ## A text has one reading -/

theorem Exponent.of?_self (e : Exponent) :
    Exponent.of? e.upper e.sign e.digits = some e := by
  simp [Exponent.of?, e.digits_ne_nil, e.allDigits]

theorem Exponent.readAfter_bare
    {upper : Bool} {digits : List Char} (h : AllDigits digits) :
    Exponent.readAfter upper digits = Exponent.of? upper .bare digits := by
  unfold Exponent.readAfter
  split
  · simp [Char.isDigit] at h
  · simp [Char.isDigit] at h
  · rfl

theorem Exponent.read_chars (e : Exponent) :
    Exponent.read e.chars = some (some e) := by
  have hself := e.of?_self
  have hafter : ∀ upper, Exponent.readAfter upper e.chars.tail =
      Exponent.of? upper e.sign e.digits := by
    intro upper
    cases hsign : e.sign with
    | bare =>
        simpa [Exponent.chars, hsign] using
          Exponent.readAfter_bare e.allDigits
    | plus => simp [Exponent.chars, hsign, Exponent.readAfter]
    | minus => simp [Exponent.chars, hsign, Exponent.readAfter]
  cases hupper : e.upper with
  | false =>
      have htail := hafter false
      rw [← hupper, hself, hupper] at htail
      simp only [Exponent.chars, List.tail_cons] at htail
      simp [Exponent.chars, Exponent.read, hupper, htail]
  | true =>
      have htail := hafter true
      rw [← hupper, hself, hupper] at htail
      simp only [Exponent.chars, List.tail_cons] at htail
      simp [Exponent.chars, Exponent.read, hupper, htail]

theorem Unsigned.exponent_head
    {exponent : Option Exponent} {c : Char}
    (h : c ∈ (exponentChars exponent).head?) : c = 'e' ∨ c = 'E' := by
  cases exponent with
  | none => simp [exponentChars] at h
  | some e =>
      simp only [exponentChars, Option.elim_some, Exponent.chars,
        List.head?_cons, Option.mem_some] at h
      split_ifs at h
      · exact Or.inr h.symm
      · exact Or.inl h.symm

theorem Unsigned.read_exponentChars (exponent : Option Exponent) :
    Exponent.read (exponentChars exponent) = some exponent := by
  cases exponent with
  | none => rfl
  | some e => exact e.read_chars

/-- The first character of a numeral is a digit or the point. -/
theorem Unsigned.head_chars
    (u : Unsigned) {c : Char} (h : c ∈ u.chars.head?) :
    c.isDigit = true ∨ c = '.' := by
  have hdigits := u.allDigits
  have hne := u.digits_ne_nil
  cases hwhole : u.whole with
  | cons d ds =>
      rw [hwhole] at hdigits
      simp only [chars, hwhole, List.cons_append, List.head?_cons,
        Option.mem_some] at h
      left
      rw [← h]
      exact hdigits d (by simp)
  | nil =>
      right
      cases hfraction : u.fraction with
      | none => simp [hwhole, hfraction] at hne
      | some ds =>
          simp only [chars, hwhole, hfraction, fractionChars,
            Option.elim_some, List.nil_append, List.cons_append,
            List.head?_cons, Option.mem_some] at h
          exact h.symm

theorem Unsigned.read_whole
    {cs whole rest : List Char} {exponent : Option Exponent}
    (hparts : cs.takeWhile Char.isDigit = whole ∧
      cs.dropWhile Char.isDigit = rest)
    (hrest : rest.head? ≠ some '.')
    (hexponent : Exponent.read rest = some exponent) :
    read cs = of? whole none exponent := by
  unfold read
  rw [hparts.1, hparts.2, if_neg hrest, hexponent]
  exact Option.bind_some _ _

theorem Unsigned.read_point
    {cs whole ds rest : List Char} {exponent : Option Exponent}
    (hparts : cs.takeWhile Char.isDigit = whole ∧
      cs.dropWhile Char.isDigit = '.' :: (ds ++ rest))
    (hrest : (ds ++ rest).takeWhile Char.isDigit = ds ∧
      (ds ++ rest).dropWhile Char.isDigit = rest)
    (hexponent : Exponent.read rest = some exponent) :
    read cs = of? whole (some ds) exponent := by
  unfold read
  rw [hparts.1, hparts.2, if_pos List.head?_cons, List.tail_cons, hrest.1,
    hrest.2, hexponent]
  exact Option.bind_some _ _

theorem Unsigned.of?_self (u : Unsigned) :
    of? u.whole u.fraction u.exponent = some u := by
  simp [of?, u.allDigits, u.digits_ne_nil]

theorem Unsigned.read_chars (u : Unsigned) :
    Unsigned.read u.chars = some u := by
  have hdigits := allDigits_append.mp u.allDigits
  have hexponent : ∀ c ∈ (exponentChars u.exponent).head?,
      c.isDigit = false := by
    intro c hc
    rcases exponent_head hc with rfl | rfl
    · decide
    · decide
  have hread := read_exponentChars u.exponent
  rw [← u.of?_self]
  cases hfraction : u.fraction with
  | none =>
      have hchars : u.chars = u.whole ++ exponentChars u.exponent := by
        simp [chars, hfraction, fractionChars]
      rw [hchars]
      apply read_whole (takeWhile_digits hdigits.1 hexponent) _ hread
      intro hdot
      have hmark : ¬ ('.' = 'e' ∨ '.' = 'E') := by decide
      exact hmark (exponent_head hdot)
  | some ds =>
      have hchars : u.chars =
          u.whole ++ '.' :: (ds ++ exponentChars u.exponent) := by
        simp [chars, hfraction, fractionChars]
      have hpoint : ∀ c ∈ ('.' :: (ds ++ exponentChars u.exponent)).head?,
          c.isDigit = false := by
        intro c hc
        obtain rfl := Option.some.inj hc
        decide
      rw [hfraction] at hdigits
      rw [hchars]
      exact read_point (takeWhile_digits hdigits.1 hpoint)
        (takeWhile_digits hdigits.2 hexponent) hread

/-- A numeral without a sign does not start with one. -/
theorem Unsigned.read_minus (cs : List Char) :
    Unsigned.read ('-' :: cs) = none := by
  have hdigit : ¬ '-'.isDigit = true := by decide
  have hpoint : ('-' :: cs).head? ≠ some '.' := by
    rw [List.head?_cons, ne_eq, Option.some.injEq]
    decide
  have hmark : ¬ ('-' = 'e' ∨ '-' = 'E') := by decide
  have hexponent : Exponent.read ('-' :: cs) = none := by
    rw [Exponent.read, if_neg hmark]
  unfold read
  rw [List.dropWhile_cons_of_neg hdigit, if_neg hpoint, hexponent]
  exact Option.bind_none _

/-- The characters of a numeral. -/
theorem Unsigned.of_mem_chars
    {u : Unsigned} {c : Char} (h : c ∈ u.chars) :
    c.isDigit = true ∨ c ∈ ['.', 'e', 'E', '+', '-'] := by
  obtain ⟨hwhole, hfraction⟩ := allDigits_append.mp u.allDigits
  rw [chars, List.mem_append, List.mem_append] at h
  rcases h with hc | hc | hc
  · exact Or.inl (hwhole c hc)
  · cases hu : u.fraction with
    | none => simp [hu, fractionChars] at hc
    | some ds =>
        rw [hu] at hc hfraction
        rcases List.mem_cons.mp hc with rfl | hc
        · simp
        · exact Or.inl (hfraction c hc)
  · cases hu : u.exponent with
    | none => simp [hu, exponentChars] at hc
    | some e =>
        rw [hu] at hc
        rcases List.mem_cons.mp hc with hmark | hc
        · right
          rw [hmark]
          split
          · simp
          · simp
        · have hdigits := e.allDigits
          cases hsign : e.sign with
          | bare =>
              rw [hsign] at hc
              exact Or.inl (hdigits c hc)
          | plus =>
              rw [hsign] at hc
              rcases List.mem_cons.mp hc with rfl | hc
              · simp
              · exact Or.inl (hdigits c hc)
          | minus =>
              rw [hsign] at hc
              rcases List.mem_cons.mp hc with rfl | hc
              · simp
              · exact Or.inl (hdigits c hc)

/-- A numeral is read back from its text. -/
theorem Numeral.read_chars (n : Numeral) :
    Numeral.read n.chars = some n := by
  obtain ⟨negative, u⟩ := n
  have hread := u.read_chars
  cases negative with
  | true => simp [chars, read, hread]
  | false =>
      have hhead : u.chars.head? ≠ some '-' := by
        intro hhead
        have hminus : ¬ ('-'.isDigit = true ∨ '-' = '.') := by decide
        exact hminus (u.head_chars hhead)
      simp [chars, read, hhead, hread]
