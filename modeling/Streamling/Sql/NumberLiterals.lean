import Mathlib
import Streamling.Support.DecimalCodec

/-!
# Numeric literals in SQL

DataFusion types a numeric literal with a fraction or an exponent, or one
beyond the 64-bit integers, as a `Float64`, which loses digits.  Where such a
literal meets a `decimal_arb` value it is quoted, and a cast of a literal to a
wide decimal parses its text.

A call that the rewrite builds is printed and parsed again by the SQL parser,
which is a parameter, as is the parser of decimals.
-/

namespace Streamling

namespace Sql

/-! ## Expressions -/

inductive Value where
  | number (text : String) (long : Bool)
  | singleQuotedString (text : String)
  | other (text : String)
  deriving DecidableEq, Repr

inductive UnaryOperator where
  | plus
  | minus
  | other (name : String)
  deriving DecidableEq, Repr

inductive CastKind where
  | cast
  | tryCast
  | safeCast
  | doubleColon
  deriving DecidableEq, Repr

inductive ExactNumberInfo where
  | none
  | precision (p : ℕ)
  | precisionAndScale (p : ℕ) (s : ℤ)
  deriving DecidableEq, Repr

/-- The types of a cast; the decimal ones have five spellings. -/
inductive SqlDataType where
  | decimal (info : ExactNumberInfo)
  | numeric (info : ExactNumberInfo)
  | dec (info : ExactNumberInfo)
  | bigNumeric (info : ExactNumberInfo)
  | bigDecimal (info : ExactNumberInfo)
  | varchar
  | other (name : String)
  deriving DecidableEq, Repr

/-- The expressions that the rewrite looks into. -/
inductive SqlExpr where
  | value (v : Value)
  | nested (inner : SqlExpr)
  | unaryOp (op : UnaryOperator) (expr : SqlExpr)
  | cast (kind : CastKind) (expr : SqlExpr) (dataType : SqlDataType)
  | function (name : String) (args : List SqlExpr)
  | other (text : String)
  deriving Repr

/-! ## The text of a literal -/

/-- The digits of a bare numeric literal as written, with its signs. -/
def numberLiteralText : SqlExpr → Option String
  | .nested inner => numberLiteralText inner
  | .value (.number n _) => some n
  | .unaryOp .minus expr => (numberLiteralText expr).map ("-" ++ ·)
  | .unaryOp .plus expr => numberLiteralText expr
  | _ => none

/-- Digits, and at least one of them. -/
def parseDigits (cs : List Char) : Option ℕ :=
  if cs ≠ [] ∧ AllDigits cs then some (digitsValue cs) else none

def stripPlus (cs : List Char) : List Char :=
  if cs.head? = some '+' then cs.tail else cs

/-- `str::parse::<i64>`. -/
def parseI64 (cs : List Char) : Option ℤ :=
  if cs.head? = some '-' then
    (parseDigits cs.tail).bind fun n =>
      if n ≤ 2 ^ 63 then some (-n) else none
  else
    (parseDigits (stripPlus cs)).bind fun n =>
      if n < 2 ^ 63 then some (n : ℤ) else none

/-- `str::parse::<u64>`. -/
def parseU64 (cs : List Char) : Option ℕ :=
  (parseDigits (stripPlus cs)).bind fun n =>
    if n < 2 ^ 64 then some n else none

/-- Whether DataFusion is taken to plan a numeric token as a `Float64`. -/
def isInexactNumber (text : String) : Bool :=
  let cs := text.toList
  if cs.any fun c => c == '.' || c == 'e' || c == 'E' then true
  else if cs.head? = some '-' then (parseI64 cs).isNone
  else (parseI64 cs).isNone && (parseU64 cs).isNone

/-- Replace a literal that would be planned as a `Float64` by a string. -/
def quoteInexactLiteral (expr : SqlExpr) : SqlExpr :=
  match numberLiteralText expr with
  | some text =>
      if isInexactNumber text then .value (.singleQuotedString text) else expr
  | none => expr

/-! ## Casts to wide decimals -/

/-- The precision and scale of a decimal type beyond the native precision. -/
def widePrecisionScale : ExactNumberInfo → Option (ℕ × ℕ)
  | .precision p => if 76 < p then some (p, 0) else none
  | .precisionAndScale p s =>
      if 76 < p ∧ 0 ≤ s then some (p, s.toNat) else none
  | .none => none

def wideDecimalPrecisionScale : SqlDataType → Option (ℕ × ℕ)
  | .decimal info | .numeric info | .dec info | .bigNumeric info
  | .bigDecimal info => widePrecisionScale info
  | .varchar | .other _ => none

/-- The trailing hint of a cast that stands for a `u256`. -/
def nativeIntHintArg (precision scale : ℕ) : List SqlExpr :=
  if precision < 2 ^ 32 ∧ scale < 2 ^ 31 ∧ 77 ≤ precision ∧
      precision ≤ 78 ∧ scale = 0 then
    [.value (.singleQuotedString "u256")]
  else []

def wideDecimalCast : String := "decimal_arb_cast_wide_decimal"

def tryWideDecimalCast : String := "decimal_arb_try_cast_wide_decimal"

section

variable (reparse : SqlExpr → Option SqlExpr)

/-- The function that parses a text, or the one that gives a null for what is
no number. -/
def fromStringFunction (nonThrowing : Bool) : String :=
  if nonThrowing then "try_to_decimal_arb_from_string"
  else "to_decimal_arb_from_string"

/-- The call that parses a text at a precision and scale. -/
def textCast (text : SqlExpr) (precision scale : ℕ) (nonThrowing : Bool) :
    SqlExpr :=
  .function (fromStringFunction nonThrowing)
    (text :: .value (.number (toString precision) false) ::
      .value (.number (toString scale) false) ::
      nativeIntHintArg precision scale)

def parseToDecimalArbFromString (inner : SqlExpr) (precision scale : ℕ)
    (nonThrowing : Bool) : Option SqlExpr :=
  match numberLiteralText inner with
  | some text =>
      reparse (textCast (.value (.singleQuotedString text)) precision scale
        nonThrowing)
  | none =>
      -- Any operand but a literal may be decimal_arb already.
      reparse (.function
        (if nonThrowing then tryWideDecimalCast else wideDecimalCast)
        [inner, textCast (.cast .cast inner .varchar) precision scale
          nonThrowing])

def parseCastVarchar (inner : SqlExpr) : Option SqlExpr :=
  reparse (.cast .cast inner .varchar)

mutual

/-- Rewrite the casts to wide decimals in an expression. -/
def rewriteExpr : SqlExpr → SqlExpr
  | .cast kind inner dataType =>
      let nonThrowing := kind = .tryCast ∨ kind = .safeCast
      let call := (wideDecimalPrecisionScale dataType).bind fun (p, s) =>
        (parseToDecimalArbFromString reparse inner p s nonThrowing).or
          (parseCastVarchar reparse inner)
      call.getD (.cast kind (rewriteExpr inner) dataType)
  | .unaryOp op expr => .unaryOp op (rewriteExpr expr)
  | .nested inner => .nested (rewriteExpr inner)
  | .function name args => .function name (rewriteArgs args)
  | .value v => .value v
  | .other text => .other text

def rewriteArgs : List SqlExpr → List SqlExpr
  | [] => []
  | arg :: args => rewriteExpr arg :: rewriteArgs args

end

end

/-! ## Numbers with parentheses and signs -/

/-- An expression built from a number token. -/
inductive NumberExpr where
  | token (number : Unsigned) (long : Bool)
  | nested (inner : NumberExpr)
  | plus (inner : NumberExpr)
  | minus (inner : NumberExpr)

namespace NumberExpr

def expr : NumberExpr → SqlExpr
  | token number long => .value (.number (String.ofList number.chars) long)
  | nested inner => .nested inner.expr
  | plus inner => .unaryOp .plus inner.expr
  | minus inner => .unaryOp .minus inner.expr

def number : NumberExpr → Unsigned
  | token number _ => number
  | nested inner | plus inner | minus inner => inner.number

/-- How many minus signs stand in front of the token. -/
def minuses : NumberExpr → ℕ
  | token _ _ => 0
  | nested inner | plus inner => inner.minuses
  | minus inner => inner.minuses + 1

/-- The number that the expression denotes. -/
def value : NumberExpr → ℚ
  | token number _ => number.decimal.value
  | nested inner | plus inner => inner.value
  | minus inner => -inner.value

/-- The literal has a fraction or an exponent, or is an integer outside the
range of the 64-bit integers of its sign. -/
def PlannedAsFloat64 (e : NumberExpr) : Prop :=
  e.number.fraction.isSome ∨ e.number.exponent.isSome ∨
    e.value < -2 ^ 63 ∨ 2 ^ 64 ≤ e.value

/-- The decimal parser counts the digits after the point in 64 bits. -/
def ScaleInRange (e : NumberExpr) : Prop :=
  e.number.decimal.ScaleFits

end NumberExpr

/-- Printing a call that parses a text, over natural numbers and texts
without quotes, and parsing it again gives the call. -/
def ParsesCalls (reparse : SqlExpr → Option SqlExpr) : Prop :=
  ∀ nonThrowing args,
    (∀ arg ∈ args, (∃ n : ℕ, arg = .value (.number (toString n) false)) ∨
      ∃ text, '\'' ∉ text.toList ∧
        arg = .value (.singleQuotedString text)) →
    reparse (.function (fromStringFunction nonThrowing) args) =
      some (.function (fromStringFunction nonThrowing) args)

/-- The text is a decimal of the number. -/
def ReadsAs (parse : String → Option BigDecimal) (text : String) (x : ℚ) :
    Prop :=
  ∃ d, parse text = some d ∧ d.value = x

/-- The literal keeps its value in every string that replaces it, and is taken
for a `Float64` exactly if it would be one. -/
structure KeepsValue (parse : String → Option BigDecimal)
    (reparse : SqlExpr → Option SqlExpr) (e : NumberExpr) : Prop where
  quoted : ∀ text,
    quoteInexactLiteral e.expr = .value (.singleQuotedString text) →
    ReadsAs parse text e.value
  cast : ∀ kind dataType name text rest,
    rewriteExpr reparse (.cast kind e.expr dataType) =
      .function name (.value (.singleQuotedString text) :: rest) →
    ReadsAs parse text e.value
  inexact : ∀ text, numberLiteralText e.expr = some text →
    (isInexactNumber text = true ↔ e.PlannedAsFloat64)

/-! ## The text of a signed number -/

namespace NumberExpr

def chars (e : NumberExpr) : List Char :=
  List.replicate e.minuses '-' ++ e.number.chars

theorem numberLiteralText_expr (e : NumberExpr) :
    numberLiteralText e.expr = some (String.ofList e.chars) := by
  induction e with
  | token number long => rfl
  | nested inner ih => exact ih
  | plus inner ih => exact ih
  | minus inner ih =>
      have hminus : "-" = String.ofList ['-'] := rfl
      simp only [expr, numberLiteralText, ih, Option.map_some]
      rw [hminus, ← String.ofList_append]
      rfl

theorem value_eq (e : NumberExpr) :
    e.value = (-1) ^ e.minuses * e.number.decimal.value := by
  induction e with
  | token number long => simp [value, minuses, NumberExpr.number]
  | nested inner ih => exact ih
  | plus inner ih => exact ih
  | minus inner ih =>
      simp only [value, minuses, NumberExpr.number, ih]
      ring

/-- With at most one minus sign the expression is written like a numeral. -/
def numeral (e : NumberExpr) : Numeral :=
  ⟨decide (e.minuses = 1), e.number⟩

theorem chars_numeral {e : NumberExpr} (h : e.minuses ≤ 1) :
    e.numeral.chars = e.chars := by
  obtain hminuses | hminuses : e.minuses = 0 ∨ e.minuses = 1 := by omega
  · simp [numeral, Numeral.chars, chars, hminuses]
  · simp [numeral, Numeral.chars, chars, hminuses]

theorem value_numeral {e : NumberExpr} (h : e.minuses ≤ 1) :
    e.numeral.value = e.value := by
  rw [value_eq]
  obtain hminuses | hminuses : e.minuses = 0 ∨ e.minuses = 1 := by omega
  · simp [numeral, Numeral.value, Numeral.decimal, hminuses]
  · simp [numeral, Numeral.value, Numeral.decimal, hminuses,
      BigDecimal.value]

theorem chars_of_two {e : NumberExpr} (h : 1 < e.minuses) :
    ∃ cs, e.chars = '-' :: '-' :: cs := by
  obtain ⟨k, hk⟩ := Nat.exists_eq_add_of_le h
  rw [chars, hk, Nat.add_comm]
  exact ⟨_, rfl⟩

theorem quote_notMem_chars (e : NumberExpr) : '\'' ∉ e.chars := by
  intro h
  rcases List.mem_append.mp h with hc | hc
  · have heq := List.eq_of_mem_replicate hc
    simp at heq
  · have hno : ¬ ('\''.isDigit = true ∨
        '\'' ∈ ['.', 'e', 'E', '+', '-']) := by decide
    exact hno (Unsigned.of_mem_chars hc)

end NumberExpr

/-! ## Integers of 64 bits -/

theorem parseDigits_of_allDigits
    {cs : List Char} (h : AllDigits cs) (hne : cs ≠ []) :
    parseDigits cs = some (digitsValue cs) :=
  if_pos ⟨hne, h⟩

theorem parseI64_minus
    {cs : List Char} (h : AllDigits cs) (hne : cs ≠ []) :
    parseI64 ('-' :: cs) = none ↔ 2 ^ 63 < digitsValue cs := by
  have hdigits := parseDigits_of_allDigits h hne
  simp only [parseI64, List.head?_cons, if_true, List.tail_cons, hdigits,
    Option.bind_some, ite_eq_right_iff, reduceCtorEq, imp_false, not_le]

theorem head_ne_of_allDigits
    {cs : List Char} (h : AllDigits cs) {c : Char} (hc : c.isDigit = false) :
    cs.head? ≠ some c := by
  intro hhead
  have hdigit := h c (List.mem_of_head? hhead)
  rw [hc] at hdigit
  exact Bool.false_ne_true hdigit

theorem parseI64_digits
    {cs : List Char} (h : AllDigits cs) (hne : cs ≠ []) :
    parseI64 cs = none ↔ 2 ^ 63 ≤ digitsValue cs := by
  have hdigits := parseDigits_of_allDigits h hne
  have hminus := head_ne_of_allDigits h (c := '-') (by decide)
  have hplus := head_ne_of_allDigits h (c := '+') (by decide)
  simp only [parseI64, stripPlus, if_neg hminus, if_neg hplus, hdigits,
    Option.bind_some, ite_eq_right_iff, reduceCtorEq, imp_false, not_lt]

theorem parseU64_digits
    {cs : List Char} (h : AllDigits cs) (hne : cs ≠ []) :
    parseU64 cs = none ↔ 2 ^ 64 ≤ digitsValue cs := by
  have hdigits := parseDigits_of_allDigits h hne
  have hplus := head_ne_of_allDigits h (c := '+') (by decide)
  simp only [parseU64, stripPlus, if_neg hplus, hdigits, Option.bind_some,
    ite_eq_right_iff, reduceCtorEq, imp_false, not_lt]

/-! ## Inexact numbers -/

namespace NumberExpr

theorem isInexactNumber_ofList (cs : List Char) :
    isInexactNumber (String.ofList cs) =
      if cs.any fun c => c == '.' || c == 'e' || c == 'E' then true
      else if cs.head? = some '-' then (parseI64 cs).isNone
      else (parseI64 cs).isNone && (parseU64 cs).isNone := by
  rw [isInexactNumber, String.toList_ofList]

/-- A fraction or an exponent shows in the text. -/
theorem isInexactNumber_of_point
    {e : NumberExpr}
    (h : e.number.fraction.isSome ∨ e.number.exponent.isSome) :
    isInexactNumber (String.ofList e.chars) = true := by
  rw [isInexactNumber_ofList]
  apply if_pos
  rw [List.any_eq_true]
  rcases h with h | h
  · obtain ⟨ds, hds⟩ := Option.isSome_iff_exists.mp h
    refine ⟨'.', ?_, by decide⟩
    simp [chars, Unsigned.chars, hds, Unsigned.fractionChars]
  · obtain ⟨x, hx⟩ := Option.isSome_iff_exists.mp h
    refine ⟨if x.upper then 'E' else 'e', ?_, ?_⟩
    · simp [chars, Unsigned.chars, hx, Unsigned.exponentChars,
        Exponent.chars]
    · split
      · decide
      · decide

/-- The text of an integer with at most one minus sign. -/
theorem isInexactNumber_of_integer
    {e : NumberExpr} (hminuses : e.minuses ≤ 1)
    (hfraction : e.number.fraction = none)
    (hexponent : e.number.exponent = none) :
    isInexactNumber (String.ofList e.chars) = true ↔
      e.value < -2 ^ 63 ∨ 2 ^ 64 ≤ e.value := by
  have hdigits := e.number.allDigits
  have hne := e.number.digits_ne_nil
  have hdecimal : e.number.decimal.value = digitsValue e.number.whole := by
    simp [BigDecimal.value, Unsigned.decimal, hfraction, hexponent]
  have hchars : e.number.chars = e.number.whole := by
    simp [Unsigned.chars, hfraction, hexponent, Unsigned.fractionChars,
      Unsigned.exponentChars]
  simp only [hfraction, Option.getD_none, List.append_nil] at hdigits hne
  have hplain : ¬ (e.chars.any fun c =>
      c == '.' || c == 'e' || c == 'E') = true := by
    rw [List.any_eq_true]
    rintro ⟨c, hc, hmark⟩
    rw [chars, hchars] at hc
    rcases List.mem_append.mp hc with hc | hc
    · obtain rfl := List.eq_of_mem_replicate hc
      revert hmark
      decide
    · have hdigit := hdigits c hc
      have hcases : c = '.' ∨ c = 'e' ∨ c = 'E' := by
        simpa [or_assoc] using hmark
      rcases hcases with rfl | rfl | rfl
      · revert hdigit
        decide
      · revert hdigit
        decide
      · revert hdigit
        decide
  rw [isInexactNumber_ofList, if_neg hplain, value_eq, hdecimal]
  obtain hzero | hone : e.minuses = 0 ∨ e.minuses = 1 := by omega
  · have hminus := head_ne_of_allDigits hdigits (c := '-') (by decide)
    have htext : e.chars = e.number.whole := by
      simp [chars, hzero, hchars]
    rw [htext, if_neg hminus, Bool.and_eq_true, Option.isNone_iff_eq_none,
      Option.isNone_iff_eq_none, parseI64_digits hdigits hne,
      parseU64_digits hdigits hne, hzero, pow_zero, one_mul]
    generalize digitsValue e.number.whole = n
    constructor
    · rintro ⟨-, h⟩
      right
      exact_mod_cast h
    · rintro (h | h)
      · have hn : (0 : ℚ) ≤ n := by positivity
        linarith
      · have hn : 2 ^ 64 ≤ n := by exact_mod_cast h
        exact ⟨by omega, hn⟩
  · have htext : e.chars = '-' :: e.number.whole := by
      simp [chars, hone, hchars]
    rw [htext, List.head?_cons, if_pos rfl, Option.isNone_iff_eq_none,
      parseI64_minus hdigits hne, hone, pow_one]
    generalize digitsValue e.number.whole = n
    constructor
    · intro h
      left
      have hn : (2 : ℚ) ^ 63 < n := by exact_mod_cast h
      linarith
    · rintro (h | h)
      · have hn : (2 : ℚ) ^ 63 < n := by linarith
        exact_mod_cast hn
      · have hn : (0 : ℚ) ≤ n := by positivity
        linarith

theorem isInexactNumber_iff
    {e : NumberExpr} (hminuses : e.minuses ≤ 1) :
    isInexactNumber (String.ofList e.chars) = true ↔ e.PlannedAsFloat64 := by
  by_cases hpoint : e.number.fraction.isSome ∨ e.number.exponent.isSome
  · have hplanned : e.PlannedAsFloat64 := by
      rcases hpoint with h | h
      · exact Or.inl h
      · exact Or.inr (Or.inl h)
    simp [isInexactNumber_of_point hpoint, hplanned]
  · rw [not_or, Option.not_isSome_iff_eq_none,
      Option.not_isSome_iff_eq_none] at hpoint
    rw [isInexactNumber_of_integer hminuses hpoint.1 hpoint.2]
    simp [PlannedAsFloat64, hpoint.1, hpoint.2]

end NumberExpr

/-! ## The strings that replace a literal -/

section

open NumberExpr

variable {parse : String → Option BigDecimal}
  {reparse : SqlExpr → Option SqlExpr}

/-- A cast of a literal to a wide decimal parses the text of the literal. -/
theorem rewriteExpr_cast
    (hreparse : ParsesCalls reparse) (e : NumberExpr) (kind : CastKind)
    {dataType : SqlDataType} {p s : ℕ}
    (hwide : wideDecimalPrecisionScale dataType = some (p, s)) :
    rewriteExpr reparse (.cast kind e.expr dataType) =
      textCast (.value (.singleQuotedString (String.ofList e.chars))) p s
        (kind = .tryCast ∨ kind = .safeCast) := by
  have hquote := e.quote_notMem_chars
  have hcall : ∀ nonThrowing, reparse (textCast
      (.value (.singleQuotedString (String.ofList e.chars))) p s
        nonThrowing) =
      some (textCast
        (.value (.singleQuotedString (String.ofList e.chars))) p s
        nonThrowing) := by
    intro nonThrowing
    apply hreparse
    intro arg harg
    rcases List.mem_cons.mp harg with rfl | harg
    · exact Or.inr ⟨_, by simpa using hquote, rfl⟩
    rcases List.mem_cons.mp harg with rfl | harg
    · exact Or.inl ⟨_, rfl⟩
    rcases List.mem_cons.mp harg with rfl | harg
    · exact Or.inl ⟨_, rfl⟩
    · unfold nativeIntHintArg at harg
      split at harg
      · obtain rfl := List.mem_singleton.mp harg
        exact Or.inr ⟨_, by decide, rfl⟩
      · simp at harg
  simp only [rewriteExpr, hwide, Option.bind_some,
    parseToDecimalArbFromString, e.numberLiteralText_expr, hcall,
    Option.some_or, Option.getD_some]

theorem rewriteExpr_cast_of_narrow
    (e : NumberExpr) (kind : CastKind) {dataType : SqlDataType}
    (hwide : wideDecimalPrecisionScale dataType = none) :
    rewriteExpr reparse (.cast kind e.expr dataType) =
      .cast kind (rewriteExpr reparse e.expr) dataType := by
  simp only [rewriteExpr, hwide, Option.bind_none, Option.getD_none]

theorem text_of_quoteInexactLiteral
    {e : NumberExpr} {text : String}
    (h : quoteInexactLiteral e.expr = .value (.singleQuotedString text)) :
    text = String.ofList e.chars := by
  have hexpr : e.expr ≠ .value (.singleQuotedString text) := by
    cases e with
    | token number long => simp [NumberExpr.expr]
    | nested inner => simp [NumberExpr.expr]
    | plus inner => simp [NumberExpr.expr]
    | minus inner => simp [NumberExpr.expr]
  rw [quoteInexactLiteral, e.numberLiteralText_expr] at h
  simp only at h
  split at h
  · simpa using h.symm
  · exact absurd h hexpr

theorem text_of_rewriteExpr
    (hreparse : ParsesCalls reparse) {e : NumberExpr} {kind : CastKind}
    {dataType : SqlDataType} {name text : String} {rest : List SqlExpr}
    (h : rewriteExpr reparse (.cast kind e.expr dataType) =
      .function name (.value (.singleQuotedString text) :: rest)) :
    text = String.ofList e.chars := by
  cases hwide : wideDecimalPrecisionScale dataType with
  | none =>
      rw [rewriteExpr_cast_of_narrow e kind hwide] at h
      simp at h
  | some ps =>
      rw [rewriteExpr_cast hreparse e kind hwide, textCast] at h
      simp only [SqlExpr.function.injEq, List.cons.injEq,
        SqlExpr.value.injEq, Value.singleQuotedString.injEq] at h
      exact h.2.1.symm

/-- The text of a literal is read at its value exactly if it has at most one
minus sign and a scale that the parser can hold. -/
theorem readsAs_iff
    (hparse : DecimalParser parse) (e : NumberExpr) :
    ReadsAs parse (String.ofList e.chars) e.value ↔
      e.minuses ≤ 1 ∧ e.ScaleInRange := by
  by_cases hminuses : e.minuses ≤ 1
  · rw [← chars_numeral hminuses, ← value_numeral hminuses]
    by_cases hscale : e.ScaleInRange
    · have hreads := hparse.reads e.numeral hscale
      exact ⟨fun _ => ⟨hminuses, hscale⟩, fun _ => hreads⟩
    · have hnone := hparse.overflows e.numeral hscale
      simp [ReadsAs, hnone, hscale]
  · obtain ⟨cs, hcs⟩ := chars_of_two (not_le.mp hminuses)
    have hnone := hparse.second_sign cs
    rw [← hcs] at hnone
    simp [ReadsAs, hnone, hminuses]

/-- Parentheses and signs around a number token: the strings that replace the
expression keep its value, and it is taken for a `Float64` exactly if it would
be planned as one, if and only if the expression has at most one minus sign
and the parser can hold the scale of the token. -/
theorem literals_keep_value_iff
    (hparse : DecimalParser parse) (hreparse : ParsesCalls reparse)
    (e : NumberExpr) :
    KeepsValue parse reparse e ↔ e.minuses ≤ 1 ∧ e.ScaleInRange := by
  rw [← readsAs_iff hparse e]
  constructor
  · intro h
    have hwide : wideDecimalPrecisionScale (.decimal (.precision 77)) =
        some (77, 0) := rfl
    exact h.cast .cast _ _ _ _ (rewriteExpr_cast hreparse e .cast hwide)
  · intro hreads
    constructor
    · intro text h
      rw [text_of_quoteInexactLiteral h]
      exact hreads
    · intro kind dataType name text rest h
      rw [text_of_rewriteExpr hreparse h]
      exact hreads
    · intro text h
      rw [e.numberLiteralText_expr] at h
      rw [← Option.some.inj h]
      exact isInexactNumber_iff ((readsAs_iff hparse e).mp hreads).1

end

def five : Unsigned :=
  ⟨['5'], none, none, allDigits_cons.mpr ⟨by decide, allDigits_nil⟩,
    by decide⟩

/-- The literal `(-5)` keeps its value. -/
theorem literals_keep_value_minus_five :
    KeepsValue readDecimal some (.nested (.minus (.token five false))) :=
  (literals_keep_value_iff readDecimal_decimalParser
    (fun _ _ _ => rfl) _).mpr ⟨by decide, by decide, by decide⟩

/-- The literal `-(-5)`, which is the integer 5, is cast by the text `--5`. -/
theorem doubled_minus_is_no_decimal :
    ¬ ∀ (parse : String → Option BigDecimal)
      (reparse : SqlExpr → Option SqlExpr), DecimalParser parse →
      ParsesCalls reparse → ∀ e, KeepsValue parse reparse e := by
  intro h
  have hkeeps := h readDecimal some readDecimal_decimalParser
    (fun _ _ _ => rfl) (.minus (.nested (.minus (.token five false))))
  obtain ⟨d, hd, -⟩ := hkeeps.cast .cast (.decimal (.precision 77)) _ "--5"
    _ rfl
  have hnone : readDecimal "--5" = none :=
    readDecimal_decimalParser.second_sign ['5']
  rw [hnone] at hd
  simp at hd

end Sql

end Streamling
