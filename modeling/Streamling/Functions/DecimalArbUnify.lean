import Mathlib
import Streamling.Functions.DecimalArbStrings
import Streamling.Types.DecimalArbCasts

/-!
# Members at one scale

Equality, `IN`, `CASE` and `COALESCE` compare canonical bytes, which are
comparable at one scale only.  The rewriter coerces every operand to a decimal
column and re-encodes those that are not at the widest scale.

An operand stands for an expression that the rewriter takes as it is: its type
and what it evaluates to on the rows of a batch.
-/

namespace Streamling

open DecimalArbValue

/-! ## The common type -/

/-- The errors at planning, with what their texts mention. -/
inductive UnifyError where
  | needsPrecision (members : List (ℕ × ℕ))
      (needed integerDigits scale maximum : ℕ)
  | literalNotADecimal (text : String)
  | stringExpression (expression : String)
  deriving DecidableEq, Repr

def widestScale (metas : List (ℕ × ℕ)) : ℕ :=
  (metas.map fun (_, s) => s).max?.getD 0

def widestInteger (metas : List (ℕ × ℕ)) : ℕ :=
  (metas.map fun (p, s) => p - s).max?.getD 0

def commonPrecisionScale (metas : List (ℕ × ℕ)) :
    Except UnifyError (ℕ × ℕ) :=
  let sOut := widestScale metas
  let intMax := widestInteger metas
  let precision := intMax + sOut
  if precision ≤ maxPrecision then .ok (max precision 1, sOut)
  else .error (.needsPrecision metas precision intMax sOut maxPrecision)

/-- Every value is decoded at the source scale and appended at the other. -/
def rescaleValues (input : List (Option (List UInt8))) (sourceScale : ℕ)
    (column : String) (precision scale : ℕ) :
    Except DecimalArbError DecimalArbArray :=
  buildRows id column precision scale (fun cell => decodeValue cell sourceScale)
    input

/-! ## Operands -/

/-- The integers are of at most 64 bits; `nullText` is a null under casts to
text, `null` a null literal or an expression of type null. -/
inductive Operand where
  | decimalArb (precision scale : ℕ) (cells : List (Option (List UInt8)))
  | decimal128 (precision : ℕ) (scale : ℤ) (words : List (Option I128))
  | decimal256 (precision : ℕ) (scale : ℤ) (words : List (Option ArrowI256))
  | int (values : List (Option ℤ))
  | textLiteral (text : String)
  | nullText
  | textExpression (expression : String)
  | null
  | other
  deriving DecidableEq, Repr

/-- An operand, under the calls that the rewriter puts around it. -/
inductive DecimalExpr where
  | operand (o : Operand)
  | fromDecimal128 (o : Operand)
  | fromDecimal256 (o : Operand)
  | fromInt (o : Operand) (precision scale : ℕ)
  | fromString (o : Operand) (precision scale : ℕ)
  | rescale (e : DecimalExpr) (precision scale : ℕ)
  deriving DecidableEq, Repr

namespace DecimalExpr

/-- The output field of a call exists if its precision and scale are valid. -/
def outputField (precision scale : ℕ) : Option (ℕ × ℕ) :=
  if validatePrecisionScale precision scale = .ok () then
    some (precision, scale)
  else none

/-- The precision and scale of an expression that resolves to a decimal
column. -/
def precisionScale : DecimalExpr → Option (ℕ × ℕ)
  | operand (.decimalArb p s _) => some (p, s)
  | operand _ => none
  | fromDecimal128 (.decimal128 p s _) =>
      if s < 0 then none else outputField p s.toNat
  | fromDecimal128 _ => none
  | fromDecimal256 (.decimal256 p s _) =>
      if s < 0 then none else outputField p s.toNat
  | fromDecimal256 _ => none
  | fromInt _ p s => outputField p s
  | fromString _ p s => outputField p s
  | rescale _ p s => outputField p s

end DecimalExpr

inductive DecimalExprError where
  | value (error : DecimalArbError)
  | text (error : StringCastError)
  | negativeScale (scale : ℤ)
  | notADecimal
  deriving DecidableEq, Repr

variable (parse : String → Option BigDecimal)

/-- The cells of an expression on a batch of `rows` rows. -/
def DecimalExpr.eval (rows : ℕ) :
    DecimalExpr → Except DecimalExprError (List (Option (List UInt8)))
  | operand (.decimalArb _ _ cells) => .ok cells
  | operand .null => .ok (List.replicate rows none)
  | operand _ => .error .notADecimal
  | fromDecimal128 (.decimal128 p s words) =>
      if s < 0 then .error (.negativeScale s)
      else ((DecimalArbArray.fromDecimal128 words s p s.toNat
        "to_decimal_arb_from_decimal128").mapError .value).map (·.inner)
  | fromDecimal128 _ => .error .notADecimal
  | fromDecimal256 (.decimal256 p s words) =>
      if s < 0 then .error (.negativeScale s)
      else ((DecimalArbArray.fromDecimal256 words s p s.toNat
        "to_decimal_arb_from_decimal256").mapError .value).map (·.inner)
  | fromDecimal256 _ => .error .notADecimal
  | fromInt (.int values) p s =>
      ((buildRows id "to_decimal_arb_from_int" p s
        (fun cell : Option ℤ => .ok (cell.map (fromBigintAndScale · 0)))
        values).mapError .value).map (·.inner)
  | fromInt _ _ _ => .error .notADecimal
  | fromString (.textLiteral text) p s =>
      ((toDecimalArbFromString parse "to_decimal_arb_from_string" p s
        (List.replicate rows (some text))).mapError .text).map (·.inner)
  | fromString _ _ _ => .error .notADecimal
  | rescale e p s => do
      let cells ← e.eval rows
      match e.precisionScale with
      | none => .error .notADecimal
      | some (_, sourceScale) =>
          ((rescaleValues cells sourceScale "decimal_arb_rescale" p
            s).mapError .value).map (·.inner)

/-! ## Coercion -/

def intCoercePrecision : ℕ := 20

/-- The smallest precision and scale that hold a value, as 32-bit words. -/
def exactPrecisionScale (value : DecimalArbValue) : ℕ × ℕ :=
  let scale := value.fractionalDigitCount % 2 ^ 32
  let intDigits := value.integerDigitCount % 2 ^ 32
  (max ((intDigits + scale) % 2 ^ 32) 1, scale)

/-- The operand as a decimal expression; `none` leaves the node to the
engine. -/
def coerce (o : Operand) : Except UnifyError (Option DecimalExpr) :=
  match o with
  | .decimalArb _ _ _ => .ok (some (.operand o))
  | .decimal128 _ _ _ => .ok (some (.fromDecimal128 o))
  | .decimal256 _ _ _ => .ok (some (.fromDecimal256 o))
  | .int _ => .ok (some (.fromInt o intCoercePrecision 0))
  | .nullText => .ok none
  | .textLiteral text =>
      match parse text with
      | none => .error (.literalNotADecimal text)
      | some bd =>
          let (p, s) := exactPrecisionScale (fromBigdecimal bd)
          .ok (some (.fromString o p s))
  | .textExpression expression => .error (.stringExpression expression)
  | .null | .other => .ok none

inductive Branch where
  | null (o : Operand)
  | arb (e : DecimalExpr) (precision scale : ℕ)
  deriving DecidableEq, Repr

def branchOf (o : Operand) : Except UnifyError (Option Branch) :=
  match o with
  | .null => .ok (some (.null o))
  | _ => do
      match ← coerce parse o with
      | none => return none
      | some coerced =>
          match coerced.precisionScale with
          | none => return none
          | some (p, s) => return some (.arb coerced p s)

/-- The first operand that does not coerce ends the loop. -/
def branches : List Operand → Except UnifyError (Option (List Branch))
  | [] => .ok (some [])
  | o :: os => do
      match ← branchOf parse o with
      | none => return none
      | some item =>
          match ← branches os with
          | none => return none
          | some items => return some (item :: items)

def Operand.isDecimalArb : Operand → Bool
  | .decimalArb _ _ _ => true
  | _ => false

def Branch.meta? : Branch → Option (ℕ × ℕ)
  | .arb _ p s => some (p, s)
  | .null _ => none

/-- A branch that is not at the common scale is re-encoded. -/
def Branch.unified (pOut sOut : ℕ) : Branch → DecimalExpr
  | .null o => .operand o
  | .arb e _ s => if s = sOut then e else .rescale e pOut sOut

def unify (exprs : List Operand) :
    Except UnifyError (Option (List DecimalExpr × ℕ × ℕ)) :=
  if ¬ exprs.any Operand.isDecimalArb then .ok none
  else do
    match ← branches parse exprs with
    | none => return none
    | some items =>
        let metas := items.filterMap Branch.meta?
        if metas.isEmpty then return none
        let (pOut, sOut) ← commonPrecisionScale metas
        return some (items.map (Branch.unified pOut sOut), pOut, sOut)

/-! ## Extremes -/

inductive ExtremeKind where
  | greatest
  | least
  deriving DecidableEq, Repr

def ExtremeKind.keep (kind : ExtremeKind)
    (candidate current : DecimalArbValue) : Bool :=
  match kind with
  | .greatest => current.value < candidate.value
  | .least => candidate.value < current.value

def ExtremeKind.functionName : ExtremeKind → String
  | .greatest => "decimal_arb_greatest"
  | .least => "decimal_arb_least"

/-- Reading a row that a column does not have is a panic of the source. -/
inductive ExtremeError where
  | noArguments (function : String)
  | value (error : DecimalArbError)
  | rowOutOfBounds
  deriving DecidableEq, Repr

def keepExtreme (kind : ExtremeKind) (current : Option DecimalArbValue)
    (candidate : DecimalArbValue) : Option DecimalArbValue :=
  if current.all (kind.keep candidate ·) then some candidate else current

/-- One row over the columns and their scales. -/
def extremeRow (kind : ExtremeKind) (row : ℕ) :
    Option DecimalArbValue → List (List (Option (List UInt8)) × ℕ) →
      Except ExtremeError (Option DecimalArbValue)
  | current, [] => .ok current
  | current, (cells, s) :: columns =>
      match cells[row]? with
      | none => .error .rowOutOfBounds
      | some cell => do
          match ← (decodeValue cell s).mapError .value with
          | none => extremeRow kind row current columns
          | some value =>
              extremeRow kind row (keepExtreme kind current value) columns

/-- The function on a batch; `precision` and `scale` are those of the result
field. -/
def extremeFunc (kind : ExtremeKind) (numberRows precision scale : ℕ)
    (columns : List (List (Option (List UInt8)) × ℕ)) :
    Except ExtremeError DecimalArbArray :=
  if columns.isEmpty then .error (.noArguments kind.functionName)
  else
    buildRows .value kind.functionName precision scale
      (fun row => extremeRow kind row none columns) (List.range numberRows)

end Streamling
