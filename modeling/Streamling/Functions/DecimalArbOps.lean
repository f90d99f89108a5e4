import Mathlib
import Streamling.Support.DecimalArith
import Streamling.Types.DecimalArbArray

/-!
# Arithmetic functions on decimal columns

The binary functions decode both operands at the scales of their columns,
compute with them, and append the result to a column of a precision and scale
that follow from those of the operands.  A column of one row stands for a
scalar and is read for every row of the other.
-/

namespace Streamling

/-! ## Types of the results -/

def defaultDivScale : ℕ := 18

def capPrecision (p : ℕ) : ℕ :=
  min p maxPrecision

inductive BinaryOpKind where
  | add
  | sub
  | mul
  | div
  | mod
  deriving DecidableEq, Repr

def outputPrecisionScale (kind : BinaryOpKind) (p1 s1 p2 s2 : ℕ) : ℕ × ℕ :=
  match kind with
  | .add | .sub =>
      let sOut := max s1 s2
      let int1 := p1 - s1
      let int2 := p2 - s2
      (capPrecision (max int1 int2 + sOut + 1), sOut)
  | .mul =>
      let pOut := capPrecision (p1 + p2 + 1)
      (pOut, min (s1 + s2) pOut)
  | .div =>
      let sOut := max s1 defaultDivScale
      let int1 := p1 - s1
      (capPrecision (int1 + s2 + sOut), sOut)
  | .mod =>
      let sOut := max s1 s2
      let int1 := p1 - s1
      let int2 := p2 - s2
      (capPrecision (min int1 int2 + sOut), sOut)

/-! ## Invocation -/

/-- The errors of the binary functions.  Reading a row that a column does not
have is a panic of the source. -/
inductive DecimalOpError where
  | value (error : DecimalArbError)
  | divisionByZero
  | moduloByZero
  | productNotRepresentable (neededScale scale : ℕ)
  | rowOutOfBounds
  deriving DecidableEq, Repr

def broadcastLen (left right : ℕ) : ℕ :=
  if left = 1 then right
  else if right = 1 then left
  else max left right

/-- Row `i` of a column, the first one of a scalar. -/
def broadcastRow (cells : List (Option (List UInt8))) (i : ℕ) :
    Option (Option (List UInt8)) :=
  cells[if cells.length = 1 then 0 else i]?

def decodeRow (cells : List (Option (List UInt8))) (i scale : ℕ) :
    Except DecimalOpError (Option DecimalArbValue) :=
  match broadcastRow cells i with
  | none => .error .rowOutOfBounds
  | some cell => (decodeValue cell scale).mapError .value

/-- One row of a binary function. -/
def binaryRow (kind : BinaryOpKind)
    (opFn : BigDecimal → BigDecimal → ℕ → Except DecimalOpError BigDecimal)
    (s1 s2 sOut : ℕ) (left right : List (Option (List UInt8))) (i : ℕ) :
    Except DecimalOpError (Option DecimalArbValue) := do
  let productScaleCapped := kind = .mul ∧ sOut < s1 + s2
  let lhs ← decodeRow left i s1
  let rhs ← decodeRow right i s2
  match lhs, rhs with
  | some a, some b =>
      let result ← opFn a.bd b.bd sOut
      let rounded := result.withScaleRound sOut
      if productScaleCapped ∧ rounded.value ≠ result.value then
        throw (.productNotRepresentable (s1 + s2) sOut)
      return some (DecimalArbValue.fromBigdecimal rounded)
  | _, _ => return none

def invokeBinary (kind : BinaryOpKind)
    (opFn : BigDecimal → BigDecimal → ℕ → Except DecimalOpError BigDecimal)
    (column : String) (p1 s1 p2 s2 : ℕ)
    (left right : List (Option (List UInt8))) :
    Except DecimalOpError DecimalArbArray :=
  let (pOut, sOut) := outputPrecisionScale kind p1 s1 p2 s2
  let len := broadcastLen left.length right.length
  buildRows .value column pOut sOut
    (binaryRow kind opFn s1 s2 sOut left right) (List.range len)

/-! ## The functions -/

/-- What a function computes of two decimals and the scale of the result. -/
def binaryOp : BinaryOpKind →
    BigDecimal → BigDecimal → ℕ → Except DecimalOpError BigDecimal
  | .add => fun a b _ => .ok (a.add b)
  | .sub => fun a b _ => .ok (a.sub b)
  | .mul => fun a b _ => .ok (a.mul b)
  | .div => fun a b sOut =>
      if b.digits = 0 then .error .divisionByZero
      else .ok (a.exactDivAtScale b sOut)
  | .mod => fun a b _ =>
      if b.digits = 0 then .error .moduloByZero
      else .ok (a.rem b)

def decimalArbAdd := invokeBinary .add (binaryOp .add)

def decimalArbSub := invokeBinary .sub (binaryOp .sub)

def decimalArbMul := invokeBinary .mul (binaryOp .mul)

def decimalArbDiv := invokeBinary .div (binaryOp .div)

def decimalArbMod := invokeBinary .mod (binaryOp .mod)

end Streamling
