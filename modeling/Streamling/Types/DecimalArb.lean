import Mathlib
import Streamling.Support.BigDecimal
import Streamling.Support.BigEndian

/-!
# Arbitrary-precision decimals

The values of the extension type `streamling.decimal_arb`: a decimal whose
zero has one form, the declared precision and scale it has to fit, and the
canonical bytes a column stores.  The bytes are a sign byte and the big-endian
magnitude of the digits at the column's scale; the scale itself is not in
them.
-/

namespace Streamling

/-! ## Bytes of integers -/

inductive Sign where
  | minus
  | noSign
  | plus
  deriving DecidableEq, Repr

/-- Sign and big-endian magnitude.  Zero has one zero byte. -/
def bigIntToBytesBe (i : ℤ) : Sign × List UInt8 :=
  if i = 0 then (.noSign, [0])
  else
    (if i < 0 then .minus else .plus, BigEndian.toBytes i.natAbs)

def bigIntFromBytesBe (sign : Sign) (magnitude : List UInt8) : ℤ :=
  match sign with
  | .minus => -(BigEndian.ofBytes magnitude : ℤ)
  | .noSign => 0
  | .plus => BigEndian.ofBytes magnitude

/-! ## Values -/

/-- The errors of the type, with what their texts mention. -/
inductive DecimalArbError where
  | precisionZero
  | precisionTooLarge (precision : ℕ)
  | scaleExceedsPrecision (scale precision : ℕ)
  | integerDigits (value : BigDecimal) (digits maximum : ℕ)
      (column : String) (precision scale : ℕ)
  | fractionalDigits (value : BigDecimal) (digits scale : ℕ)
      (column : String)
  | emptyBytes
  | negativeZero
  | invalidSignByte (byte : UInt8)
  deriving DecidableEq, Repr

/-- A decimal; zero has one form. -/
structure DecimalArbValue where
  bd : BigDecimal
  zero_scale : bd.digits = 0 → bd.scale = 0

namespace DecimalArbValue

def canonicalize (bd : BigDecimal) : DecimalArbValue :=
  if h : bd.digits = 0 then ⟨⟨0, 0⟩, fun _ => rfl⟩
  else ⟨bd, fun hzero => absurd hzero h⟩

def fromBigintAndScale (digits scale : ℤ) : DecimalArbValue :=
  canonicalize ⟨digits, scale⟩

def fromBigdecimal (value : BigDecimal) : DecimalArbValue :=
  canonicalize value

/-- The number of a value, which equality and order compare. -/
def value (v : DecimalArbValue) : ℚ :=
  v.bd.value

/-- The decimal digits of an integer; zero has one. -/
def digitCount (i : ℤ) : ℕ :=
  if i = 0 then 1 else (Nat.digits 10 i.natAbs).length

/-- Digits of the integer part, zero having none. -/
def integerDigitCount (v : DecimalArbValue) : ℕ :=
  let normalized := v.bd.normalized
  if normalized.digits = 0 then 0
  else
    let total := digitCount normalized.digits
    if 0 ≤ normalized.scale then total - normalized.scale.toNat
    else total + (-normalized.scale).toNat

/-- Significant digits after the point. -/
def fractionalDigitCount (v : DecimalArbValue) : ℕ :=
  v.bd.normalized.scale.toNat

end DecimalArbValue

def maxPrecision : ℕ := 65535

def validatePrecisionScale (precision scale : ℕ) :
    Except DecimalArbError Unit :=
  if precision = 0 then .error .precisionZero
  else if maxPrecision < precision then
    .error (.precisionTooLarge precision)
  else if precision < scale then
    .error (.scaleExceedsPrecision scale precision)
  else .ok ()

namespace DecimalArbValue

/-- The value fits a column of the declared precision and scale. -/
def checkFits (v : DecimalArbValue) (precision scale : ℕ) (column : String) :
    Except DecimalArbError Unit := do
  validatePrecisionScale precision scale
  let maximum := precision - scale
  if maximum < v.integerDigitCount then
    throw (.integerDigits v.bd v.integerDigitCount maximum column precision
      scale)
  if scale < v.fractionalDigitCount then
    throw (.fractionalDigits v.bd v.fractionalDigitCount scale column)
  return ()

/-! ## Canonical bytes -/

/-- The sign byte and the minimal magnitude of the digits. -/
def encodeDigits (digits : ℤ) : List UInt8 :=
  let (sign, magnitude) := bigIntToBytesBe digits
  let signByte :=
    match sign with
    | .minus => 0xFF
    | .noSign | .plus => 0x00
  signByte :: magnitude.dropWhile (· == 0)

def toCanonicalBytesAtScale (v : DecimalArbValue) (targetScale : ℕ) :
    List UInt8 :=
  encodeDigits (v.bd.withScaleRound targetScale).digits

def decodeDigits : List UInt8 → Except DecimalArbError ℤ
  | [] => .error .emptyBytes
  | signByte :: magnitude =>
      if signByte = 0x00 then
        if magnitude.isEmpty then .ok 0
        else .ok (bigIntFromBytesBe .plus magnitude)
      else if signByte = 0xFF then
        if magnitude.isEmpty then .error .negativeZero
        else .ok (bigIntFromBytesBe .minus magnitude)
      else .error (.invalidSignByte signByte)

def fromCanonicalBytesAtScale (bytes : List UInt8) (scale : ℕ) :
    Except DecimalArbError DecimalArbValue := do
  let digits ← decodeDigits bytes
  return fromBigintAndScale digits scale

end DecimalArbValue

end Streamling
