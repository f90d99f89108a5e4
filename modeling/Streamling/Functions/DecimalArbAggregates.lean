import Mathlib
import Streamling.Support.DecimalArith
import Streamling.Support.PartialFolds
import Streamling.Types.DecimalArbArray

/-!
# Aggregates of decimals

The accumulators of sum, average, minimum and maximum, and of the distinct
sum and average.  A null adds nothing.  The partial state of a sum is sent
unchecked, that of an average only if it fits the type of the sum; a distinct
aggregate sends its set of bytes as a list, in the order of the hash set.
-/

namespace Streamling

open PartialFolds

abbrev Cell := Option (List UInt8)

/-! ## Types of the results -/

def sumPrecisionHeadroom : ℕ := 16

def sumOutputPrecisionScale (p s : ℕ) : ℕ × ℕ :=
  (min (p + sumPrecisionHeadroom) maxPrecision, s)

def avgOutputPrecisionScale (p s : ℕ) : ℕ × ℕ :=
  let pOut := min (p + 1) maxPrecision
  (pOut, min (s + 1) pOut)

/-- A value checked against the declared type and encoded. -/
def encodeChecked (d : BigDecimal) (precision scale : ℕ) (column : String) :
    Except DecimalArbError Cell := do
  let v := DecimalArbValue.fromBigdecimal d
  v.checkFits precision scale column
  return some (v.toCanonicalBytesAtScale scale)

/-! ## Sums -/

structure SumAccumulator where
  sum : Option BigDecimal
  inputScale : ℕ
  outputScale : ℕ
  outputPrecision : ℕ

namespace SumAccumulator

/-- The loop over the rows of a batch, decoded at a scale. -/
def addRows (scale : ℕ) (sum : Option BigDecimal) :
    List Cell → Except DecimalArbError (Option BigDecimal)
  | [] => .ok sum
  | cell :: cells => do
      match ← decodeValue cell scale with
      | none => addRows scale sum cells
      | some v => addRows scale (some ((sum.getD ⟨0, 0⟩).add v.bd)) cells

def updateBatch (a : SumAccumulator) (values : List Cell) :
    Except DecimalArbError SumAccumulator := do
  let sum ← addRows a.inputScale a.sum values
  return { a with sum := sum }

def mergeBatch (a : SumAccumulator) (states : List Cell) :
    Except DecimalArbError SumAccumulator := do
  let sum ← addRows a.outputScale a.sum states
  return { a with sum := sum }

def evaluate (a : SumAccumulator) : Except DecimalArbError Cell :=
  match a.sum with
  | none => .ok none
  | some sum => encodeChecked sum a.outputPrecision a.outputScale "sum"

def state (a : SumAccumulator) : Cell :=
  a.sum.map fun sum =>
    (DecimalArbValue.fromBigdecimal sum).toCanonicalBytesAtScale a.outputScale

end SumAccumulator

def sumAccumulator (p s : ℕ) : Accumulator Cell Cell DecimalArbError where
  Acc := SumAccumulator
  State := Cell
  new :=
    let (pOut, sOut) := sumOutputPrecisionScale p s
    ⟨none, s, sOut, pOut⟩
  updateBatch := SumAccumulator.updateBatch
  mergeBatch := SumAccumulator.mergeBatch
  state := fun a _ => .ok a.state
  evaluate := fun a _ => a.evaluate

/-! ## Averages -/

/-- The value of an `i64` that wraps around. -/
def wrapI64 (n : ℤ) : ℤ :=
  n.bmod (2 ^ 64)

structure AvgAccumulator where
  sum : BigDecimal
  count : ℤ
  inputScale : ℕ
  sumScale : ℕ
  sumPrecision : ℕ
  outputPrecision : ℕ
  outputScale : ℕ

namespace AvgAccumulator

def updateBatch (a : AvgAccumulator) :
    List Cell → Except DecimalArbError AvgAccumulator
  | [] => .ok a
  | cell :: cells => do
      match ← decodeValue cell a.inputScale with
      | none => updateBatch a cells
      | some v =>
          updateBatch { a with
            sum := a.sum.add v.bd
            count := wrapI64 (a.count + 1) } cells

/-- A state is a sum and a count. -/
def mergeBatch (a : AvgAccumulator) :
    List (Cell × Option ℤ) → Except DecimalArbError AvgAccumulator
  | [] => .ok a
  | (sum, count) :: states => do
      let value ← decodeValue sum a.sumScale
      let a := match value with
        | none => a
        | some v => { a with sum := a.sum.add v.bd }
      let a := match count with
        | none => a
        | some n => { a with count := wrapI64 (a.count + n) }
      mergeBatch a states

def evaluate (a : AvgAccumulator) : Except DecimalArbError Cell :=
  if a.count = 0 then .ok none
  else
    encodeChecked (a.sum.exactDivAtScale ⟨a.count, 0⟩ a.outputScale)
      a.outputPrecision a.outputScale "avg"

def state (a : AvgAccumulator) :
    Except DecimalArbError (Cell × Option ℤ) := do
  let sum ← encodeChecked a.sum a.sumPrecision a.sumScale "avg_sum"
  return (sum, some a.count)

end AvgAccumulator

def avgAccumulator (p s : ℕ) : Accumulator Cell Cell DecimalArbError where
  Acc := AvgAccumulator
  State := Cell × Option ℤ
  new :=
    let (pOut, sOut) := avgOutputPrecisionScale p s
    let (sumPrecision, sumScale) := sumOutputPrecisionScale p s
    ⟨⟨0, 0⟩, 0, s, sumScale, sumPrecision, pOut, sOut⟩
  updateBatch := AvgAccumulator.updateBatch
  mergeBatch := AvgAccumulator.mergeBatch
  state := fun a _ => a.state
  evaluate := fun a _ => a.evaluate

/-! ## Extremes -/

inductive Extreme where
  | min
  | max
  deriving DecidableEq

def Extreme.functionName : Extreme → String
  | .min => "min"
  | .max => "max"

/-- The candidate replaces the current value. -/
def Extreme.keep (extreme : Extreme) (current candidate : BigDecimal) : Bool :=
  match extreme with
  | .min => candidate.value < current.value
  | .max => current.value < candidate.value

structure ExtremeAccumulator where
  extreme : Extreme
  current : Option BigDecimal
  scale : ℕ
  precision : ℕ

namespace ExtremeAccumulator

def observe (a : ExtremeAccumulator) (candidate : BigDecimal) :
    ExtremeAccumulator :=
  match a.current with
  | none => { a with current := some candidate }
  | some current =>
      if a.extreme.keep current candidate then
        { a with current := some candidate }
      else a

def updateBatch (a : ExtremeAccumulator) :
    List Cell → Except DecimalArbError ExtremeAccumulator
  | [] => .ok a
  | cell :: cells => do
      match ← decodeValue cell a.scale with
      | none => updateBatch a cells
      | some v => updateBatch (a.observe v.bd) cells

def evaluate (a : ExtremeAccumulator) : Except DecimalArbError Cell :=
  match a.current with
  | none => .ok none
  | some current =>
      encodeChecked current a.precision a.scale a.extreme.functionName

def state (a : ExtremeAccumulator) : Cell :=
  a.current.map fun current =>
    (DecimalArbValue.fromBigdecimal current).toCanonicalBytesAtScale a.scale

end ExtremeAccumulator

def extremeAccumulator (extreme : Extreme) (p s : ℕ) :
    Accumulator Cell Cell DecimalArbError where
  Acc := ExtremeAccumulator
  State := Cell
  new := ⟨extreme, none, s, p⟩
  updateBatch := ExtremeAccumulator.updateBatch
  mergeBatch := ExtremeAccumulator.updateBatch
  state := fun a _ => .ok a.state
  evaluate := fun a _ => a.evaluate

/-! ## Distinct values -/

/-- The hash set of the bytes of one column. -/
structure DistinctValues where
  values : List (List UInt8)

namespace DistinctValues

def insert (d : DistinctValues) (bytes : List UInt8) : DistinctValues :=
  if bytes ∈ d.values then d else ⟨d.values ++ [bytes]⟩

def update (d : DistinctValues) : List Cell → DistinctValues
  | [] => d
  | none :: cells => update d cells
  | some bytes :: cells => update (d.insert bytes) cells

/-- A state is a list, or null. -/
def merge (d : DistinctValues) :
    List (Option (List Cell)) → DistinctValues
  | [] => d
  | none :: states => merge d states
  | some cells :: states => merge (d.update cells) states

/-- The values in the order that the hash set has them in. -/
def iterated (d : DistinctValues) (order : ℕ) : List (List UInt8) :=
  (d.values.permutations[order]?).getD d.values

def state (d : DistinctValues) (order : ℕ) : Option (List Cell) :=
  some ((d.iterated order).map some)

/-- The number of values, which memory keeps below `i64::MAX`. -/
def len (d : DistinctValues) : ℕ :=
  d.values.length

def sumFrom (scale : ℕ) (acc : BigDecimal) :
    List (List UInt8) → Except DecimalArbError BigDecimal
  | [] => .ok acc
  | bytes :: rest => do
      let v ← DecimalArbValue.fromCanonicalBytesAtScale bytes scale
      sumFrom scale (acc.add v.bd) rest

def sum (d : DistinctValues) (scale order : ℕ) :
    Except DecimalArbError BigDecimal :=
  sumFrom scale ⟨0, 0⟩ (d.iterated order)

end DistinctValues

structure DistinctSumAccumulator where
  values : DistinctValues
  inputScale : ℕ
  outputScale : ℕ
  outputPrecision : ℕ

def DistinctSumAccumulator.evaluate (a : DistinctSumAccumulator) (order : ℕ) :
    Except DecimalArbError Cell := do
  if a.values.len = 0 then return none
  let sum ← a.values.sum a.inputScale order
  encodeChecked sum a.outputPrecision a.outputScale "sum"

def distinctSumAccumulator (p s : ℕ) :
    Accumulator Cell Cell DecimalArbError where
  Acc := DistinctSumAccumulator
  State := Option (List Cell)
  new :=
    let (pOut, sOut) := sumOutputPrecisionScale p s
    ⟨⟨[]⟩, s, sOut, pOut⟩
  updateBatch := fun a cells => .ok { a with values := a.values.update cells }
  mergeBatch := fun a states => .ok { a with values := a.values.merge states }
  state := fun a order => .ok (a.values.state order)
  evaluate := DistinctSumAccumulator.evaluate

structure DistinctAvgAccumulator where
  values : DistinctValues
  inputScale : ℕ
  outputPrecision : ℕ
  outputScale : ℕ

def DistinctAvgAccumulator.evaluate (a : DistinctAvgAccumulator) (order : ℕ) :
    Except DecimalArbError Cell := do
  let count := a.values.len
  if count = 0 then return none
  let sum ← a.values.sum a.inputScale order
  encodeChecked (sum.exactDivAtScale ⟨count, 0⟩ a.outputScale)
    a.outputPrecision a.outputScale "avg"

def distinctAvgAccumulator (p s : ℕ) :
    Accumulator Cell Cell DecimalArbError where
  Acc := DistinctAvgAccumulator
  State := Option (List Cell)
  new :=
    let (pOut, sOut) := avgOutputPrecisionScale p s
    ⟨⟨[]⟩, s, pOut, sOut⟩
  updateBatch := fun a cells => .ok { a with values := a.values.update cells }
  mergeBatch := fun a states => .ok { a with values := a.values.merge states }
  state := fun a order => .ok (a.values.state order)
  evaluate := DistinctAvgAccumulator.evaluate

/-! ## All aggregates -/

inductive Aggregate where
  | sum
  | avg
  | extreme (kind : Extreme)
  | sumDistinct
  | avgDistinct
  deriving DecidableEq

namespace Aggregate

/-- The accumulator of an aggregate over a column of the type. -/
def accumulator (aggregate : Aggregate) (p s : ℕ) :
    Accumulator Cell Cell DecimalArbError :=
  match aggregate with
  | .sum => sumAccumulator p s
  | .avg => avgAccumulator p s
  | .extreme kind => extremeAccumulator kind p s
  | .sumDistinct => distinctSumAccumulator p s
  | .avgDistinct => distinctAvgAccumulator p s

/-- The declared type of the result. -/
def outputPrecisionScale (aggregate : Aggregate) (p s : ℕ) : ℕ × ℕ :=
  match aggregate with
  | .sum | .sumDistinct => sumOutputPrecisionScale p s
  | .avg | .avgDistinct => avgOutputPrecisionScale p s
  | .extreme _ => (p, s)

end Aggregate

end Streamling
