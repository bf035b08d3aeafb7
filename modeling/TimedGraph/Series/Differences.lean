import TimedGraph.Series.Metric
import TimedGraph.Word.Folded
import TimedGraph.Word.Varint

/-!
# Series by their differences

A series is kept as its first value, the base, and the step from each value to the
next.  Steps are 64-bit numbers whatever the metric.  Between 32-bit values they are
exact; between 64-bit values they wrap around, and so do the sums that undo them, which
restores the values all the same.  A series of differences always has a base.

As bytes it is the words of the folded base and steps.
-/

namespace TimedGraph

/-- A series of integers by its base and its steps. -/
structure Differences where
  metric : Metric
  base : Int64
  steps : List Int64
  deriving DecidableEq

namespace Differences

/-- The steps through `values` from the one before them. -/
def stepsFrom (previous : Int64) : List Int64 → List Int64
  | [] => []
  | value :: rest => (value - previous) :: stepsFrom value rest

/-- The values that `steps` lead to from the one before them. -/
def sumsFrom (previous : Int64) : List Int64 → List Int64
  | [] => []
  | step :: rest => (previous + step) :: sumsFrom (previous + step) rest

/-- The differences of a series, which must have a value. -/
def ofList (metric : Metric) : List Int64 → Except CodecFault Differences
  | [] => .error .emptyInput
  | first :: rest => .ok ⟨metric, first, stepsFrom first rest⟩

/-- The differences of a series of 64-bit integers. -/
def ofInt64s (values : List Int64) : Except CodecFault Differences :=
  ofList .int64 values

/-- The differences of a series of 32-bit integers. -/
def ofInt32s (values : List Int32) : Except CodecFault Differences :=
  ofList .int32 (values.map Int32.toInt64)

/-- The differences of a series of values that has a metric. -/
def ofValues (values : List Value) : Except CodecFault Differences := do
  let metric ← Metric.detect values
  ofList metric (values.filterMap Value.int64?)

/-- The base and the steps as one list. -/
def toList (differences : Differences) : List Int64 :=
  differences.base :: differences.steps

/-- The number of values in the series. -/
def length (differences : Differences) : Nat :=
  differences.toList.length

/-- The values of the series in 64 bits, whatever its metric. -/
def toInt64s (differences : Differences) : List Int64 :=
  differences.base :: sumsFrom differences.base differences.steps

/-- A 64-bit integer in 32 bits, if it fits. -/
def narrow (value : Int64) : Except CodecFault Int32 :=
  if Int32.minValue.toInt ≤ value.toInt ∧ value.toInt ≤ Int32.maxValue.toInt then
    .ok value.toInt32
  else
    .error (.overflow "i32")

/-- The values of the series in 32 bits, if all of them fit. -/
def toInt32s (differences : Differences) : Except CodecFault (List Int32) :=
  differences.toInt64s.mapM narrow

/-- The values of the series in its own metric. -/
def toValues (differences : Differences) : Except CodecFault (List Value) :=
  match differences.metric with
  | .int32 => (·.map Value.int32) <$> differences.toInt32s
  | .int64 => .ok (differences.toInt64s.map Value.int64)

/-- The words of the base and the steps, folded. -/
def toBytes (differences : Differences) : List UInt8 :=
  differences.toList.flatMap fun step => Varint.word (Folded.fold64 step).toNat

/-- The differences that `bytes` hold; there has to be a base. -/
def ofBytes (metric : Metric) (bytes : List UInt8) : Except CodecFault Differences := do
  let places ← Varint.readAll .unsigned64 bytes
  match places.map fun place => Folded.unfold64 (.ofNat place) with
  | [] => .error .emptyInput
  | base :: steps => .ok ⟨metric, base, steps⟩

end Differences

end TimedGraph
