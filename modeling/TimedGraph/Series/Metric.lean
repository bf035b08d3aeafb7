import TimedGraph.CodecFault
import TimedGraph.Value

/-!
# Metrics and codecs

A series that can be written in words holds integers of one width, its metric.  A
codec says which words: those of the numbers themselves, or those of their
differences.
-/

namespace TimedGraph

/-- How an integer series is written. -/
inductive Codec where
  /-- Every number as a word of its own. -/
  | varint
  /-- The first number and the differences of neighbours, folded. -/
  | deltaVarint
  deriving DecidableEq

/-- The codec that is used where none is chosen. -/
instance : Inhabited Codec := ⟨.varint⟩

/-- The name of a codec. -/
def Codec.name : Codec → String
  | varint => "Varint"
  | deltaVarint => "DeltaVarint"

/-- The width of the integers of a series. -/
inductive Metric where
  | int32
  | int64
  deriving DecidableEq

namespace Metric

/-- The metric of a value, if it is an integer. -/
def ofValue? : Value → Option Metric
  | .int32 _ => some int32
  | .int64 _ => some int64
  | _ => none

/-- The bytes that a number takes in its plain form. -/
def width : Metric → Nat
  | int32 => 4
  | int64 => 8

/-- The common metric of a series, which has to have a value and none but integers of one
width.  The fault names the type of the first value that does not fit. -/
def detect : List Value → Except CodecFault Metric
  | [] => .error .emptyInput
  | first :: rest =>
    match ofValue? first with
    | none => .error (.unsupportedType first.typeName)
    | some metric =>
      match rest.find? fun value => ofValue? value ≠ some metric with
      | some other => .error (.unsupportedType other.typeName)
      | none => .ok metric

/-- The value of a metric that holds an integer of its width. -/
def value : Metric → Int → Value
  | int32, number => .int32 (.ofInt number)
  | int64, number => .int64 (.ofInt number)

end Metric

end TimedGraph
