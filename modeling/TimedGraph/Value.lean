import TimedGraph.Decimal.Shortest
import TimedGraph.Text

/-!
# Values of properties

A property takes values of six types.  Integers are the only ones that can be written
as a series of words; `Value.footprint` is what any value costs where it is kept as it
is.
-/

namespace TimedGraph

/-- A value of a property. -/
inductive Value where
  | bool (value : Bool)
  | int32 (value : Int32)
  | int64 (value : Int64)
  | float64 (value : Binary64)
  | string (value : String)
  | bytes (value : List UInt8)
  deriving DecidableEq

namespace Value

/-- The name of a value's type. -/
def typeName : Value → String
  | bool _ => "BOOL"
  | int32 _ => "INT32"
  | int64 _ => "INT64"
  | float64 _ => "FLOAT64"
  | string _ => "STRING"
  | bytes _ => "BYTES"

/-- Whether a value is an integer of either width. -/
def isInteger : Value → Bool
  | int32 _ | int64 _ => true
  | _ => false

/-- The truth value that a value holds, if it holds one. -/
def bool? : Value → Option Bool
  | bool value => some value
  | _ => none

/-- The 32-bit integer that a value holds, if it holds one. -/
def int32? : Value → Option Int32
  | int32 value => some value
  | _ => none

/-- The integer that a value holds, of either width, in 64 bits. -/
def int64? : Value → Option Int64
  | int32 value => some value.toInt64
  | int64 value => some value
  | _ => none

/-- The floating-point number that a value holds, if it holds one. -/
def float64? : Value → Option Binary64
  | float64 value => some value
  | _ => none

/-- The text that a value holds, if it holds one. -/
def string? : Value → Option String
  | string value => some value
  | _ => none

/-- The bytes that a value holds, if it holds any. -/
def bytes? : Value → Option (List UInt8)
  | bytes value => some value
  | _ => none

/-- The bytes that a value takes apart from its fixed part. -/
def payload : Value → Nat
  | string value => value.utf8ByteSize
  | bytes value => value.length
  | _ => 0

/-- The bytes that a value takes where it is kept as it is: a fixed part and its payload. -/
def footprint (value : Value) : Nat :=
  24 + value.payload

/-- A value in words. -/
def text : Value → String
  | bool true => "true"
  | bool false => "false"
  | int32 value => s!"{value.toInt}"
  | int64 value => s!"{value.toInt}"
  | float64 value => value.text
  | string value => Text.quoted value
  | bytes value => s!"<{value.length} bytes>"

end Value

/-- The value of a named property at some instant. -/
structure NamedValue where
  name : String
  value : Value
  deriving DecidableEq

/-- A named value in words. -/
def NamedValue.text (reading : NamedValue) : String :=
  s!"{reading.name}={reading.value.text}"

end TimedGraph
