import TimedGraph.Series.Encoded

/-!
# Stored series

A series of values is stored encoded if its codec can write it, and as it is
otherwise.  Storing therefore never fails, and the empty series is stored as it is.
-/

namespace TimedGraph

/-- A series of values as it is stored. -/
inductive Series where
  /-- An integer series as bytes. -/
  | encoded (series : Encoded)
  /-- The values as they are. -/
  | raw (values : List Value)
  deriving DecidableEq

namespace Series

/-- Stores a series with a codec. -/
def ofValues (values : List Value) (codec : Codec) : Series :=
  match Encoded.encode values codec with
  | .ok series => encoded series
  | .error _ => raw values

/-- The values of a stored series. -/
def toValues : Series → Except CodecFault (List Value)
  | encoded series => series.decode
  | raw values => .ok values

/-- The number of values. -/
def length : Series → Nat
  | encoded series => series.length
  | raw values => values.length

/-- Whether the series is stored as bytes. -/
def isEncoded : Series → Bool
  | encoded _ => true
  | raw _ => false

/-- The bytes that the values take. -/
def size : Series → Nat
  | encoded series => series.bytes.length
  | raw values => values.foldl (fun total value => total + value.footprint) 0

end Series

end TimedGraph
