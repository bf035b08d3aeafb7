import TimedGraph.Series.Differences

/-!
# Series as bytes

An encoded series is a string of bytes together with what is needed to read it: the
metric, the codec and the number of values.  Decoding trusts none of them.  It reads
the bytes to their end and then compares the number of values with the recorded one.
-/

namespace TimedGraph

/-- An integer series as bytes. -/
structure Encoded where
  metric : Metric
  codec : Codec
  /-- The number of values, as recorded. -/
  length : Nat
  bytes : List UInt8
  deriving DecidableEq

namespace Encoded

/-- The bytes of a series of one metric under a codec. -/
def bytesOf (values : List Value) : Codec → Except CodecFault (List UInt8)
  | .varint => Varint.signedWords (values.filterMap fun value => value.int64?.map Int64.toInt)
  | .deltaVarint => Differences.toBytes <$> Differences.ofValues values

/-- Encodes a series, which must have a metric and, under `Codec.varint`, no negative number. -/
def encode (values : List Value) (codec : Codec) : Except CodecFault Encoded := do
  let metric ← Metric.detect values
  let bytes ← bytesOf values codec
  return ⟨metric, codec, values.length, bytes⟩

/-- The range of the plain words of a metric. -/
def target : Metric → Varint.Target
  | .int32 => .nonnegative32
  | .int64 => .nonnegative64

/-- The values that the bytes hold, however many. -/
def contents (encoded : Encoded) : Except CodecFault (List Value) :=
  match encoded.codec with
  | .varint =>
    (·.map fun (number : Nat) => encoded.metric.value number) <$>
      Varint.readAll (target encoded.metric) encoded.bytes
  | .deltaVarint => Differences.ofBytes encoded.metric encoded.bytes >>= Differences.toValues

/-- The values of the series, if the bytes hold as many as recorded. -/
def decode (encoded : Encoded) : Except CodecFault (List Value) := do
  let values ← encoded.contents
  if values.length = encoded.length then .ok values
  else .error (.lengthMismatch encoded.length values.length)

/-- The bytes that the recorded number of values takes in its plain form. -/
def plainSize (encoded : Encoded) : Nat :=
  encoded.length * encoded.metric.width

/-- How many plain bytes stand behind an encoded one; 1 where there are no bytes. -/
def compression (encoded : Encoded) : Binary64 :=
  if encoded.bytes.isEmpty then
    .ofInt 1
  else
    ⟨((UInt64.ofNat encoded.plainSize).toFloat /
      (UInt64.ofNat encoded.bytes.length).toFloat).toBits⟩

end Encoded

end TimedGraph
