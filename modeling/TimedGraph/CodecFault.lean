/-!
# Faults of the integer codecs

The causes for which an integer series cannot be written or read back.  A fault
names its cause and what was found; `CodecFault.message` is the only place where
it is put into words.
-/

namespace TimedGraph

/-- Why an integer series could not be written or read. -/
inductive CodecFault where
  /-- A plain word was asked to hold a negative number. -/
  | negativeValue (value : Int)
  /-- A value that is not an integer of the series' own width, by the name of its type. -/
  | unsupportedType (typeName : String)
  /-- A series without values has no encoding. -/
  | emptyInput
  /-- The bytes ended inside a word, after `consumed` bytes of it. -/
  | truncated (consumed : Nat)
  /-- A number does not fit into the range of the given name. -/
  | overflow (target : String)
  /-- The number of decoded values is not the recorded one. -/
  | lengthMismatch (expected actual : Nat)
  deriving DecidableEq

namespace CodecFault

/-- The fault in words. -/
def message : CodecFault → String
  | negativeValue value => s!"varint encoding only supports non-negative values, got {value}"
  | unsupportedType typeName => s!"integer encoding not supported for type {typeName}"
  | emptyInput => "cannot encode an empty series"
  | truncated consumed => s!"varint truncated after {consumed} bytes"
  | overflow target => s!"decoded value overflows {target}"
  | lengthMismatch expected actual => s!"expected {expected} values, decoded {actual}"

end CodecFault

end TimedGraph
