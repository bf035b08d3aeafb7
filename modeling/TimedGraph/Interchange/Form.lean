import TimedGraph.Graph.Basic
import TimedGraph.Interchange.Tree
import TimedGraph.Entity
import TimedGraph.Series.Basic

/-!
# Data as trees

How each data type stands as a tree, and which trees are accepted for it.  Numbers have
to be integers in the range of their type; nothing is converted, except that an integer
is accepted for a floating-point number.  A choice without content is its name; a choice
with content is a record with its name as the only field.  A structure is a record with
all its fields, of which there may be more, or a list of exactly its fields in order.
-/

namespace TimedGraph

/-- A type whose elements can be exchanged as trees. -/
class Interchange (α : Type) where
  /-- The tree of an element. -/
  toTree : α → Tree
  /-- The element of a tree, if the tree is accepted. -/
  ofTree? : Tree → Option α

namespace Interchange

/-- The integer of a tree, if it lies between two bounds. -/
def integer? (least greatest : Int) : Tree → Option Int
  | .integer value => if least ≤ value ∧ value ≤ greatest then some value else none
  | _ => none

/-- The name of a choice without content: the name alone, or a record of the name and nothing. -/
def choice? : Tree → Option String
  | .text name => some name
  | .record [(name, .null)] => some name
  | _ => none

/-- The parts of a structure with the given fields, in their order. -/
def parts? (names : List String) : Tree → Option (List Tree)
  | .list items => if items.length = names.length then some items else none
  | tree => names.mapM tree.field?

/-- The elements of a list of trees, if all are accepted. -/
def list? {α : Type} [Interchange α] : Tree → Option (List α)
  | .list items => items.mapM ofTree?
  | _ => none

instance : Interchange Bool where
  toTree := .bool
  ofTree?
    | .bool value => some value
    | _ => none

instance : Interchange String where
  toTree := .text
  ofTree?
    | .text value => some value
    | _ => none

instance : Interchange UInt8 where
  toTree value := .integer value.toNat
  ofTree? tree := do
    let value ← integer? 0 (UInt8.size - 1) tree
    return .ofNat value.toNat

instance : Interchange UInt32 where
  toTree value := .integer value.toNat
  ofTree? tree := do
    let value ← integer? 0 (UInt32.size - 1) tree
    return .ofNat value.toNat

instance : Interchange UInt64 where
  toTree value := .integer value.toNat
  ofTree? tree := do
    let value ← integer? 0 (UInt64.size - 1) tree
    return .ofNat value.toNat

instance : Interchange Int32 where
  toTree value := .integer value.toInt
  ofTree? tree := do
    let value ← integer? Int32.minValue.toInt Int32.maxValue.toInt tree
    return .ofInt value

instance : Interchange Int64 where
  toTree value := .integer value.toInt
  ofTree? tree := do
    let value ← integer? Int64.minValue.toInt Int64.maxValue.toInt tree
    return .ofInt value

instance : Interchange Binary64 where
  toTree := .real
  ofTree?
    | .real value => some value
    | .integer value => some (.ofInt value)
    | _ => none

instance {α : Type} [Interchange α] : Interchange (List α) where
  toTree values := .list (values.map toTree)
  ofTree? := list?

instance : Interchange VertexId where
  toTree vertex := toTree vertex.number
  ofTree? tree := VertexId.mk <$> ofTree? tree

instance : Interchange EdgeId where
  toTree edge := toTree edge.number
  ofTree? tree := EdgeId.mk <$> ofTree? tree

instance : Interchange PropertyId where
  toTree property := toTree property.number
  ofTree? tree := PropertyId.mk <$> ofTree? tree

instance : Interchange Instant where
  toTree instant := toTree instant.millis
  ofTree? tree := Instant.mk <$> ofTree? tree

instance : Interchange EntityKind where
  toTree
    | .vertex => .text "Vertex"
    | .edge => .text "Edge"
    | .property => .text "Property"
  ofTree? tree := do
    match ← choice? tree with
    | "Vertex" => some .vertex
    | "Edge" => some .edge
    | "Property" => some .property
    | _ => none

instance : Interchange Codec where
  toTree codec := .text codec.name
  ofTree? tree := do
    match ← choice? tree with
    | "Varint" => some .varint
    | "DeltaVarint" => some .deltaVarint
    | _ => none

instance : Interchange Metric where
  toTree
    | .int32 => .text "Int32"
    | .int64 => .text "Int64"
  ofTree? tree := do
    match ← choice? tree with
    | "Int32" => some .int32
    | "Int64" => some .int64
    | _ => none

instance : Interchange Owner where
  toTree
    | .vertex id => .record [("Vertex", toTree id)]
    | .edge id => .record [("Edge", toTree id)]
  ofTree? tree := do
    match ← tree.onlyField? with
    | ("Vertex", content) => .vertex <$> ofTree? content
    | ("Edge", content) => .edge <$> ofTree? content
    | _ => none

instance : Interchange Value where
  toTree
    | .bool value => .record [("Bool", toTree value)]
    | .int32 value => .record [("Int32", toTree value)]
    | .int64 value => .record [("Int64", toTree value)]
    | .float64 value => .record [("Float64", toTree value)]
    | .string value => .record [("String", toTree value)]
    | .bytes value => .record [("Bytes", toTree value)]
  ofTree? tree := do
    match ← tree.onlyField? with
    | ("Bool", content) => .bool <$> ofTree? content
    | ("Int32", content) => .int32 <$> ofTree? content
    | ("Int64", content) => .int64 <$> ofTree? content
    | ("Float64", content) => .float64 <$> ofTree? content
    | ("String", content) => .string <$> ofTree? content
    | ("Bytes", content) => .bytes <$> ofTree? content
    | _ => none

/-- The bytes of an encoded series: a list of bytes, or a text for the bytes of its characters. -/
def seriesBytes? : Tree → Option (List UInt8)
  | .text value => some value.toUTF8.toList
  | tree => ofTree? tree

instance : Interchange Encoded where
  toTree encoded := .record [
    ("metric", toTree encoded.metric),
    ("codec", toTree encoded.codec),
    ("len", .integer encoded.length),
    ("data", toTree encoded.bytes)]
  ofTree? tree := do
    match ← parts? ["metric", "codec", "len", "data"] tree with
    | [metric, codec, length, bytes] =>
      let metric ← ofTree? metric
      let codec ← ofTree? codec
      let length ← integer? 0 (UInt64.size - 1) length
      let bytes ← seriesBytes? bytes
      return ⟨metric, codec, length.toNat, bytes⟩
    | _ => none

instance : Interchange Series where
  toTree
    | .encoded series => .record [("Encoded", toTree series)]
    | .raw values => .record [("Raw", toTree values)]
  ofTree? tree := do
    match ← tree.onlyField? with
    | ("Encoded", content) => .encoded <$> ofTree? content
    | ("Raw", content) => .raw <$> ofTree? content
    | _ => none

instance : Interchange NamedValue where
  toTree reading := .record [("name", toTree reading.name), ("value", toTree reading.value)]
  ofTree? tree := do
    match ← parts? ["name", "value"] tree with
    | [name, value] => return ⟨← ofTree? name, ← ofTree? value⟩
    | _ => none

instance : Interchange Setting where
  toTree setting := .record [
    ("reference_time", toTree setting.reference),
    ("series_codec", toTree setting.codec),
    ("initial_property_capacity", .integer setting.capacity)]
  ofTree? tree := do
    match ← parts? ["reference_time", "series_codec", "initial_property_capacity"] tree with
    | [reference, codec, capacity] =>
      let capacity ← integer? 0 (UInt64.size - 1) capacity
      return ⟨← ofTree? reference, ← ofTree? codec, capacity.toNat⟩
    | _ => none

end Interchange

end TimedGraph
