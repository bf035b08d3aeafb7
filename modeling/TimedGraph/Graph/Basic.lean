import TimedGraph.Adjacency
import TimedGraph.Archive.Basic

/-!
# Graphs over time

A graph records which vertices and edges exist from which instant on, and which
properties they own; the histories of the properties are in its archive.  Every instant
is kept as an offset from the reference of the graph's setting, so instants outside the
window of the reference are refused everywhere, by `Graph.offset`.

A vertex or an edge is known once its number has been handed out.  It stays known and
keeps its place in the timelines for good.
-/

namespace TimedGraph

/-- What is chosen for a graph when it is made. -/
structure Setting where
  /-- The start of the window in which the graph accepts instants. -/
  reference : Instant
  /-- The codec for integer series. -/
  codec : Codec
  /-- The number of properties for which room is wanted; no answer depends on it. -/
  capacity : Nat
  deriving DecidableEq

/-- The setting with a given reference, the usual codec and no room wanted. -/
def Setting.ofReference (reference : Instant) : Setting :=
  ⟨reference, default, 0⟩

/-- A graph whose vertices, edges and properties have times. -/
structure Graph where
  setting : Setting
  /-- The source of vertex numbers. -/
  vertexCounter : Counter
  /-- The source of edge numbers. -/
  edgeCounter : Counter
  vertices : Timeline VertexId
  edges : Timeline EdgeId
  /-- Edges by their source. -/
  outgoing : Adjacency
  /-- Edges by their target. -/
  incoming : Adjacency
  /-- The properties of the vertices and edges that own any, in the order of attachment. -/
  ownership : Table Owner (List PropertyId)
  archive : Archive
  deriving DecidableEq

namespace Graph

/-- The graph without vertices. -/
def empty (setting : Setting) : Graph where
  setting := setting
  vertexCounter := .startingAt 0
  edgeCounter := .startingAt 0
  vertices := ∅
  edges := ∅
  outgoing := ∅
  incoming := ∅
  ownership := ∅
  archive := .empty setting.codec

/-- The number of vertices. -/
def vertexCount (graph : Graph) : Nat :=
  graph.vertexCounter.next.toNat

/-- The number of edges. -/
def edgeCount (graph : Graph) : Nat :=
  graph.edgeCounter.next.toNat

/-- The number of properties. -/
def propertyCount (graph : Graph) : Nat :=
  graph.archive.count

/-- The properties of a vertex or an edge, in the order of attachment. -/
def owned (graph : Graph) (owner : Owner) : List PropertyId :=
  (graph.ownership.get? owner).getD []

/-- The offset of an instant, which has to lie in the graph's window. -/
def offset (graph : Graph) (time : Instant) : Except Fault Offset :=
  match time.offsetFrom? graph.setting.reference with
  | some offset => .ok offset
  | none => .error (.timeRange time graph.setting.reference)

/-- Refuses a vertex whose number has not been handed out. -/
def checkVertex (graph : Graph) (vertex : VertexId) : Except Fault Unit :=
  if vertex.number < graph.vertexCounter.next then .ok ()
  else .error (.unknownEntity .vertex vertex.number)

/-- Refuses an edge whose number has not been handed out. -/
def checkEdge (graph : Graph) (edge : EdgeId) : Except Fault Unit :=
  if edge.number < graph.edgeCounter.next then .ok ()
  else .error (.unknownEntity .edge edge.number)

/-- Refuses a vertex or an edge whose number has not been handed out. -/
def check (graph : Graph) : Owner → Except Fault Unit
  | .vertex vertex => graph.checkVertex vertex
  | .edge edge => graph.checkEdge edge

/-- The property of an owner with a given name; to have several is a fault. -/
def property? (graph : Graph) (owner : Owner) (name : String) :
    Except Fault (Option PropertyId) :=
  match (graph.owned owner).filter fun id => graph.archive.name? id = some name with
  | [] => .ok none
  | [id] => .ok (some id)
  | _ => .error (.duplicateProperty name owner)

end Graph

end TimedGraph
