import TimedGraph.Graph.Query

/-!
# Snapshots

A snapshot holds all that a graph answers about an instant: what exists, and for every
vertex and edge ever added its edges and the values of its properties.
-/

namespace TimedGraph

/-- What a graph says of one vertex at an instant. -/
structure VertexView where
  outgoing : List EdgeId
  incoming : List EdgeId
  readings : List NamedValue
  deriving DecidableEq

/-- All that a graph says of an instant. -/
structure Snapshot where
  vertices : List VertexId
  edges : List EdgeId
  /-- The views of all vertices, in the order of their numbers. -/
  vertexViews : List VertexView
  /-- The readings of all edges, in the order of their numbers. -/
  edgeReadings : List (List NamedValue)
  deriving DecidableEq

namespace Graph

/-- What a graph says of one vertex at an instant. -/
def vertexViewAt (graph : Graph) (vertex : VertexId) (time : Instant) :
    Except Fault VertexView := do
  let outgoing ← graph.outEdgesAt vertex time
  let incoming ← graph.inEdgesAt vertex time
  let readings ← graph.propertiesAt (.vertex vertex) time
  return ⟨outgoing, incoming, readings⟩

/-- All that a graph says of an instant. -/
def snapshotAt (graph : Graph) (time : Instant) : Except Fault Snapshot := do
  let vertices ← graph.verticesAt time
  let edges ← graph.edgesAt time
  let vertexViews ← (List.range graph.vertexCount).mapM fun number =>
    graph.vertexViewAt ⟨.ofNat number⟩ time
  let edgeReadings ← (List.range graph.edgeCount).mapM fun number =>
    graph.propertiesAt (.edge ⟨.ofNat number⟩) time
  return ⟨vertices, edges, vertexViews, edgeReadings⟩

end Graph

end TimedGraph
