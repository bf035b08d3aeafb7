import TimedGraph.Entity
import TimedGraph.Timeline

/-!
# Adjacency over time

An adjacency keeps, for every vertex that has edges, the timeline of these edges.  A
graph has two of them: one by the source of the edges and one by their target.
-/

namespace TimedGraph

/-- The edges of every vertex over time. -/
structure Adjacency where
  timelines : Table VertexId (Timeline EdgeId)
  deriving DecidableEq

namespace Adjacency

/-- The adjacency without edges. -/
def empty : Adjacency := ⟨∅⟩

instance : EmptyCollection Adjacency := ⟨empty⟩

/-- The timeline of a vertex's edges. -/
def timeline (adjacency : Adjacency) (vertex : VertexId) : Timeline EdgeId :=
  (adjacency.timelines.get? vertex).getD ∅

/-- Adds an edge to a vertex, as of an offset. -/
def insert (adjacency : Adjacency) (vertex : VertexId) (offset : Offset) (edge : EdgeId) :
    Adjacency :=
  ⟨adjacency.timelines.insert vertex ((adjacency.timeline vertex).insert offset edge)⟩

/-- The edges that a vertex has at an offset. -/
def edgesAt (adjacency : Adjacency) (vertex : VertexId) (offset : Offset) : List EdgeId :=
  (adjacency.timeline vertex).upTo offset

/-- The number of edges that a vertex has been given. -/
def degree (adjacency : Adjacency) (vertex : VertexId) : Nat :=
  (adjacency.timeline vertex).size

/-- The number of vertices that have edges. -/
def vertexCount (adjacency : Adjacency) : Nat :=
  adjacency.timelines.size

end Adjacency

end TimedGraph
