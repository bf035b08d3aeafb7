import TimedGraph.Graph.Basic

/-!
# Questions about an instant

Every question first refuses an instant outside the graph's window, then the vertices and
edges it names, from left to right, if they are not known.  Lists of vertices and edges
are ordered by offset and, within an offset, by arrival.
-/

namespace TimedGraph.Graph

/-- The vertices that exist at an instant. -/
def verticesAt (graph : Graph) (time : Instant) : Except Fault (List VertexId) := do
  let offset ← graph.offset time
  return graph.vertices.upTo offset

/-- The edges that exist at an instant. -/
def edgesAt (graph : Graph) (time : Instant) : Except Fault (List EdgeId) := do
  let offset ← graph.offset time
  return graph.edges.upTo offset

/-- The edges that leave a vertex. -/
def outEdgesAt (graph : Graph) (vertex : VertexId) (time : Instant) :
    Except Fault (List EdgeId) := do
  let offset ← graph.offset time
  graph.checkVertex vertex
  return graph.outgoing.edgesAt vertex offset

/-- The edges that enter a vertex. -/
def inEdgesAt (graph : Graph) (vertex : VertexId) (time : Instant) :
    Except Fault (List EdgeId) := do
  let offset ← graph.offset time
  graph.checkVertex vertex
  return graph.incoming.edgesAt vertex offset

/-- The edges from one vertex to another: those that leave the one and enter the other. -/
def edgesBetweenAt (graph : Graph) (source target : VertexId) (time : Instant) :
    Except Fault (List EdgeId) := do
  let offset ← graph.offset time
  graph.checkVertex source
  graph.checkVertex target
  let entering := graph.incoming.edgesAt target offset
  return (graph.outgoing.edgesAt source offset).filter fun edge => entering.contains edge

/-- The value of a property in the archive, with its name, if it has one at the instant. -/
def reading? (graph : Graph) (time : Instant) (id : PropertyId) :
    Except Fault (Option NamedValue) := do
  let history ← graph.archive.fetch? id
  return history.bind fun history => history.readingAt time

/-- The values of the properties of an owner, without those that have none yet. -/
def readings (graph : Graph) (owner : Owner) (time : Instant) :
    Except Fault (List NamedValue) := do
  let values ← (graph.owned owner).mapM (graph.reading? time)
  return values.filterMap id

/-- The value of the property of an owner with a given name, if there is one. -/
def namedReading? (graph : Graph) (owner : Owner) (name : String) (time : Instant) :
    Except Fault (Option NamedValue) := do
  match ← graph.property? owner name with
  | none => return none
  | some id => graph.reading? time id

/-- The values of the properties of a vertex or an edge. -/
def propertiesAt (graph : Graph) (owner : Owner) (time : Instant) :
    Except Fault (List NamedValue) := do
  let _ ← graph.offset time
  graph.check owner
  graph.readings owner time

/-- The value of the property of a vertex or an edge with a given name. -/
def propertyAt (graph : Graph) (owner : Owner) (name : String) (time : Instant) :
    Except Fault (Option NamedValue) := do
  let _ ← graph.offset time
  graph.check owner
  graph.namedReading? owner name time

/-- Collects an answer for every edge of a list in a table. -/
def tabulate {α : Type} (answer : EdgeId → Except Fault α) :
    List EdgeId → Except Fault (Table EdgeId α)
  | [] => .ok ∅
  | edge :: rest => do
    let first ← answer edge
    let others ← tabulate answer rest
    return others.insert edge first

/-- The values of the properties of all edges from one vertex to another, by edge. -/
def propertiesBetweenAt (graph : Graph) (source target : VertexId) (time : Instant) :
    Except Fault (Table EdgeId (List NamedValue)) := do
  let edges ← graph.edgesBetweenAt source target time
  tabulate (fun edge => graph.readings (.edge edge) time) edges

/-- The value of the property with a given name of all edges from one vertex to another, by
edge. -/
def propertyBetweenAt (graph : Graph) (source target : VertexId) (name : String)
    (time : Instant) : Except Fault (Table EdgeId (Option NamedValue)) := do
  let edges ← graph.edgesBetweenAt source target time
  tabulate (fun edge => graph.namedReading? (.edge edge) name time) edges

end TimedGraph.Graph
