import TimedGraph.Graph.Mutation
import TimedGraph.Graph.Query

/-!
# Requests

Everything that can be asked of a graph, as data: changes and questions.  A graph answers
requests one after the other, and a request that fails does not keep it from answering
the next.
-/

namespace TimedGraph

/-- What can change a graph. -/
inductive Change where
  | addVertex (batch : List History) (time : Instant)
  | addEdge (source target : VertexId) (batch : List History) (time : Instant)
  | write (owner : Owner) (name : String) (value : Value) (time : Instant)
  | purge (time : Instant)
  deriving DecidableEq

/-- What can be asked about an instant. -/
inductive Question where
  | vertices (time : Instant)
  | edges (time : Instant)
  | outEdges (vertex : VertexId) (time : Instant)
  | inEdges (vertex : VertexId) (time : Instant)
  | edgesBetween (source target : VertexId) (time : Instant)
  | properties (owner : Owner) (time : Instant)
  | property (owner : Owner) (name : String) (time : Instant)
  | propertiesBetween (source target : VertexId) (time : Instant)
  | propertyBetween (source target : VertexId) (name : String) (time : Instant)
  deriving DecidableEq

/-- A change or a question. -/
inductive Request where
  | change (change : Change)
  | question (question : Question)
  deriving DecidableEq

/-- What a graph answers. -/
inductive Answer where
  | done
  | vertex (id : VertexId)
  | edge (id : EdgeId)
  | purged (stats : Graph.PurgeStats)
  | vertices (ids : List VertexId)
  | edges (ids : List EdgeId)
  | readings (values : List NamedValue)
  | reading (value : Option NamedValue)
  | readingsByEdge (values : Table EdgeId (List NamedValue))
  | readingByEdge (values : Table EdgeId (Option NamedValue))
  deriving DecidableEq

namespace Graph

/-- Carries out a change. -/
def carryOut (graph : Graph) : Change → Except Fault Answer × Graph
  | .addVertex batch time =>
    let (outcome, changed) := graph.addVertex batch time
    (.vertex <$> outcome, changed)
  | .addEdge source target batch time =>
    let (outcome, changed) := graph.addEdge source target batch time
    (.edge <$> outcome, changed)
  | .write owner name value time =>
    let (outcome, changed) := graph.writeProperty owner name value time
    ((fun _ => .done) <$> outcome, changed)
  | .purge time =>
    let (outcome, changed) := graph.purge time
    (.purged <$> outcome, changed)

/-- Answers a question. -/
def answer (graph : Graph) : Question → Except Fault Answer
  | .vertices time => .vertices <$> graph.verticesAt time
  | .edges time => .edges <$> graph.edgesAt time
  | .outEdges vertex time => .edges <$> graph.outEdgesAt vertex time
  | .inEdges vertex time => .edges <$> graph.inEdgesAt vertex time
  | .edgesBetween source target time => .edges <$> graph.edgesBetweenAt source target time
  | .properties owner time => .readings <$> graph.propertiesAt owner time
  | .property owner name time => .reading <$> graph.propertyAt owner name time
  | .propertiesBetween source target time =>
    .readingsByEdge <$> graph.propertiesBetweenAt source target time
  | .propertyBetween source target name time =>
    .readingByEdge <$> graph.propertyBetweenAt source target name time

/-- Answers a request. -/
def respond (graph : Graph) : Request → Except Fault Answer × Graph
  | .change change => graph.carryOut change
  | .question question => (graph.answer question, graph)

/-- The graph after a list of changes, failed ones included. -/
def after (graph : Graph) (changes : List Change) : Graph :=
  changes.foldl (fun graph change => (graph.carryOut change).2) graph

/-- Answers requests one after the other. -/
def run (graph : Graph) : List Request → List (Except Fault Answer) × Graph
  | [] => ([], graph)
  | request :: rest =>
    let (outcome, changed) := graph.respond request
    let (outcomes, final) := changed.run rest
    (outcome :: outcomes, final)

end Graph

end TimedGraph
