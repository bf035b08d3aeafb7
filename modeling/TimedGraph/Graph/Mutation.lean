import TimedGraph.Graph.Basic

/-!
# Changes of a graph

A change answers its outcome together with the graph after it, also when it fails.
Adding a vertex or an edge takes a batch of histories along.  The batch is checked
before a number is drawn, history by history, each against the archive and against a roster
of those before it; the owner gets the numbers of the batch in the order of their first
occurrence, and the archive the last history of each number.

Purging visits what exists at the instant.  That is enough to purge every history of the
archive, because a history is never older than its owner.
-/

namespace TimedGraph.Graph

/-- What a purge came to. -/
structure PurgeStats where
  /-- The number of vertices at the instant. -/
  vertices : Nat
  /-- The number of edges at the instant. -/
  edges : Nat
  /-- The number of histories that lost entries. -/
  rewritten : Nat
  deriving DecidableEq

/-- The names and numbers of the histories of a batch, as two maps, newest first: a history
hides earlier ones of its name in the one map, and of its number in the other. -/
structure Roster where
  numbers : List (String × PropertyId)
  names : List (PropertyId × String)

/-- The roster without histories. -/
def Roster.empty : Roster := ⟨[], []⟩

/-- Enters a history under its name and under its number. -/
def Roster.enter (roster : Roster) (history : History) : Roster where
  numbers := (history.name, history.id) :: roster.numbers
  names := (history.id, history.name) :: roster.names

/-- Checks a history of a batch for an owner added at an instant, against the archive and the
roster of the histories before it. -/
def checkHistory (archive : Archive) (owner : Owner) (added : Instant) (roster : Roster)
    (history : History) : Except Fault Unit :=
  if history.created < added then
    .error (.propertyOrdering (.olderThanOwner history.name history.created owner.kind added))
  else if archive.contains history.id then
    .error (.propertyIdInUse history.id)
  else if (roster.numbers.lookup history.name).any (· ≠ history.id) then
    .error (.duplicateProperty history.name owner)
  else if (roster.names.lookup history.id).any (· ≠ history.name) then
    .error (.propertyIdInUse history.id)
  else
    .ok ()

/-- Checks the rest of a batch, with the roster of what has been checked. -/
def checkBatchFrom (archive : Archive) (owner : Owner) (added : Instant) (roster : Roster) :
    List History → Except Fault Unit
  | [] => .ok ()
  | history :: rest => do
    checkHistory archive owner added roster history
    checkBatchFrom archive owner added (roster.enter history) rest

/-- Checks a batch for an owner added at an instant. -/
def checkBatch (archive : Archive) (owner : Owner) (added : Instant) (batch : List History) :
    Except Fault Unit :=
  checkBatchFrom archive owner added .empty batch

/-- The numbers of a batch, each once, in the order of their first occurrence. -/
def batchIds (batch : List History) : List PropertyId :=
  (batch.map History.id).eraseDups

/-- Stores a batch in the order given. -/
def storeBatch (archive : Archive) (batch : List History) : Archive :=
  batch.foldl Archive.store archive

/-- Records what a batch gives its owner; an owner of nothing is not recorded. -/
def attach (ownership : Table Owner (List PropertyId)) (owner : Owner) (batch : List History) :
    Table Owner (List PropertyId) :=
  if batch.isEmpty then ownership else ownership.insert owner (batchIds batch)

/-- The next number of a counter, for an entity of a kind. -/
def draw (counter : Counter) (kind : EntityKind) : Except Fault (UInt32 × Counter) :=
  match counter.draw? with
  | some drawn => .ok drawn
  | none => .error (.idSpaceExhausted kind)

/-- The offset, the number and the next counter of a vertex that is to be added. -/
def prepareVertex (graph : Graph) (batch : List History) (time : Instant) :
    Except Fault (Offset × UInt32 × Counter) := do
  let offset ← graph.offset time
  checkBatch graph.archive (.vertex ⟨graph.vertexCounter.next⟩) time batch
  let (number, counter) ← draw graph.vertexCounter .vertex
  return (offset, number, counter)

/-- Adds a vertex as of an instant, with a batch of properties. -/
def addVertex (graph : Graph) (batch : List History) (time : Instant) :
    Except Fault VertexId × Graph :=
  match graph.prepareVertex batch time with
  | .error fault => (.error fault, graph)
  | .ok (offset, number, counter) =>
    (.ok ⟨number⟩, { graph with
      vertexCounter := counter
      vertices := graph.vertices.insert offset ⟨number⟩
      ownership := attach graph.ownership (.vertex ⟨number⟩) batch
      archive := storeBatch graph.archive batch })

/-- The offset, the number and the next counter of an edge that is to be added. -/
def prepareEdge (graph : Graph) (source target : VertexId) (batch : List History)
    (time : Instant) : Except Fault (Offset × UInt32 × Counter) := do
  let offset ← graph.offset time
  graph.checkVertex source
  graph.checkVertex target
  checkBatch graph.archive (.edge ⟨graph.edgeCounter.next⟩) time batch
  let (number, counter) ← draw graph.edgeCounter .edge
  return (offset, number, counter)

/-- Adds an edge from one known vertex to another as of an instant, with a batch of properties. -/
def addEdge (graph : Graph) (source target : VertexId) (batch : List History) (time : Instant) :
    Except Fault EdgeId × Graph :=
  match graph.prepareEdge source target batch time with
  | .error fault => (.error fault, graph)
  | .ok (offset, number, counter) =>
    (.ok ⟨number⟩, { graph with
      edgeCounter := counter
      edges := graph.edges.insert offset ⟨number⟩
      outgoing := graph.outgoing.insert source offset ⟨number⟩
      incoming := graph.incoming.insert target offset ⟨number⟩
      ownership := attach graph.ownership (.edge ⟨number⟩) batch
      archive := storeBatch graph.archive batch })

/-- The history of an owner's property with a given name, which has to be there. -/
def history (graph : Graph) (owner : Owner) (name : String) : Except Fault History := do
  match ← graph.property? owner name with
  | none => .error (.propertyNotFound name owner)
  | some id =>
    match ← graph.archive.fetch? id with
    | none => .error (.propertyNotFound name owner)
    | some history => .ok history

/-- The history of a property to which a vertex or an edge is to get a value at an instant. -/
def prepareWrite (graph : Graph) (owner : Owner) (name : String) (time : Instant) :
    Except Fault History := do
  let _ ← graph.offset time
  graph.check owner
  graph.history owner name

/-- Appends a value to the property of a vertex or an edge with a given name. -/
def writeProperty (graph : Graph) (owner : Owner) (name : String) (value : Value)
    (time : Instant) : Except Fault Unit × Graph :=
  match graph.prepareWrite owner name time with
  | .error fault => (.error fault, graph)
  | .ok history =>
    match history.write time value with
    | (.error fault, _) => (.error fault, graph)
    | (.ok (), longer) => (.ok (), { graph with archive := graph.archive.store longer })

/-- Drops all values written at or before an instant.  What exists at the instant is visited,
edges before vertices; the graph itself stays as it is. -/
def purge (graph : Graph) (time : Instant) : Except Fault PurgeStats × Graph :=
  match graph.offset time with
  | .error fault => (.error fault, graph)
  | .ok offset =>
    let edges := graph.edges.upTo offset
    let vertices := graph.vertices.upTo offset
    let visited := edges.map Owner.edge ++ vertices.map Owner.vertex
    let (outcome, archive) := graph.archive.purge time (visited.flatMap graph.owned)
    ((fun rewritten => ⟨vertices.length, edges.length, rewritten⟩) <$> outcome,
      { graph with archive := archive })

end TimedGraph.Graph
