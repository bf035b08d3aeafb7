import TimedGraph.Graph.Request
import TimedGraph.Proofs.History

/-!
# Journals

A journal is kept beside a graph and notes what its changes came to, in the plainest form:
the vertices and edges that were added, with their instants, and for every property that
was attached the log of its values.  A write adds a pair to one log, a purge deletes from
every log, and a change that was refused is not noted.  The journal knows neither offsets
nor buckets nor records, so it says what a graph has to answer without saying how.

`Graph.Recorded` holds of the graphs that changes lead to, each with its journal.  What
the indices hold does not depend on the batches; what is read of properties is said for
batches of obtainable histories.
-/

namespace TimedGraph

/-- A vertex that was added. -/
structure VertexEntry where
  id : VertexId
  time : Instant
  deriving DecidableEq

/-- An edge that was added. -/
structure EdgeEntry where
  id : EdgeId
  source : VertexId
  target : VertexId
  time : Instant
  deriving DecidableEq

/-- A property that was attached to a vertex or an edge, with the log of its values. -/
structure PropertyEntry where
  owner : Owner
  id : PropertyId
  name : String
  log : List (Instant × Value)
  deriving DecidableEq

/-- The value of a property at an instant: that of the last pair of its log up to it. -/
def PropertyEntry.readingAt (entry : PropertyEntry) (time : Instant) : Option NamedValue :=
  (entry.log.filter (·.1 ≤ time)).getLast?.map fun pair => ⟨entry.name, pair.2⟩

/-- What the changes of a graph came to. -/
structure Journal where
  vertices : List VertexEntry
  edges : List EdgeEntry
  /-- The properties in the order of attachment. -/
  properties : List PropertyEntry
  deriving DecidableEq

namespace Journal

/-- The journal of no changes. -/
def empty : Journal := ⟨[], [], []⟩

/-- The instants at which vertices and edges were added. -/
def additions (journal : Journal) : List (Owner × Instant) :=
  journal.vertices.map (fun entry => (.vertex entry.id, entry.time)) ++
    journal.edges.map fun entry => (.edge entry.id, entry.time)

/-- What a batch attaches: its numbers in the order of their first occurrence, each with the
name and the log of the last history under it. -/
def attached (owner : Owner) (batch : List History) : List PropertyEntry :=
  (batch.map History.id).eraseDups.filterMap fun id =>
    (History.lastOf batch id).map fun history => ⟨owner, id, history.name, history.log⟩

/-- Adds a pair to the log of the property of an owner with a given name. -/
def write (journal : Journal) (owner : Owner) (name : String) (value : Value) (time : Instant) :
    Journal :=
  { journal with
    properties := journal.properties.map fun entry =>
      if entry.owner = owner ∧ entry.name = name then
        { entry with log := entry.log ++ [(time, value)] }
      else
        entry }

/-- Deletes the pairs up to an instant from every log. -/
def purge (journal : Journal) (time : Instant) : Journal :=
  { journal with
    properties := journal.properties.map fun entry =>
      { entry with log := entry.log.filter (time < ·.1) } }

/-- Notes a change by its outcome. -/
def note (journal : Journal) : Change → Except Fault Answer → Journal
  | .addVertex batch time, .ok (.vertex id) =>
    { journal with
      vertices := journal.vertices ++ [⟨id, time⟩]
      properties := journal.properties ++ attached (.vertex id) batch }
  | .addEdge source target batch time, .ok (.edge id) =>
    { journal with
      edges := journal.edges ++ [⟨id, source, target, time⟩]
      properties := journal.properties ++ attached (.edge id) batch }
  | .write owner name value time, .ok _ => journal.write owner name value time
  | .purge time, .ok _ => journal.purge time
  | _, _ => journal

@[simp]
theorem note_error (journal : Journal) (change : Change) (fault : Fault) :
    journal.note change (.error fault) = journal := by
  cases change <;> rfl

/-- Notes a list of changes, carried out one after the other from a graph. -/
def follow (journal : Journal) (graph : Graph) : List Change → Journal
  | [] => journal
  | change :: rest =>
    (journal.note change (graph.carryOut change).1).follow (graph.carryOut change).2 rest

/-- The vertices added up to an instant, by instant and number. -/
def verticesAt (journal : Journal) (time : Instant) : List VertexEntry :=
  chronological VertexEntry.time (fun entry => entry.id.number)
    (journal.vertices.filter (·.time ≤ time))

/-- The edges added up to an instant, by instant and number. -/
def edgesAt (journal : Journal) (time : Instant) : List EdgeEntry :=
  chronological EdgeEntry.time (fun entry => entry.id.number)
    (journal.edges.filter (·.time ≤ time))

/-- The properties of an owner, in the order of attachment. -/
def propertiesOf (journal : Journal) (owner : Owner) : List PropertyEntry :=
  journal.properties.filter (·.owner = owner)

/-- The values of the properties of an owner, without those that have none yet. -/
def readingsAt (journal : Journal) (owner : Owner) (time : Instant) : List NamedValue :=
  (journal.propertiesOf owner).filterMap fun entry => entry.readingAt time

end Journal

/-- The histories that a change brings along are obtainable. -/
def Change.Obtainable : Change → Prop
  | .addVertex batch _ => ∀ history ∈ batch, history.Obtainable
  | .addEdge _ _ batch _ => ∀ history ∈ batch, history.Obtainable
  | .write _ _ _ _ => True
  | .purge _ => True

/-- The graphs that changes of a kind lead to from the empty graph of a setting, with their
journals. -/
inductive Graph.Recorded (Allowed : Change → Prop) (setting : Setting) :
    Graph → Journal → Prop where
  | start : Recorded Allowed setting (.empty setting) .empty
  | step {graph : Graph} {journal : Journal} (before : Recorded Allowed setting graph journal)
      (change : Change) (allowed : Allowed change) :
      Recorded Allowed setting (graph.carryOut change).2
        (journal.note change (graph.carryOut change).1)

end TimedGraph
