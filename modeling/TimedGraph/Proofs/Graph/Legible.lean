import TimedGraph.Graph.Request
import TimedGraph.Proofs.Graph.Batch

/-!
# No fault of a codec

Only fetching from the archive can fail for a series that cannot be read, and over a
canonical archive it does not: what is read of a property is read of its history, and the
readings of an owner are a plain selection from its properties.  What a graph answers is
put together from steps that are legible in this sense, and so is legible itself.
-/

namespace TimedGraph

/-- An outcome is not a fault of a codec. -/
def Legible {α : Type} (outcome : Except Fault α) : Prop :=
  ∀ fault, outcome ≠ .error (.codec fault)

namespace Legible

variable {α β : Type}

theorem ok (value : α) : Legible (.ok value) :=
  fun _ => nofun

/-- A fault that is passed on is as legible as where it comes from. -/
theorem of_eq_error {outcome : Except Fault α} {fault : Fault} (legible : Legible outcome)
    (failed : outcome = .error fault) : Legible (.error fault : Except Fault β) := by
  intro codec same
  exact legible codec (failed.trans (congrArg Except.error (Except.error.inj same)))

theorem bind {outcome : Except Fault α} {next : α → Except Fault β} (first : Legible outcome)
    (rest : ∀ found, Legible (next found)) : Legible (outcome >>= next) := by
  cases outcome with
  | error fault => exact first.of_eq_error rfl
  | ok found => exact rest found

theorem map {outcome : Except Fault α} (legible : Legible outcome) (change : α → β) :
    Legible (change <$> outcome) := by
  cases outcome with
  | error fault => exact legible.of_eq_error rfl
  | ok found => exact .ok _

end Legible

namespace Graph

variable {graph : Graph}

theorem legible_offset (graph : Graph) (time : Instant) : Legible (graph.offset time) := by
  simp only [offset]
  split <;> simp [Legible]

theorem legible_checkVertex (graph : Graph) (vertex : VertexId) :
    Legible (graph.checkVertex vertex) := by
  simp only [checkVertex]
  split <;> simp [Legible]

theorem legible_check (graph : Graph) (owner : Owner) : Legible (graph.check owner) := by
  cases owner with
  | vertex vertex => exact graph.legible_checkVertex vertex
  | edge edge =>
    simp only [check, checkEdge]
    split <;> simp [Legible]

theorem legible_checkBatchFrom (archive : Archive) (owner : Owner) (added : Instant)
    (roster : Roster) (batch : List History) :
    Legible (checkBatchFrom archive owner added roster batch) := by
  induction batch generalizing roster with
  | nil => exact .ok ()
  | cons history rest ih =>
    have checked : Legible (checkHistory archive owner added roster history) := by
      simp only [checkHistory]
      repeat' split
      all_goals simp [Legible]
    exact checked.bind fun _ => ih _

theorem legible_checkBatch (archive : Archive) (owner : Owner) (added : Instant)
    (batch : List History) : Legible (checkBatch archive owner added batch) :=
  legible_checkBatchFrom archive owner added .empty batch

theorem legible_draw (counter : Counter) (kind : EntityKind) : Legible (draw counter kind) := by
  simp only [draw]
  split <;> simp [Legible]

theorem legible_property? (graph : Graph) (owner : Owner) (name : String) :
    Legible (graph.property? owner name) := by
  simp only [property?]
  split <;> simp [Legible]

theorem legible_historyWrite (history : History) (time : Instant) (value : Value) :
    Legible (history.write time value).1 := by
  simp only [History.write]
  repeat' split
  all_goals simp [Legible]

theorem legible_tabulate {α : Type} {answer : EdgeId → Except Fault α}
    (each : ∀ edge, Legible (answer edge)) (edges : List EdgeId) :
    Legible (tabulate answer edges) := by
  induction edges with
  | nil => exact .ok ∅
  | cons edge rest ih => exact (each edge).bind fun _ => ih.bind fun _ => .ok _

theorem legible_edgesBetweenAt (graph : Graph) (source target : VertexId) (time : Instant) :
    Legible (graph.edgesBetweenAt source target time) :=
  (graph.legible_offset time).bind fun _ => (graph.legible_checkVertex source).bind fun _ =>
    (graph.legible_checkVertex target).bind fun _ => .ok _

theorem legible_addVertex (graph : Graph) (batch : List History) (time : Instant) :
    Legible (graph.addVertex batch time).1 := by
  have prepared : Legible (graph.prepareVertex batch time) :=
    (graph.legible_offset time).bind fun _ => (legible_checkBatch _ _ _ batch).bind fun _ =>
      (legible_draw _ _).bind fun _ => .ok _
  simp only [addVertex]
  split
  · rename_i fault failed
    exact prepared.of_eq_error failed
  · exact .ok _

theorem legible_addEdge (graph : Graph) (source target : VertexId) (batch : List History)
    (time : Instant) : Legible (graph.addEdge source target batch time).1 := by
  have prepared : Legible (graph.prepareEdge source target batch time) :=
    (graph.legible_offset time).bind fun _ => (graph.legible_checkVertex source).bind fun _ =>
      (graph.legible_checkVertex target).bind fun _ =>
        (legible_checkBatch _ _ _ batch).bind fun _ => (legible_draw _ _).bind fun _ => .ok _
  simp only [addEdge]
  split
  · rename_i fault failed
    exact prepared.of_eq_error failed
  · exact .ok _

section

variable (canonical : graph.archive.Canonical)

include canonical

theorem reading?_eq (time : Instant) (id : PropertyId) :
    graph.reading? time id =
      .ok ((graph.archive.history? id).bind fun history => history.readingAt time) := by
  simp only [reading?, canonical.fetch?_eq]
  rfl

theorem readings_eq (owner : Owner) (time : Instant) :
    graph.readings owner time =
      .ok ((graph.owned owner).filterMap fun id =>
        (graph.archive.history? id).bind fun history => history.readingAt time) := by
  have each : graph.reading? time = fun id =>
      pure ((graph.archive.history? id).bind fun history => history.readingAt time) :=
    funext (reading?_eq canonical time)
  rw [readings, each, List.mapM_pure, pure_bind, List.filterMap_map, Function.id_comp]
  rfl

theorem legible_reading? (time : Instant) (id : PropertyId) :
    Legible (graph.reading? time id) := by
  simp only [reading?_eq canonical]
  exact .ok _

theorem legible_readings (owner : Owner) (time : Instant) :
    Legible (graph.readings owner time) := by
  simp only [readings_eq canonical]
  exact .ok _

theorem legible_namedReading? (owner : Owner) (name : String) (time : Instant) :
    Legible (graph.namedReading? owner name time) := by
  apply (graph.legible_property? owner name).bind
  intro found
  cases found with
  | none => exact .ok none
  | some id => exact legible_reading? canonical time id

theorem legible_history (owner : Owner) (name : String) : Legible (graph.history owner name) := by
  apply (graph.legible_property? owner name).bind
  intro found
  cases found with
  | none => simp [Legible]
  | some id =>
    simp only [canonical.fetch?_eq]
    apply (Legible.ok _).bind
    intro fetched
    cases fetched with
    | none => simp [Legible]
    | some history => exact .ok history

theorem legible_answer (question : Question) : Legible (graph.answer question) := by
  cases question with
  | vertices time => exact ((graph.legible_offset time).bind fun _ => .ok _).map _
  | edges time => exact ((graph.legible_offset time).bind fun _ => .ok _).map _
  | outEdges vertex time =>
    exact ((graph.legible_offset time).bind fun _ =>
      (graph.legible_checkVertex vertex).bind fun _ => .ok _).map _
  | inEdges vertex time =>
    exact ((graph.legible_offset time).bind fun _ =>
      (graph.legible_checkVertex vertex).bind fun _ => .ok _).map _
  | edgesBetween source target time =>
    exact (graph.legible_edgesBetweenAt source target time).map _
  | properties owner time =>
    exact ((graph.legible_offset time).bind fun _ => (graph.legible_check owner).bind fun _ =>
      legible_readings canonical owner time).map _
  | property owner name time =>
    exact ((graph.legible_offset time).bind fun _ => (graph.legible_check owner).bind fun _ =>
      legible_namedReading? canonical owner name time).map _
  | propertiesBetween source target time =>
    exact ((graph.legible_edgesBetweenAt source target time).bind fun edges =>
      legible_tabulate (fun edge => legible_readings canonical (.edge edge) time) edges).map _
  | propertyBetween source target name time =>
    exact ((graph.legible_edgesBetweenAt source target time).bind fun edges =>
      legible_tabulate (fun edge => legible_namedReading? canonical (.edge edge) name time)
        edges).map _

theorem legible_writeProperty (owner : Owner) (name : String) (value : Value) (time : Instant) :
    Legible (graph.writeProperty owner name value time).1 := by
  have prepared : Legible (graph.prepareWrite owner name time) :=
    (graph.legible_offset time).bind fun _ => (graph.legible_check owner).bind fun _ =>
      legible_history canonical owner name
  simp only [writeProperty]
  split
  · rename_i fault failed
    exact prepared.of_eq_error failed
  · rename_i history _
    have written := legible_historyWrite history time value
    split
    · rename_i failed
      simp only [failed] at written
      exact written.of_eq_error rfl
    · exact .ok ()

theorem legible_purge (time : Instant) : Legible (graph.purge time).1 := by
  have checked := graph.legible_offset time
  simp only [Graph.purge]
  split
  · rename_i fault failed
    exact checked.of_eq_error failed
  · rename_i offset _
    rcases canonical.purge time (((graph.edges.upTo offset).map Owner.edge ++
      (graph.vertices.upTo offset).map Owner.vertex).flatMap graph.owned) with
        ⟨purged, rewritten, run, _⟩
    simp only [run]
    exact .ok _

theorem legible_respond (request : Request) : Legible (graph.respond request).1 := by
  cases request with
  | question question => exact legible_answer canonical question
  | change change =>
    cases change with
    | addVertex batch time => exact (graph.legible_addVertex batch time).map _
    | addEdge source target batch time =>
      exact (graph.legible_addEdge source target batch time).map _
    | write owner name value time =>
      exact (legible_writeProperty canonical owner name value time).map _
    | purge time => exact (legible_purge canonical time).map _

end

end Graph

end TimedGraph
