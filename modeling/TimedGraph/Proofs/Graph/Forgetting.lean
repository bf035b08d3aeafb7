import Mathlib.Data.List.Forall2
import TimedGraph.Proofs.Graph.Frame
import TimedGraph.Proofs.Graph.Legible
import TimedGraph.Proofs.Graph.Purging

/-!
# A purge is noticed in values alone

A graph and the same graph after a purge are framed alike, and every history of the second is
what remains of the first.  The purge leaves the latest write of a history in place, so
later writes are accepted by both or refused by both, and all names and numbers, so later
batches are too.  From the two graphs any requests are therefore answered alike but for
values: a listing after the purge is a part of the one without it, and a later purge finds
no more to rewrite.
-/

namespace TimedGraph

/-- What remains of an answer where a purge came before: all of it, but for values, and for
histories that a purge rewrites. -/
inductive Answer.Remains : Answer → Answer → Prop where
  | done : Remains .done .done
  | vertex (id : VertexId) : Remains (.vertex id) (.vertex id)
  | edge (id : EdgeId) : Remains (.edge id) (.edge id)
  | vertices (ids : List VertexId) : Remains (.vertices ids) (.vertices ids)
  | edges (ids : List EdgeId) : Remains (.edges ids) (.edges ids)
  | purged {whole left : Graph.PurgeStats} (vertices : whole.vertices = left.vertices)
      (edges : whole.edges = left.edges) (fewer : left.rewritten ≤ whole.rewritten) :
      Remains (.purged whole) (.purged left)
  | readings {whole left : List NamedValue} (fewer : left.Sublist whole) :
      Remains (.readings whole) (.readings left)
  | reading {whole left : Option NamedValue} (kept : left = none ∨ left = whole) :
      Remains (.reading whole) (.reading left)
  | readingsByEdge {whole left : Table EdgeId (List NamedValue)}
      (fewer : ∀ edge, Option.Rel (fun whole left => left.Sublist whole) (whole.get? edge)
        (left.get? edge)) : Remains (.readingsByEdge whole) (.readingsByEdge left)
  | readingByEdge {whole left : Table EdgeId (Option NamedValue)}
      (kept : ∀ edge, Option.Rel (fun whole left => left = none ∨ left = whole)
        (whole.get? edge) (left.get? edge)) : Remains (.readingByEdge whole) (.readingByEdge left)

theorem History.Remains.compatible : History.Compatible History.Remains where
  refl := .all
  name_eq := name_eq
  write := write
  purge := purge

theorem Archive.Purged.matched {archive purged : Archive} {time : Instant}
    (canonical : archive.Canonical)
    (sound : ∀ {id history}, archive.history? id = some history → history.Sound)
    (purgedTo : archive.Purged time purged) : Archive.Matched History.Remains archive purged where
  firstCanonical := canonical
  secondCanonical := purgedTo.canonical
  histories id := by
    rw [purgedTo.history?_eq]
    cases found : archive.history? id with
    | none => exact .none
    | some history => exact .some (History.Remains.beyond (sound found) time)

theorem filterMap_sublist {α β : Type} {first second : α → Option β}
    (kept : ∀ item, second item = none ∨ second item = first item) (items : List α) :
    (items.filterMap second).Sublist (items.filterMap first) := by
  induction items with
  | nil => exact .slnil
  | cons item rest ih =>
    rw [List.filterMap_cons, List.filterMap_cons]
    rcases kept item with lost | same
    · rw [lost]
      cases first item with
      | none => exact ih
      | some value => exact ih.cons value
    · rw [same]
      cases first item with
      | none => exact ih
      | some value => exact ih.cons_cons value

namespace Graph

variable {setting : Setting} {graph : Graph} {journal : Journal} {time : Instant}

/-- Matching answers for the edges of a list make tables that match edge by edge. -/
theorem tabulate_matches {α : Type} {Related : α → α → Prop}
    {first second : EdgeId → Except Fault α}
    (each : ∀ edge, Matches Related (first edge) (second edge)) (edges : List EdgeId) :
    Matches (fun table other => ∀ edge, Option.Rel Related (table.get? edge) (other.get? edge))
      (tabulate first edges) (tabulate second edges) := by
  induction edges with
  | nil => exact .ok fun _ => .none
  | cons edge rest ih =>
    apply (each edge).bind
    intro found other related
    apply ih.bind
    intro table otherTable matched
    apply Matches.ok
    intro wanted
    rw [Table.get?_insert, Table.get?_insert]
    split
    · exact .some related
    · exact matched wanted

namespace Framed

variable {whole left : Graph} (framed : Framed History.Remains whole left)

include framed

theorem reading_kept (time : Instant) (id : PropertyId) :
    ((left.archive.history? id).bind fun history => history.readingAt time) = none ∨
      ((left.archive.history? id).bind fun history => history.readingAt time) =
        (whole.archive.history? id).bind fun history => history.readingAt time := by
  rcases framed.archives.found_cases id with ⟨_, absent⟩ | ⟨history, other, found, isOther, remains⟩
  · rw [absent]
    exact .inl rfl
  · rw [found, isOther]
    exact remains.readingAt time

theorem readings (owner : Owner) (time : Instant) :
    Matches (fun all fewer => fewer.Sublist all) (whole.readings owner time)
      (left.readings owner time) := by
  rw [readings_eq framed.archives.firstCanonical, readings_eq framed.archives.secondCanonical,
    framed.owned_eq]
  exact .ok (filterMap_sublist (framed.reading_kept time) _)

theorem namedReading? (owner : Owner) (name : String) (time : Instant) :
    Matches (fun all kept => kept = none ∨ kept = all) (whole.namedReading? owner name time)
      (left.namedReading? owner name time) := by
  simp only [Graph.namedReading?, framed.property?_eq History.Remains.compatible]
  apply Matches.bind_same
  intro found
  cases found with
  | none => exact .ok (.inl rfl)
  | some id =>
    simp only [reading?_eq framed.archives.firstCanonical,
      reading?_eq framed.archives.secondCanonical]
    exact .ok (framed.reading_kept time id)

theorem answer (question : Question) :
    Matches Answer.Remains (whole.answer question) (left.answer question) := by
  cases question with
  | vertices time =>
    simp only [Graph.answer, verticesAt, framed.offset_eq, framed.vertices]
    exact .map_same .vertices
  | edges time =>
    simp only [Graph.answer, edgesAt, framed.offset_eq, framed.edges]
    exact .map_same .edges
  | outEdges vertex time =>
    simp only [Graph.answer, outEdgesAt, framed.offset_eq, framed.checkVertex_eq, framed.outgoing]
    exact .map_same .edges
  | inEdges vertex time =>
    simp only [Graph.answer, inEdgesAt, framed.offset_eq, framed.checkVertex_eq, framed.incoming]
    exact .map_same .edges
  | edgesBetween source target time =>
    simp only [Graph.answer, framed.edgesBetweenAt_eq]
    exact .map_same .edges
  | properties owner time =>
    simp only [Graph.answer, propertiesAt, framed.offset_eq, framed.check_eq]
    refine Matches.map ?_ .readings
    apply Matches.bind_same
    intro _
    apply Matches.bind_same
    intro _
    exact framed.readings owner time
  | property owner name time =>
    simp only [Graph.answer, propertyAt, framed.offset_eq, framed.check_eq]
    refine Matches.map ?_ .reading
    apply Matches.bind_same
    intro _
    apply Matches.bind_same
    intro _
    exact framed.namedReading? owner name time
  | propertiesBetween source target time =>
    simp only [Graph.answer, propertiesBetweenAt, framed.edgesBetweenAt_eq]
    refine Matches.map ?_ .readingsByEdge
    apply Matches.bind_same
    intro edges
    apply tabulate_matches
    intro edge
    exact framed.readings (.edge edge) time
  | propertyBetween source target name time =>
    simp only [Graph.answer, propertyBetweenAt, framed.edgesBetweenAt_eq]
    refine Matches.map ?_ .readingByEdge
    apply Matches.bind_same
    intro edges
    apply tabulate_matches
    intro edge
    exact framed.namedReading? (.edge edge) name time

/-- A request is answered alike but for values, and leaves the graphs framed. -/
theorem respond (request : Request) :
    Matches Answer.Remains (whole.respond request).1 (left.respond request).1 ∧
      Framed History.Remains (whole.respond request).2 (left.respond request).2 := by
  have compatible := History.Remains.compatible
  cases request with
  | question question => exact ⟨framed.answer question, framed⟩
  | change change =>
    cases change with
    | addVertex batch time =>
      rcases framed.addVertex compatible batch time with ⟨same, after⟩
      refine ⟨?_, after⟩
      simp only [Graph.respond, carryOut, same]
      exact .map_same .vertex
    | addEdge source target batch time =>
      rcases framed.addEdge compatible source target batch time with ⟨same, after⟩
      refine ⟨?_, after⟩
      simp only [Graph.respond, carryOut, same]
      exact .map_same .edge
    | write owner name value time =>
      rcases framed.writeProperty compatible owner name value time with ⟨same, after⟩
      refine ⟨?_, after⟩
      simp only [Graph.respond, carryOut, same]
      exact .map_same fun _ => .done
    | purge time =>
      rcases framed.purge compatible time with ⟨outcomes, after⟩
      refine ⟨outcomes.map ?_, after⟩
      rintro stats other ⟨vertices, edges, fewer⟩
      exact .purged vertices edges fewer

theorem run (requests : List Request) :
    List.Forall₂ (Matches Answer.Remains) (whole.run requests).1 (left.run requests).1 ∧
      Framed History.Remains (whole.run requests).2 (left.run requests).2 := by
  induction requests generalizing whole left with
  | nil => exact ⟨.nil, framed⟩
  | cons request rest ih =>
    rcases framed.respond request with ⟨outcome, after⟩
    rcases ih after with ⟨outcomes, later⟩
    exact ⟨.cons outcome outcomes, later⟩

end Framed

/-- A purge is invisible but for values.  From a graph and from the same graph after a purge, any
list of requests is answered position by position with the same fault or with an answer of which
at most values and rewritten histories are missing, and leads to the same counts. -/
theorem Recorded.purge_forgets (recorded : Recorded Change.Obtainable setting graph journal)
    (inWindow : time.InWindow setting.reference) (requests : List Request) :
    List.Forall₂ (Matches Answer.Remains) (graph.run requests).1
      ((graph.purge time).2.run requests).1 ∧
    (graph.run requests).2.vertexCount = ((graph.purge time).2.run requests).2.vertexCount ∧
    (graph.run requests).2.edgeCount = ((graph.purge time).2.run requests).2.edgeCount ∧
    (graph.run requests).2.propertyCount = ((graph.purge time).2.run requests).2.propertyCount := by
  rcases recorded.purge_eq inWindow with ⟨purged, run, purgedTo⟩
  have start : Framed History.Remains graph (graph.purge time).2 := by
    rw [run]
    constructor
    case archives => exact purgedTo.matched recorded.canonical recorded.holdings.sound
    all_goals rfl
  rcases start.run requests with ⟨outcomes, framed⟩
  refine ⟨outcomes, ?_, ?_, framed.propertyCount_eq History.Remains.compatible⟩
  · rw [vertexCount, vertexCount, framed.vertexCounter]
  · rw [edgeCount, edgeCount, framed.edgeCounter]

theorem purge_forgets_sample :
    List.Forall₂ (Matches Answer.Remains)
      (sampleGraph.run [.question (.properties (.vertex ⟨0⟩) ⟨125⟩),
        .change (.write (.vertex ⟨0⟩) "load" (.int32 5) ⟨128⟩), .change (.purge ⟨126⟩)]).1
      ((sampleGraph.purge ⟨125⟩).2.run [.question (.properties (.vertex ⟨0⟩) ⟨125⟩),
        .change (.write (.vertex ⟨0⟩) "load" (.int32 5) ⟨128⟩), .change (.purge ⟨126⟩)]).1 :=
  (sample_recorded.purge_forgets (by decide) _).1

end Graph

end TimedGraph
