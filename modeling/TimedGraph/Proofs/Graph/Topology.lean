import TimedGraph.Proofs.Graph.Run
import TimedGraph.Proofs.Timeline

/-!
# The topology of a graph is that of its journal

The indices of a graph are the timelines of its journal's entries: all vertices, all edges,
and the edges of each vertex by source and by target.  Every change keeps this so
(`Topology.step`), whatever the order of the instants, since a timeline depends on the log
alone.  Listings are then chronological, because entries are noted by ascending number.

The edges between two vertices are found by intersecting two listings by number.  That
they are the edges with these two ends rests on each number naming one entry.
-/

namespace TimedGraph

namespace Graph

/-- The arrivals at a timeline that entries of a journal make. -/
def arrivals {α β : Type} (reference : Instant) (time : α → Instant) (id : α → β)
    (entries : List α) : List (Offset × β) :=
  entries.map fun entry => ((time entry).since reference, id entry)

/-- The indices of a graph are those of its journal. -/
structure Topology (graph : Graph) (journal : Journal) : Prop where
  vertexNumbers : journal.vertices.map (fun entry => entry.id.number.toNat) =
    List.range graph.vertexCount
  edgeNumbers : journal.edges.map (fun entry => entry.id.number.toNat) =
    List.range graph.edgeCount
  verticesInWindow : ∀ entry ∈ journal.vertices, entry.time.InWindow graph.setting.reference
  edgesInWindow : ∀ entry ∈ journal.edges, entry.time.InWindow graph.setting.reference
  vertices : graph.vertices =
    .ofLog (arrivals graph.setting.reference VertexEntry.time VertexEntry.id journal.vertices)
  edges : graph.edges =
    .ofLog (arrivals graph.setting.reference EdgeEntry.time EdgeEntry.id journal.edges)
  outgoing : ∀ vertex, graph.outgoing.timeline vertex =
    .ofLog (arrivals graph.setting.reference EdgeEntry.time EdgeEntry.id
      (journal.edges.filter (·.source = vertex)))
  incoming : ∀ vertex, graph.incoming.timeline vertex =
    .ofLog (arrivals graph.setting.reference EdgeEntry.time EdgeEntry.id
      (journal.edges.filter (·.target = vertex)))

theorem arrivals_concat {α β : Type} (reference : Instant) (time : α → Instant) (id : α → β)
    (entries : List α) (entry : α) :
    Timeline.ofLog (arrivals reference time id (entries ++ [entry])) =
      (Timeline.ofLog (arrivals reference time id entries)).insert
        ((time entry).since reference) (id entry) := by
  simp only [arrivals, List.map_append, List.map_cons, List.map_nil, Timeline.ofLog_concat]

variable {graph changed : Graph} {journal : Journal}

theorem toNat_succ {number : UInt32} (room : number.toNat + 1 < UInt32.size) :
    (number + 1).toNat = number.toNat + 1 := by
  simp only [UInt32.toNat_add]
  exact Nat.mod_eq_of_lt room

namespace Topology

theorem start (setting : Setting) : Topology (.empty setting) .empty where
  vertexNumbers := rfl
  edgeNumbers := rfl
  verticesInWindow := by simp [Journal.empty]
  edgesInWindow := by simp [Journal.empty]
  vertices := rfl
  edges := rfl
  outgoing _ := rfl
  incoming _ := rfl

theorem withVertex (topology : Topology graph journal) {batch : List History} {time : Instant}
    (inWindow : time.InWindow graph.setting.reference)
    (room : graph.vertexCount + 1 < UInt32.size) :
    Topology (graph.withVertex batch time)
      (journal.note (.addVertex batch time) (.ok (.vertex graph.freshVertex))) where
  vertexNumbers := by
    have counted : (graph.withVertex batch time).vertexCount = graph.vertexCount + 1 :=
      toNat_succ room
    rw [counted, List.range_succ, ← topology.vertexNumbers, Journal.note, List.map_append]
    rfl
  edgeNumbers := topology.edgeNumbers
  verticesInWindow entry mem := by
    rcases List.mem_append.mp mem with old | new
    · exact topology.verticesInWindow entry old
    · have same := List.mem_singleton.mp new
      subst same
      exact inWindow
  edgesInWindow := topology.edgesInWindow
  vertices := by
    simp only [Journal.note, arrivals_concat]
    exact congrArg (fun timeline : Timeline VertexId =>
      timeline.insert (time.since graph.setting.reference) graph.freshVertex) topology.vertices
  edges := topology.edges
  outgoing := topology.outgoing
  incoming := topology.incoming

theorem timeline_insert {adjacency : Adjacency} {reference : Instant} {edges : List EdgeEntry}
    (entry : EdgeEntry) (vertexOf : EdgeEntry → VertexId)
    (before : ∀ vertex, adjacency.timeline vertex =
      .ofLog (arrivals reference EdgeEntry.time EdgeEntry.id
        (edges.filter (vertexOf · = vertex)))) (vertex : VertexId) :
    (adjacency.insert (vertexOf entry) (entry.time.since reference) entry.id).timeline vertex =
      .ofLog (arrivals reference EdgeEntry.time EdgeEntry.id
        ((edges ++ [entry]).filter (vertexOf · = vertex))) := by
  simp only [Adjacency.timeline_insert, List.filter_append]
  by_cases here : vertex = vertexOf entry
  · subst here
    have held : [entry].filter (vertexOf · = vertexOf entry) = [entry] := by simp
    rw [if_pos rfl, held, arrivals_concat, before]
  · have away : ([entry].filter (vertexOf · = vertex)) = [] := by simp [Ne.symm here]
    simp only [if_neg here, away, List.append_nil, before]

theorem withEdge (topology : Topology graph journal) {source target : VertexId}
    {batch : List History} {time : Instant} (inWindow : time.InWindow graph.setting.reference)
    (room : graph.edgeCount + 1 < UInt32.size) :
    Topology (graph.withEdge source target batch time)
      (journal.note (.addEdge source target batch time) (.ok (.edge graph.freshEdge))) where
  vertexNumbers := topology.vertexNumbers
  edgeNumbers := by
    have counted : (graph.withEdge source target batch time).edgeCount = graph.edgeCount + 1 :=
      toNat_succ room
    rw [counted, List.range_succ, ← topology.edgeNumbers, Journal.note, List.map_append]
    rfl
  verticesInWindow := topology.verticesInWindow
  edgesInWindow entry mem := by
    rcases List.mem_append.mp mem with old | new
    · exact topology.edgesInWindow entry old
    · have same := List.mem_singleton.mp new
      subst same
      exact inWindow
  vertices := topology.vertices
  edges := by
    simp only [Journal.note, arrivals_concat]
    exact congrArg (fun timeline : Timeline EdgeId =>
      timeline.insert (time.since graph.setting.reference) graph.freshEdge) topology.edges
  outgoing := timeline_insert ⟨graph.freshEdge, source, target, time⟩ EdgeEntry.source
    topology.outgoing
  incoming := timeline_insert ⟨graph.freshEdge, source, target, time⟩ EdgeEntry.target
    topology.incoming

/-- Every change keeps the topology that of the journal. -/
theorem step (topology : Topology graph journal) {change : Change}
    {outcome : Except Fault Answer} (step : graph.Step change outcome changed) :
    Topology changed (journal.note change outcome) := by
  cases step with
  | refused change fault =>
    simp only [Journal.note_error]
    exact topology
  | vertex inWindow _ room => exact topology.withVertex inWindow room
  | edge inWindow _ _ _ room => exact topology.withEdge inWindow room
  | write _ _ _ _ _ => exact { topology with }
  | purge _ _ => exact { topology with }

theorem of_recorded {Allowed : Change → Prop} {setting : Setting}
    (recorded : Recorded Allowed setting graph journal) :
    Topology graph journal :=
  recorded.induct (start setting) fun _ _ step topology => topology.step step

/-- What a timeline lists up to an instant is what arrived up to it, in order of time. -/
theorem upTo_arrivals {α β : Type} {reference instant : Instant} {time : α → Instant}
    {number : α → UInt32} {entries : List α} (id : α → β)
    (ascending : entries.Pairwise fun first second => number first < number second)
    (inWindow : ∀ entry ∈ entries, (time entry).InWindow reference)
    (here : instant.InWindow reference) :
    (Timeline.ofLog (arrivals reference time id entries)).upTo (instant.since reference) =
      (chronological time number (entries.filter (time · ≤ instant))).map id := by
  have reached : ∀ entry ∈ entries,
      decide ((time entry).since reference ≤ instant.since reference) =
        decide (time entry ≤ instant) := by
    intro entry mem
    apply decide_eq_decide.mpr
    rw [Int32.le_iff_toInt_le, Instant.toInt_since (inWindow entry mem), Instant.toInt_since here,
      Instant.le_iff]
    omega
  have byTime : ∀ first ∈ entries.filter (time · ≤ instant),
      ∀ second ∈ entries.filter (time · ≤ instant),
        ((time first).since reference).toInt ≤ ((time second).since reference).toInt ↔
          time first ≤ time second := by
    intro first firstMem second secondMem
    rw [Instant.toInt_since (inWindow first (List.mem_filter.mp firstMem).1),
      Instant.toInt_since (inWindow second (List.mem_filter.mp secondMem).1), Instant.le_iff]
    omega
  rw [chronological_eq_sortedBy (ascending.filter _) byTime, Timeline.upTo_ofLog, arrivals,
    List.filter_map, sortedBy_map, List.map_map]
  exact congrArg (fun kept => (sortedBy _ kept).map id) (List.filter_congr reached)

theorem ascending_of_range {α : Type} {entries : List α} {number : α → UInt32} {count : Nat}
    (numbers : entries.map (fun entry => (number entry).toNat) = List.range count) :
    entries.Pairwise fun first second => number first < number second := by
  have ascending := List.pairwise_lt_range (n := count)
  simp only [← numbers] at ascending
  exact (List.pairwise_map.mp ascending).imp UInt32.lt_iff_toNat_lt.mpr

section Listings

variable (topology : Topology graph journal) {time : Instant} {vertex source target : VertexId}

include topology

theorem vertices_ascending :
    journal.vertices.Pairwise fun first second => first.id.number < second.id.number :=
  ascending_of_range topology.vertexNumbers

theorem edges_ascending :
    journal.edges.Pairwise fun first second => first.id.number < second.id.number :=
  ascending_of_range topology.edgeNumbers

theorem upTo_vertices (here : time.InWindow graph.setting.reference) :
    graph.vertices.upTo (time.since graph.setting.reference) =
      (journal.verticesAt time).map VertexEntry.id := by
  simp only [topology.vertices]
  exact upTo_arrivals _ topology.vertices_ascending topology.verticesInWindow here

theorem upTo_edges (here : time.InWindow graph.setting.reference) :
    graph.edges.upTo (time.since graph.setting.reference) =
      (journal.edgesAt time).map EdgeEntry.id := by
  simp only [topology.edges]
  exact upTo_arrivals _ topology.edges_ascending topology.edgesInWindow here

theorem upTo_edges_of {adjacency : Adjacency} (vertexOf : EdgeEntry → VertexId)
    (timeline : adjacency.timeline vertex =
      .ofLog (arrivals graph.setting.reference EdgeEntry.time EdgeEntry.id
        (journal.edges.filter (vertexOf · = vertex))))
    (here : time.InWindow graph.setting.reference) :
    adjacency.edgesAt vertex (time.since graph.setting.reference) =
      ((journal.edgesAt time).filter (vertexOf · = vertex)).map EdgeEntry.id := by
  have inWindow : ∀ entry ∈ journal.edges.filter (vertexOf · = vertex),
      entry.time.InWindow graph.setting.reference :=
    fun entry mem => topology.edgesInWindow entry (List.mem_filter.mp mem).1
  have ascending := topology.edges_ascending
  rw [Adjacency.edgesAt, timeline, upTo_arrivals _ (ascending.filter _) inWindow here,
    Journal.edgesAt, filter_chronological (ascending.filter _), List.filter_filter,
    List.filter_filter]
  simp only [Bool.and_comm]

theorem edge_eq {first second : EdgeEntry} (firstMem : first ∈ journal.edgesAt time)
    (secondMem : second ∈ journal.edgesAt time) (equal : first.id = second.id) :
    first = second := by
  refine eq_of_number_eq topology.edges_ascending ?_ ?_ (congrArg EdgeId.number equal)
  · exact (List.mem_filter.mp (mem_chronological.mp firstMem)).1
  · exact (List.mem_filter.mp (mem_chronological.mp secondMem)).1

/-- The edges listed for both ends are those that have both ends. -/
theorem filter_contains :
    (((journal.edgesAt time).filter (·.source = source)).map EdgeEntry.id).filter
        (fun edge => (((journal.edgesAt time).filter (·.target = target)).map
          EdgeEntry.id).contains edge) =
      ((journal.edgesAt time).filter fun entry =>
        entry.source = source ∧ entry.target = target).map EdgeEntry.id := by
  have entering : ∀ entry ∈ journal.edgesAt time,
      (((journal.edgesAt time).filter (·.target = target)).map EdgeEntry.id).contains entry.id =
        decide (entry.target = target) := by
    intro entry mem
    simp only [List.contains_eq_mem]
    refine decide_eq_decide.mpr ⟨fun listed => ?_, fun isTarget => ?_⟩
    · rcases List.mem_map.mp listed with ⟨other, otherMem, sameId⟩
      simp only [List.mem_filter, decide_eq_true_eq] at otherMem
      simp only [← topology.edge_eq otherMem.1 mem sameId]
      exact otherMem.2
    · exact List.mem_map_of_mem (List.mem_filter.mpr ⟨mem, by simpa using isTarget⟩)
  simp only [List.filter_map, List.filter_filter]
  refine congrArg (List.map EdgeEntry.id) (List.filter_congr fun entry mem => ?_)
  simp only [Function.comp_apply, entering entry mem, Bool.decide_and, Bool.and_comm]

theorem nodup_vertices : ((journal.verticesAt time).map VertexEntry.id).Nodup :=
  nodup_chronological (topology.vertices_ascending.filter _)
    fun _ _ same => congrArg VertexId.number same

theorem nodup_edges : ((journal.edgesAt time).map EdgeEntry.id).Nodup :=
  nodup_chronological (topology.edges_ascending.filter _)
    fun _ _ same => congrArg EdgeId.number same

theorem length_vertices : journal.vertices.length = graph.vertexCount := by
  simpa using congrArg List.length topology.vertexNumbers

theorem length_edges : journal.edges.length = graph.edgeCount := by
  simpa using congrArg List.length topology.edgeNumbers

end Listings

end Topology

/-- As-of topology is exact: numbers are handed out in order, every vertex and edge added up to
an instant is listed once, by instant and number, and the edges of one vertex and between two
are listed as those among all edges. -/
theorem Recorded.listings_exact {Allowed : Change → Prop} {setting : Setting}
    (recorded : Recorded Allowed setting graph journal) :
    journal.vertices.map (fun entry => entry.id.number.toNat) = List.range journal.vertices.length ∧
    journal.edges.map (fun entry => entry.id.number.toNat) = List.range journal.edges.length ∧
    graph.vertexCount = journal.vertices.length ∧
    graph.edgeCount = journal.edges.length ∧
    ∀ time, time.InWindow setting.reference →
      graph.verticesAt time = .ok ((journal.verticesAt time).map VertexEntry.id) ∧
      ((journal.verticesAt time).map VertexEntry.id).Nodup ∧
      graph.edgesAt time = .ok ((journal.edgesAt time).map EdgeEntry.id) ∧
      ((journal.edgesAt time).map EdgeEntry.id).Nodup ∧
      (∀ vertex, vertex.number.toNat < graph.vertexCount →
        graph.outEdgesAt vertex time =
          .ok (((journal.edgesAt time).filter (·.source = vertex)).map EdgeEntry.id) ∧
        graph.inEdgesAt vertex time =
          .ok (((journal.edgesAt time).filter (·.target = vertex)).map EdgeEntry.id)) ∧
      ∀ source target, source.number.toNat < graph.vertexCount →
        target.number.toNat < graph.vertexCount →
        graph.edgesBetweenAt source target time =
          .ok (((journal.edgesAt time).filter fun entry =>
            entry.source = source ∧ entry.target = target).map EdgeEntry.id) := by
  have topology := Topology.of_recorded recorded
  refine ⟨topology.length_vertices ▸ topology.vertexNumbers,
    topology.length_edges ▸ topology.edgeNumbers, topology.length_vertices.symm,
    topology.length_edges.symm, fun time inWindow => ?_⟩
  simp only [← recorded.setting_eq] at inWindow
  have offset : graph.offset time = .ok (time.since graph.setting.reference) := by
    simp only [offset_eq, if_pos inWindow]
  refine ⟨?_, topology.nodup_vertices, ?_, topology.nodup_edges, fun vertex known => ⟨?_, ?_⟩,
    fun source target sourceKnown targetKnown => ?_⟩
  · simp only [verticesAt, offset, ← topology.upTo_vertices inWindow]
    rfl
  · simp only [edgesAt, offset, ← topology.upTo_edges inWindow]
    rfl
  · rw [outEdgesAt, offset, checkVertex_eq_ok_iff.mpr known,
      ← topology.upTo_edges_of EdgeEntry.source (topology.outgoing vertex) inWindow]
    rfl
  · rw [inEdgesAt, offset, checkVertex_eq_ok_iff.mpr known,
      ← topology.upTo_edges_of EdgeEntry.target (topology.incoming vertex) inWindow]
    rfl
  · rw [edgesBetweenAt, offset, checkVertex_eq_ok_iff.mpr sourceKnown,
      checkVertex_eq_ok_iff.mpr targetKnown,
      ← topology.filter_contains,
      ← topology.upTo_edges_of EdgeEntry.source (topology.outgoing source) inWindow,
      ← topology.upTo_edges_of EdgeEntry.target (topology.incoming target) inWindow]
    rfl

theorem listings_exact_sample :
    (sampleJournal.verticesAt ⟨110⟩).map VertexEntry.id = [⟨1⟩, ⟨0⟩] ∧
      (sampleJournal.edgesAt ⟨110⟩).map EdgeEntry.id = [⟨1⟩, ⟨0⟩] ∧
      ((sampleJournal.edgesAt ⟨110⟩).filter (·.source = ⟨0⟩)).map EdgeEntry.id = [⟨0⟩] ∧
      ((sampleJournal.edgesAt ⟨110⟩).filter fun entry =>
        entry.source = ⟨1⟩ ∧ entry.target = ⟨1⟩).map EdgeEntry.id = [⟨1⟩] := by
  have vertices : (sampleGraph.verticesAt ⟨110⟩).toOption = some [⟨1⟩, ⟨0⟩] := by decide +kernel
  have edges : (sampleGraph.edgesAt ⟨110⟩).toOption = some [⟨1⟩, ⟨0⟩] := by decide +kernel
  have leaving : (sampleGraph.outEdgesAt ⟨0⟩ ⟨110⟩).toOption = some [⟨0⟩] := by decide +kernel
  have looping : (sampleGraph.edgesBetweenAt ⟨1⟩ ⟨1⟩ ⟨110⟩).toOption = some [⟨1⟩] := by
    decide +kernel
  have count : sampleGraph.vertexCount = 2 := by decide +kernel
  rcases sample_recorded.listings_exact with ⟨_, _, _, _, listed⟩
  rcases listed ⟨110⟩ (by decide) with ⟨allVertices, _, allEdges, _, ofVertex, between⟩
  rw [allVertices] at vertices
  rw [allEdges] at edges
  rw [(ofVertex ⟨0⟩ (by rw [count]; decide)).1] at leaving
  rw [between ⟨1⟩ ⟨1⟩ (by rw [count]; decide) (by rw [count]; decide)] at looping
  exact ⟨Option.some.inj vertices, Option.some.inj edges, Option.some.inj leaving,
    Option.some.inj looping⟩

end Graph

end TimedGraph
