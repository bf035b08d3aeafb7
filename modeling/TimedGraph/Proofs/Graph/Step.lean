import TimedGraph.Graph.Request
import TimedGraph.Proofs.Graph.Batch

/-!
# What a change can do

A change is refused and leaves the graph as it is, or it does one of four things to it:
add a vertex, add an edge, store a longer history, or purge the archive.  `Graph.Step`
lists these with all that is known of the graph when they happen, and `carryOut_step`
says that there is nothing else.  Invariants are proved by cases on it and never look
into a change itself.
-/

namespace TimedGraph

/-- The number of a vertex or an edge. -/
def Owner.number : Owner → UInt32
  | vertex id => id.number
  | edge id => id.number

namespace Graph

variable {graph : Graph} {owner : Owner} {time : Instant} {batch : List History}

/-- The vertex that is added next. -/
def freshVertex (graph : Graph) : VertexId := ⟨graph.vertexCounter.next⟩

def freshEdge (graph : Graph) : EdgeId := ⟨graph.edgeCounter.next⟩

/-- The graph with the next vertex added. -/
def withVertex (graph : Graph) (batch : List History) (time : Instant) : Graph :=
  { graph with
    vertexCounter := ⟨graph.vertexCounter.next + 1⟩
    vertices := graph.vertices.insert (time.since graph.setting.reference) graph.freshVertex
    ownership := attach graph.ownership (.vertex graph.freshVertex) batch
    archive := storeBatch graph.archive batch }

def withEdge (graph : Graph) (source target : VertexId) (batch : List History) (time : Instant) :
    Graph :=
  { graph with
    edgeCounter := ⟨graph.edgeCounter.next + 1⟩
    edges := graph.edges.insert (time.since graph.setting.reference) graph.freshEdge
    outgoing := graph.outgoing.insert source (time.since graph.setting.reference) graph.freshEdge
    incoming := graph.incoming.insert target (time.since graph.setting.reference) graph.freshEdge
    ownership := attach graph.ownership (.edge graph.freshEdge) batch
    archive := storeBatch graph.archive batch }

/-- The graph with another archive. -/
def withArchive (graph : Graph) (archive : Archive) : Graph :=
  { graph with archive := archive }

/-- What exists at an instant, edges before vertices. -/
def visited (graph : Graph) (time : Instant) : List Owner :=
  (graph.edges.upTo (time.since graph.setting.reference)).map Owner.edge ++
    (graph.vertices.upTo (time.since graph.setting.reference)).map Owner.vertex

/-- The number of a vertex or an edge has been handed out. -/
def HandedOut (graph : Graph) : Owner → Prop
  | .vertex vertex => vertex.number.toNat < graph.vertexCount
  | .edge edge => edge.number.toNat < graph.edgeCount

/-- What a change can come to, and how it leaves the graph. -/
inductive Step (graph : Graph) : Change → Except Fault Answer → Graph → Prop where
  | refused (change : Change) (fault : Fault) : Step graph change (.error fault) graph
  | vertex {batch : List History} {time : Instant}
      (inWindow : time.InWindow graph.setting.reference)
      (admissible : Admissible graph.archive time batch)
      (room : graph.vertexCount + 1 < UInt32.size) :
      Step graph (.addVertex batch time) (.ok (.vertex graph.freshVertex))
        (graph.withVertex batch time)
  | edge {source target : VertexId} {batch : List History} {time : Instant}
      (inWindow : time.InWindow graph.setting.reference)
      (sourceKnown : graph.checkVertex source = .ok ())
      (targetKnown : graph.checkVertex target = .ok ())
      (admissible : Admissible graph.archive time batch)
      (room : graph.edgeCount + 1 < UInt32.size) :
      Step graph (.addEdge source target batch time) (.ok (.edge graph.freshEdge))
        (graph.withEdge source target batch time)
  | write {owner : Owner} {value : Value} {time : Instant} {id : PropertyId}
      {history longer : History}
      (inWindow : time.InWindow graph.setting.reference)
      (known : graph.check owner = .ok ())
      (owned : id ∈ graph.owned owner)
      (found : graph.archive.history? id = some history)
      (accepted : history.write time value = (.ok (), longer)) :
      Step graph (.write owner history.name value time) (.ok .done)
        (graph.withArchive (graph.archive.store longer))
  | purge {time : Instant} {rewritten : Nat} {purged : Archive}
      (inWindow : time.InWindow graph.setting.reference)
      (run : graph.archive.purge time ((graph.visited time).flatMap graph.owned) =
        (.ok rewritten, purged)) :
      Step graph (.purge time)
        (.ok (.purged ⟨(graph.vertices.upTo (time.since graph.setting.reference)).length,
          (graph.edges.upTo (time.since graph.setting.reference)).length, rewritten⟩))
        (graph.withArchive purged)

theorem offset_eq (graph : Graph) (time : Instant) :
    graph.offset time =
      if time.InWindow graph.setting.reference then .ok (time.since graph.setting.reference)
      else .error (.timeRange time graph.setting.reference) := by
  simp only [offset, Instant.offsetFrom?_eq]
  by_cases inWindow : time.InWindow graph.setting.reference
  · simp only [if_pos inWindow]
  · simp only [if_neg inWindow]

theorem offset_eq_ok_iff {offset : Offset} :
    graph.offset time = .ok offset ↔
      time.InWindow graph.setting.reference ∧ time.since graph.setting.reference = offset := by
  simp only [offset_eq]
  split <;> simp [*]

theorem checkVertex_eq_ok_iff {vertex : VertexId} :
    graph.checkVertex vertex = .ok () ↔ vertex.number.toNat < graph.vertexCount := by
  simp [checkVertex, vertexCount, UInt32.lt_iff_toNat_lt]

theorem checkEdge_eq_ok_iff {edge : EdgeId} :
    graph.checkEdge edge = .ok () ↔ edge.number.toNat < graph.edgeCount := by
  simp [checkEdge, edgeCount, UInt32.lt_iff_toNat_lt]

theorem check_eq_ok_iff : graph.check owner = .ok () ↔ graph.HandedOut owner := by
  cases owner with
  | vertex vertex => exact checkVertex_eq_ok_iff
  | edge edge => exact checkEdge_eq_ok_iff

theorem check_of_not_handedOut (unknown : ¬graph.HandedOut owner) :
    graph.check owner = .error (.unknownEntity owner.kind owner.number) := by
  rw [← check_eq_ok_iff] at unknown
  cases owner with
  | vertex vertex =>
    simp only [check, checkVertex] at unknown ⊢
    split at unknown
    · exact absurd rfl unknown
    · rename_i refused
      exact if_neg refused
  | edge edge =>
    simp only [check, checkEdge] at unknown ⊢
    split at unknown
    · exact absurd rfl unknown
    · rename_i refused
      exact if_neg refused

theorem checkVertex_eq_error_iff {vertex : VertexId} {fault : Fault} :
    graph.checkVertex vertex = .error fault ↔
      ¬graph.HandedOut (.vertex vertex) ∧ fault = .unknownEntity .vertex vertex.number := by
  by_cases known : graph.HandedOut (.vertex vertex)
  · have passed : graph.checkVertex vertex = .ok () := checkVertex_eq_ok_iff.mpr known
    simp [passed, known]
  · have failed : graph.checkVertex vertex = .error (.unknownEntity .vertex vertex.number) :=
      check_of_not_handedOut known
    simp [failed, known, eq_comm]

/-- A counter that has not run out hands out its next number. -/
theorem draw_of_room {counter : Counter} (room : counter.next.toNat + 1 < UInt32.size)
    (kind : EntityKind) : draw counter kind = .ok (counter.next, ⟨counter.next + 1⟩) := by
  simp only [draw, Counter.draw?, if_pos room]

theorem draw_eq_ok {counter next : Counter} {kind : EntityKind} {number : UInt32}
    (drawn : draw counter kind = .ok (number, next)) :
    counter.next.toNat + 1 < UInt32.size ∧ number = counter.next ∧ next = ⟨counter.next + 1⟩ := by
  simp only [draw, Counter.draw?] at drawn
  split at drawn
  · rename_i found isFound
    split at isFound
    · rename_i room
      have same := Option.some.inj isFound
      subst same
      simp only [Except.ok.injEq, Prod.mk.injEq] at drawn
      exact ⟨room, drawn.1.symm, drawn.2.symm⟩
    · simp at isFound
  · simp at drawn

theorem addVertex_step (graph : Graph) (batch : List History) (time : Instant) :
    graph.Step (.addVertex batch time) (graph.carryOut (.addVertex batch time)).1
      (graph.carryOut (.addVertex batch time)).2 := by
  simp only [carryOut, addVertex]
  cases prepared : graph.prepareVertex batch time with
  | error fault => exact .refused _ fault
  | ok found =>
    rcases found with ⟨offset, number, counter⟩
    simp only [prepareVertex, bind_eq_ok, offset_eq_ok_iff] at prepared
    rcases prepared with ⟨_, ⟨inWindow, rfl⟩, ⟨⟩, checked, ⟨drawnNumber, drawnCounter⟩, drawn, made⟩
    rcases draw_eq_ok drawn with ⟨room, rfl, rfl⟩
    simp only [pure, Except.pure, Except.ok.injEq, Prod.mk.injEq] at made
    rcases made with ⟨rfl, rfl, rfl⟩
    exact .vertex inWindow (checkBatch_eq_ok_iff.mp checked) room

theorem addEdge_step (graph : Graph) (source target : VertexId) (batch : List History)
    (time : Instant) :
    graph.Step (.addEdge source target batch time)
      (graph.carryOut (.addEdge source target batch time)).1
      (graph.carryOut (.addEdge source target batch time)).2 := by
  simp only [carryOut, addEdge]
  cases prepared : graph.prepareEdge source target batch time with
  | error fault => exact .refused _ fault
  | ok found =>
    rcases found with ⟨offset, number, counter⟩
    simp only [prepareEdge, bind_eq_ok, offset_eq_ok_iff] at prepared
    rcases prepared with ⟨_, ⟨inWindow, rfl⟩, ⟨⟩, sourceKnown, ⟨⟩, targetKnown, ⟨⟩, checked,
      ⟨drawnNumber, drawnCounter⟩, drawn, made⟩
    rcases draw_eq_ok drawn with ⟨room, rfl, rfl⟩
    simp only [pure, Except.pure, Except.ok.injEq, Prod.mk.injEq] at made
    rcases made with ⟨rfl, rfl, rfl⟩
    exact .edge inWindow sourceKnown targetKnown (checkBatch_eq_ok_iff.mp checked) room

theorem property?_eq_some {owner : Owner} {name : String} {id : PropertyId}
    (found : graph.property? owner name = .ok (some id)) :
    id ∈ graph.owned owner ∧ graph.archive.name? id = some name := by
  simp only [property?] at found
  split at found
  · simp at found
  · rename_i only isOnly
    have same : only = id := by simpa using found
    subst same
    have mem : only ∈ (graph.owned owner).filter fun id => graph.archive.name? id = some name := by
      simp only [isOnly]
      exact List.mem_singleton_self only
    simpa using List.mem_filter.mp mem
  · simp at found

theorem property?_eq_none {owner : Owner} {name : String}
    (notFound : graph.property? owner name = .ok none) :
    ∀ id ∈ graph.owned owner, graph.archive.name? id ≠ some name := by
  simp only [property?] at notFound
  split at notFound
  · rename_i nothing
    simpa using List.filter_eq_nil_iff.mp nothing
  · simp at notFound
  · simp at notFound

theorem write_step (canonical : graph.archive.Canonical) (owner : Owner) (name : String)
    (value : Value) (time : Instant) :
    graph.Step (.write owner name value time) (graph.carryOut (.write owner name value time)).1
      (graph.carryOut (.write owner name value time)).2 := by
  simp only [carryOut, writeProperty]
  cases prepared : graph.prepareWrite owner name time with
  | error fault => exact .refused _ fault
  | ok history =>
    rcases appended : history.write time value with ⟨outcome, longer⟩
    simp only [appended]
    cases outcome with
    | error fault => exact .refused _ fault
    | ok _ =>
      simp only [prepareWrite, Graph.history, bind_eq_ok, offset_eq_ok_iff] at prepared
      rcases prepared with ⟨_, ⟨inWindow, _⟩, ⟨⟩, known, found, isFound, fetched⟩
      cases found with
      | none => simp at fetched
      | some id =>
        simp only [canonical.fetch?_eq, bind_eq_ok, Except.ok.injEq] at fetched
        rcases fetched with ⟨_, rfl, fetched⟩
        rcases property?_eq_some isFound with ⟨owned, named⟩
        cases stored : graph.archive.history? id with
        | none => simp [stored] at fetched
        | some other =>
          have same : other = history := by simpa [stored] using fetched
          subst same
          have same : other.name = name := by simpa [canonical.name?_eq, stored] using named
          subst same
          exact .write inWindow known owned stored appended

theorem purge_step (canonical : graph.archive.Canonical) (time : Instant) :
    graph.Step (.purge time) (graph.carryOut (.purge time)).1 (graph.carryOut (.purge time)).2 := by
  simp only [carryOut, Graph.purge, offset_eq]
  by_cases inWindow : time.InWindow graph.setting.reference
  · rcases canonical.purge time ((graph.visited time).flatMap graph.owned) with
      ⟨purged, rewritten, run, _⟩
    have done := Step.purge inWindow run
    simp only [visited] at run
    simp only [if_pos inWindow, run]
    exact done
  · simp only [if_neg inWindow]
    exact .refused _ _

/-- A change does one of the listed things. -/
theorem carryOut_step (canonical : graph.archive.Canonical) (change : Change) :
    graph.Step change (graph.carryOut change).1 (graph.carryOut change).2 := by
  cases change with
  | addVertex batch time => exact graph.addVertex_step batch time
  | addEdge source target batch time => exact graph.addEdge_step source target batch time
  | write owner name value time => exact write_step canonical owner name value time
  | purge time => exact purge_step canonical time

/-- What is known of a write that was carried out. -/
theorem Step.exists_of_write {changed : Graph} {owner : Owner} {name : String} {value : Value}
    {answer : Answer} (step : graph.Step (.write owner name value time) (.ok answer) changed) :
    ∃ id history longer, id ∈ graph.owned owner ∧ graph.archive.history? id = some history ∧
      history.name = name ∧ history.write time value = (.ok (), longer) ∧
        changed = graph.withArchive (graph.archive.store longer) := by
  cases step with
  | write _ _ owned found accepted => exact ⟨_, _, _, owned, found, rfl, accepted, rfl⟩

end Graph

end TimedGraph
