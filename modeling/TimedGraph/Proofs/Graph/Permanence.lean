import TimedGraph.Proofs.Graph.Courses

/-!
# Later changes leave the past alone

A question about an instant reads of a graph only what came into being up to the instant.  A
change that is dated after it adds to the indices past the point at which the question stops
reading, appends a value past the one that is in force, and attaches properties to nothing
that was known before.  `Undisturbed` says this of two graphs, the second of which has come
from the first.  Every step dated after the instant establishes it, whatever the batches hold,
and it is transitive, so that it holds along a run.

Purges are no such changes: they take from the past.
-/

namespace TimedGraph

/-- A change is dated after an instant, and is not a purge. -/
def Change.Later (time : Instant) : Change → Prop
  | .addVertex _ instant => time < instant
  | .addEdge _ _ _ instant => time < instant
  | .write _ _ _ instant => time < instant
  | .purge _ => False

namespace Question

/-- The instant that is asked about. -/
def time : Question → Instant
  | .vertices time => time
  | .edges time => time
  | .outEdges _ time => time
  | .inEdges _ time => time
  | .edgesBetween _ _ time => time
  | .properties _ time => time
  | .property _ _ time => time
  | .propertiesBetween _ _ time => time
  | .propertyBetween _ _ _ time => time

/-- The vertices and edges that are named. -/
def arguments : Question → List Owner
  | .vertices _ => []
  | .edges _ => []
  | .outEdges vertex _ => [.vertex vertex]
  | .inEdges vertex _ => [.vertex vertex]
  | .edgesBetween source target _ => [.vertex source, .vertex target]
  | .properties owner _ => [owner]
  | .property owner _ _ => [owner]
  | .propertiesBetween source target _ => [.vertex source, .vertex target]
  | .propertyBetween source target _ _ => [.vertex source, .vertex target]

end Question

namespace Graph

variable {setting : Setting} {before middle now graph changed : Graph} {journal : Journal}
  {time : Instant} {change : Change} {outcome : Except Fault Answer}

/-- What a graph was at an instant has not changed since. -/
structure Undisturbed (time : Instant) (before now : Graph) : Prop where
  setting : now.setting = before.setting
  known : ∀ {owner}, before.check owner = .ok () → now.check owner = .ok ()
  vertices : now.vertices.upTo (time.since before.setting.reference) =
    before.vertices.upTo (time.since before.setting.reference)
  edges : now.edges.upTo (time.since before.setting.reference) =
    before.edges.upTo (time.since before.setting.reference)
  outgoing : ∀ vertex, now.outgoing.edgesAt vertex (time.since before.setting.reference) =
    before.outgoing.edgesAt vertex (time.since before.setting.reference)
  incoming : ∀ vertex, now.incoming.edgesAt vertex (time.since before.setting.reference) =
    before.incoming.edgesAt vertex (time.since before.setting.reference)
  owned : ∀ {owner}, before.check owner = .ok () → now.owned owner = before.owned owner
  histories : ∀ {id history}, before.archive.history? id = some history →
    ∃ longer, now.archive.history? id = some longer ∧ longer.name = history.name ∧
      longer.valueAt time = history.valueAt time

theorem get?_attach_of_ne {ownership : Table Owner (List PropertyId)} {owner other : Owner}
    (different : other ≠ owner) (batch : List History) :
    (attach ownership owner batch).get? other = ownership.get? other := by
  rw [attach]
  split
  · rfl
  · exact Table.get?_insert_of_ne ownership _ different

theorem history?_storeBatch {archive : Archive} {batch : List History} {id : PropertyId}
    {history : History} (canonical : archive.Canonical)
    (admissible : Admissible archive time batch) (found : archive.history? id = some history) :
    (storeBatch archive batch).history? id = some history := by
  have unstored : ∀ history ∈ batch, archive.history? history.id = none :=
    fun _ mem => admissible.history?_eq_none canonical mem
  apply (Archive.history?_storeAll archive batch id).trans
  rw [History.lastOf_eq_none unstored found, Option.none_or, found]

namespace Undisturbed

theorem refl (time : Instant) (graph : Graph) : Undisturbed time graph graph where
  setting := rfl
  known known := known
  vertices := rfl
  edges := rfl
  outgoing _ := rfl
  incoming _ := rfl
  owned _ := rfl
  histories found := ⟨_, found, rfl, rfl⟩

theorem trans (first : Undisturbed time before middle) (second : Undisturbed time middle now) :
    Undisturbed time before now := by
  rcases second with ⟨setting, known, vertices, edges, outgoing, incoming, owned, histories⟩
  -- Both comparisons stop at one offset, since the reference has stayed.
  simp only [first.setting] at setting vertices edges outgoing incoming
  constructor
  · exact setting
  · intro owner isKnown
    exact known (first.known isKnown)
  · rw [vertices, first.vertices]
  · rw [edges, first.edges]
  · intro vertex
    rw [outgoing, first.outgoing]
  · intro vertex
    rw [incoming, first.incoming]
  · intro owner isKnown
    rw [owned (first.known isKnown), first.owned isKnown]
  · intro id history found
    rcases first.histories found with ⟨between, foundBetween, sameName, sameValue⟩
    rcases histories foundBetween with ⟨longer, foundNow, nameBetween, valueBetween⟩
    exact ⟨longer, foundNow, nameBetween.trans sameName, valueBetween.trans sameValue⟩

section Step

variable {batch : List History} {instant : Instant}

theorem withVertex (canonical : graph.archive.Canonical)
    (later : time.since graph.setting.reference < instant.since graph.setting.reference)
    (admissible : Admissible graph.archive instant batch)
    (room : graph.vertexCount + 1 < UInt32.size) :
    Undisturbed time graph (graph.withVertex batch instant) := by
  refine { refl time graph with known := ?_, vertices := ?_, owned := ?_, histories := ?_ }
  · intro owner known
    cases owner with
    | vertex vertex =>
      have counted : (graph.withVertex batch instant).vertexCount = graph.vertexCount + 1 :=
        toNat_succ room
      have numbered := checkVertex_eq_ok_iff.mp known
      apply checkVertex_eq_ok_iff.mpr
      omega
    | edge edge => exact known
  · exact Timeline.upTo_insert_of_lt _ later _
  · intro owner known
    have different : owner ≠ .vertex graph.freshVertex := by
      rintro rfl
      exact graph.check_freshVertex known
    simp only [Graph.owned, Graph.withVertex, get?_attach_of_ne different]
  · intro id history found
    exact ⟨history, history?_storeBatch canonical admissible found, rfl, rfl⟩

theorem withEdge (canonical : graph.archive.Canonical)
    (later : time.since graph.setting.reference < instant.since graph.setting.reference)
    (source target : VertexId) (admissible : Admissible graph.archive instant batch)
    (room : graph.edgeCount + 1 < UInt32.size) :
    Undisturbed time graph (graph.withEdge source target batch instant) := by
  refine { refl time graph with
    known := ?_, edges := ?_, outgoing := ?_, incoming := ?_, owned := ?_, histories := ?_ }
  · intro owner known
    cases owner with
    | vertex vertex => exact known
    | edge edge =>
      have counted : (graph.withEdge source target batch instant).edgeCount =
          graph.edgeCount + 1 := toNat_succ room
      have numbered := checkEdge_eq_ok_iff.mp known
      apply checkEdge_eq_ok_iff.mpr
      omega
  · exact Timeline.upTo_insert_of_lt _ later _
  · intro vertex
    exact Adjacency.edgesAt_insert_of_lt _ _ _ later _
  · intro vertex
    exact Adjacency.edgesAt_insert_of_lt _ _ _ later _
  · intro owner known
    have different : owner ≠ .edge graph.freshEdge := by
      rintro rfl
      exact graph.check_freshEdge known
    simp only [Graph.owned, Graph.withEdge, get?_attach_of_ne different]
  · intro id history found
    exact ⟨history, history?_storeBatch canonical admissible found, rfl, rfl⟩

theorem write (canonical : graph.archive.Canonical) (later : time < instant) {id : PropertyId}
    {history longer : History} {value : Value} (found : graph.archive.history? id = some history)
    (accepted : history.write instant value = (.ok (), longer)) :
    Undisturbed time graph (graph.withArchive (graph.archive.store longer)) := by
  have same : (history.write instant value).2 = longer := congrArg Prod.snd accepted
  subst same
  refine { refl time graph with histories := ?_ }
  intro other otherHistory otherFound
  simp only [withArchive, Archive.history?_store, History.write_id, canonical.id_eq found]
  split
  · rename_i isId
    subst isId
    have same : history = otherHistory := Option.some.inj (found.symm.trans otherFound)
    subst same
    exact ⟨_, rfl, history.write_name instant value, history.valueAt_write later value⟩
  · exact ⟨otherHistory, otherFound, rfl, rfl⟩

end Step

end Undisturbed

/-- What is dated after an instant of the window does not disturb it. -/
theorem Step.undisturbed (canonical : graph.archive.Canonical)
    (here : time.InWindow graph.setting.reference) (step : graph.Step change outcome changed)
    (later : change.Later time) : Undisturbed time graph changed := by
  cases step with
  | refused _ _ => exact .refl time graph
  | vertex inWindow admissible room =>
    exact .withVertex canonical (Instant.since_lt_since here inWindow later) admissible room
  | edge inWindow _ _ admissible room =>
    exact .withEdge canonical (Instant.since_lt_since here inWindow later) _ _ admissible room
  | write _ _ _ found accepted => exact .write canonical later found accepted
  | purge _ _ => exact later.elim

theorem undisturbed_after (canonical : graph.archive.Canonical)
    (here : time.InWindow graph.setting.reference) {changes : List Change}
    (later : ∀ change ∈ changes, change.Later time) :
    (graph.after changes).archive.Canonical ∧ Undisturbed time graph (graph.after changes) := by
  induction changes generalizing graph with
  | nil => exact ⟨canonical, .refl time graph⟩
  | cons change rest ih =>
    have step := carryOut_step canonical change
    have first := step.undisturbed canonical here (later change (.head _))
    rw [← first.setting] at here
    rcases ih (step.canonical canonical) here fun other mem => later other (.tail _ mem) with
      ⟨canonicalAfter, second⟩
    exact ⟨canonicalAfter, first.trans second⟩

theorem tabulate_congr {α : Type} {first second : EdgeId → Except Fault α} {edges : List EdgeId}
    (same : ∀ edge ∈ edges, first edge = second edge) :
    tabulate first edges = tabulate second edges := by
  induction edges with
  | nil => rfl
  | cons edge rest ih =>
    have others := ih fun other mem => same other (.tail _ mem)
    rw [tabulate, tabulate, same edge (.head _), others]

section Between

variable {source target : VertexId} (topology : Topology graph journal)

include topology

/-- The edges listed between two vertices are known. -/
theorem Topology.check_of_mem_edgesBetweenAt {edges : List EdgeId}
    (found : graph.edgesBetweenAt source target time = .ok edges) {edge : EdgeId}
    (mem : edge ∈ edges) : graph.check (.edge edge) = .ok () := by
  simp only [edgesBetweenAt, bind_eq_ok, offset_eq_ok_iff] at found
  rcases found with ⟨_, ⟨here, rfl⟩, _, _, _, _, listed⟩
  have same := Except.ok.inj listed
  subst same
  have leaving := (List.mem_filter.mp mem).1
  rw [topology.upTo_edges_of EdgeEntry.source (topology.outgoing source) here] at leaving
  rcases List.mem_map.mp leaving with ⟨entry, entryMem, rfl⟩
  have listedAt := (List.mem_filter.mp entryMem).1
  have noted := (List.mem_filter.mp (mem_chronological.mp listedAt)).1
  apply topology.check_eq_ok_iff.mpr
  exact ⟨entry.time, Journal.edge_mem_additions.mpr ⟨entry, noted, rfl, rfl⟩⟩

theorem Topology.tabulate_between {α : Type} {first second : EdgeId → Except Fault α}
    (same : ∀ edge, graph.check (.edge edge) = .ok () → first edge = second edge) :
    (graph.edgesBetweenAt source target time >>= tabulate first) =
      graph.edgesBetweenAt source target time >>= tabulate second := by
  cases found : graph.edgesBetweenAt source target time with
  | error fault => rfl
  | ok edges =>
    apply tabulate_congr
    intro edge mem
    exact same edge (topology.check_of_mem_edgesBetweenAt found mem)

end Between

namespace Undisturbed

section Answers

variable (undisturbed : Undisturbed time graph now)

include undisturbed

theorem check_eq {owner : Owner} (known : graph.check owner = .ok ()) :
    now.check owner = graph.check owner :=
  (undisturbed.known known).trans known.symm

theorem bind_offset {α : Type} (here : time.InWindow graph.setting.reference)
    {next nextBefore : Offset → Except Fault α}
    (same : next (time.since graph.setting.reference) =
      nextBefore (time.since graph.setting.reference)) :
    (now.offset time >>= next) = (graph.offset time >>= nextBefore) := by
  rw [offset_eq, offset_eq, undisturbed.setting, if_pos here]
  exact same

theorem edgesBetweenAt_eq (here : time.InWindow graph.setting.reference) {source target : VertexId}
    (sourceKnown : graph.check (.vertex source) = .ok ())
    (targetKnown : graph.check (.vertex target) = .ok ()) :
    now.edgesBetweenAt source target time = graph.edgesBetweenAt source target time := by
  have sourceCheck : now.checkVertex source = graph.checkVertex source :=
    undisturbed.check_eq sourceKnown
  have targetCheck : now.checkVertex target = graph.checkVertex target :=
    undisturbed.check_eq targetKnown
  apply undisturbed.bind_offset here
  rw [sourceCheck, targetCheck, undisturbed.outgoing, undisturbed.incoming]

variable (recorded : Recorded Change.Obtainable setting graph journal)

include recorded

theorem found_of_owned {owner : Owner} {id : PropertyId} (owned : id ∈ graph.owned owner) :
    ∃ history longer, graph.archive.history? id = some history ∧
      now.archive.history? id = some longer ∧ longer.name = history.name ∧
      longer.valueAt time = history.valueAt time := by
  rcases recorded.holdings.stored owned with ⟨history, found⟩
  rcases undisturbed.histories found with ⟨longer, foundNow, same⟩
  exact ⟨history, longer, found, foundNow, same⟩

theorem reading_eq {owner : Owner} {id : PropertyId} (owned : id ∈ graph.owned owner) :
    ((now.archive.history? id).bind fun history => history.readingAt time) =
      (graph.archive.history? id).bind fun history => history.readingAt time := by
  rcases undisturbed.found_of_owned recorded owned with
    ⟨history, longer, found, foundNow, sameName, sameValue⟩
  rw [found, foundNow, Option.bind_some, Option.bind_some, History.readingAt, History.readingAt,
    sameName, sameValue]

variable (canonical : now.archive.Canonical) {owner : Owner} (known : graph.check owner = .ok ())

include canonical known

theorem readings_eq : now.readings owner time = graph.readings owner time := by
  rw [Graph.readings_eq canonical, Graph.readings_eq recorded.canonical, undisturbed.owned known]
  apply congrArg Except.ok
  apply List.filterMap_congr
  intro id mem
  exact undisturbed.reading_eq recorded mem

theorem property?_eq (name : String) : now.property? owner name = graph.property? owner name := by
  have chosen : (graph.owned owner).filter (fun id => now.archive.name? id = some name) =
      (graph.owned owner).filter fun id => graph.archive.name? id = some name := by
    apply List.filter_congr
    intro id mem
    rcases undisturbed.found_of_owned recorded mem with ⟨_, _, found, foundNow, sameName, _⟩
    rw [canonical.name?_eq, recorded.canonical.name?_eq, found, foundNow, Option.map_some,
      Option.map_some, sameName]
  rw [property?, property?, undisturbed.owned known, chosen]

theorem namedReading?_eq (name : String) :
    now.namedReading? owner name time = graph.namedReading? owner name time := by
  rw [namedReading?, namedReading?, undisturbed.property?_eq recorded canonical known]
  cases named : graph.property? owner name with
  | error fault => rfl
  | ok found =>
    cases found with
    | none => rfl
    | some id =>
      have owned := (property?_eq_some named).1
      have same : now.reading? time id = graph.reading? time id := by
        rw [reading?_eq canonical, reading?_eq recorded.canonical,
          undisturbed.reading_eq recorded owned]
      exact same

end Answers

/-- A question about the instant is answered as before, if what it names was known. -/
theorem answer_eq (undisturbed : Undisturbed time graph now)
    (recorded : Recorded Change.Obtainable setting graph journal)
    (canonical : now.archive.Canonical) (here : time.InWindow graph.setting.reference)
    {question : Question} (asked : question.time = time)
    (known : ∀ owner ∈ question.arguments, graph.check owner = .ok ()) :
    now.answer question = graph.answer question := by
  have topology := Topology.of_recorded recorded
  subst asked
  cases question with
  | vertices time =>
    refine congrArg (Answer.vertices <$> ·) (undisturbed.bind_offset here ?_)
    rw [undisturbed.vertices]
  | edges time =>
    refine congrArg (Answer.edges <$> ·) (undisturbed.bind_offset here ?_)
    rw [undisturbed.edges]
  | outEdges vertex time =>
    have check : now.checkVertex vertex = graph.checkVertex vertex :=
      undisturbed.check_eq (known _ (.head _))
    refine congrArg (Answer.edges <$> ·) (undisturbed.bind_offset here ?_)
    rw [check, undisturbed.outgoing]
  | inEdges vertex time =>
    have check : now.checkVertex vertex = graph.checkVertex vertex :=
      undisturbed.check_eq (known _ (.head _))
    refine congrArg (Answer.edges <$> ·) (undisturbed.bind_offset here ?_)
    rw [check, undisturbed.incoming]
  | edgesBetween source target time =>
    apply congrArg (Answer.edges <$> ·)
    exact undisturbed.edgesBetweenAt_eq here (known _ (.head _)) (known _ (.tail _ (.head _)))
  | properties owner time =>
    have isKnown := known owner (.head _)
    refine congrArg (Answer.readings <$> ·) (undisturbed.bind_offset here ?_)
    have readings : now.readings owner time = graph.readings owner time :=
      undisturbed.readings_eq recorded canonical isKnown
    rw [undisturbed.check_eq isKnown, readings]
  | property owner name time =>
    have isKnown := known owner (.head _)
    refine congrArg (Answer.reading <$> ·) (undisturbed.bind_offset here ?_)
    have reading : now.namedReading? owner name time = graph.namedReading? owner name time :=
      undisturbed.namedReading?_eq recorded canonical isKnown name
    rw [undisturbed.check_eq isKnown, reading]
  | propertiesBetween source target time =>
    have between : now.edgesBetweenAt source target time =
        graph.edgesBetweenAt source target time :=
      undisturbed.edgesBetweenAt_eq here (known _ (.head _)) (known _ (.tail _ (.head _)))
    apply congrArg (Answer.readingsByEdge <$> ·)
    rw [propertiesBetweenAt, propertiesBetweenAt, between]
    apply topology.tabulate_between
    intro edge isKnown
    exact undisturbed.readings_eq recorded canonical isKnown
  | propertyBetween source target name time =>
    have between : now.edgesBetweenAt source target time =
        graph.edgesBetweenAt source target time :=
      undisturbed.edgesBetweenAt_eq here (known _ (.head _)) (known _ (.tail _ (.head _)))
    apply congrArg (Answer.readingByEdge <$> ·)
    rw [propertyBetweenAt, propertyBetweenAt, between]
    apply topology.tabulate_between
    intro edge isKnown
    exact undisturbed.namedReading?_eq recorded canonical isKnown name

end Undisturbed

/-- The past is immutable.  After changes dated later than an instant of the window, whether they
succeed or fail and whatever their batches hold, every question about the instant that names
what was known before is answered as before. -/
theorem Recorded.past_immutable (recorded : Recorded Change.Obtainable setting graph journal)
    (inWindow : time.InWindow setting.reference) {changes : List Change}
    (later : ∀ change ∈ changes, change.Later time) {question : Question}
    (asked : question.time = time)
    (known : ∀ owner ∈ question.arguments, graph.check owner = .ok ()) :
    (graph.after changes).answer question = graph.answer question := by
  rw [← recorded.setting_eq] at inWindow
  rcases undisturbed_after recorded.canonical inWindow later with ⟨canonical, undisturbed⟩
  exact undisturbed.answer_eq recorded canonical inWindow asked known

/-- The later changes add a vertex with a property, an edge beside the loop that is asked about,
fail once, and write to the property that is asked about. -/
def laterChanges : List Change :=
  [.addVertex [⟨⟨8⟩, "cost", ⟨200⟩, none, []⟩] ⟨126⟩, .addEdge ⟨1⟩ ⟨1⟩ [] ⟨130⟩,
    .addVertex [sampleHistory] ⟨140⟩, .write (.vertex ⟨0⟩) "load" (.int32 8) ⟨150⟩]

theorem past_immutable_sample :
    (sampleGraph.after laterChanges).vertexCount = 3 ∧
      ((sampleGraph.after laterChanges).answer
        (.property (.vertex ⟨0⟩) "load" ⟨125⟩)).toOption =
          some (.reading (some ⟨"load", .int32 (-4)⟩)) ∧
      ((sampleGraph.after laterChanges).answer
        (.edgesBetween ⟨1⟩ ⟨1⟩ ⟨125⟩)).toOption = some (.edges [⟨1⟩]) := by
  have later : ∀ change ∈ laterChanges, change.Later ⟨125⟩ := by
    intro change mem
    simp only [laterChanges, List.mem_cons, List.not_mem_nil, or_false] at mem
    rcases mem with rfl | rfl | rfl | rfl
    all_goals
      simp only [Change.Later]
      decide
  have first : sampleGraph.check (.vertex ⟨0⟩) = .ok () :=
    checkVertex_eq_ok_iff.mpr (by decide +kernel)
  have second : sampleGraph.check (.vertex ⟨1⟩) = .ok () :=
    checkVertex_eq_ok_iff.mpr (by decide +kernel)
  refine ⟨by decide +kernel, ?_, ?_⟩
  · rw [sample_recorded.past_immutable (by decide) later rfl]
    · decide +kernel
    · simpa [Question.arguments] using first
  · rw [sample_recorded.past_immutable (by decide) later rfl]
    · decide +kernel
    · simpa [Question.arguments] using second

end Graph

end TimedGraph
