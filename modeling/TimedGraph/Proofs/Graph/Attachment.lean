import TimedGraph.Proofs.Graph.Ownership

/-!
# Attaching a batch

Adding a vertex or an edge checks the instant, the vertices that are named, and then the
batch, history by history.  What comes of it is said without the roster that the check keeps:
the addition succeeds exactly if the batch is admissible, and otherwise fails for the first
objection (`Objection`), which for a batch is the flaw of its first history that does not
go together with those before it (`FirstFlaw`).

Once it is added, the vertex or edge owns the numbers of the batch in the order of their
first occurrence, and each number leads to its last history (`Attached`).  The two need not
be the same occurrence, because a batch may bring a number several times under one name.
-/

namespace TimedGraph.Graph

/-- What is wrong with a history of a batch for an owner added at an instant: the first of four
conditions that it does not meet, given the archive and the histories before it. -/
inductive Flaw (archive : Archive) (owner : Owner) (added : Instant) (earlier : List History)
    (history : History) : Fault → Prop where
  | older (older : history.created < added) :
      Flaw archive owner added earlier history (.propertyOrdering
        (.olderThanOwner history.name history.created owner.kind added))
  | stored (younger : added ≤ history.created)
      (stored : archive.contains history.id = true) :
      Flaw archive owner added earlier history (.propertyIdInUse history.id)
  | sharedName (younger : added ≤ history.created)
      (unstored : archive.contains history.id = false)
      (shared : ∃ other ∈ earlier, other.name = history.name ∧ other.id ≠ history.id) :
      Flaw archive owner added earlier history (.duplicateProperty history.name owner)
  | sharedNumber (younger : added ≤ history.created)
      (unstored : archive.contains history.id = false)
      (ownName : ¬∃ other ∈ earlier, other.name = history.name ∧ other.id ≠ history.id)
      (shared : ∃ other ∈ earlier, other.id = history.id ∧ other.name ≠ history.name) :
      Flaw archive owner added earlier history (.propertyIdInUse history.id)

/-- The fault of the first history of a batch that has one; the histories before it are
admissible. -/
def FirstFlaw (archive : Archive) (owner : Owner) (added : Instant) (batch : List History)
    (fault : Fault) : Prop :=
  ∃ earlier history later, batch = earlier ++ history :: later ∧
    Admissible archive added earlier ∧ Flaw archive owner added earlier history fault

/-- Why a vertex or an edge is not added at an instant: the first objection to the instant, to
the vertices that are named, from left to right, and to the batch. -/
inductive Objection (graph : Graph) (owner : Owner) (ends : List VertexId)
    (batch : List History) (time : Instant) : Fault → Prop where
  | outside (outside : ¬time.InWindow graph.setting.reference) :
      Objection graph owner ends batch time (.timeRange time graph.setting.reference)
  | unknown {before after : List VertexId} {vertex : VertexId}
      (inWindow : time.InWindow graph.setting.reference)
      (split : ends = before ++ vertex :: after)
      (known : ∀ other ∈ before, graph.HandedOut (.vertex other))
      (unknown : ¬graph.HandedOut (.vertex vertex)) :
      Objection graph owner ends batch time (.unknownEntity .vertex vertex.number)
  | flawed {fault : Fault} (inWindow : time.InWindow graph.setting.reference)
      (known : ∀ vertex ∈ ends, graph.HandedOut (.vertex vertex))
      (flaw : FirstFlaw graph.archive owner time batch fault) :
      Objection graph owner ends batch time fault

/-- What has become of a graph when a batch was attached to a new owner. -/
structure Attached (graph changed : Graph) (owner : Owner) (batch : List History) : Prop where
  mem_owned : ∀ id, id ∈ changed.owned owner ↔ id ∈ batch.map History.id
  /-- The owned numbers are distinct and stand in the order of their first occurrence. -/
  ordered : (changed.owned owner).Pairwise fun first second =>
    (batch.map History.id).idxOf first < (batch.map History.id).idxOf second
  /-- A number of the batch leads to its last history. -/
  stored : ∀ id ∈ batch.map History.id, ∃ history, History.lastOf batch id = some history ∧
    changed.archive.fetch? id = .ok (some history)
  /-- All other owners and numbers are left as they were. -/
  owned_eq : ∀ other, other ≠ owner → changed.owned other = graph.owned other
  fetch?_eq : ∀ id, id ∉ batch.map History.id →
    changed.archive.fetch? id = graph.archive.fetch? id

section Batch

variable {archive : Archive} {owner : Owner} {added : Instant} {batch earlier : List History}
  {history : History} {fault : Fault}

theorem Admissible.checkHistory_eq_error_iff (admissible : Admissible archive added earlier) :
    checkHistory archive owner added (.of earlier) history = .error fault ↔
      Flaw archive owner added earlier history fault := by
  rw [Agreed.checkHistory_eq admissible.agree]
  constructor
  · intro failed
    split at failed
    · rw [← Except.error.inj failed]
      exact .older ‹_›
    · rename_i younger
      have younger := Instant.not_lt.mp younger
      split at failed
      · rw [← Except.error.inj failed]
        exact .stored younger ‹_›
      · rename_i unstored
        have unstored := eq_false_of_ne_true unstored
        split at failed
        · rw [← Except.error.inj failed]
          exact .sharedName younger unstored ‹_›
        · split at failed
          · rw [← Except.error.inj failed]
            exact .sharedNumber younger unstored ‹_› ‹_›
          · simp at failed
  · intro flaw
    cases flaw with
    | older older => rw [if_pos older]
    | stored younger stored => rw [if_neg (Instant.not_lt.mpr younger), if_pos stored]
    | sharedName younger unstored shared =>
      rw [if_neg (Instant.not_lt.mpr younger), if_neg (ne_true_of_eq_false unstored),
        if_pos shared]
    | sharedNumber younger unstored ownName shared =>
      rw [if_neg (Instant.not_lt.mpr younger), if_neg (ne_true_of_eq_false unstored),
        if_neg ownName, if_pos shared]

/-- The rest of a batch fails its check at the first flaw. -/
theorem Admissible.checkBatchFrom_eq_error_iff (admissible : Admissible archive added earlier) :
    checkBatchFrom archive owner added (.of earlier) batch = .error fault ↔
      ∃ between history later, batch = between ++ history :: later ∧
        Admissible archive added (earlier ++ between) ∧
          Flaw archive owner added (earlier ++ between) history fault := by
  induction batch generalizing earlier with
  | nil => simp [checkBatchFrom]
  | cons head rest ih =>
    rw [checkBatchFrom, bind_eq_error, ← Roster.of_concat]
    constructor
    · rintro (failed | ⟨_, passed, failed⟩)
      · have flaw := admissible.checkHistory_eq_error_iff.mp failed
        refine ⟨[], head, rest, rfl, ?_, ?_⟩
        · rwa [List.append_nil]
        · rwa [List.append_nil]
      · have longer := admissible.checkHistory_eq_ok_iff.mp passed
        rcases (ih longer).mp failed with ⟨between, history, later, rfl, whole, flaw⟩
        refine ⟨head :: between, history, later, rfl, ?_, ?_⟩
        · rwa [List.append_cons]
        · rwa [List.append_cons]
    · rintro ⟨between, history, later, split, whole, flaw⟩
      cases between with
      | nil =>
        rcases List.cons.inj split with ⟨rfl, rfl⟩
        rw [List.append_nil] at flaw
        exact .inl (admissible.checkHistory_eq_error_iff.mpr flaw)
      | cons first between =>
        rcases List.cons.inj split with ⟨rfl, rfl⟩
        rw [List.append_cons] at whole flaw
        have longer := whole.of_append
        refine .inr ⟨(), admissible.checkHistory_eq_ok_iff.mpr longer, ?_⟩
        exact (ih longer).mpr ⟨between, history, later, rfl, whole, flaw⟩

/-- A batch fails its check with the fault of its first flawed history. -/
theorem checkBatch_eq_error_iff :
    checkBatch archive owner added batch = .error fault ↔
      FirstFlaw archive owner added batch fault :=
  Admissible.nil.checkBatchFrom_eq_error_iff

end Batch

/-- What is checked before a vertex or an edge is added: the instant, the vertices that are named,
and the batch. -/
def checkAddition (graph : Graph) (owner : Owner) (ends : List VertexId) (batch : List History)
    (time : Instant) : Except Fault Unit := do
  let _ ← graph.offset time
  forM ends graph.checkVertex
  checkBatch graph.archive owner time batch

variable {setting : Setting} {graph changed : Graph} {journal : Journal} {owner : Owner}
  {ends : List VertexId} {source target : VertexId} {batch : List History} {time : Instant}
  {fault : Fault}

theorem checkVertices_eq_ok_iff : forM ends graph.checkVertex = .ok () ↔
    ∀ vertex ∈ ends, graph.HandedOut (.vertex vertex) := by
  simp only [forM_eq_ok_iff, checkVertex_eq_ok_iff, HandedOut]

/-- Of several vertices, the first unknown one is refused. -/
theorem checkVertices_eq_error_iff : forM ends graph.checkVertex = .error fault ↔
    ∃ before vertex after, ends = before ++ vertex :: after ∧
      (∀ other ∈ before, graph.HandedOut (.vertex other)) ∧
        ¬graph.HandedOut (.vertex vertex) ∧ fault = .unknownEntity .vertex vertex.number := by
  simp only [forM_eq_error_iff, checkVertex_eq_ok_iff, checkVertex_eq_error_iff, HandedOut]

theorem checkAddition_eq_ok_iff : graph.checkAddition owner ends batch time = .ok () ↔
    time.InWindow graph.setting.reference ∧ (∀ vertex ∈ ends, graph.HandedOut (.vertex vertex)) ∧
      Admissible graph.archive time batch := by
  simp only [checkAddition, bind_eq_ok, offset_eq_ok_iff, checkBatch_eq_ok_iff]
  constructor
  · rintro ⟨_, ⟨inWindow, _⟩, ⟨⟩, passed, admissible⟩
    exact ⟨inWindow, checkVertices_eq_ok_iff.mp passed, admissible⟩
  · rintro ⟨inWindow, known, admissible⟩
    exact ⟨_, ⟨inWindow, rfl⟩, (), checkVertices_eq_ok_iff.mpr known, admissible⟩

/-- An addition fails its check for the first objection to it. -/
theorem checkAddition_eq_error_iff : graph.checkAddition owner ends batch time = .error fault ↔
    graph.Objection owner ends batch time fault := by
  simp only [checkAddition, bind_eq_error, checkVertices_eq_error_iff, checkBatch_eq_error_iff]
  constructor
  · rintro (failed | ⟨_, passed, failed | ⟨⟨⟩, known, flaw⟩⟩)
    · rw [offset_eq] at failed
      split at failed
      · simp at failed
      · rw [← Except.error.inj failed]
        exact .outside ‹_›
    · rcases offset_eq_ok_iff.mp passed with ⟨inWindow, _⟩
      rcases failed with ⟨before, vertex, after, split, known, unknown, rfl⟩
      exact .unknown inWindow split known unknown
    · rcases offset_eq_ok_iff.mp passed with ⟨inWindow, _⟩
      exact .flawed inWindow (checkVertices_eq_ok_iff.mp known) flaw
  · intro objection
    cases objection with
    | outside outside => exact .inl (by rw [offset_eq, if_neg outside])
    | unknown inWindow split known unknown =>
      refine .inr ⟨_, offset_eq_ok_iff.mpr ⟨inWindow, rfl⟩, .inl ?_⟩
      exact ⟨_, _, _, split, known, unknown, rfl⟩
    | flawed inWindow known flaw =>
      refine .inr ⟨_, offset_eq_ok_iff.mpr ⟨inWindow, rfl⟩, .inr ?_⟩
      exact ⟨(), checkVertices_eq_ok_iff.mpr known, flaw⟩

theorem addVertex_eq (room : graph.vertexCount + 1 < UInt32.size) :
    graph.addVertex batch time =
      match graph.checkAddition (.vertex graph.freshVertex) [] batch time with
      | .error fault => (.error fault, graph)
      | .ok () => (.ok graph.freshVertex, graph.withVertex batch time) := by
  simp only [addVertex, prepareVertex, checkAddition, offset_eq, draw_of_room room, freshVertex]
  by_cases inWindow : time.InWindow graph.setting.reference
  · simp only [if_pos inWindow]
    cases checkBatch graph.archive (.vertex ⟨graph.vertexCounter.next⟩) time batch <;> rfl
  · simp only [if_neg inWindow]
    rfl

theorem addEdge_eq (room : graph.edgeCount + 1 < UInt32.size) :
    graph.addEdge source target batch time =
      match graph.checkAddition (.edge graph.freshEdge) [source, target] batch time with
      | .error fault => (.error fault, graph)
      | .ok () => (.ok graph.freshEdge, graph.withEdge source target batch time) := by
  simp only [addEdge, prepareEdge, checkAddition, offset_eq, draw_of_room room, freshEdge]
  by_cases inWindow : time.InWindow graph.setting.reference
  · simp only [if_pos inWindow, List.forM_cons, List.forM_nil]
    cases graph.checkVertex source with
    | error fault => rfl
    | ok _ =>
      cases graph.checkVertex target with
      | error fault => rfl
      | ok _ =>
        cases checkBatch graph.archive (.edge ⟨graph.edgeCounter.next⟩) time batch <;> rfl
  · simp only [if_neg inWindow]
    rfl

theorem addVertex_fst (room : graph.vertexCount + 1 < UInt32.size) :
    (graph.addVertex batch time).1 =
      (fun _ => graph.freshVertex) <$>
        graph.checkAddition (.vertex graph.freshVertex) [] batch time := by
  rw [addVertex_eq room]
  cases graph.checkAddition (.vertex graph.freshVertex) [] batch time <;> rfl

theorem addEdge_fst (room : graph.edgeCount + 1 < UInt32.size) :
    (graph.addEdge source target batch time).1 =
      (fun _ => graph.freshEdge) <$>
        graph.checkAddition (.edge graph.freshEdge) [source, target] batch time := by
  rw [addEdge_eq room]
  cases graph.checkAddition (.edge graph.freshEdge) [source, target] batch time <;> rfl

namespace Recorded

variable (recorded : Recorded Change.Obtainable setting graph journal)

include recorded

/-- An admissible batch is attached by recording it for an unknown owner and storing it. -/
theorem attached (unknown : graph.check owner ≠ .ok ())
    (admissible : Admissible graph.archive time batch)
    (ownership : changed.ownership = attach graph.ownership owner batch)
    (archive : changed.archive = storeBatch graph.archive batch) :
    Attached graph changed owner batch := by
  have topology := Topology.of_recorded recorded
  have canonical := recorded.canonical
  have attaching := recorded.holdings.attaching topology canonical unknown admissible
  simp only [← ownership, ← archive] at attaching
  have changedCanonical : changed.archive.Canonical := by
    rw [archive]
    exact canonical.storeAll batch
  have owned : changed.owned owner = batchIds batch :=
    (attaching.ownership owner).trans (if_pos rfl)
  constructor
  · intro id
    rw [owned, mem_batchIds]
  · rw [owned]
    exact pairwise_idxOf_eraseDups (batch.map History.id)
  · intro id mem
    rcases History.exists_lastOf mem with ⟨history, last⟩
    refine ⟨history, last, ?_⟩
    rw [changedCanonical.fetch?_eq, attaching.storage, last, Option.some_or]
  · intro other different
    exact (attaching.ownership other).trans (if_neg different)
  · intro id notMem
    have notNew := History.lastOf_eq_none_iff.mpr notMem
    rw [changedCanonical.fetch?_eq, canonical.fetch?_eq, attaching.storage, notNew, Option.none_or]

theorem attached_of_addVertex (room : graph.vertexCount + 1 < UInt32.size) {vertex : VertexId}
    (succeeded : (graph.addVertex batch time).1 = .ok vertex) :
    vertex.number.toNat = graph.vertexCount ∧
      Attached graph (graph.addVertex batch time).2 (.vertex vertex) batch := by
  rw [addVertex_fst room, map_eq_ok] at succeeded
  rcases succeeded with ⟨⟨⟩, passed, rfl⟩
  rcases checkAddition_eq_ok_iff.mp passed with ⟨_, _, admissible⟩
  rw [addVertex_eq room, passed]
  exact ⟨rfl, recorded.attached graph.check_freshVertex admissible rfl rfl⟩

theorem attached_of_addEdge (room : graph.edgeCount + 1 < UInt32.size) {edge : EdgeId}
    (succeeded : (graph.addEdge source target batch time).1 = .ok edge) :
    edge.number.toNat = graph.edgeCount ∧
      Attached graph (graph.addEdge source target batch time).2 (.edge edge) batch := by
  rw [addEdge_fst room, map_eq_ok] at succeeded
  rcases succeeded with ⟨⟨⟩, passed, rfl⟩
  rcases checkAddition_eq_ok_iff.mp passed with ⟨_, _, admissible⟩
  rw [addEdge_eq room, passed]
  exact ⟨rfl, recorded.attached graph.check_freshEdge admissible rfl rfl⟩

end Recorded

section Sample

/-- A batch that brings a number twice, with another one in between. -/
def doubledBatch : List History :=
  [⟨⟨8⟩, "b", ⟨60⟩, none, []⟩, ⟨⟨9⟩, "a", ⟨60⟩, none, []⟩, ⟨⟨8⟩, "b", ⟨70⟩, none, []⟩]

/-- A batch that brings a name under two numbers. -/
def sharedBatch : List History :=
  [⟨⟨8⟩, "b", ⟨60⟩, none, []⟩, ⟨⟨9⟩, "b", ⟨60⟩, none, []⟩]

end Sample

/-- A batch is attached exactly if it is consistent.  While there are numbers left, a vertex is
added at every instant of the window with every admissible batch, and an edge between any two
known vertices.  An addition that fails does so for the first objection to it; one that
succeeds answers the number that was next, and leaves its batch attached. -/
theorem Recorded.attachment_exact (recorded : Recorded Change.Obtainable setting graph journal)
    (vertexRoom : graph.vertexCount + 1 < UInt32.size)
    (edgeRoom : graph.edgeCount + 1 < UInt32.size) (batch : List History) (time : Instant) :
    ((∃ vertex, (graph.addVertex batch time).1 = .ok vertex) ↔
      time.InWindow graph.setting.reference ∧ Admissible graph.archive time batch) ∧
    (∀ fault, (graph.addVertex batch time).1 = .error fault ↔
      graph.Objection (.vertex graph.freshVertex) [] batch time fault) ∧
    (∀ vertex, (graph.addVertex batch time).1 = .ok vertex →
      vertex.number.toNat = graph.vertexCount ∧
        Attached graph (graph.addVertex batch time).2 (.vertex vertex) batch) ∧
    ∀ source target,
      ((∃ edge, (graph.addEdge source target batch time).1 = .ok edge) ↔
        time.InWindow graph.setting.reference ∧ graph.HandedOut (.vertex source) ∧
          graph.HandedOut (.vertex target) ∧ Admissible graph.archive time batch) ∧
      (∀ fault, (graph.addEdge source target batch time).1 = .error fault ↔
        graph.Objection (.edge graph.freshEdge) [source, target] batch time fault) ∧
      ∀ edge, (graph.addEdge source target batch time).1 = .ok edge →
        edge.number.toNat = graph.edgeCount ∧
          Attached graph (graph.addEdge source target batch time).2 (.edge edge) batch := by
  refine ⟨?_, ?_, ?_, fun source target => ⟨?_, ?_, ?_⟩⟩
  · rw [addVertex_fst vertexRoom, exists_map_eq_ok_iff, checkAddition_eq_ok_iff]
    simp only [List.not_mem_nil, false_implies, implies_true, true_and]
  · intro fault
    rw [addVertex_fst vertexRoom, map_eq_error, checkAddition_eq_error_iff]
  · intro vertex succeeded
    exact recorded.attached_of_addVertex vertexRoom succeeded
  · rw [addEdge_fst edgeRoom, exists_map_eq_ok_iff, checkAddition_eq_ok_iff]
    simp only [List.forall_mem_cons, List.not_mem_nil, false_implies, implies_true, and_true,
      and_assoc]
  · intro fault
    rw [addEdge_fst edgeRoom, map_eq_error, checkAddition_eq_error_iff]
  · intro edge succeeded
    exact recorded.attached_of_addEdge edgeRoom succeeded

/-- A repeated number leads to its last history; a shared name and an unknown end are refused. -/
theorem attachment_exact_sample :
    (∃ vertex, (sampleGraph.addVertex doubledBatch ⟨60⟩).1 = .ok vertex ∧
      vertex.number.toNat = 2 ∧
      (sampleGraph.addVertex doubledBatch ⟨60⟩).2.archive.fetch? ⟨8⟩ =
        .ok (some ⟨⟨8⟩, "b", ⟨70⟩, none, []⟩)) ∧
    (sampleGraph.addVertex sharedBatch ⟨60⟩).1 =
      .error (.duplicateProperty "b" (.vertex sampleGraph.freshVertex)) ∧
    (sampleGraph.addEdge ⟨0⟩ ⟨5⟩ [] ⟨60⟩).1 = .error (.unknownEntity .vertex 5) := by
  have vertices : sampleGraph.vertexCount = 2 := by decide +kernel
  have edges : sampleGraph.edgeCount = 2 := by decide +kernel
  have unstored : sampleGraph.archive.contains ⟨8⟩ = false ∧
      sampleGraph.archive.contains ⟨9⟩ = false := by decide +kernel
  have vertexRoom : sampleGraph.vertexCount + 1 < UInt32.size := by rw [vertices]; decide
  have edgeRoom : sampleGraph.edgeCount + 1 < UInt32.size := by rw [edges]; decide
  have inWindow : (⟨60⟩ : Instant).InWindow sampleGraph.setting.reference := by
    rw [sample_recorded.setting_eq]
    decide
  rcases sample_recorded.attachment_exact vertexRoom edgeRoom doubledBatch ⟨60⟩ with
    ⟨succeeds, _, attached, _⟩
  rcases sample_recorded.attachment_exact vertexRoom edgeRoom sharedBatch ⟨60⟩ with ⟨_, fails, _⟩
  rcases sample_recorded.attachment_exact vertexRoom edgeRoom [] ⟨60⟩ with ⟨_, _, _, edge⟩
  refine ⟨?_, ?_, ?_⟩
  · have admissible : Admissible sampleGraph.archive ⟨60⟩ doubledBatch := by
      constructor
      · decide
      · simp [doubledBatch, unstored]
      · simp [doubledBatch, Agree]
    rcases succeeds.mpr ⟨inWindow, admissible⟩ with ⟨vertex, succeeded⟩
    rcases attached vertex succeeded with ⟨number, attached⟩
    rcases attached.stored ⟨8⟩ (by decide) with ⟨history, last, stored⟩
    cases last
    exact ⟨vertex, succeeded, number.trans vertices, stored⟩
  · apply (fails _).mpr
    have first : Admissible sampleGraph.archive ⟨60⟩ (sharedBatch.take 1) := by
      constructor
      · decide
      · simp [sharedBatch, unstored]
      · simp [sharedBatch, Agree]
    refine .flawed inWindow (by simp) ⟨_, ⟨⟨9⟩, "b", ⟨60⟩, none, []⟩, [], rfl, first, ?_⟩
    exact .sharedName (by decide) unstored.2 (by decide)
  · apply ((edge ⟨0⟩ ⟨5⟩).2.1 _).mpr
    have split : [⟨0⟩, ⟨5⟩] = [⟨0⟩] ++ (⟨5⟩ : VertexId) :: [] := rfl
    refine .unknown inWindow split ?_ ?_
    · simp [HandedOut, vertices]
    · simp [HandedOut, vertices]

end TimedGraph.Graph
