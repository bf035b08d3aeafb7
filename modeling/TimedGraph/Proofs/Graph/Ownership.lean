import TimedGraph.Proofs.Graph.Holdings

/-!
# Ownership along a run

The known vertices and edges of a recorded graph are those that its journal has added, each
at one instant.  A number that has not been handed out therefore owns nothing, and a batch
comes to an owner without properties.  Everything else that keeps owners and archive
together is said by `Holdings`, which every change preserves.
-/

namespace TimedGraph

namespace Journal

variable {journal : Journal} {time : Instant}

theorem vertex_mem_additions {vertex : VertexId} :
    (.vertex vertex, time) ∈ journal.additions ↔
      ∃ entry ∈ journal.vertices, entry.id = vertex ∧ entry.time = time := by
  simp [additions]

theorem edge_mem_additions {edge : EdgeId} :
    (.edge edge, time) ∈ journal.additions ↔
      ∃ entry ∈ journal.edges, entry.id = edge ∧ entry.time = time := by
  simp [additions]

theorem additions_note {addition : Owner × Instant} (added : addition ∈ journal.additions)
    (change : Change) (outcome : Except Fault Answer) :
    addition ∈ (journal.note change outcome).additions := by
  simp only [additions, List.mem_append] at added
  unfold note
  split
  · simp only [additions, List.map_append, List.mem_append]
    exact added.imp_left .inl
  · simp only [additions, List.map_append, List.mem_append]
    exact added.imp_right .inl
  · exact List.mem_append.mpr added
  · exact List.mem_append.mpr added
  · exact List.mem_append.mpr added

end Journal

namespace Graph

variable {setting : Setting} {graph changed : Graph} {journal : Journal} {owner other : Owner}
  {batch : List History} {time : Instant}

/-- Entries that are numbered in order have the numbers below their count. -/
theorem lt_count_iff {α : Type} {entries : List α} {number : α → UInt32} {count : Nat}
    {wanted : UInt32}
    (numbers : entries.map (fun entry => (number entry).toNat) = List.range count) :
    wanted.toNat < count ↔ ∃ entry ∈ entries, number entry = wanted := by
  simp only [← List.mem_range, ← numbers, List.mem_map]
  simp only [UInt32.toNat_inj]

namespace Topology

variable (topology : Topology graph journal)

include topology

/-- What is known has been added. -/
theorem check_eq_ok_iff :
    graph.check owner = .ok () ↔ ∃ time, (owner, time) ∈ journal.additions := by
  cases owner with
  | vertex vertex =>
    simp only [check, checkVertex_eq_ok_iff, lt_count_iff topology.vertexNumbers]
    simp only [Journal.vertex_mem_additions]
    constructor
    · rintro ⟨entry, mem, sameNumber⟩
      exact ⟨entry.time, entry, mem, congrArg VertexId.mk sameNumber, rfl⟩
    · rintro ⟨_, entry, mem, rfl, _⟩
      exact ⟨entry, mem, rfl⟩
  | edge edge =>
    simp only [check, checkEdge_eq_ok_iff, lt_count_iff topology.edgeNumbers]
    simp only [Journal.edge_mem_additions]
    constructor
    · rintro ⟨entry, mem, sameNumber⟩
      exact ⟨entry.time, entry, mem, congrArg EdgeId.mk sameNumber, rfl⟩
    · rintro ⟨_, entry, mem, rfl, _⟩
      exact ⟨entry, mem, rfl⟩

theorem added_once {first second : Instant} (firstAdded : (owner, first) ∈ journal.additions)
    (secondAdded : (owner, second) ∈ journal.additions) : first = second := by
  cases owner with
  | vertex vertex =>
    rcases Journal.vertex_mem_additions.mp firstAdded with ⟨entry, entryMem, rfl, rfl⟩
    rcases Journal.vertex_mem_additions.mp secondAdded with ⟨other, otherMem, same, rfl⟩
    rw [eq_of_number_eq topology.vertices_ascending entryMem otherMem
      (congrArg VertexId.number same.symm)]
  | edge edge =>
    rcases Journal.edge_mem_additions.mp firstAdded with ⟨entry, entryMem, rfl, rfl⟩
    rcases Journal.edge_mem_additions.mp secondAdded with ⟨other, otherMem, same, rfl⟩
    rw [eq_of_number_eq topology.edges_ascending entryMem otherMem
      (congrArg EdgeId.number same.symm)]

end Topology

theorem getD_attach {ownership : Table Owner (List PropertyId)}
    (fresh : (ownership.get? owner).getD [] = []) (batch : List History) (other : Owner) :
    ((attach ownership owner batch).get? other).getD [] =
      if other = owner then batchIds batch else (ownership.get? other).getD [] := by
  cases batch with
  | nil =>
    split
    · rename_i isOwner
      simp only [isOwner]
      exact fresh
    · rfl
  | cons history rest =>
    simp only [attach, List.isEmpty_cons, Bool.false_eq_true, if_false, Table.get?_insert]
    split <;> rfl

/-- Ownership and storage of a graph belong together, by the additions of a journal. -/
abbrev HoldsTogether (graph : Graph) (journal : Journal) : Prop :=
  Holdings graph.owned graph.archive.history? fun owner time => (owner, time) ∈ journal.additions

namespace HoldsTogether

variable (holdings : HoldsTogether graph journal)

include holdings

theorem owned_eq_nil (topology : Topology graph journal) (unknown : graph.check owner ≠ .ok ()) :
    graph.owned owner = [] := by
  refine List.eq_nil_iff_forall_not_mem.mpr fun id mem => unknown ?_
  rcases holdings.stored mem with ⟨history, found⟩
  rcases holdings.younger mem found with ⟨time, added, _⟩
  exact topology.check_eq_ok_iff.mpr ⟨time, added⟩

/-- An admissible batch comes to an owner that is not known yet. -/
theorem attaching (topology : Topology graph journal) (canonical : graph.archive.Canonical)
    (unknown : graph.check owner ≠ .ok ()) (admissible : Admissible graph.archive time batch) :
    Attaching graph.owned (fun other => ((attach graph.ownership owner batch).get? other).getD [])
      graph.archive.history? (storeBatch graph.archive batch).history? owner batch where
  fresh := holdings.owned_eq_nil topology unknown
  unstored _ mem := admissible.history?_eq_none canonical mem
  ownership := getD_attach (holdings.owned_eq_nil topology unknown) batch
  storage := Archive.history?_storeAll graph.archive batch

theorem write {id : PropertyId} {history longer : History} {value : Value}
    (canonical : graph.archive.Canonical) (found : graph.archive.history? id = some history)
    (accepted : history.write time value = (.ok (), longer)) :
    HoldsTogether (graph.withArchive (graph.archive.store longer)) journal := by
  have same : (history.write time value).2 = longer := congrArg Prod.snd accepted
  subst same
  have same : history.id = id := canonical.id_eq found
  subst same
  refine holdings.replace (fun {id other} foundOther => ?_) (fun {id before} foundBefore => ?_)
    (fun {id other} foundOther => ?_)
  · simp only [withArchive, Archive.history?_store] at foundOther
    split at foundOther
    · have same := Option.some.inj foundOther
      subst same
      exact (holdings.sound found).write time value
    · exact holdings.sound foundOther
  · simp only [withArchive, Archive.history?_store]
    split
    · exact ⟨_, rfl⟩
    · exact ⟨before, foundBefore⟩
  · simp only [withArchive, Archive.history?_store, History.write_id] at foundOther
    split at foundOther
    · rename_i isId
      have same := Option.some.inj foundOther
      subst same
      exact ⟨history, isId ▸ found, history.write_name time value, history.write_created time value⟩
    · exact ⟨other, foundOther, rfl, rfl⟩

theorem purge {ids rewritten : List PropertyId} {purged : Archive}
    (purgedTo : graph.archive.PurgedTo time ids purged rewritten) :
    HoldsTogether (graph.withArchive purged) journal := by
  refine holdings.replace (fun {id other} foundOther => ?_) (fun {id before} foundBefore => ?_)
    (fun {id other} foundOther => ?_)
  · rcases purgedTo.found_cases foundOther with ⟨before, foundBefore, rfl⟩ | foundBefore
    · exact (holdings.sound foundBefore).purge time
    · exact holdings.sound foundBefore
  · simp only [withArchive, purgedTo.history?_eq, foundBefore]
    split
    · exact ⟨_, rfl⟩
    · exact ⟨before, rfl⟩
  · rcases purgedTo.found_cases foundOther with ⟨before, foundBefore, rfl⟩ | foundBefore
    · exact ⟨before, foundBefore, before.purge_name time, before.purge_created time⟩
    · exact ⟨other, foundBefore, rfl, rfl⟩

end HoldsTogether

theorem check_freshVertex (graph : Graph) : graph.check (.vertex graph.freshVertex) ≠ .ok () := by
  simp only [check, Ne, checkVertex_eq_ok_iff]
  exact Nat.lt_irrefl _

theorem check_freshEdge (graph : Graph) : graph.check (.edge graph.freshEdge) ≠ .ok () := by
  simp only [check, Ne, checkEdge_eq_ok_iff]
  exact Nat.lt_irrefl _

theorem Recorded.holdings (recorded : Recorded Change.Obtainable setting graph journal) :
    HoldsTogether graph journal := by
  apply recorded.induct (motive := HoldsTogether) (.start _)
  intro graph changed journal change outcome before obtainable step holdings
  have topology := Topology.of_recorded before
  have canonical := before.canonical
  cases step with
  | refused change fault =>
    simp only [Journal.note_error]
    exact holdings
  | vertex inWindow admissible room =>
    refine holdings.attach
      (holdings.attaching topology canonical graph.check_freshVertex admissible)
      (fun history mem => (obtainable history mem).sound) admissible.agree admissible.younger ?_
      fun added => Journal.additions_note added _ _
    exact Journal.vertex_mem_additions.mpr ⟨_, List.mem_append_right _ (.head _), rfl, rfl⟩
  | edge inWindow sourceKnown targetKnown admissible room =>
    refine holdings.attach
      (holdings.attaching topology canonical graph.check_freshEdge admissible)
      (fun history mem => (obtainable history mem).sound) admissible.agree admissible.younger ?_
      fun added => Journal.additions_note added _ _
    exact Journal.edge_mem_additions.mpr ⟨_, List.mem_append_right _ (.head _), rfl, rfl⟩
  | write inWindow known owned found accepted => exact holdings.write canonical found accepted
  | purge inWindow run =>
    rcases canonical.purgedTo run with ⟨_, _, purgedTo⟩
    exact holdings.purge purgedTo

end Graph

end TimedGraph
