import TimedGraph.Proofs.Graph.Legible
import TimedGraph.Proofs.Graph.Ownership

/-!
# The properties of a graph are those of its journal

A graph reaches the log of a property in three steps: from the owner to a number, from the
number to a record, and from the record to offsets and values.  `Courses` says that what
lies behind these steps is the log that the journal has noted.

A purge is the change for which this is not obvious.  The journal deletes from every log,
but the graph visits only what exists at the instant.  The rest is spared rightly, because
an owner that does not exist yet has only histories that begin later.
-/

namespace TimedGraph

namespace Graph

variable {setting : Setting} {graph : Graph} {journal : Journal} {owner other : Owner}
  {batch : List History} {time : Instant}

/-- The properties of a graph take the course that its journal has noted. -/
structure Courses (graph : Graph) (journal : Journal) : Prop where
  owned : ∀ owner, graph.owned owner = (journal.propertiesOf owner).map PropertyEntry.id
  stored : ∀ entry ∈ journal.properties, ∃ history,
    graph.archive.history? entry.id = some history ∧
      history.name = entry.name ∧ history.log = entry.log

theorem mem_propertiesOf {entry : PropertyEntry} :
    entry ∈ journal.propertiesOf owner ↔ entry ∈ journal.properties ∧ entry.owner = owner := by
  simp [Journal.propertiesOf]

theorem map_id_attached (owner : Owner) (batch : List History) :
    (Journal.attached owner batch).map PropertyEntry.id = batchIds batch := by
  have last : ∀ id ∈ batchIds batch, ((History.lastOf batch id).map fun history =>
      (⟨owner, id, history.name, history.log⟩ : PropertyEntry)).map PropertyEntry.id = some id := by
    intro id mem
    rcases History.exists_lastOf (mem_batchIds.mp mem) with ⟨history, isLast⟩
    simp [isLast]
  simp only [Journal.attached, List.map_filterMap]
  exact (List.filterMap_congr last).trans List.filterMap_some

theorem propertiesOf_attached (owner other : Owner) (batch : List History) :
    (Journal.attached owner batch).filter (·.owner = other) =
      if other = owner then Journal.attached owner batch else [] := by
  have sameOwner : ∀ entry ∈ Journal.attached owner batch, entry.owner = owner := by
    intro entry mem
    rcases List.mem_filterMap.mp mem with ⟨id, _, isEntry⟩
    rcases Option.map_eq_some_iff.mp isEntry with ⟨history, _, rfl⟩
    rfl
  split
  · rename_i isOwner
    exact List.filter_eq_self.mpr fun entry mem => by simp [sameOwner entry mem, isOwner]
  · rename_i notOwner
    apply List.filter_eq_nil_iff.mpr
    intro entry mem
    simpa [sameOwner entry mem] using Ne.symm notOwner

/-- A change of the logs alone leaves the properties of each owner in place. -/
theorem propertiesOf_map {change : PropertyEntry → PropertyEntry}
    (sameOwner : ∀ entry, (change entry).owner = entry.owner)
    (sameId : ∀ entry, (change entry).id = entry.id) (owner : Owner) :
    (({ journal with properties := journal.properties.map change } : Journal).propertiesOf
        owner).map PropertyEntry.id = (journal.propertiesOf owner).map PropertyEntry.id := by
  simp only [Journal.propertiesOf, List.filter_map, List.map_map, Function.comp_def, sameOwner,
    sameId]

namespace Courses

theorem start (setting : Setting) : Courses (.empty setting) .empty where
  owned _ := rfl
  stored := by simp [Journal.empty]

variable (courses : Courses graph journal)

include courses

theorem mem_owned {entry : PropertyEntry} (mem : entry ∈ journal.properties) :
    entry.id ∈ graph.owned entry.owner := by
  simp only [courses.owned]
  exact List.mem_map_of_mem (mem_propertiesOf.mpr ⟨mem, rfl⟩)

theorem attach {changed : Graph} {noted : Journal}
    (attaching : Attaching graph.owned changed.owned graph.archive.history?
      changed.archive.history? owner batch)
    (properties : noted.properties = journal.properties ++ Journal.attached owner batch) :
    Courses changed noted where
  owned other := by
    rw [attaching.ownership, Journal.propertiesOf, properties, List.filter_append, List.map_append,
      propertiesOf_attached]
    have before := courses.owned other
    simp only [Journal.propertiesOf] at before
    simp only [← before]
    split
    · rename_i isOwner
      simp only [isOwner, attaching.fresh, List.nil_append, map_id_attached]
    · simp only [List.map_nil, List.append_nil]
  stored entry mem := by
    simp only [properties] at mem
    rcases List.mem_append.mp mem with old | new
    · rcases courses.stored entry old with ⟨history, found, sameCourse⟩
      exact ⟨history, attaching.kept found, sameCourse⟩
    · rcases List.mem_filterMap.mp new with ⟨id, _, isEntry⟩
      rcases Option.map_eq_some_iff.mp isEntry with ⟨history, isLast, rfl⟩
      exact ⟨history, by rw [attaching.storage, isLast, Option.some_or], rfl, rfl⟩

theorem write (holdings : HoldsTogether graph journal) (canonical : graph.archive.Canonical)
    {id : PropertyId} {history longer : History} {value : Value} (owned : id ∈ graph.owned owner)
    (found : graph.archive.history? id = some history)
    (accepted : history.write time value = (.ok (), longer)) :
    Courses (graph.withArchive (graph.archive.store longer))
      (journal.write owner history.name value time) where
  owned other := by
    rw [Journal.write, propertiesOf_map]
    · exact courses.owned other
    · intro entry
      split <;> rfl
    · intro entry
      split <;> rfl
  stored := by
    have same : (history.write time value).2 = longer := congrArg Prod.snd accepted
    subst same
    have sameId : (history.write time value).2.id = id :=
      (history.write_id time value).trans (canonical.id_eq found)
    have longerLog := History.log_write accepted
    intro changed mem
    rcases List.mem_map.mp mem with ⟨entry, entryMem, rfl⟩
    rcases courses.stored entry entryMem with ⟨before, foundBefore, sameName, sameLog⟩
    simp only [withArchive, Archive.history?_store, sameId]
    by_cases same : entry.id = id
    · subst same
      have same : before = history := Option.some.inj (foundBefore.symm.trans found)
      subst same
      have isOwner : entry.owner = owner := holdings.unique (courses.mem_owned entryMem) owned
      simp only [isOwner, sameName, and_self, if_true]
      exact ⟨_, rfl, (before.write_name time value).trans sameName, by rw [longerLog, sameLog]⟩
    · have elsewhere : ¬(entry.owner = owner ∧ entry.name = history.name) := by
        rintro ⟨rfl, alike⟩
        exact same (holdings.named (courses.mem_owned entryMem) owned foundBefore found
          (sameName.trans alike))
      simp only [if_neg elsewhere, if_neg same]
      exact ⟨before, foundBefore, sameName, sameLog⟩

/-- The logs that a purge does not visit have nothing to lose. -/
theorem purge (holdings : HoldsTogether graph journal)
    (visited : ∀ owner instant, (owner, instant) ∈ journal.additions → instant ≤ time →
      owner ∈ graph.visited time)
    {rewritten : List PropertyId} {purged : Archive}
    (purgedTo : graph.archive.PurgedTo time ((graph.visited time).flatMap graph.owned) purged
      rewritten) :
    Courses (graph.withArchive purged) (journal.purge time) where
  owned other := by
    rw [Journal.purge, propertiesOf_map]
    · exact courses.owned other
    · intro _
      exact rfl
    · intro _
      exact rfl
  stored := by
    intro changed mem
    rcases List.mem_map.mp mem with ⟨entry, entryMem, rfl⟩
    rcases courses.stored entry entryMem with ⟨history, found, sameName, sameLog⟩
    have sound := holdings.sound found
    have owned := courses.mem_owned entryMem
    simp only [withArchive, purgedTo.history?_eq, found]
    split
    · refine ⟨_, rfl, (history.purge_name time).trans sameName, ?_⟩
      simp only [sound.log_purge, sameLog]
    · rename_i unvisited
      refine ⟨history, rfl, sameName, ?_⟩
      rcases holdings.younger owned found with ⟨added, isAdded, notYounger⟩
      have later : ¬added ≤ time := fun early =>
        unvisited (List.mem_flatMap.mpr ⟨entry.owner, visited _ added isAdded early, owned⟩)
      simp only [← sameLog]
      refine (List.filter_eq_self.mpr fun pair pairMem => ?_).symm
      have := sound.created_le_of_mem_log pairMem
      simp only [Instant.le_iff, Instant.lt_iff, decide_eq_true_eq] at later notYounger this ⊢
      omega

end Courses

theorem Topology.mem_visited (topology : Topology graph journal)
    (here : time.InWindow graph.setting.reference) {instant : Instant}
    (added : (owner, instant) ∈ journal.additions) (early : instant ≤ time) :
    owner ∈ graph.visited time := by
  simp only [visited, topology.upTo_edges here, topology.upTo_vertices here]
  cases owner with
  | vertex vertex =>
    rcases Journal.vertex_mem_additions.mp added with ⟨entry, mem, rfl, rfl⟩
    refine List.mem_append_right _ (List.mem_map_of_mem (List.mem_map_of_mem ?_))
    exact mem_chronological.mpr (List.mem_filter.mpr ⟨mem, decide_eq_true early⟩)
  | edge edge =>
    rcases Journal.edge_mem_additions.mp added with ⟨entry, mem, rfl, rfl⟩
    refine List.mem_append_left _ (List.mem_map_of_mem (List.mem_map_of_mem ?_))
    exact mem_chronological.mpr (List.mem_filter.mpr ⟨mem, decide_eq_true early⟩)

theorem Recorded.courses (recorded : Recorded Change.Obtainable setting graph journal) :
    Courses graph journal := by
  apply recorded.induct (motive := Courses) (.start setting)
  intro graph changed journal change outcome before obtainable step courses
  have topology := Topology.of_recorded before
  have holdings := before.holdings
  have canonical := before.canonical
  cases step with
  | refused change fault =>
    simp only [Journal.note_error]
    exact courses
  | vertex inWindow admissible room =>
    exact courses.attach
      (holdings.attaching topology canonical graph.check_freshVertex admissible) rfl
  | edge inWindow sourceKnown targetKnown admissible room =>
    exact courses.attach
      (holdings.attaching topology canonical graph.check_freshEdge admissible) rfl
  | write inWindow known owned found accepted =>
    exact courses.write holdings canonical owned found accepted
  | purge inWindow run =>
    rcases canonical.purgedTo run with ⟨_, _, purgedTo⟩
    exact courses.purge holdings (fun _ _ => topology.mem_visited inWindow) purgedTo

/-- As-of reads of properties are exact: they are the last values that the journal has noted up
to the instant, in the order of attachment. -/
theorem Recorded.propertiesAt_exact (recorded : Recorded Change.Obtainable setting graph journal)
    (known : graph.check owner = .ok ()) (inWindow : time.InWindow setting.reference) :
    graph.propertiesAt owner time = .ok (journal.readingsAt owner time) := by
  have courses := recorded.courses
  have holdings := recorded.holdings
  simp only [← recorded.setting_eq] at inWindow
  have offset : graph.offset time = .ok (time.since graph.setting.reference) := by
    simp only [offset_eq, if_pos inWindow]
  have readings : graph.propertiesAt owner time = graph.readings owner time := by
    simp only [propertiesAt, offset, known]
    rfl
  have each : ∀ entry ∈ journal.propertiesOf owner,
      ((graph.archive.history? entry.id).bind fun history => history.readingAt time) =
        entry.readingAt time := by
    intro entry mem
    rcases courses.stored entry (mem_propertiesOf.mp mem).1 with ⟨history, found, sameName, sameLog⟩
    simp only [found, Option.bind_some, History.readingAt, (holdings.sound found).valueAt_eq,
      Option.map_map, PropertyEntry.readingAt, ← sameName, ← sameLog]
    rfl
  simp only [readings, readings_eq recorded.canonical, courses.owned, List.filterMap_map,
    Function.comp_def, Journal.readingsAt, List.filterMap_congr each]

theorem propertiesAt_exact_sample :
    sampleGraph.propertiesAt (.vertex ⟨0⟩) ⟨110⟩ = .ok [] ∧
      sampleGraph.propertiesAt (.vertex ⟨0⟩) ⟨125⟩ = .ok [⟨"load", .int32 (-4)⟩] := by
  have known : sampleGraph.check (.vertex ⟨0⟩) = .ok () :=
    checkVertex_eq_ok_iff.mpr (by decide +kernel)
  have early : sampleJournal.readingsAt (.vertex ⟨0⟩) ⟨110⟩ = [] := by decide +kernel
  have late : sampleJournal.readingsAt (.vertex ⟨0⟩) ⟨125⟩ = [⟨"load", .int32 (-4)⟩] := by
    decide +kernel
  constructor
  · rw [sample_recorded.propertiesAt_exact known (by decide), early]
  · rw [sample_recorded.propertiesAt_exact known (by decide), late]

end Graph

end TimedGraph
