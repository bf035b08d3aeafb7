import TimedGraph.Proofs.Graph.Consistency
import TimedGraph.Proofs.Graph.Purging
import TimedGraph.Proofs.Graph.Refusal

/-!
# The window of a graph and its histories

Two windows meet here.  A history keeps its instants relative to its own creation, and a
graph reads and purges at the instants of the window of its reference.  Both windows have
the same length, so a history that begins late reaches past the graph's window.

What is appended through the graph lies in the graph's window.  A batch is checked only
against the instant of its owner, which bounds it from below but not from above.  So the
histories of a graph lie in its window exactly if those of the accepted batches do
(`Recorded.within_after`), because neither a write nor a purge carries a history across the
end of the window.  An entry past the end can neither be read nor dropped.
-/

namespace TimedGraph

namespace History

/-- The creation and all values of a history lie in the window of a reference. -/
def Within (history : History) (reference : Instant) : Prop :=
  history.created.InWindow reference ∧ ∀ pair ∈ history.log, pair.1.InWindow reference

instance (history : History) (reference : Instant) : Decidable (history.Within reference) :=
  inferInstanceAs (Decidable (_ ∧ _))

variable {history : History} {reference time : Instant}

namespace Sound

variable (sound : history.Sound) (here : time.InWindow reference)
  (notBefore : reference ≤ history.created)

include sound here notBefore

/-- A write in the window is accepted only by a history that lies in the window. -/
theorem within_of_write {value : Value} {longer : History}
    (accepted : history.write time value = (.ok (), longer)) :
    history.Within reference ∧ longer.Within reference := by
  have extended := log_write accepted
  have sameCreated := history.write_created time value
  rw [accepted] at sameCreated
  rcases history.write_cases time value with ⟨fault, refused⟩ | ⟨inOrder, started, _⟩
  · simp [refused] at accepted
  · have created : history.created.InWindow reference := here.of_le notBefore started.1
    have log : ∀ pair ∈ history.log, pair.1.InWindow reference := by
      intro pair mem
      rcases sound.le_latest_of_mem_log mem with ⟨latest, isLatest, notLater⟩
      apply here.of_le
      · exact Instant.le_trans notBefore (sound.created_le_of_mem_log mem)
      · exact Instant.le_trans notLater (inOrder latest isLatest)
    refine ⟨⟨created, log⟩, sameCreated ▸ created, ?_⟩
    intro pair mem
    rw [extended] at mem
    rcases List.mem_append.mp mem with old | new
    · exact log pair old
    · rw [List.mem_singleton.mp new]
      exact here

/-- A purge in the window drops only values in the window. -/
theorem within_purge_iff : (history.purge time).2.Within reference ↔ history.Within reference := by
  rw [Within, Within, purge_created, sound.log_purge]
  apply and_congr_right
  intro _
  constructor
  · intro left pair mem
    by_cases early : pair.1 ≤ time
    · apply here.of_le
      · exact Instant.le_trans notBefore (sound.created_le_of_mem_log mem)
      · exact early
    · exact left pair (List.mem_filter.mpr ⟨mem, decide_eq_true (Instant.not_le.mp early)⟩)
  · intro whole pair mem
    exact whole pair (List.mem_filter.mp mem).1

end Sound

end History

/-- All histories of an archive lie in the window of a reference. -/
def Archive.Within (archive : Archive) (reference : Instant) : Prop :=
  ∀ id history, archive.history? id = some history → history.Within reference

namespace Change

/-- The histories that a change brings along. -/
def batch : Change → List History
  | addVertex batch _ => batch
  | addEdge _ _ batch _ => batch
  | write _ _ _ _ => []
  | purge _ => []

/-- What a change would store of its batch lies in the window of a reference. -/
def Within (change : Change) (reference : Instant) : Prop :=
  ∀ id history, History.lastOf change.batch id = some history → history.Within reference

theorem within_of_batch_eq_nil {change : Change} (nothing : change.batch = [])
    (reference : Instant) : change.Within reference := by
  intro id history isLast
  simp [nothing, History.lastOf] at isLast

end Change

namespace Archive

variable {archive purged : Archive} {reference time : Instant}

theorem within_empty (codec : Codec) (reference : Instant) :
    (Archive.empty codec).Within reference := by
  intro id history found
  simp [history?, fetch?, record?, Archive.empty] at found

theorem within_storeAll {batch : List History}
    (unstored : ∀ history ∈ batch, archive.history? history.id = none) :
    (batch.foldl store archive).Within reference ↔ archive.Within reference ∧
      ∀ id history, History.lastOf batch id = some history → history.Within reference := by
  constructor
  · intro within
    constructor
    · intro id history found
      apply within id
      rw [history?_storeAll, History.lastOf_eq_none unstored found, Option.none_or, found]
    · intro id history isLast
      apply within id
      rw [history?_storeAll, isLast, Option.some_or]
  · rintro ⟨old, new⟩ id history found
    rw [history?_storeAll, Option.or_eq_some_iff] at found
    rcases found with isLast | ⟨_, stored⟩
    · exact new id history isLast
    · exact old id history stored

/-- To replace a history of the window by another one does not matter. -/
theorem within_store {history longer : History}
    (found : archive.history? longer.id = some history) (before : history.Within reference)
    (after : longer.Within reference) :
    (archive.store longer).Within reference ↔ archive.Within reference := by
  constructor
  · intro within id other stored
    by_cases same : id = longer.id
    · rw [same, found] at stored
      rw [← Option.some.inj stored]
      exact before
    · apply within id
      rw [history?_store, if_neg same, stored]
  · intro within id other stored
    rw [history?_store] at stored
    split at stored
    · rw [← Option.some.inj stored]
      exact after
    · exact within id other stored

theorem PurgedTo.within_iff {ids rewritten : List PropertyId}
    (purgedTo : archive.PurgedTo time ids purged rewritten)
    (each : ∀ id history, archive.history? id = some history →
      ((history.purge time).2.Within reference ↔ history.Within reference)) :
    purged.Within reference ↔ archive.Within reference := by
  constructor
  · intro within id history found
    by_cases listed : id ∈ ids
    · apply (each id history found).mp
      apply within id
      rw [purgedTo.history?_eq, if_pos listed, found, Option.map_some]
    · apply within id
      rw [purgedTo.history?_eq, if_neg listed, found]
  · intro within id history found
    rcases purgedTo.found_cases found with ⟨before, foundBefore, rfl⟩ | foundBefore
    · exact (each id before foundBefore).mpr (within id before foundBefore)
    · exact within id history foundBefore

end Archive

namespace Graph

/-- A value written at an instant is read and dropped at that instant. -/
structure Reached (graph : Graph) (id : PropertyId) (history : History) (time : Instant) :
    Prop where
  read : ∃ owner value, id ∈ graph.owned owner ∧ (time, value) ∈ history.log ∧
    graph.propertyAt owner history.name time = .ok (some ⟨history.name, value⟩)
  dropped : ∃ stats left, (graph.purge time).1 = .ok stats ∧
    (graph.purge time).2.archive.history? id = some left ∧ ∀ pair ∈ left.log, time < pair.1

/-- A value is not read at its instant, and no purge drops it. -/
structure Unreached (graph : Graph) (id : PropertyId) (pair : Instant × Value) : Prop where
  unread : ∀ owner name, graph.propertyAt owner name pair.1 =
    .error (.timeRange pair.1 graph.setting.reference)
  kept : ∀ time, ∃ left, (graph.purge time).2.archive.history? id = some left ∧ pair ∈ left.log

variable {setting : Setting} {graph changed : Graph} {journal : Journal} {owner : Owner}
  {time : Instant} {id : PropertyId} {history : History}

theorem Topology.inWindow_of_added (topology : Topology graph journal)
    (added : (owner, time) ∈ journal.additions) : time.InWindow graph.setting.reference := by
  cases owner with
  | vertex vertex =>
    rcases Journal.vertex_mem_additions.mp added with ⟨entry, mem, _, rfl⟩
    exact topology.verticesInWindow entry mem
  | edge edge =>
    rcases Journal.edge_mem_additions.mp added with ⟨entry, mem, _, rfl⟩
    exact topology.edgesInWindow entry mem

namespace Recorded

variable (recorded : Recorded Change.Obtainable setting graph journal)

include recorded

section

variable (found : graph.archive.history? id = some history)

include found

/-- No history begins before the window. -/
theorem reference_le_created : setting.reference ≤ history.created := by
  have holdings := recorded.holdings
  rcases holdings.owner found with ⟨owner, owned⟩
  rcases holdings.younger owned found with ⟨added, isAdded, notYounger⟩
  have inWindow := (Topology.of_recorded recorded).inWindow_of_added isAdded
  rw [recorded.setting_eq] at inWindow
  exact Instant.le_trans inWindow.1 notYounger

theorem propertyAt_of_owned (owned : id ∈ graph.owned owner)
    (here : time.InWindow setting.reference) :
    graph.propertyAt owner history.name time = .ok (history.readingAt time) := by
  rw [← recorded.setting_eq] at here
  have read := reading?_eq recorded.canonical time id
  rw [found, Option.bind_some] at read
  simp only [propertyAt, offset_eq, if_pos here, recorded.check_of_owned found owned, namedReading?,
    recorded.property?_of_owned found owned]
  exact read

theorem reached {pair : Instant × Value} (mem : pair ∈ history.log)
    (here : pair.1.InWindow setting.reference) : graph.Reached id history pair.1 := by
  have sound := recorded.holdings.sound found
  rcases recorded.holdings.owner found with ⟨owner, owned⟩
  rcases sound.readingAt_of_mem_log mem with ⟨value, logged, isReading⟩
  rcases recorded.purge_eq here with ⟨purged, run, purgedTo⟩
  constructor
  · refine ⟨owner, value, owned, logged, ?_⟩
    rw [recorded.propertyAt_of_owned found owned here, isReading]
  · rw [run]
    refine ⟨_, history.beyond pair.1, rfl, ?_, ?_⟩
    · simp only [withArchive, purgedTo.history?_eq, found, Option.map_some]
    · intro other left
      rw [sound.log_beyond] at left
      exact of_decide_eq_true (List.mem_filter.mp left).2

theorem unreached {pair : Instant × Value} (mem : pair ∈ history.log)
    (outside : ¬pair.1.InWindow setting.reference) : graph.Unreached id pair := by
  have sound := recorded.holdings.sound found
  constructor
  · intro owner name
    rw [← recorded.setting_eq] at outside
    simp only [propertyAt, offset_eq, if_neg outside]
    rfl
  · intro time
    by_cases here : time.InWindow setting.reference
    · rcases recorded.purge_eq here with ⟨purged, run, purgedTo⟩
      refine ⟨history.beyond time, ?_, ?_⟩
      · simp only [run, withArchive, purgedTo.history?_eq, found, Option.map_some]
      · rw [sound.log_beyond]
        refine List.mem_filter.mpr ⟨mem, decide_eq_true (Instant.not_le.mp fun early => ?_)⟩
        apply outside
        apply here.of_le _ early
        exact Instant.le_trans (recorded.reference_le_created found)
          (sound.created_le_of_mem_log mem)
    · rw [← recorded.setting_eq] at here
      refine ⟨history, ?_, mem⟩
      simp only [Graph.purge, offset_eq, if_neg here, found]

end

/-- A step leaves the histories of a graph in the window exactly if they were there and those that
it attaches are. -/
theorem within_step {change : Change} {outcome : Except Fault Answer}
    (step : graph.Step change outcome changed) :
    changed.archive.Within setting.reference ↔
      graph.archive.Within setting.reference ∧
        ((∃ answer, outcome = .ok answer) → change.Within setting.reference) := by
  have canonical := recorded.canonical
  cases step with
  | refused change fault => simp
  | vertex inWindow admissible room =>
    simp only [Except.ok.injEq, exists_eq', true_implies]
    exact Archive.within_storeAll fun _ mem => admissible.history?_eq_none canonical mem
  | edge inWindow sourceKnown targetKnown admissible room =>
    simp only [Except.ok.injEq, exists_eq', true_implies]
    exact Archive.within_storeAll fun _ mem => admissible.history?_eq_none canonical mem
  | write inWindow known owned found accepted =>
    rename_i owner value time id history longer
    rw [recorded.setting_eq] at inWindow
    rcases (recorded.holdings.sound found).within_of_write inWindow
      (recorded.reference_le_created found) accepted with ⟨before, after⟩
    have sameId := history.write_id time value
    rw [accepted, canonical.id_eq found] at sameId
    rw [← sameId] at found
    refine (Archive.within_store found before after).trans (iff_self_and.mpr fun _ _ => ?_)
    exact Change.within_of_batch_eq_nil rfl _
  | purge inWindow run =>
    rename_i time rewritten purged
    rw [recorded.setting_eq] at inWindow
    rcases canonical.purgedTo run with ⟨_, _, purgedTo⟩
    have each : ∀ id history, graph.archive.history? id = some history →
        ((history.purge time).2.Within setting.reference ↔ history.Within setting.reference) := by
      intro id history found
      exact (recorded.holdings.sound found).within_purge_iff inWindow
        (recorded.reference_le_created found)
    refine (purgedTo.within_iff each).trans (iff_self_and.mpr fun _ _ => ?_)
    exact Change.within_of_batch_eq_nil rfl _

/-- A run leaves the histories of a graph in the window exactly if they were there and those that
it attaches are. -/
theorem within_after {changes : List Change}
    (obtainable : ∀ change ∈ changes, change.Obtainable) :
    (graph.after changes).archive.Within setting.reference ↔
      graph.archive.Within setting.reference ∧
        ∀ change ∈ graph.accepted changes, change.Within setting.reference := by
  induction changes generalizing graph journal with
  | nil =>
    have stays : graph.after [] = graph := rfl
    simp [stays, accepted]
  | cons change rest ih =>
    have first := recorded.within_step (carryOut_step recorded.canonical change)
    have later := ih (recorded.step change (obtainable change (.head _)))
      fun other mem => obtainable other (.tail _ mem)
    have once : graph.after (change :: rest) = (graph.carryOut change).2.after rest := rfl
    rw [once, later, first]
    rcases carried : graph.carryOut change with ⟨outcome, changed⟩
    cases outcome with
    | error fault => simp [accepted, carried]
    | ok answer => simp [accepted, carried, and_assoc]

end Recorded

/-- No history begins before the window and no value is written outside the window of its history.
A value can be read and dropped at its instant if that lies in the window of the graph, and
otherwise not at all.  A run leaves all histories in that window exactly if they were there and
the batches that it accepts lie in it; what it appends always does. -/
theorem Recorded.window_exact (recorded : Recorded Change.Obtainable setting graph journal) :
    (∀ id history, graph.archive.history? id = some history →
      setting.reference ≤ history.created ∧
      ∀ pair ∈ history.log, pair.1.InWindow history.created ∧
        (pair.1.InWindow setting.reference → graph.Reached id history pair.1) ∧
        (¬pair.1.InWindow setting.reference → graph.Unreached id pair)) ∧
    ∀ changes, (∀ change ∈ changes, change.Obtainable) →
      ((graph.after changes).archive.Within setting.reference ↔
        graph.archive.Within setting.reference ∧
          ∀ change ∈ graph.accepted changes, change.Within setting.reference) := by
  refine ⟨fun id history found => ⟨recorded.reference_le_created found, fun pair mem => ?_⟩, ?_⟩
  · exact ⟨(recorded.holdings.sound found).inWindow_of_mem_log mem, recorded.reached found mem,
      recorded.unreached found mem⟩
  · intro changes obtainable
    exact recorded.within_after obtainable

section Sample

/-- A history that begins one millisecond past the window of the instant 1000. -/
def lateHistory : History :=
  ⟨⟨7⟩, "load", ⟨2147484648⟩, some ⟨2147484648⟩, [⟨0, .int32 5⟩]⟩

theorem lateHistory_obtainable : lateHistory.Obtainable := by
  have made : History.create ⟨7⟩ "load" ⟨2147484648⟩ =
    .ok ⟨⟨7⟩, "load", ⟨2147484648⟩, none, []⟩ := rfl
  exact .write ⟨2147484648⟩ (.int32 5) (.create made)

/-- The late history comes with a vertex of the window. -/
def lateChanges : List Change :=
  [.addVertex [lateHistory] ⟨1000⟩]

def lateGraph : Graph :=
  (empty (.ofReference ⟨1000⟩)).after lateChanges

theorem late_recorded : Recorded Change.Obtainable (.ofReference ⟨1000⟩) lateGraph
    (Journal.empty.follow (empty (.ofReference ⟨1000⟩)) lateChanges) := by
  apply Recorded.start.after lateChanges
  intro change mem
  rw [List.mem_singleton.mp mem]
  simpa [Change.Obtainable] using lateHistory_obtainable

theorem late_found : lateGraph.archive.history? ⟨7⟩ = some lateHistory := by decide +kernel

end Sample

/-- The run of the sample stays in the window, where its values are reached; the late graph does
not, and its value is not reached. -/
theorem window_exact_sample :
    sampleGraph.archive.Within ⟨0⟩ ∧ (∃ history, sampleGraph.Reached ⟨7⟩ history ⟨120⟩) ∧
      lateGraph.Unreached ⟨7⟩ (⟨2147484648⟩, .int32 5) := by
  refine ⟨?_, ?_, ?_⟩
  · have empty_recorded : Recorded Change.Obtainable (.ofReference ⟨0⟩) _ _ := .start
    apply (empty_recorded.window_exact.2 sampleChanges sampleChanges_obtainable).mpr
    refine ⟨Archive.within_empty _ _, ?_⟩
    intro change mem id history isLast
    have brought : ∀ change ∈ (empty (.ofReference ⟨0⟩)).accepted sampleChanges,
        ∀ history ∈ change.batch, history.Within ⟨0⟩ := by decide +kernel
    exact brought change mem history (History.lastOf_eq_some isLast).1
  · have found : sampleGraph.archive.history? ⟨7⟩ = some ⟨⟨7⟩, "load", ⟨100⟩, some ⟨130⟩,
        [⟨20, .int32 (-4)⟩, ⟨30, .int32 9⟩]⟩ := by decide +kernel
    rcases sample_recorded.window_exact.1 _ _ found with ⟨_, values⟩
    exact ⟨_, (values (⟨120⟩, .int32 (-4)) (by decide)).2.1 (by decide)⟩
  · rcases late_recorded.window_exact.1 _ _ late_found with ⟨_, values⟩
    exact (values (⟨2147484648⟩, .int32 5) (by decide)).2.2 (by decide)

/-- Not every graph keeps its histories in its window: a batch brings in a later one. -/
theorem not_within_window :
    ¬∀ setting graph journal, Recorded Change.Obtainable setting graph journal →
      graph.archive.Within setting.reference := by
  intro within
  have late := within _ _ _ late_recorded ⟨7⟩ lateHistory late_found
  revert late
  decide

end Graph

end TimedGraph
