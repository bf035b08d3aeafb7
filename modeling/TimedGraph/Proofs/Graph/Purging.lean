import TimedGraph.Proofs.Graph.Courses
import TimedGraph.Proofs.Remainder

/-!
# A purge visits enough

A purge goes through what exists at its instant and never looks at the rest of the archive.
It comes to the same as a purge of the whole archive, because the numbers that it lists
cover every history that begins by the instant: a history is not older than its owner, so
the owner exists.  What a covering purge leaves is the remainder of every history
(`Archive.Purged`), and this determines the archive, since a canonical archive is nothing
but its histories and its codec.  Purges therefore compose like the later of their instants.
-/

namespace TimedGraph

namespace Archive

variable {archive middle purged other : Archive} {time first second : Instant}
  {ids rewritten : List PropertyId}

/-- The number of histories with a value at or before an instant. -/
def countUpTo (archive : Archive) (time : Instant) : Nat :=
  archive.ids.countP fun id => (archive.history? id).any fun history =>
    history.log.any (·.1 ≤ time)

/-- The listed numbers include those of all histories that begin by an instant. -/
def Covers (archive : Archive) (time : Instant) (ids : List PropertyId) : Prop :=
  ∀ id history, archive.history? id = some history → history.created ≤ time → id ∈ ids

/-- Every history is left with its remainder beyond an instant. -/
structure Purged (archive : Archive) (time : Instant) (purged : Archive) : Prop where
  canonical : purged.Canonical
  codec_eq : purged.codec = archive.codec
  history?_eq : ∀ id, purged.history? id = (archive.history? id).map (·.beyond time)

theorem Canonical.mem_ids_iff (canonical : archive.Canonical) {id : PropertyId} :
    id ∈ archive.ids ↔ ∃ history, archive.history? id = some history := by
  have stored : id ∈ archive.ids ↔ (archive.record? id).isSome := Table.mem_keys_iff archive.records
  rw [stored, canonical.record?_eq, Option.isSome_map, Option.isSome_iff_exists]

theorem nodup_ids (archive : Archive) : archive.ids.Nodup :=
  archive.records.nodup_keys

theorem Canonical.covers_ids (canonical : archive.Canonical) (time : Instant) :
    archive.Covers time archive.ids := by
  intro id history found _
  exact canonical.mem_ids_iff.mpr ⟨history, found⟩

namespace Purged

theorem unique (purgedTo : archive.Purged time purged) (otherTo : archive.Purged time other) :
    purged = other := by
  apply purgedTo.canonical.ext otherTo.canonical
  · rw [purgedTo.codec_eq, otherTo.codec_eq]
  · intro id
    rw [purgedTo.history?_eq, otherTo.history?_eq]

theorem trans (firstTo : archive.Purged first middle) (secondTo : middle.Purged second purged) :
    archive.Purged (max first second) purged where
  canonical := secondTo.canonical
  codec_eq := secondTo.codec_eq.trans firstTo.codec_eq
  history?_eq id := by
    rw [secondTo.history?_eq, firstTo.history?_eq, Option.map_map]
    apply Option.map_congr
    intro history _
    exact history.beyond_beyond first second

end Purged

section Covering

variable (canonical : archive.Canonical)
  (sound : ∀ {id history}, archive.history? id = some history → history.Sound)
  (covers : archive.Covers time ids) (purgedTo : archive.PurgedTo time ids purged rewritten)

include sound covers purgedTo

theorem PurgedTo.toPurged : archive.Purged time purged where
  canonical := purgedTo.canonical
  codec_eq := purgedTo.codec_eq
  history?_eq id := by
    rw [purgedTo.history?_eq]
    split
    · apply Option.map_congr
      intro history found
      exact (sound found).purge_eq time
    · rename_i unlisted
      -- An unlisted history begins later than the instant and has nothing to lose.
      cases found : archive.history? id with
      | none => rfl
      | some history =>
        have before : time < history.created :=
          Instant.not_le.mp fun early => unlisted (covers id history found early)
        rw [Option.map_some, (sound found).beyond_eq_self before]

include canonical

theorem PurgedTo.length_rewritten_of_covers : rewritten.length = archive.countUpTo time := by
  apply purgedTo.length_rewritten sound archive.nodup_ids
  intro id history found held
  rcases List.any_eq_true.mp held with ⟨pair, mem, early⟩
  have begun : history.created ≤ time :=
    Instant.le_trans ((sound found).created_le_of_mem_log mem) (of_decide_eq_true early)
  constructor
  · intro _
    exact canonical.mem_ids_iff.mpr ⟨history, found⟩
  · intro _
    exact covers id history found begun

end Covering

/-- A purge of numbers that cover the archive comes to the same whatever they are. -/
theorem Canonical.purge_of_covers (canonical : archive.Canonical)
    (sound : ∀ {id history}, archive.history? id = some history → history.Sound)
    (covers : archive.Covers time ids) :
    ∃ purged, archive.purge time ids = (.ok (archive.countUpTo time), purged) ∧
      archive.Purged time purged := by
  rcases canonical.purge time ids with ⟨purged, rewritten, run, purgedTo⟩
  rw [purgedTo.length_rewritten_of_covers canonical sound covers] at run
  exact ⟨purged, run, purgedTo.toPurged sound covers⟩

end Archive

namespace Graph

variable {setting : Setting} {graph : Graph} {journal : Journal} {time : Instant}

namespace Topology

variable (topology : Topology graph journal) (here : time.InWindow graph.setting.reference)

include topology here

theorem length_upTo_vertices :
    (graph.vertices.upTo (time.since graph.setting.reference)).length =
      journal.vertices.countP (·.time ≤ time) := by
  rw [topology.upTo_vertices here, List.length_map, List.countP_eq_length_filter]
  exact (chronological_perm _ _ _).length_eq

theorem length_upTo_edges :
    (graph.edges.upTo (time.since graph.setting.reference)).length =
      journal.edges.countP (·.time ≤ time) := by
  rw [topology.upTo_edges here, List.length_map, List.countP_eq_length_filter]
  exact (chronological_perm _ _ _).length_eq

end Topology

namespace Recorded

variable (recorded : Recorded Change.Obtainable setting graph journal)

include recorded

/-- A history that begins by an instant belongs to what exists at it. -/
theorem covers_visited (here : time.InWindow graph.setting.reference) :
    graph.archive.Covers time ((graph.visited time).flatMap graph.owned) := by
  intro id history found early
  have holdings := recorded.holdings
  rcases holdings.owner found with ⟨owner, owned⟩
  rcases holdings.younger owned found with ⟨added, isAdded, notYounger⟩
  apply List.mem_flatMap.mpr
  refine ⟨owner, ?_, owned⟩
  apply (Topology.of_recorded recorded).mem_visited here isAdded
  exact Instant.le_trans notYounger early

theorem purge_eq (inWindow : time.InWindow setting.reference) :
    ∃ purged, graph.purge time =
        (.ok ⟨journal.vertices.countP (·.time ≤ time), journal.edges.countP (·.time ≤ time),
          graph.archive.countUpTo time⟩, graph.withArchive purged) ∧
      graph.archive.Purged time purged := by
  have topology := Topology.of_recorded recorded
  rw [← recorded.setting_eq] at inWindow
  rcases recorded.canonical.purge_of_covers recorded.holdings.sound
    (recorded.covers_visited inWindow) with ⟨purged, run, purgedTo⟩
  simp only [visited] at run
  refine ⟨purged, ?_, purgedTo⟩
  simp only [Graph.purge, offset_eq, if_pos inWindow, run, topology.length_upTo_vertices inWindow,
    topology.length_upTo_edges inWindow]
  rfl

theorem of_purge {changed : Graph} {stats : PurgeStats}
    (run : graph.purge time = (.ok stats, changed)) :
    Recorded Change.Obtainable setting changed (journal.purge time) := by
  have after := recorded.step (.purge time) trivial
  simp only [carryOut, run] at after
  exact after

/-- Two purges leave what one at the later of their instants leaves. -/
theorem after_purge_purge {first second : Instant} (firstIn : first.InWindow setting.reference)
    (secondIn : second.InWindow setting.reference) :
    graph.after [.purge first, .purge second] = graph.after [.purge (max first second)] := by
  rcases recorded.purge_eq firstIn with ⟨middle, firstRun, firstTo⟩
  rcases recorded.purge_eq (firstIn.max secondIn) with ⟨whole, wholeRun, wholeTo⟩
  rcases (recorded.of_purge firstRun).purge_eq secondIn with ⟨last, secondRun, secondTo⟩
  have same : last = whole := (firstTo.trans secondTo).unique wholeTo
  simp only [Graph.after, List.foldl_cons, List.foldl_nil, carryOut, firstRun, secondRun, wholeRun,
    same]
  rfl

theorem countUpTo_purged {purged : Archive} (purgedTo : graph.archive.Purged time purged) :
    purged.countUpTo time = 0 := by
  apply List.countP_eq_zero.mpr
  intro id _
  rw [purgedTo.history?_eq]
  cases found : graph.archive.history? id with
  | none => simp
  | some history =>
    have sound := recorded.holdings.sound found
    rw [Option.map_some, Option.any_some, ← sound.purge_eq, ← (sound.purge time).purge_fst,
      history.purge_purge]
    simp

theorem purge_purge (inWindow : time.InWindow setting.reference) :
    (graph.purge time).2.purge time =
      (.ok ⟨journal.vertices.countP (·.time ≤ time), journal.edges.countP (·.time ≤ time), 0⟩,
        (graph.purge time).2) := by
  rcases recorded.purge_eq inWindow with ⟨purged, run, purgedTo⟩
  rcases (recorded.of_purge run).purge_eq inWindow with ⟨again, runAgain, againTo⟩
  have twice := purgedTo.trans againTo
  rw [Instant.max_self] at twice
  have same : again = purged := twice.unique purgedTo
  have nothing := recorded.countUpTo_purged purgedTo
  simp only [run, runAgain, same]
  simp only [withArchive, nothing]
  rfl

end Recorded

/-- A purge at an instant of the window comes to the same as a purge of the whole archive.  It
succeeds, counts what exists at the instant and the histories with a value up to it, and leaves
of every history, and nothing else, its remainder.  Two purges are one at the later instant, and
a repeated one rewrites nothing. -/
theorem Recorded.purge_exact (recorded : Recorded Change.Obtainable setting graph journal) :
    (∀ time, time.InWindow setting.reference →
      graph.purge time =
        (.ok ⟨journal.vertices.countP (·.time ≤ time), journal.edges.countP (·.time ≤ time),
          graph.archive.countUpTo time⟩,
          { graph with archive := (graph.archive.purge time graph.archive.ids).2 }) ∧
      (graph.archive.purge time graph.archive.ids).1 = .ok (graph.archive.countUpTo time) ∧
      (graph.purge time).2.archive.codec = setting.codec ∧
      (∀ id, graph.archive.record? id = none →
        (graph.purge time).2.archive.record? id = none) ∧
      (∀ id record, graph.archive.record? id = some record →
        ∃ history, record.restore = .ok history ∧
          (graph.purge time).2.archive.record? id =
            some (.ofHistory (history.beyond time) setting.codec)) ∧
      (graph.purge time).2.purge time =
        (.ok ⟨journal.vertices.countP (·.time ≤ time), journal.edges.countP (·.time ≤ time), 0⟩,
          (graph.purge time).2)) ∧
    ∀ first second, first.InWindow setting.reference → second.InWindow setting.reference →
      graph.after [.purge first, .purge second] = graph.after [.purge (max first second)] ∧
      graph.after [.purge second, .purge first] = graph.after [.purge (max first second)] := by
  have canonical := recorded.canonical
  refine ⟨fun time inWindow => ?_, fun first second firstIn secondIn => ⟨?_, ?_⟩⟩
  · rcases recorded.purge_eq inWindow with ⟨purged, run, purgedTo⟩
    rcases canonical.purge_of_covers recorded.holdings.sound (canonical.covers_ids time) with
      ⟨whole, wholeRun, wholeTo⟩
    have same : whole = purged := wholeTo.unique purgedTo
    subst same
    simp only [run, wholeRun]
    refine ⟨rfl, trivial, purgedTo.codec_eq.trans recorded.codec_eq, ?_, ?_, ?_⟩
    · intro id absent
      rw [canonical.record?_eq, Option.map_eq_none_iff] at absent
      simp only [withArchive, purgedTo.canonical.record?_eq, purgedTo.history?_eq, absent,
        Option.map_none]
    · intro id record found
      rw [canonical.record?_eq, Option.map_eq_some_iff] at found
      rcases found with ⟨history, found, rfl⟩
      refine ⟨history, Record.restore_ofHistory history _, ?_⟩
      simp only [withArchive, purgedTo.canonical.record?_eq, purgedTo.history?_eq, found,
        Option.map_some, purgedTo.codec_eq, recorded.codec_eq]
    · have again := recorded.purge_purge inWindow
      simp only [run] at again
      exact again
  · exact recorded.after_purge_purge firstIn secondIn
  · rw [Instant.max_comm]
    exact recorded.after_purge_purge secondIn firstIn

theorem purge_exact_sample :
    (sampleGraph.purge ⟨125⟩).1 = .ok ⟨2, 2, 1⟩ ∧
      ((sampleGraph.purge ⟨125⟩).2.purge ⟨125⟩).1 = .ok ⟨2, 2, 0⟩ ∧
      sampleGraph.after [.purge ⟨125⟩, .purge ⟨60⟩] = sampleGraph.after [.purge ⟨125⟩] := by
  have vertices : sampleJournal.vertices.countP (·.time ≤ ⟨125⟩) = 2 := by decide +kernel
  have edges : sampleJournal.edges.countP (·.time ≤ ⟨125⟩) = 2 := by decide +kernel
  have rewritten : sampleGraph.archive.countUpTo ⟨125⟩ = 1 := by decide +kernel
  rcases sample_recorded.purge_exact with ⟨once, twice⟩
  rcases once ⟨125⟩ (by decide) with ⟨run, _, _, _, _, again⟩
  rw [again, run, vertices, edges, rewritten]
  exact ⟨rfl, rfl, (twice ⟨125⟩ ⟨60⟩ (by decide) (by decide)).1⟩

end Graph

end TimedGraph
