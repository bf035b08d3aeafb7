import TimedGraph.Proofs.Graph.Forgetting
import TimedGraph.Proofs.Graph.Permanence
import TimedGraph.Proofs.Graph.Refusal

/-!
# A purge and a later change may change places

A purge goes through the numbers of what exists at its instant.  A change that is dated
later leaves this list as it is: what it adds does not exist yet, and it gives nothing to
what does.  Of the archive it stores either histories whose numbers are not listed, or one
history again, with a value that the purge does not reach.  Both keep what the purge does to
the archive (`PurgedTo.storeAll`, `PurgedTo.store`), down to the histories that it rewrites.

Whether the change is refused does not depend on the purge, because the two graphs are
framed alike.
-/

namespace TimedGraph

namespace Archive.PurgedTo

variable {archive purged : Archive} {time : Instant} {ids rewritten : List PropertyId}
  (purgedTo : archive.PurgedTo time ids purged rewritten)

include purgedTo

/-- Histories that a purge does not list are stored beside it. -/
theorem storeAll {batch : List History} (unlisted : ∀ history ∈ batch, history.id ∉ ids) :
    (batch.foldl Archive.store archive).PurgedTo time ids (batch.foldl Archive.store purged)
      rewritten := by
  have aside : ∀ id ∈ ids, History.lastOf batch id = none := by
    intro id listed
    apply History.lastOf_eq_none_iff.mpr
    intro mem
    rcases List.mem_map.mp mem with ⟨history, historyMem, rfl⟩
    exact unlisted history historyMem listed
  constructor
  · exact purgedTo.canonical.storeAll batch
  · simp only [codec_storeAll, purgedTo.codec_eq]
  · intro id
    simp only [history?_storeAll, purgedTo.history?_eq]
    split
    · rename_i listed
      simp only [aside id listed, Option.none_or]
    · rfl
  · exact purgedTo.nodup
  · intro id
    simp only [purgedTo.mem_rewritten, history?_storeAll]
    apply and_congr_right
    intro listed
    simp only [aside id listed, Option.none_or]

/-- A history may be stored again in another form, if the purge rewrites it as before. -/
theorem store {id : PropertyId} {history longer : History}
    (found : archive.history? id = some history) (sameId : longer.id = id)
    (unnoticed : (longer.purge time).1 = (history.purge time).1) :
    (archive.store longer).PurgedTo time ids
      (purged.store (if id ∈ ids then (longer.purge time).2 else longer)) rewritten := by
  have leftId : (if id ∈ ids then (longer.purge time).2 else longer).id = id := by
    split
    · simp only [History.purge_id, sameId]
    · exact sameId
  constructor
  · exact purgedTo.canonical.store _
  · simp only [codec_store, purgedTo.codec_eq]
  · intro other
    simp only [history?_store, leftId, sameId, purgedTo.history?_eq]
    by_cases here : other = id
    · subst here
      simp only [if_true]
      split <;> rfl
    · simp only [if_neg here]
  · exact purgedTo.nodup
  · intro other
    simp only [purgedTo.mem_rewritten, history?_store, sameId]
    by_cases here : other = id
    · subst here
      simp [found, unnoticed]
    · simp only [if_neg here]

end Archive.PurgedTo

namespace Graph

variable {setting : Setting} {graph changed : Graph} {journal : Journal} {time instant : Instant}
  {change : Change} {purged : Archive}

/-- A purge and a change come to the same in either order. -/
structure Commutes (graph : Graph) (time : Instant) (change : Change) : Prop where
  purges : ∃ stats, (graph.purge time).1 = .ok stats
  outcome_eq : ((graph.purge time).2.carryOut change).1 = (graph.carryOut change).1
  stats_eq : ((graph.carryOut change).2.purge time).1 = (graph.purge time).1
  left_eq : ((graph.purge time).2.carryOut change).2 = ((graph.carryOut change).2.purge time).2

theorem Framed.carryOut_eq {Related : History → History → Prop} {first second : Graph}
    (framed : Framed Related first second) (compatible : History.Compatible Related)
    (later : change.Later time) : (first.carryOut change).1 = (second.carryOut change).1 := by
  cases change with
  | addVertex batch instant => simp only [carryOut, (framed.addVertex compatible batch instant).1]
  | addEdge source target batch instant =>
    simp only [carryOut, (framed.addEdge compatible source target batch instant).1]
  | write owner name value instant =>
    simp only [carryOut, (framed.writeProperty compatible owner name value instant).1]
  | purge _ => exact later.elim

theorem purge_of_run (inWindow : time.InWindow graph.setting.reference) {count : Nat}
    (run : graph.archive.purge time ((graph.visited time).flatMap graph.owned) =
      (.ok count, purged)) :
    graph.purge time = (.ok ⟨(graph.vertices.upTo (time.since graph.setting.reference)).length,
      (graph.edges.upTo (time.since graph.setting.reference)).length, count⟩,
        graph.withArchive purged) := by
  simp only [visited] at run
  simp only [Graph.purge, offset_eq, if_pos inWindow, run]
  rfl

theorem Topology.check_of_mem_visited (topology : Topology graph journal)
    (here : time.InWindow graph.setting.reference) {owner : Owner}
    (mem : owner ∈ graph.visited time) : graph.check owner = .ok () := by
  simp only [visited, topology.upTo_edges here, topology.upTo_vertices here] at mem
  apply topology.check_eq_ok_iff.mpr
  rcases List.mem_append.mp mem with isEdge | isVertex
  · rcases List.mem_map.mp isEdge with ⟨edge, edgeMem, rfl⟩
    rcases List.mem_map.mp edgeMem with ⟨entry, entryMem, rfl⟩
    have noted := (List.mem_filter.mp (mem_chronological.mp entryMem)).1
    exact ⟨entry.time, Journal.edge_mem_additions.mpr ⟨entry, noted, rfl, rfl⟩⟩
  · rcases List.mem_map.mp isVertex with ⟨vertex, vertexMem, rfl⟩
    rcases List.mem_map.mp vertexMem with ⟨entry, entryMem, rfl⟩
    have noted := (List.mem_filter.mp (mem_chronological.mp entryMem)).1
    exact ⟨entry.time, Journal.vertex_mem_additions.mpr ⟨entry, noted, rfl, rfl⟩⟩

/-- What does not disturb the past leaves to a purge what it goes through. -/
theorem Undisturbed.purge_eq (undisturbed : Undisturbed time graph changed)
    (topology : Topology graph journal) (here : time.InWindow graph.setting.reference)
    (canonical : changed.archive.Canonical) {rewritten : List PropertyId}
    (purgedTo : changed.archive.PurgedTo time ((graph.visited time).flatMap graph.owned) purged
      rewritten) :
    changed.purge time = (.ok ⟨(graph.vertices.upTo (time.since graph.setting.reference)).length,
      (graph.edges.upTo (time.since graph.setting.reference)).length, rewritten.length⟩,
        changed.withArchive purged) := by
  have sameVisited : changed.visited time = graph.visited time := by
    simp only [visited, undisturbed.setting, undisturbed.edges, undisturbed.vertices]
  have sameIds : (changed.visited time).flatMap changed.owned =
      (graph.visited time).flatMap graph.owned := by
    simp only [sameVisited]
    apply List.flatMap_congr
    intro owner mem
    exact undisturbed.owned (topology.check_of_mem_visited here mem)
  have run := canonical.purge_of_purgedTo purgedTo
  simp only [← sameIds] at run
  have hereNow : time.InWindow changed.setting.reference := by
    simpa only [undisturbed.setting] using here
  simpa only [undisturbed.setting, undisturbed.edges, undisturbed.vertices] using
    purge_of_run hereNow run

namespace Recorded

variable (recorded : Recorded Change.Obtainable setting graph journal)
  {ids rewritten : List PropertyId} {outcome : Except Fault Answer} {left : Graph}

include recorded

/-- The numbers of a purge are stored, and so no batch may bring them. -/
theorem unlisted {batch : List History} (admissible : Admissible graph.archive instant batch) :
    ∀ history ∈ batch, history.id ∉ (graph.visited time).flatMap graph.owned := by
  intro history mem listed
  rcases List.mem_flatMap.mp listed with ⟨owner, _, owned⟩
  rcases recorded.holdings.stored owned with ⟨stored, found⟩
  have absent := admissible.history?_eq_none recorded.canonical mem
  simp only [absent] at found
  cases found

/-- A write after a purge stores what a purge after the write leaves. -/
theorem store_purged (purgedTo : graph.archive.PurgedTo time ids purged rewritten)
    (later : time < instant) {owner : Owner} {value : Value} {id : PropertyId}
    {history longer : History} (owned : id ∈ graph.owned owner)
    (found : graph.archive.history? id = some history)
    (accepted : history.write instant value = (.ok (), longer))
    (step : (graph.withArchive purged).Step (.write owner history.name value instant) (.ok .done)
      left) :
    left = graph.withArchive
      (purged.store (if id ∈ ids then (longer.purge time).2 else longer)) := by
  have holdings := recorded.holdings
  have sound := holdings.sound found
  rcases step.exists_of_write with ⟨other, kept, longerKept, otherOwned, isKept, named, again, rfl⟩
  have isKept : purged.history? other = some kept := isKept
  have sameId : other = id := by
    rcases purgedTo.found_cases isKept with ⟨before, isBefore, rfl⟩ | isBefore
    · exact holdings.named otherOwned owned isBefore found (by simpa using named)
    · exact holdings.named otherOwned owned isBefore found named
  subst sameId
  have written : longerKept = if other ∈ ids then (longer.purge time).2 else longer := by
    simp only [purgedTo.history?_eq, found, Option.map_some] at isKept
    split at isKept
    · rename_i listed
      cases isKept
      simp only [(sound.purge_write later accepted).1, Prod.mk.injEq, true_and] at again
      simp only [if_pos listed, again]
    · rename_i isUnlisted
      cases isKept
      simp only [accepted, Prod.mk.injEq, true_and] at again
      simp only [if_neg isUnlisted, again]
  subst written
  rfl

/-- What a purge does to the archive, it does to the one that a later change leaves. -/
theorem exists_purgedTo (later : change.Later time)
    (purgedTo : graph.archive.PurgedTo time ((graph.visited time).flatMap graph.owned) purged
      rewritten)
    (step : graph.Step change outcome changed)
    (leftStep : (graph.withArchive purged).Step change outcome left) :
    ∃ archive, changed.archive.PurgedTo time ((graph.visited time).flatMap graph.owned) archive
      rewritten ∧ left = changed.withArchive archive := by
  cases step with
  | refused change fault =>
    cases leftStep
    exact ⟨purged, purgedTo, rfl⟩
  | vertex inWindow admissible room =>
    cases leftStep
    exact ⟨_, purgedTo.storeAll (recorded.unlisted admissible), rfl⟩
  | edge inWindow sourceKnown targetKnown admissible room =>
    cases leftStep
    exact ⟨_, purgedTo.storeAll (recorded.unlisted admissible), rfl⟩
  | write inWindow known owned found accepted =>
    rename_i owner value instant id history longer
    have longerId : longer.id = id := by
      have sameId := history.write_id instant value
      simp only [accepted, recorded.canonical.id_eq found] at sameId
      exact sameId
    have unnoticed := ((recorded.holdings.sound found).purge_write later accepted).2
    refine ⟨_, purgedTo.store found longerId unnoticed, ?_⟩
    exact recorded.store_purged purgedTo later owned found accepted leftStep
  | purge inWindow run => exact later.elim

end Recorded

/-- A purge commutes with every change dated after it, whether this succeeds or fails. -/
theorem Recorded.purge_commutes (recorded : Recorded Change.Obtainable setting graph journal)
    (inWindow : time.InWindow setting.reference) (later : change.Later time) :
    graph.Commutes time change := by
  have canonical := recorded.canonical
  have topology := Topology.of_recorded recorded
  simp only [← recorded.setting_eq] at inWindow
  rcases canonical.purge time ((graph.visited time).flatMap graph.owned) with
    ⟨purged, rewritten, run, purgedTo⟩
  have purgedFirst := purge_of_run inWindow run
  have framed : Framed History.Remains graph (graph.withArchive purged) := by
    have whole := purgedTo.toPurged recorded.holdings.sound (recorded.covers_visited inWindow)
    constructor
    case archives => exact whole.matched canonical recorded.holdings.sound
    all_goals rfl
  have sameOutcome := framed.carryOut_eq History.Remains.compatible later
  have step := carryOut_step canonical change
  have leftStep : (graph.withArchive purged).Step change _ _ :=
    carryOut_step purgedTo.canonical change
  simp only [← sameOutcome] at leftStep
  rcases recorded.exists_purgedTo later purgedTo step leftStep with ⟨archive, changedTo, isLeft⟩
  have purgedLast := (step.undisturbed canonical inWindow later).purge_eq topology inWindow
    (step.canonical canonical) changedTo
  constructor
  · exact ⟨_, congrArg Prod.fst purgedFirst⟩
  · simp only [purgedFirst, sameOutcome]
  · simp only [purgedFirst, purgedLast]
  · simp only [purgedFirst, purgedLast, isLeft]

/-- The purge rewrites one history, whether the edge with its property is added before or after. -/
theorem purge_commutes_sample :
    sampleGraph.Commutes ⟨125⟩ (.write (.vertex ⟨0⟩) "load" (.int32 5) ⟨140⟩) ∧
      ((sampleGraph.carryOut (.addEdge ⟨0⟩ ⟨1⟩ [⟨⟨9⟩, "cost", ⟨150⟩, none, []⟩] ⟨140⟩)).2.purge
        ⟨125⟩).1.toOption = some ⟨2, 2, 1⟩ := by
  have inWindow : (⟨125⟩ : Instant).InWindow (Setting.ofReference ⟨0⟩).reference := by decide
  have later : (⟨125⟩ : Instant) < ⟨140⟩ := by decide
  constructor
  · exact sample_recorded.purge_commutes inWindow later
  · have commutes : sampleGraph.Commutes ⟨125⟩
        (.addEdge ⟨0⟩ ⟨1⟩ [⟨⟨9⟩, "cost", ⟨150⟩, none, []⟩] ⟨140⟩) :=
      sample_recorded.purge_commutes inWindow later
    simp only [commutes.stats_eq]
    decide +kernel

end Graph

end TimedGraph
