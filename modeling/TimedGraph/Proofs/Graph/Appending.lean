import TimedGraph.Proofs.Graph.Window
import TimedGraph.Proofs.Ledger

/-!
# Appending to a property

A value that is appended through the graph passes four checks of the graph before the history
has its say: the window, the owner, the name, and the fetch from the archive.  In a recorded
graph the last one never fails, and a name never finds two properties.  Nor does a history
ever refuse an instant of the graph's window as one past its own, because no history begins
before the graph's window.  What is left are five endings, each with its own condition
(`Appending`).

The order in which a history accepts writes is said by its ledger, not by what the graph
has stored.  Every history in the archive has one, since what is stored is obtainable.
-/

namespace TimedGraph

namespace Archive

/-- All stored histories are obtainable. -/
def Obtainable (archive : Archive) : Prop :=
  ∀ id history, archive.history? id = some history → history.Obtainable

namespace Obtainable

variable {archive : Archive}

theorem empty (codec : Codec) : (Archive.empty codec).Obtainable := by
  intro id history found
  simp [history?, fetch?, record?, Archive.empty] at found

theorem storeAll {batch : List History} (stored : archive.Obtainable)
    (brought : ∀ history ∈ batch, history.Obtainable) :
    (batch.foldl Archive.store archive).Obtainable := by
  intro id history found
  rw [history?_storeAll, Option.or_eq_some_iff] at found
  rcases found with isLast | ⟨_, old⟩
  · exact brought history (History.lastOf_eq_some isLast).1
  · exact stored id history old

theorem store {longer : History} (stored : archive.Obtainable) (obtainable : longer.Obtainable) :
    (archive.store longer).Obtainable :=
  stored.storeAll fun _ mem => List.mem_singleton.mp mem ▸ obtainable

theorem purged {purged : Archive} {time : Instant} {ids rewritten : List PropertyId}
    (stored : archive.Obtainable) (purgedTo : archive.PurgedTo time ids purged rewritten) :
    purged.Obtainable := by
  intro id history found
  rcases purgedTo.found_cases found with ⟨before, foundBefore, rfl⟩ | foundBefore
  · exact (stored id before foundBefore).purge time
  · exact stored id history foundBefore

end Obtainable

end Archive

namespace Graph

/-- A vertex or an edge has a property of a name, stored under a number, whose writes and purges
are accounted for by a ledger. -/
structure HasProperty (graph : Graph) (owner : Owner) (name : String) (id : PropertyId)
    (history : History) (ledger : Ledger) : Prop where
  owned : id ∈ graph.owned owner
  stored : graph.archive.history? id = some history
  named : history.name = name
  accounted : history.Accounted ledger

/-- What appending a value to a property of a vertex or an edge comes to, and how it leaves the
graph. -/
inductive Appending (graph : Graph) (owner : Owner) (name : String) (value : Value)
    (time : Instant) : Except Fault Unit → Graph → Prop where
  | outside (outside : ¬time.InWindow graph.setting.reference) :
      Appending graph owner name value time
        (.error (.timeRange time graph.setting.reference)) graph
  | unknown (inWindow : time.InWindow graph.setting.reference)
      (unknown : ¬graph.HandedOut owner) :
      Appending graph owner name value time
        (.error (.unknownEntity owner.kind owner.number)) graph
  | nameless (inWindow : time.InWindow graph.setting.reference) (known : graph.HandedOut owner)
      (nameless : ∀ id ∈ graph.owned owner, graph.archive.name? id ≠ some name) :
      Appending graph owner name value time (.error (.propertyNotFound name owner)) graph
  | disordered {id : PropertyId} {history : History} {ledger : Ledger} {disorder : Disorder}
      (inWindow : time.InWindow graph.setting.reference)
      (property : graph.HasProperty owner name id history ledger)
      (refused : history.Refused ledger time (.propertyOrdering disorder)) :
      Appending graph owner name value time (.error (.propertyOrdering disorder)) graph
  | appended {id : PropertyId} {history longer : History} {ledger : Ledger}
      (inWindow : time.InWindow graph.setting.reference)
      (property : graph.HasProperty owner name id history ledger)
      (accepted : history.write time value = (.ok (), longer)) :
      Appending graph owner name value time (.ok ())
        (graph.withArchive (graph.archive.store longer))

variable {setting : Setting} {graph : Graph} {journal : Journal} {owner : Owner} {name : String}
  {value : Value} {time : Instant} {id : PropertyId} {history longer : History} {ledger : Ledger}

theorem writeProperty_of_outside (outside : ¬time.InWindow graph.setting.reference) :
    graph.writeProperty owner name value time =
      (.error (.timeRange time graph.setting.reference), graph) := by
  simp only [writeProperty, prepareWrite, offset_eq, if_neg outside]
  rfl

section

variable (inWindow : time.InWindow graph.setting.reference)

include inWindow

theorem writeProperty_of_unknown (unknown : ¬graph.HandedOut owner) :
    graph.writeProperty owner name value time =
      (.error (.unknownEntity owner.kind owner.number), graph) := by
  simp only [writeProperty, prepareWrite, offset_eq, if_pos inWindow,
    check_of_not_handedOut unknown]
  rfl

theorem prepareWrite_eq (known : graph.HandedOut owner) :
    graph.prepareWrite owner name time = graph.history owner name := by
  simp only [prepareWrite, offset_eq, if_pos inWindow, check_eq_ok_iff.mpr known]
  rfl

end

namespace Recorded

variable (recorded : Recorded Change.Obtainable setting graph journal)

include recorded

theorem obtainable : graph.archive.Obtainable := by
  apply recorded.induct (motive := fun graph _ => graph.archive.Obtainable) (.empty _)
  intro graph changed journal change outcome before allowed step stored
  cases step with
  | refused change fault => exact stored
  | vertex inWindow admissible room => exact stored.storeAll allowed
  | edge inWindow sourceKnown targetKnown admissible room => exact stored.storeAll allowed
  | write inWindow known owned found accepted =>
    rename_i owner value time id history longer
    have longerObtainable := (stored id history found).write time value
    rw [accepted] at longerObtainable
    exact stored.store longerObtainable
  | purge inWindow run =>
    rcases before.canonical.purgedTo run with ⟨_, _, purgedTo⟩
    exact stored.purged purgedTo

theorem exists_hasProperty (owned : id ∈ graph.owned owner)
    (named : graph.archive.name? id = some name) :
    ∃ history ledger, graph.HasProperty owner name id history ledger := by
  rcases recorded.holdings.stored owned with ⟨history, stored⟩
  rcases (recorded.obtainable id history stored).accounted with ⟨ledger, accounted⟩
  rw [recorded.canonical.name?_eq, stored] at named
  exact ⟨history, ledger, owned, stored, Option.some.inj named, accounted⟩

theorem writeProperty_of_nameless (inWindow : time.InWindow graph.setting.reference)
    (known : graph.HandedOut owner)
    (nameless : ∀ id ∈ graph.owned owner, graph.archive.name? id ≠ some name) :
    graph.writeProperty owner name value time =
      (.error (.propertyNotFound name owner), graph) := by
  rcases recorded.property?_eq_ok owner name with ⟨found, isFound⟩
  cases found with
  | none =>
    simp only [writeProperty, prepareWrite_eq inWindow known, Graph.history, isFound]
    rfl
  | some id =>
    rcases property?_eq_some isFound with ⟨owned, named⟩
    exact absurd named (nameless id owned)

section

variable (property : graph.HasProperty owner name id history ledger)

include property

theorem handedOut_of_hasProperty : graph.HandedOut owner :=
  check_eq_ok_iff.mp (recorded.check_of_owned property.stored property.owned)

theorem history_of_hasProperty : graph.history owner name = .ok history := by
  have isFound := recorded.property?_of_owned property.stored property.owned
  rw [property.named] at isFound
  simp only [Graph.history, isFound, recorded.canonical.fetch?_eq, property.stored, bind,
    Except.bind]

variable (inWindow : time.InWindow graph.setting.reference)

include inWindow

theorem writeProperty_of_write {outcome : Except Fault Unit}
    (written : history.write time value = (outcome, longer)) :
    graph.writeProperty owner name value time =
      match outcome with
      | .error fault => (.error fault, graph)
      | .ok () => (.ok (), graph.withArchive (graph.archive.store longer)) := by
  have known := recorded.handedOut_of_hasProperty property
  simp only [writeProperty, prepareWrite_eq inWindow known,
    recorded.history_of_hasProperty property, written]
  cases outcome <;> rfl

/-- An instant of the graph's window is not past the window of a history. -/
theorem not_pastWindow : time.toInt - history.created.toInt ≤ maxOffset := by
  have notBefore := recorded.reference_le_created property.stored
  have notAfter := inWindow.2
  rw [recorded.setting_eq] at notAfter
  simp only [Instant.le_iff] at notBefore
  omega

theorem disorder_of_refused {fault : Fault} (refused : history.Refused ledger time fault) :
    ∃ disorder, fault = .propertyOrdering disorder := by
  cases refused with
  | beforeLatest _ _ => exact ⟨_, rfl⟩
  | beforeCreation _ _ => exact ⟨_, rfl⟩
  | pastWindow _ late =>
    exact absurd (recorded.not_pastWindow property inWindow) (Int.not_le.mpr late)

end

/-- An appended value ends in one of the five ways. -/
theorem appending (owner : Owner) (name : String) (value : Value) (time : Instant) :
    graph.Appending owner name value time (graph.writeProperty owner name value time).1
      (graph.writeProperty owner name value time).2 := by
  by_cases inWindow : time.InWindow graph.setting.reference
  · by_cases known : graph.HandedOut owner
    · by_cases nameless : ∀ id ∈ graph.owned owner, graph.archive.name? id ≠ some name
      · rw [recorded.writeProperty_of_nameless inWindow known nameless]
        exact .nameless inWindow known nameless
      · simp only [ne_eq, Classical.not_forall, Classical.not_not] at nameless
        rcases nameless with ⟨id, owned, named⟩
        rcases recorded.exists_hasProperty owned named with ⟨history, ledger, property⟩
        rcases written : history.write time value with ⟨outcome, longer⟩
        rw [recorded.writeProperty_of_write property inWindow written]
        cases outcome with
        | error fault =>
          have refused := property.accounted.write_eq_error_iff.mp (congrArg Prod.fst written)
          rcases recorded.disorder_of_refused property inWindow refused with ⟨disorder, rfl⟩
          exact .disordered inWindow property refused
        | ok _ => exact .appended inWindow property written
    · rw [writeProperty_of_unknown inWindow known]
      exact .unknown inWindow known
  · rw [writeProperty_of_outside inWindow]
    exact .outside inWindow

theorem exists_appending {outcome : Except Fault Unit}
    (ended : (graph.writeProperty owner name value time).1 = outcome) :
    ∃ changed, graph.Appending owner name value time outcome changed := by
  have ending := recorded.appending owner name value time
  rw [ended] at ending
  exact ⟨_, ending⟩

theorem writeProperty_eq_timeRange_iff :
    (graph.writeProperty owner name value time).1 =
        .error (.timeRange time graph.setting.reference) ↔
      ¬time.InWindow graph.setting.reference := by
  constructor
  · intro failed
    rcases recorded.exists_appending failed with ⟨changed, ending⟩
    cases ending with
    | outside outside => exact outside
  · intro outside
    rw [writeProperty_of_outside outside]

theorem writeProperty_eq_unknownEntity_iff :
    (graph.writeProperty owner name value time).1 =
        .error (.unknownEntity owner.kind owner.number) ↔
      time.InWindow graph.setting.reference ∧ ¬graph.HandedOut owner := by
  constructor
  · intro failed
    rcases recorded.exists_appending failed with ⟨changed, ending⟩
    cases ending with
    | unknown inWindow unknown => exact ⟨inWindow, unknown⟩
  · rintro ⟨inWindow, unknown⟩
    rw [writeProperty_of_unknown inWindow unknown]

theorem writeProperty_eq_propertyNotFound_iff :
    (graph.writeProperty owner name value time).1 = .error (.propertyNotFound name owner) ↔
      time.InWindow graph.setting.reference ∧ graph.HandedOut owner ∧
        ∀ id ∈ graph.owned owner, graph.archive.name? id ≠ some name := by
  constructor
  · intro failed
    rcases recorded.exists_appending failed with ⟨changed, ending⟩
    cases ending with
    | nameless inWindow known nameless => exact ⟨inWindow, known, nameless⟩
  · rintro ⟨inWindow, known, nameless⟩
    rw [recorded.writeProperty_of_nameless inWindow known nameless]

theorem writeProperty_eq_disorder_iff :
    (∃ disorder, (graph.writeProperty owner name value time).1 =
        .error (.propertyOrdering disorder)) ↔
      time.InWindow graph.setting.reference ∧
        ∃ id history ledger, graph.HasProperty owner name id history ledger ∧
          ((∃ latest, ledger.Latest latest ∧ time < latest) ∨ time < history.created) := by
  constructor
  · rintro ⟨disorder, failed⟩
    rcases recorded.exists_appending failed with ⟨changed, ending⟩
    cases ending with
    | disordered inWindow property refused =>
      have early := History.exists_disorder_iff.mp ⟨disorder, refused⟩
      exact ⟨inWindow, _, _, _, property, early⟩
  · rintro ⟨inWindow, id, history, ledger, property, early⟩
    rcases History.exists_disorder_iff.mpr early with ⟨disorder, refused⟩
    have written := property.accounted.write_of_refused refused value
    refine ⟨disorder, ?_⟩
    rw [recorded.writeProperty_of_write property inWindow written]

theorem writeProperty_eq_ok_iff :
    (graph.writeProperty owner name value time).1 = .ok () ↔
      time.InWindow graph.setting.reference ∧
        ∃ id history ledger, graph.HasProperty owner name id history ledger ∧
          (∀ latest, ledger.Latest latest → latest ≤ time) ∧ history.created ≤ time := by
  constructor
  · intro succeeded
    rcases recorded.exists_appending succeeded with ⟨changed, ending⟩
    cases ending with
    | appended inWindow property accepted =>
      rcases (property.accounted.write_eq_ok_iff value).mp (congrArg Prod.fst accepted) with
        ⟨inOrder, started, _⟩
      exact ⟨inWindow, _, _, _, property, inOrder, started⟩
  · rintro ⟨inWindow, id, history, ledger, property, inOrder, started⟩
    have accepted := (property.accounted.write_eq_ok_iff value).mpr
      ⟨inOrder, started, recorded.not_pastWindow property inWindow⟩
    rcases History.write_of_accepted accepted with ⟨_, _, written⟩
    rw [recorded.writeProperty_of_write property inWindow written]

theorem writeProperty_eq_error {fault : Fault}
    (failed : (graph.writeProperty owner name value time).1 = .error fault) :
    fault = .timeRange time graph.setting.reference ∨
      fault = .unknownEntity owner.kind owner.number ∨ fault = .propertyNotFound name owner ∨
        ∃ disorder, fault = .propertyOrdering disorder := by
  rcases recorded.exists_appending failed with ⟨changed, ending⟩
  cases ending with
  | outside _ => exact .inl rfl
  | unknown _ _ => exact .inr (.inl rfl)
  | nameless _ _ _ => exact .inr (.inr (.inl rfl))
  | disordered _ _ _ => exact .inr (.inr (.inr ⟨_, rfl⟩))

/-- An appended value changes one history, and the ledger that notes it still accounts for that
history. -/
theorem appended_of_eq_ok (property : graph.HasProperty owner name id history ledger)
    (succeeded : (graph.writeProperty owner name value time).1 = .ok ()) :
    ∃ longer, graph.writeProperty owner name value time =
        (.ok (), graph.withArchive (graph.archive.store longer)) ∧
      longer = { history with latest := some time, entries := longer.entries } ∧
      longer.log = history.log ++ [(time, value)] ∧
      (graph.withArchive (graph.archive.store longer)).HasProperty owner name id longer
        (ledger.write time value (.ok ())) ∧
      ∀ other, other ≠ id →
        (graph.archive.store longer).record? other = graph.archive.record? other := by
  rcases recorded.writeProperty_eq_ok_iff.mp succeeded with ⟨inWindow, _⟩
  rcases written : history.write time value with ⟨outcome, longer⟩
  have done := recorded.writeProperty_of_write property inWindow written
  cases outcome with
  | error fault => simp [done] at succeeded
  | ok _ =>
    rcases History.write_of_accepted (congrArg Prod.fst written) with ⟨_, _, extended⟩
    have isLonger := congrArg Prod.snd (written.symm.trans extended)
    simp only at isLonger
    have historyId : history.id = id := recorded.canonical.id_eq property.stored
    have sameId : longer.id = id := by
      rw [isLonger]
      exact historyId
    have accounted := property.accounted.write time value
    rw [written] at accounted
    refine ⟨longer, done, ?_, History.log_write written, ?_, ?_⟩
    · rw [isLonger]
    · refine ⟨property.owned, ?_, ?_, accounted⟩
      · simp only [withArchive, Archive.history?_store, sameId, if_true]
      · rw [isLonger]
        exact property.named
    · intro other different
      rw [Archive.record?_store, sameId, if_neg different]

end Recorded

section Sample

/-- The sample graph after a purge of all its values. -/
def dryGraph : Graph :=
  sampleGraph.after [.purge ⟨130⟩]

theorem dry_recorded : Recorded Change.Obtainable (.ofReference ⟨0⟩) dryGraph
    (sampleJournal.follow sampleGraph [.purge ⟨130⟩]) := by
  apply sample_recorded.after
  intro change mem
  rw [List.mem_singleton.mp mem]
  trivial

end Sample

/-- A value is appended or refused for one of four reasons.  It is refused outside the window;
within it, for an owner that is not known; then, for a name that the owner has no property of;
then, for an instant before the latest write ever accepted by that property, or before its
creation.  Otherwise the history of that property gains the value as its last entry, and
nothing else changes. -/
theorem Recorded.append_exact (recorded : Recorded Change.Obtainable setting graph journal)
    (owner : Owner) (name : String) (value : Value) (time : Instant) :
    ((graph.writeProperty owner name value time).1 = .error (.timeRange time setting.reference) ↔
      ¬time.InWindow setting.reference) ∧
    ((graph.writeProperty owner name value time).1 =
        .error (.unknownEntity owner.kind owner.number) ↔
      time.InWindow setting.reference ∧ ¬graph.HandedOut owner) ∧
    ((graph.writeProperty owner name value time).1 = .error (.propertyNotFound name owner) ↔
      time.InWindow setting.reference ∧ graph.HandedOut owner ∧
        ∀ id ∈ graph.owned owner, graph.archive.name? id ≠ some name) ∧
    ((∃ disorder, (graph.writeProperty owner name value time).1 =
        .error (.propertyOrdering disorder)) ↔
      time.InWindow setting.reference ∧
        ∃ id history ledger, graph.HasProperty owner name id history ledger ∧
          ((∃ latest, ledger.Latest latest ∧ time < latest) ∨ time < history.created)) ∧
    ((graph.writeProperty owner name value time).1 = .ok () ↔
      time.InWindow setting.reference ∧
        ∃ id history ledger, graph.HasProperty owner name id history ledger ∧
          (∀ latest, ledger.Latest latest → latest ≤ time) ∧ history.created ≤ time) ∧
    (∀ fault, (graph.writeProperty owner name value time).1 = .error fault →
      fault = .timeRange time setting.reference ∨
        fault = .unknownEntity owner.kind owner.number ∨ fault = .propertyNotFound name owner ∨
          ∃ disorder, fault = .propertyOrdering disorder) ∧
    ∀ id history ledger, graph.HasProperty owner name id history ledger →
      (graph.writeProperty owner name value time).1 = .ok () →
      ∃ longer, graph.writeProperty owner name value time =
          (.ok (), graph.withArchive (graph.archive.store longer)) ∧
        longer = { history with latest := some time, entries := longer.entries } ∧
        longer.log = history.log ++ [(time, value)] ∧
        (graph.withArchive (graph.archive.store longer)).HasProperty owner name id longer
          (ledger.write time value (.ok ())) ∧
        ∀ other, other ≠ id →
          (graph.archive.store longer).record? other = graph.archive.record? other := by
  rw [← recorded.setting_eq]
  refine ⟨recorded.writeProperty_eq_timeRange_iff, recorded.writeProperty_eq_unknownEntity_iff,
    recorded.writeProperty_eq_propertyNotFound_iff, recorded.writeProperty_eq_disorder_iff,
    recorded.writeProperty_eq_ok_iff, ?_, ?_⟩
  · intro fault failed
    exact recorded.writeProperty_eq_error failed
  · intro id history ledger property succeeded
    exact recorded.appended_of_eq_ok property succeeded

/-- The latest write stands although it was purged. -/
theorem append_exact_sample :
    (∃ disorder, (dryGraph.writeProperty (.vertex ⟨0⟩) "load" (.int32 1) ⟨125⟩).1 =
      .error (.propertyOrdering disorder)) ∧
    (∃ longer, dryGraph.writeProperty (.vertex ⟨0⟩) "load" (.int32 1) ⟨130⟩ =
        (.ok (), dryGraph.withArchive (dryGraph.archive.store longer)) ∧
      longer.log = [(⟨130⟩, .int32 1)]) ∧
    (dryGraph.writeProperty (.vertex ⟨5⟩) "load" (.int32 1) ⟨130⟩).1 =
      .error (.unknownEntity .vertex 5) := by
  have owned : ⟨7⟩ ∈ dryGraph.owned (.vertex ⟨0⟩) := by decide +kernel
  have stored : dryGraph.archive.history? ⟨7⟩ =
      some ⟨⟨7⟩, "load", ⟨100⟩, some ⟨130⟩, []⟩ := by decide +kernel
  rcases (dry_recorded.obtainable _ _ stored).accounted with ⟨ledger, accounted⟩
  have property : dryGraph.HasProperty (.vertex ⟨0⟩) "load" ⟨7⟩ _ ledger :=
    ⟨owned, stored, rfl, accounted⟩
  rcases dry_recorded.append_exact (.vertex ⟨0⟩) "load" (.int32 1) ⟨125⟩ with
    ⟨_, _, _, disordered, _⟩
  rcases dry_recorded.append_exact (.vertex ⟨0⟩) "load" (.int32 1) ⟨130⟩ with
    ⟨_, _, _, _, accepted, _, appended⟩
  rcases dry_recorded.append_exact (.vertex ⟨5⟩) "load" (.int32 1) ⟨130⟩ with ⟨_, unknown, _⟩
  refine ⟨?_, ?_, ?_⟩
  · apply disordered.mpr
    refine ⟨by decide, _, _, _, property, .inl ⟨⟨130⟩, ?_, by decide⟩⟩
    exact accounted.latest_eq_some_iff.mp rfl
  · have succeeds := accepted.mpr ⟨by decide, _, _, _, property, ?_, by decide⟩
    · rcases appended _ _ _ property succeeds with ⟨longer, done, _, extended, _⟩
      exact ⟨longer, done, extended⟩
    · intro latest isLatest
      have found := accounted.latest_eq_some_iff.mpr isLatest
      rw [← Option.some.inj found]
      decide
  · apply unknown.mpr
    have count : dryGraph.vertexCount = 2 := by decide +kernel
    refine ⟨by decide, ?_⟩
    simp only [HandedOut, count]
    decide

end Graph

end TimedGraph
