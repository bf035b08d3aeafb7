import TimedGraph.Proofs.Graph.Consistency
import TimedGraph.Proofs.Graph.Permanence

/-!
# The ways of reading a property agree

Every question is answered in two parts.  Its instant and what it names are checked, and then
the answer is looked up.  In a recorded graph the look-up does not fail (`answer_guarded`), so
that a question fails for what its check fails for.

Properties are looked up in two ways.  The listing reads all that an owner has and leaves
out what has no value yet; the search by name picks the owned numbers whose stored name fits
and reads the one that it has found.  Names tell the properties of an owner apart, hence the
search finds what the listing has under the name (`filter_readings`).  The tables between
two vertices are filled by these look-ups, edge by edge.
-/

namespace TimedGraph.Graph

variable {setting : Setting} {graph : Graph} {journal : Journal} {owner : Owner} {time : Instant}
  {question : Question} {name : String}

/-- The checks that a question is put to before anything is looked up. -/
def checkQuestion (graph : Graph) (question : Question) : Except Fault Unit := do
  let _ ← graph.offset question.time
  forM question.arguments graph.check

/-- Why a question is not answered: its instant is outside the window, or else it names something
unknown, of which the first counts. -/
inductive Declined (graph : Graph) (question : Question) : Fault → Prop where
  | outside (outside : ¬question.time.InWindow graph.setting.reference) :
      Declined graph question (.timeRange question.time graph.setting.reference)
  | unknown {before after : List Owner} {owner : Owner}
      (inWindow : question.time.InWindow graph.setting.reference)
      (split : question.arguments = before ++ owner :: after)
      (known : ∀ other ∈ before, graph.HandedOut other) (unknown : ¬graph.HandedOut owner) :
      Declined graph question (.unknownEntity owner.kind owner.number)

theorem checkQuestion_eq_ok_iff : graph.checkQuestion question = .ok () ↔
    question.time.InWindow graph.setting.reference ∧
      ∀ owner ∈ question.arguments, graph.HandedOut owner := by
  simp only [checkQuestion, bind_eq_ok, offset_eq_ok_iff, forM_eq_ok_iff, check_eq_ok_iff]
  constructor
  · rintro ⟨_, ⟨inWindow, _⟩, known⟩
    exact ⟨inWindow, known⟩
  · rintro ⟨inWindow, known⟩
    exact ⟨_, ⟨inWindow, rfl⟩, known⟩

theorem checkQuestion_eq_error_iff {fault : Fault} :
    graph.checkQuestion question = .error fault ↔ graph.Declined question fault := by
  simp only [checkQuestion, bind_eq_error, forM_eq_error_iff, check_eq_ok_iff]
  constructor
  · rintro (failed | ⟨_, passed, before, owner, after, split, known, failed⟩)
    · simp only [offset_eq] at failed
      split at failed
      · cases failed
      · cases failed
        exact .outside ‹_›
    · have unknown : ¬graph.HandedOut owner := by
        intro isKnown
        simp only [check_eq_ok_iff.mpr isKnown] at failed
        cases failed
      simp only [check_of_not_handedOut unknown] at failed
      cases failed
      exact .unknown (offset_eq_ok_iff.mp passed).1 split known unknown
  · rintro (outside | ⟨inWindow, split, known, unknown⟩)
    · left
      simp only [offset_eq, if_neg outside]
    · right
      refine ⟨_, offset_eq_ok_iff.mpr ⟨inWindow, rfl⟩, _, _, _, split, known, ?_⟩
      exact check_of_not_handedOut unknown

/-- An outcome fails for what the check before it fails for, and for nothing else. -/
inductive Guarded {α : Type} : Except Fault Unit → Except Fault α → Prop where
  | refused (fault : Fault) : Guarded (.error fault) (.error fault)
  | passed (answer : α) : Guarded (.ok ()) (.ok answer)

namespace Guarded

variable {α β : Type} {check : Except Fault Unit} {outcome : Except Fault α}

theorem eq_error_iff (guarded : Guarded check outcome) {fault : Fault} :
    outcome = .error fault ↔ check = .error fault := by
  cases guarded <;> simp

theorem exists_eq_ok_iff (guarded : Guarded check outcome) :
    (∃ answer, outcome = .ok answer) ↔ check = .ok () := by
  cases guarded <;> simp

theorem map (guarded : Guarded check outcome) (change : α → β) :
    Guarded check (change <$> outcome) := by
  cases guarded with
  | refused fault => exact .refused fault
  | passed answer => exact .passed (change answer)

/-- The check and the outcome may begin with the same step. -/
theorem after (first : Except Fault α) {rest : α → Except Fault Unit}
    {next : α → Except Fault β} (guarded : ∀ found, Guarded (rest found) (next found)) :
    Guarded (first >>= rest) (first >>= next) := by
  cases first with
  | error fault => exact .refused fault
  | ok found => exact guarded found

/-- What follows an outcome may go on if it does not fail then. -/
theorem bind (guarded : Guarded check outcome) {next : α → Except Fault β}
    (answered : ∀ found, outcome = .ok found → ∃ answer, next found = .ok answer) :
    Guarded check (outcome >>= next) := by
  cases guarded with
  | refused fault => exact .refused fault
  | passed found =>
    rcases answered found rfl with ⟨answer, isAnswer⟩
    have both : (Except.ok found >>= next) = .ok answer := isAnswer
    simp only [both]
    exact .passed answer

end Guarded

theorem guarded_edgesBetweenAt (source target : VertexId) (time : Instant) :
    Guarded (graph.checkQuestion (.edgesBetween source target time))
      (graph.edgesBetweenAt source target time) :=
  Guarded.after _ fun _ => Guarded.after _ fun _ => Guarded.after _ fun _ => .passed _

/-- A table has an entry for every edge of a list and for no other, and the entries are the
answers for their edges. -/
structure Tabulated {α : Type} (answer : EdgeId → Except Fault α) (edges : List EdgeId)
    (table : Table EdgeId α) : Prop where
  mem_keys_iff : ∀ edge, edge ∈ table.keys ↔ edge ∈ edges
  answer_eq : ∀ edge found, table.get? edge = some found → answer edge = .ok found

theorem exists_tabulated {α : Type} {answer : EdgeId → Except Fault α} {edges : List EdgeId}
    (answered : ∀ edge ∈ edges, ∃ found, answer edge = .ok found) :
    ∃ table, tabulate answer edges = .ok table ∧ Tabulated answer edges table := by
  induction edges with
  | nil => exact ⟨∅, rfl, fun _ => Iff.rfl, nofun⟩
  | cons first rest ih =>
    rcases answered first (.head _) with ⟨found, isFound⟩
    rcases ih fun edge mem => answered edge (.tail _ mem) with ⟨others, areOthers, tabulated⟩
    refine ⟨others.insert first found, ?_, ?_, ?_⟩
    · simp only [tabulate, isFound, areOthers]
      rfl
    · intro edge
      simp only [Table.mem_keys_insert, tabulated.mem_keys_iff, List.mem_cons]
    · intro edge other isOther
      simp only [Table.get?_insert] at isOther
      split at isOther
      · rename_i same
        cases isOther
        simp only [same, isFound]
      · exact tabulated.answer_eq edge other isOther

theorem guarded_tabulate_between {α : Type} {lookUp : EdgeId → Except Fault α}
    (source target : VertexId) (time : Instant)
    (answered : ∀ edge, ∃ found, lookUp edge = .ok found) :
    Guarded (graph.checkQuestion (.edgesBetween source target time))
      (graph.edgesBetweenAt source target time >>= tabulate lookUp) := by
  apply (guarded_edgesBetweenAt source target time).bind
  intro edges _
  rcases exists_tabulated fun edge (_ : edge ∈ edges) => answered edge with ⟨table, isTable, _⟩
  exact ⟨table, isTable⟩

theorem filter_eq_of_property? {found : Option PropertyId}
    (isFound : graph.property? owner name = .ok found) :
    ((graph.owned owner).filter fun id => graph.archive.name? id = some name) = found.toList := by
  simp only [property?] at isFound
  split at isFound
  · rename_i nothing
    cases isFound
    exact nothing
  · rename_i id only
    cases isFound
    exact only
  · cases isFound

section

variable (inWindow : time.InWindow graph.setting.reference) (known : graph.HandedOut owner)

include inWindow known

theorem propertiesAt_of_known : graph.propertiesAt owner time = graph.readings owner time := by
  simp only [propertiesAt, offset_eq, if_pos inWindow, check_eq_ok_iff.mpr known]
  rfl

theorem propertyAt_of_known :
    graph.propertyAt owner name time = graph.namedReading? owner name time := by
  simp only [propertyAt, offset_eq, if_pos inWindow, check_eq_ok_iff.mpr known]
  rfl

end

namespace Recorded

variable (recorded : Recorded Change.Obtainable setting graph journal)

include recorded

/-- A search by name finds what the listing has under this name. -/
theorem filter_readings (owner : Owner) (time : Instant) :
    ∃ readings, graph.readings owner time = .ok readings ∧
      ∀ name, ∃ found, graph.namedReading? owner name time = .ok found ∧
        readings.filter (·.name = name) = found.toList := by
  have canonical := recorded.canonical
  refine ⟨_, readings_eq canonical owner time, ?_⟩
  intro name
  rcases recorded.property?_eq_ok owner name with ⟨found, isFound⟩
  refine ⟨found.bind fun id =>
    (graph.archive.history? id).bind fun history => history.readingAt time, ?_, ?_⟩
  · simp only [namedReading?, isFound]
    cases found with
    | none => rfl
    | some id => exact reading?_eq canonical time id
  · -- A reading has the name under which its property is stored.
    have named : ∀ id, (((graph.archive.history? id).bind fun history =>
        history.readingAt time).filter fun reading => reading.name = name) =
          if graph.archive.name? id = some name then
            (graph.archive.history? id).bind fun history => history.readingAt time
          else none := by
      intro id
      simp only [canonical.name?_eq]
      cases graph.archive.history? id with
      | none => rfl
      | some history =>
        simp only [Option.bind_some, Option.map_some, Option.some.injEq, History.readingAt]
        cases history.valueAt time <;> simp [Option.filter_some]
    have listed := congrArg (List.filterMap fun id =>
      (graph.archive.history? id).bind fun history => history.readingAt time)
        (filter_eq_of_property? isFound)
    simp only [List.filterMap_filter, decide_eq_true_eq, ← named] at listed
    simp only [List.filter_filterMap, listed]
    cases found with
    | none => rfl
    | some id =>
      simp only [Option.toList_some, Option.bind_some, List.filterMap_cons, List.filterMap_nil]
      split <;> simp [*]

theorem readings_eq_ok (owner : Owner) (time : Instant) :
    ∃ readings, graph.readings owner time = .ok readings :=
  ⟨_, readings_eq recorded.canonical owner time⟩

theorem namedReading?_eq_ok (owner : Owner) (name : String) (time : Instant) :
    ∃ found, graph.namedReading? owner name time = .ok found := by
  rcases recorded.filter_readings owner time with ⟨_, _, searched⟩
  rcases searched name with ⟨found, isFound, _⟩
  exact ⟨found, isFound⟩

/-- A question that passes its check is answered. -/
theorem answer_guarded (question : Question) :
    Guarded (graph.checkQuestion question) (graph.answer question) := by
  cases question with
  | vertices time => exact (Guarded.after _ fun _ => .passed _).map _
  | edges time => exact (Guarded.after _ fun _ => .passed _).map _
  | outEdges vertex time =>
    exact (Guarded.after _ fun _ => Guarded.after _ fun _ => .passed _).map _
  | inEdges vertex time =>
    exact (Guarded.after _ fun _ => Guarded.after _ fun _ => .passed _).map _
  | edgesBetween source target time => exact (guarded_edgesBetweenAt source target time).map _
  | properties owner time =>
    apply Guarded.map
    refine Guarded.after _ fun _ => Guarded.after _ fun _ => ?_
    rcases recorded.readings_eq_ok owner time with ⟨readings, areReadings⟩
    simp only [areReadings]
    exact .passed readings
  | property owner name time =>
    apply Guarded.map
    refine Guarded.after _ fun _ => Guarded.after _ fun _ => ?_
    rcases recorded.namedReading?_eq_ok owner name time with ⟨found, isFound⟩
    simp only [isFound]
    exact .passed found
  | propertiesBetween source target time =>
    apply Guarded.map
    apply guarded_tabulate_between source target time
    intro edge
    exact recorded.readings_eq_ok (.edge edge) time
  | propertyBetween source target name time =>
    apply Guarded.map
    apply guarded_tabulate_between source target time
    intro edge
    exact recorded.namedReading?_eq_ok (.edge edge) name time

/-- A table between two vertices is filled with the answers for the edges that are listed. -/
theorem exists_tabulated_between {source target : VertexId} {edges : List EdgeId} {α : Type}
    {lookUp answer : EdgeId → Except Fault α}
    (listed : graph.edgesBetweenAt source target time = .ok edges)
    (same : ∀ edge, graph.HandedOut (.edge edge) → answer edge = lookUp edge)
    (answered : ∀ edge, ∃ found, lookUp edge = .ok found) :
    ∃ table, (graph.edgesBetweenAt source target time >>= tabulate lookUp) = .ok table ∧
      Tabulated answer edges table := by
  have topology := Topology.of_recorded recorded
  have agreeing : ∀ edge ∈ edges, answer edge = lookUp edge := by
    intro edge mem
    exact same edge (check_eq_ok_iff.mp (topology.check_of_mem_edgesBetweenAt listed mem))
  have allAnswered : ∀ edge ∈ edges, ∃ found, answer edge = .ok found := by
    intro edge mem
    simp only [agreeing edge mem]
    exact answered edge
  rcases exists_tabulated allAnswered with ⟨table, isTable, tabulated⟩
  refine ⟨table, ?_, tabulated⟩
  simp only [listed]
  exact (tabulate_congr agreeing).symm.trans isTable

end Recorded

/-- Questions fail for bad arguments only, and the ways of reading a property agree.  What is
read by name is what the listing has under the name, and the tables between two vertices hold,
for the edges that are listed between them, what is read of each edge. -/
theorem Recorded.answers_agree (recorded : Recorded Change.Obtainable setting graph journal) :
    (∀ question fault,
      graph.answer question = .error fault ↔ graph.Declined question fault) ∧
    (∀ question, (∃ answer, graph.answer question = .ok answer) ↔
      question.time.InWindow graph.setting.reference ∧
        ∀ owner ∈ question.arguments, graph.HandedOut owner) ∧
    (∀ owner time, time.InWindow graph.setting.reference → graph.HandedOut owner →
      ∃ readings, graph.propertiesAt owner time = .ok readings ∧
        ∀ name, ∃ found, graph.propertyAt owner name time = .ok found ∧
          readings.filter (·.name = name) = found.toList) ∧
    ∀ source target time, time.InWindow graph.setting.reference →
      graph.HandedOut (.vertex source) → graph.HandedOut (.vertex target) →
      ∃ edges, graph.edgesBetweenAt source target time = .ok edges ∧
        (∃ table, graph.propertiesBetweenAt source target time = .ok table ∧
          Tabulated (fun edge => graph.propertiesAt (.edge edge) time) edges table) ∧
        ∀ name, ∃ table, graph.propertyBetweenAt source target name time = .ok table ∧
          Tabulated (fun edge => graph.propertyAt (.edge edge) name time) edges table := by
  refine ⟨?_, ?_, ?_, ?_⟩
  · intro question fault
    exact (recorded.answer_guarded question).eq_error_iff.trans checkQuestion_eq_error_iff
  · intro question
    exact (recorded.answer_guarded question).exists_eq_ok_iff.trans checkQuestion_eq_ok_iff
  · intro owner time inWindow known
    simp only [propertiesAt_of_known inWindow known, propertyAt_of_known inWindow known]
    exact recorded.filter_readings owner time
  · intro source target time inWindow sourceKnown targetKnown
    have passed : graph.checkQuestion (.edgesBetween source target time) = .ok () := by
      apply checkQuestion_eq_ok_iff.mpr
      refine ⟨inWindow, ?_⟩
      simpa [Question.arguments] using ⟨sourceKnown, targetKnown⟩
    rcases (guarded_edgesBetweenAt source target time).exists_eq_ok_iff.mpr passed with
      ⟨edges, listed⟩
    refine ⟨edges, listed, ?_, ?_⟩
    · apply recorded.exists_tabulated_between listed
      · intro edge known
        exact propertiesAt_of_known inWindow known
      · intro edge
        exact recorded.readings_eq_ok (.edge edge) time
    · intro name
      apply recorded.exists_tabulated_between listed
      · intro edge known
        exact propertyAt_of_known inWindow known
      · intro edge
        exact recorded.namedReading?_eq_ok (.edge edge) name time

theorem answers_agree_sample :
    sampleGraph.answer (.propertiesBetween ⟨1⟩ ⟨8⟩ ⟨125⟩) = .error (.unknownEntity .vertex 8) ∧
    (∃ readings found, sampleGraph.propertiesAt (.vertex ⟨0⟩) ⟨125⟩ = .ok readings ∧
      sampleGraph.propertyAt (.vertex ⟨0⟩) "load" ⟨125⟩ = .ok found ∧
        readings.filter (·.name = "load") = found.toList) ∧
    ∃ table, sampleGraph.propertyBetweenAt ⟨1⟩ ⟨1⟩ "load" ⟨125⟩ = .ok table ∧
      ∀ edge, edge ∈ table.keys ↔ edge = ⟨1⟩ := by
  have count : sampleGraph.vertexCount = 2 := by decide +kernel
  have inWindow : (⟨125⟩ : Instant).InWindow sampleGraph.setting.reference := by
    rw [sample_recorded.setting_eq]
    decide
  have known : ∀ number < (2 : UInt32), sampleGraph.HandedOut (.vertex ⟨number⟩) := by
    intro number lower
    simp only [HandedOut, count]
    exact UInt32.lt_iff_toNat_lt.mp lower
  rcases sample_recorded.answers_agree with ⟨fails, _, searched, between⟩
  refine ⟨?_, ?_, ?_⟩
  · apply (fails _ _).mpr
    have asked : (Question.propertiesBetween ⟨1⟩ ⟨8⟩ ⟨125⟩).time.InWindow
        sampleGraph.setting.reference := by
      simpa only [Question.time] using inWindow
    have split : (Question.propertiesBetween ⟨1⟩ ⟨8⟩ ⟨125⟩).arguments =
      [.vertex ⟨1⟩] ++ .vertex ⟨8⟩ :: [] := rfl
    refine .unknown asked split ?_ ?_
    · exact List.forall_mem_singleton.mpr (known 1 (by decide))
    · simp [HandedOut, count]
  · rcases searched (.vertex ⟨0⟩) ⟨125⟩ inWindow (known 0 (by decide)) with
      ⟨readings, areReadings, named⟩
    rcases named "load" with ⟨found, isFound, same⟩
    exact ⟨readings, found, areReadings, isFound, same⟩
  · have both : sampleGraph.HandedOut (.vertex ⟨1⟩) := known 1 (by decide)
    rcases between ⟨1⟩ ⟨1⟩ ⟨125⟩ inWindow both both with ⟨edges, listed, _, named⟩
    rcases named "load" with ⟨table, isTable, tabulated⟩
    have isEdges : (sampleGraph.edgesBetweenAt ⟨1⟩ ⟨1⟩ ⟨125⟩).toOption = some [⟨1⟩] := by
      decide +kernel
    simp only [listed, Except.toOption, Option.some.injEq] at isEdges
    refine ⟨table, isTable, ?_⟩
    intro edge
    simp only [tabulated.mem_keys_iff, isEdges, List.mem_singleton]

end TimedGraph.Graph
