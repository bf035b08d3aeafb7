import TimedGraph.Proofs.Graph.Step
import TimedGraph.Proofs.Matching

/-!
# Graphs that differ in their archives

Two graphs are framed alike if they differ at most in their archives, and in codec and room of
their settings.  Most of what a graph answers does not look into the archive, or reads no more
of it than which numbers are stored under which names.  Framed graphs with matching archives
agree in all that, and so every change does the same to both: it is refused by both with one
fault, or carried out in both, and leaves them framed alike with matching archives.

`Matches` compares outcomes: they are the same fault, or answers that are related.
-/

namespace TimedGraph

/-- Two outcomes are the same fault, or answers that are related. -/
inductive Matches {α β : Type} (Related : α → β → Prop) : Except Fault α → Except Fault β → Prop
    where
  | error (fault : Fault) : Matches Related (.error fault) (.error fault)
  | ok {first : α} {second : β} (related : Related first second) :
      Matches Related (.ok first) (.ok second)

namespace Matches

variable {α β γ δ : Type} {Related : α → β → Prop} {Further : γ → δ → Prop}

theorem bind {first : Except Fault α} {second : Except Fault β} {firstNext : α → Except Fault γ}
    {secondNext : β → Except Fault δ} (outcomes : Matches Related first second)
    (next : ∀ {found other}, Related found other →
      Matches Further (firstNext found) (secondNext other)) :
    Matches Further (first >>= firstNext) (second >>= secondNext) := by
  cases outcomes with
  | error fault => exact .error fault
  | ok related => exact next related

/-- What follows an equal outcome is compared for each of its answers. -/
theorem bind_same {outcome : Except Fault α} {firstNext : α → Except Fault γ}
    {secondNext : α → Except Fault δ}
    (next : ∀ found, Matches Further (firstNext found) (secondNext found)) :
    Matches Further (outcome >>= firstNext) (outcome >>= secondNext) := by
  cases outcome with
  | error fault => exact .error fault
  | ok found => exact next found

theorem map {first : Except Fault α} {second : Except Fault β} {firstView : α → γ}
    {secondView : β → δ} (outcomes : Matches Related first second)
    (views : ∀ {found other}, Related found other →
      Further (firstView found) (secondView other)) :
    Matches Further (firstView <$> first) (secondView <$> second) := by
  cases outcomes with
  | error fault => exact .error fault
  | ok related => exact .ok (views related)

theorem map_same {outcome : Except Fault α} {view : α → γ} {Seen : γ → γ → Prop}
    (views : ∀ found, Seen (view found) (view found)) :
    Matches Seen (view <$> outcome) (view <$> outcome) := by
  cases outcome with
  | error fault => exact .error fault
  | ok found => exact .ok (views found)

end Matches

namespace Graph

open Archive (Matched)

/-- Two graphs agree but for codec, room and archives, and their archives match. -/
structure Framed (Related : History → History → Prop) (first second : Graph) : Prop where
  reference : first.setting.reference = second.setting.reference
  vertexCounter : first.vertexCounter = second.vertexCounter
  edgeCounter : first.edgeCounter = second.edgeCounter
  vertices : first.vertices = second.vertices
  edges : first.edges = second.edges
  outgoing : first.outgoing = second.outgoing
  incoming : first.incoming = second.incoming
  ownership : first.ownership = second.ownership
  archives : Matched Related first.archive second.archive

theorem checkBatch_congr {firstArchive secondArchive : Archive}
    (same : firstArchive.contains = secondArchive.contains) (owner : Owner) (added : Instant)
    (batch : List History) :
    checkBatch firstArchive owner added batch = checkBatch secondArchive owner added batch := by
  have rest (roster : Roster) : checkBatchFrom firstArchive owner added roster batch =
      checkBatchFrom secondArchive owner added roster batch := by
    induction batch generalizing roster with
    | nil => rfl
    | cons history rest ih => simp only [checkBatchFrom, checkHistory, same, ih]
  exact rest .empty

namespace Framed

variable {Related : History → History → Prop} {first second : Graph}
  (framed : Framed Related first second)

include framed

theorem offset_eq : first.offset = second.offset := by
  funext time
  simp only [offset, framed.reference]

theorem checkVertex_eq : first.checkVertex = second.checkVertex := by
  funext vertex
  simp only [checkVertex, framed.vertexCounter]

theorem check_eq : first.check = second.check := by
  funext owner
  cases owner with
  | vertex vertex => exact congrFun framed.checkVertex_eq vertex
  | edge edge => simp only [check, checkEdge, framed.edgeCounter]

theorem owned_eq : first.owned = second.owned := by
  funext owner
  simp only [owned, framed.ownership]

theorem edgesBetweenAt_eq : first.edgesBetweenAt = second.edgesBetweenAt := by
  funext source target time
  simp only [edgesBetweenAt, framed.offset_eq, framed.checkVertex_eq, framed.outgoing,
    framed.incoming]

theorem withArchive {firstArchive secondArchive : Archive}
    (archives : Matched Related firstArchive secondArchive) :
    Framed Related (first.withArchive firstArchive) (second.withArchive secondArchive) :=
  { framed with archives }

variable (compatible : History.Compatible Related)

include compatible

theorem property?_eq : first.property? = second.property? := by
  funext owner name
  simp only [property?, framed.owned_eq, framed.archives.name?_eq compatible]

theorem contains_eq : first.archive.contains = second.archive.contains := by
  funext id
  have names := congrFun (framed.archives.name?_eq compatible) id
  simpa only [Archive.name?, Option.isSome_map, Archive.record?, Archive.contains,
    Table.contains_eq] using congrArg Option.isSome names

theorem propertyCount_eq : first.propertyCount = second.propertyCount :=
  Table.size_congr fun id => congrFun (framed.contains_eq compatible) id

theorem addVertex (batch : List History) (time : Instant) :
    (first.addVertex batch time).1 = (second.addVertex batch time).1 ∧
      Framed Related (first.addVertex batch time).2 (second.addVertex batch time).2 := by
  have prepared : first.prepareVertex batch time = second.prepareVertex batch time := by
    simp only [prepareVertex, framed.offset_eq, framed.vertexCounter,
      checkBatch_congr (framed.contains_eq compatible)]
  simp only [Graph.addVertex, prepared]
  cases second.prepareVertex batch time with
  | error fault => exact ⟨rfl, framed⟩
  | ok found =>
    exact ⟨rfl, { framed with
      vertexCounter := rfl
      vertices := by rw [framed.vertices]
      ownership := by rw [framed.ownership]
      archives := framed.archives.storeAll compatible batch }⟩

theorem addEdge (source target : VertexId) (batch : List History) (time : Instant) :
    (first.addEdge source target batch time).1 = (second.addEdge source target batch time).1 ∧
      Framed Related (first.addEdge source target batch time).2
        (second.addEdge source target batch time).2 := by
  have prepared :
      first.prepareEdge source target batch time = second.prepareEdge source target batch time := by
    simp only [prepareEdge, framed.offset_eq, framed.checkVertex_eq, framed.edgeCounter,
      checkBatch_congr (framed.contains_eq compatible)]
  simp only [Graph.addEdge, prepared]
  cases second.prepareEdge source target batch time with
  | error fault => exact ⟨rfl, framed⟩
  | ok found =>
    exact ⟨rfl, { framed with
      edgeCounter := rfl
      edges := by rw [framed.edges]
      outgoing := by rw [framed.outgoing]
      incoming := by rw [framed.incoming]
      ownership := by rw [framed.ownership]
      archives := framed.archives.storeAll compatible batch }⟩

/-- A name leads to related histories, under one number, or to one fault. -/
theorem history (owner : Owner) (name : String) :
    Matches (fun history other => Related history other ∧ history.id = other.id)
      (first.history owner name) (second.history owner name) := by
  simp only [Graph.history, framed.property?_eq compatible]
  apply Matches.bind_same
  intro found
  cases found with
  | none => exact .error _
  | some id =>
    have canonical := framed.archives.firstCanonical
    have otherCanonical := framed.archives.secondCanonical
    simp only [canonical.fetch?_eq, otherCanonical.fetch?_eq]
    rcases framed.archives.found_cases id with
      ⟨absent, otherAbsent⟩ | ⟨history, other, isHistory, isOther, related⟩
    · rw [absent, otherAbsent]
      exact .error _
    · rw [isHistory, isOther]
      exact .ok ⟨related, (canonical.id_eq isHistory).trans (otherCanonical.id_eq isOther).symm⟩

theorem writeProperty (owner : Owner) (name : String) (value : Value) (time : Instant) :
    (first.writeProperty owner name value time).1 =
        (second.writeProperty owner name value time).1 ∧
      Framed Related (first.writeProperty owner name value time).2
        (second.writeProperty owner name value time).2 := by
  have prepared : Matches (fun history other => Related history other ∧ history.id = other.id)
      (first.prepareWrite owner name time) (second.prepareWrite owner name time) := by
    simp only [prepareWrite, framed.offset_eq, framed.check_eq]
    exact Matches.bind_same fun _ => Matches.bind_same fun _ => framed.history compatible owner name
  simp only [Graph.writeProperty]
  generalize first.prepareWrite owner name time = outcome at prepared ⊢
  generalize second.prepareWrite owner name time = otherOutcome at prepared ⊢
  cases prepared with
  | error fault => exact ⟨rfl, framed⟩
  | @ok history other related =>
    rcases related with ⟨related, sameId⟩
    rcases compatible.write related time value with ⟨sameOutcome, relatedAfter⟩
    have sameIdAfter : (history.write time value).2.id = (other.write time value).2.id := by
      simpa using sameId
    rcases written : history.write time value with ⟨result, longer⟩
    rcases otherWritten : other.write time value with ⟨otherResult, otherLonger⟩
    rw [written, otherWritten] at sameOutcome relatedAfter sameIdAfter
    simp only at sameOutcome
    subst sameOutcome
    simp only [written, otherWritten]
    cases result with
    | error fault => exact ⟨rfl, framed⟩
    | ok _ => exact ⟨rfl, framed.withArchive (framed.archives.store relatedAfter sameIdAfter)⟩

/-- A purge counts the same vertices and edges, and rewrites at most as many histories. -/
theorem purge (time : Instant) :
    Matches (fun stats other => stats.vertices = other.vertices ∧ stats.edges = other.edges ∧
        other.rewritten ≤ stats.rewritten) (first.purge time).1 (second.purge time).1 ∧
      Framed Related (first.purge time).2 (second.purge time).2 := by
  simp only [Graph.purge, framed.offset_eq, framed.edges, framed.vertices, framed.owned_eq]
  cases second.offset time with
  | error fault => exact ⟨.error fault, framed⟩
  | ok offset =>
    rcases framed.archives.purge compatible time (((second.edges.upTo offset).map Owner.edge ++
      (second.vertices.upTo offset).map Owner.vertex).flatMap second.owned) with
        ⟨count, fewer, firstPurged, secondPurged, firstRun, secondRun, bounded, purgedMatched⟩
    simp only [firstRun, secondRun]
    exact ⟨.ok ⟨rfl, rfl, bounded⟩, { framed.withArchive purgedMatched with
      vertices := rfl
      edges := rfl }⟩

end Framed

end Graph

end TimedGraph
