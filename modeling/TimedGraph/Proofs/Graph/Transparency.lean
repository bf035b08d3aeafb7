import TimedGraph.Proofs.Graph.Frame
import TimedGraph.Proofs.Graph.Legible
import TimedGraph.Proofs.Graph.Run

/-!
# The codec cannot be observed

Two graphs are alike if they differ at most in the codecs of their archives, in what
the codecs make of the histories, and in the room that was asked for.  Graphs that are
alike answer every request alike and are alike after it, so two runs from settings with
one reference agree in all their answers.  To be alike is to be framed alike with archives
of equal histories, which is what settles the changes other than a purge.
-/

namespace TimedGraph

namespace Graph

/-- Two graphs are alike but for codec, records and room. -/
structure Alike (first second : Graph) : Prop where
  reference : first.setting.reference = second.setting.reference
  vertexCounter : first.vertexCounter = second.vertexCounter
  edgeCounter : first.edgeCounter = second.edgeCounter
  vertices : first.vertices = second.vertices
  edges : first.edges = second.edges
  outgoing : first.outgoing = second.outgoing
  incoming : first.incoming = second.incoming
  ownership : first.ownership = second.ownership
  histories : first.archive.history? = second.archive.history?
  firstCanonical : first.archive.Canonical
  secondCanonical : second.archive.Canonical

variable {first second : Graph}

namespace Alike

theorem empty {first second : Setting} (same : first.reference = second.reference) :
    Alike (.empty first) (.empty second) where
  reference := same
  vertexCounter := rfl
  edgeCounter := rfl
  vertices := rfl
  edges := rfl
  outgoing := rfl
  incoming := rfl
  ownership := rfl
  histories := rfl
  firstCanonical := .empty first.codec
  secondCanonical := .empty second.codec

theorem of_framed (framed : Framed (· = ·) first second) : Alike first second :=
  { framed with
    firstCanonical := framed.archives.firstCanonical
    secondCanonical := framed.archives.secondCanonical
    histories := by
      funext id
      rcases framed.archives.found_cases id with
        ⟨absent, otherAbsent⟩ | ⟨_, _, found, isOther, same⟩
      · rw [absent, otherAbsent]
      · rw [found, isOther, same] }

variable (alike : Alike first second)

include alike

theorem symm : Alike second first where
  reference := alike.reference.symm
  vertexCounter := alike.vertexCounter.symm
  edgeCounter := alike.edgeCounter.symm
  vertices := alike.vertices.symm
  edges := alike.edges.symm
  outgoing := alike.outgoing.symm
  incoming := alike.incoming.symm
  ownership := alike.ownership.symm
  histories := alike.histories.symm
  firstCanonical := alike.secondCanonical
  secondCanonical := alike.firstCanonical

theorem framed : Framed (· = ·) first second :=
  { alike with
    archives :=
      { firstCanonical := alike.firstCanonical
        secondCanonical := alike.secondCanonical
        histories := by
          intro id
          rw [alike.histories]
          cases second.archive.history? id with
          | none => exact .none
          | some history => exact .some rfl } }

theorem name?_eq : first.archive.name? = second.archive.name? :=
  alike.framed.archives.name?_eq .eq

theorem fetch?_eq : first.archive.fetch? = second.archive.fetch? := by
  funext id
  simp only [alike.firstCanonical.fetch?_eq, alike.secondCanonical.fetch?_eq, alike.histories]

theorem contains_eq : first.archive.contains = second.archive.contains :=
  alike.framed.contains_eq .eq

theorem readings_eq : first.readings = second.readings := by
  funext owner time
  rw [Graph.readings_eq alike.firstCanonical, Graph.readings_eq alike.secondCanonical,
    alike.framed.owned_eq, alike.histories]

theorem namedReading?_eq : first.namedReading? = second.namedReading? := by
  have reading : first.reading? = second.reading? := by
    funext time id
    simp only [reading?, alike.fetch?_eq]
  funext owner name time
  simp only [namedReading?, alike.framed.property?_eq .eq, reading]

theorem answer_eq (question : Question) : first.answer question = second.answer question := by
  have framed := alike.framed
  cases question with
  | vertices time => simp only [answer, verticesAt, framed.offset_eq, alike.vertices]
  | edges time => simp only [answer, edgesAt, framed.offset_eq, alike.edges]
  | outEdges vertex time =>
    simp only [answer, outEdgesAt, framed.offset_eq, framed.checkVertex_eq, alike.outgoing]
  | inEdges vertex time =>
    simp only [answer, inEdgesAt, framed.offset_eq, framed.checkVertex_eq, alike.incoming]
  | edgesBetween source target time => simp only [answer, framed.edgesBetweenAt_eq]
  | properties owner time =>
    simp only [answer, propertiesAt, framed.offset_eq, framed.check_eq, alike.readings_eq]
  | property owner name time =>
    simp only [answer, propertyAt, framed.offset_eq, framed.check_eq, alike.namedReading?_eq]
  | propertiesBetween source target time =>
    simp only [answer, propertiesBetweenAt, framed.edgesBetweenAt_eq, alike.readings_eq]
  | propertyBetween source target name time =>
    simp only [answer, propertyBetweenAt, framed.edgesBetweenAt_eq, alike.namedReading?_eq]

/-- Each of the graphs rewrites at most as many histories as the other. -/
theorem purge (time : Instant) :
    (first.purge time).1 = (second.purge time).1 ∧
      Alike (first.purge time).2 (second.purge time).2 := by
  rcases alike.framed.purge .eq time with ⟨atMost, after⟩
  rcases alike.symm.framed.purge .eq time with ⟨atLeast, _⟩
  refine ⟨?_, .of_framed after⟩
  generalize (first.purge time).1 = outcome at atMost atLeast ⊢
  generalize (second.purge time).1 = other at atMost atLeast ⊢
  cases atMost with
  | error fault => rfl
  | @ok stats otherStats fewer =>
    cases atLeast with
    | ok more =>
      rcases stats with ⟨vertices, edges, rewritten⟩
      rcases fewer with ⟨rfl, rfl, fewer⟩
      have same : rewritten = otherStats.rewritten := Nat.le_antisymm more.2.2 fewer
      rw [same]

/-- Graphs that are alike answer a request alike and are alike after it. -/
theorem respond (request : Request) :
    (first.respond request).1 = (second.respond request).1 ∧
      Alike (first.respond request).2 (second.respond request).2 := by
  cases request with
  | question question => exact ⟨alike.answer_eq question, alike⟩
  | change change =>
    cases change with
    | addVertex batch time =>
      rcases alike.framed.addVertex .eq batch time with ⟨same, after⟩
      exact ⟨congrArg (Answer.vertex <$> ·) same, .of_framed after⟩
    | addEdge source target batch time =>
      rcases alike.framed.addEdge .eq source target batch time with ⟨same, after⟩
      exact ⟨congrArg (Answer.edge <$> ·) same, .of_framed after⟩
    | write owner name value time =>
      rcases alike.framed.writeProperty .eq owner name value time with ⟨same, after⟩
      exact ⟨congrArg ((fun _ => Answer.done) <$> ·) same, .of_framed after⟩
    | purge time => exact (alike.purge time).imp_left (congrArg (Answer.purged <$> ·))

theorem run (requests : List Request) :
    (first.run requests).1 = (second.run requests).1 ∧
      Alike (first.run requests).2 (second.run requests).2 := by
  induction requests generalizing first second with
  | nil => exact ⟨rfl, alike⟩
  | cons request rest ih =>
    rcases alike.respond request with ⟨sameAnswer, alikeAfter⟩
    rcases ih alikeAfter with ⟨sameAnswers, alikeFinally⟩
    simp only [Graph.run, sameAnswer, sameAnswers]
    exact ⟨trivial, alikeFinally⟩

theorem ids_eq : first.archive.ids = second.archive.ids :=
  Table.keys_congr fun id => congrFun alike.contains_eq id

theorem propertyCount_eq : first.propertyCount = second.propertyCount :=
  alike.framed.propertyCount_eq .eq

end Alike

/-- The codec cannot be observed: from settings with one reference, every list of requests is
answered alike, and leads to graphs with the same counts and the same histories. -/
theorem run_codec_irrelevant (first second : Setting) (same : first.reference = second.reference)
    (requests : List Request) :
    ((empty first).run requests).1 = ((empty second).run requests).1 ∧
    ((empty first).run requests).2.setting.reference =
      ((empty second).run requests).2.setting.reference ∧
    ((empty first).run requests).2.vertexCount = ((empty second).run requests).2.vertexCount ∧
    ((empty first).run requests).2.edgeCount = ((empty second).run requests).2.edgeCount ∧
    ((empty first).run requests).2.propertyCount =
      ((empty second).run requests).2.propertyCount ∧
    ((empty first).run requests).2.archive.ids = ((empty second).run requests).2.archive.ids ∧
    ∀ id, ((empty first).run requests).2.archive.name? id =
        ((empty second).run requests).2.archive.name? id ∧
      ((empty first).run requests).2.archive.contains id =
        ((empty second).run requests).2.archive.contains id ∧
      ((empty first).run requests).2.archive.fetch? id =
        ((empty second).run requests).2.archive.fetch? id := by
  rcases (Alike.empty same).run requests with ⟨sameAnswers, alike⟩
  refine ⟨sameAnswers, alike.reference, ?_, ?_, alike.propertyCount_eq, alike.ids_eq,
    fun id => ⟨congrFun alike.name?_eq id, congrFun alike.contains_eq id,
      congrFun alike.fetch?_eq id⟩⟩
  · simp only [vertexCount, alike.vertexCounter]
  · simp only [edgeCount, alike.edgeCounter]

theorem run_codec_irrelevant_sample :
    ((empty ⟨⟨0⟩, .varint, 0⟩).run (sampleChanges.map .change ++
        [.question (.properties (.vertex ⟨0⟩) ⟨125⟩)])).1 =
      ((empty ⟨⟨0⟩, .deltaVarint, 16⟩).run (sampleChanges.map .change ++
        [.question (.properties (.vertex ⟨0⟩) ⟨125⟩)])).1 :=
  (run_codec_irrelevant ⟨⟨0⟩, .varint, 0⟩ ⟨⟨0⟩, .deltaVarint, 16⟩ rfl _).1

end Graph

end TimedGraph
