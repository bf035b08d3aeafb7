import TimedGraph.Proofs.Graph.Journal
import TimedGraph.Proofs.Graph.Step

/-!
# Runs step by step

Along a run the setting stays, and the archive stays canonical with the codec of the
setting.  Every change of a run is therefore one of the listed steps, and what holds at
the start and is kept by the steps holds of every recorded graph (`Recorded.induct`).
-/

namespace TimedGraph.Graph

variable {Allowed : Change → Prop} {setting : Setting} {graph changed : Graph}
  {journal : Journal} {change : Change}
  {outcome : Except Fault Answer}

theorem Step.setting_eq (step : graph.Step change outcome changed) :
    changed.setting = graph.setting := by
  cases step <;> rfl

theorem Step.codec_eq (canonical : graph.archive.Canonical)
    (step : graph.Step change outcome changed) : changed.archive.codec = graph.archive.codec := by
  cases step with
  | refused _ _ => rfl
  | vertex _ _ _ => exact Archive.codec_storeAll graph.archive _
  | edge _ _ _ _ _ => exact Archive.codec_storeAll graph.archive _
  | write _ _ _ _ _ => rfl
  | purge _ run =>
    rcases canonical.purgedTo run with ⟨_, _, purgedTo⟩
    exact purgedTo.codec_eq

theorem Step.canonical (canonical : graph.archive.Canonical)
    (step : graph.Step change outcome changed) : changed.archive.Canonical := by
  cases step with
  | refused _ _ => exact canonical
  | vertex _ _ _ => exact canonical.storeAll _
  | edge _ _ _ _ _ => exact canonical.storeAll _
  | write _ _ _ _ _ => exact canonical.store _
  | purge _ run =>
    rcases canonical.purgedTo run with ⟨_, _, purgedTo⟩
    exact purgedTo.canonical

namespace Recorded

theorem canonical (recorded : Recorded Allowed setting graph journal) :
    graph.archive.Canonical := by
  induction recorded with
  | start => exact .empty setting.codec
  | step _ change _ canonical => exact (carryOut_step canonical change).canonical canonical

/-- What holds at the start and is kept by every step holds along a run. -/
theorem induct {motive : Graph → Journal → Prop} (start : motive (.empty setting) .empty)
    (step : ∀ {graph changed : Graph} {journal : Journal} {change : Change}
      {outcome : Except Fault Answer}, Recorded Allowed setting graph journal → Allowed change →
      graph.Step change outcome changed → motive graph journal →
      motive changed (journal.note change outcome))
    (recorded : Recorded Allowed setting graph journal) : motive graph journal := by
  induction recorded with
  | start => exact start
  | step before change allowed held =>
    exact step before allowed (carryOut_step before.canonical change) held

theorem setting_eq (recorded : Recorded Allowed setting graph journal) :
    graph.setting = setting := by
  refine recorded.induct (motive := fun graph _ => graph.setting = setting) rfl ?_
  intro _ _ _ _ _ _ _ step same
  simp only [step.setting_eq, same]

theorem codec_eq (recorded : Recorded Allowed setting graph journal) :
    graph.archive.codec = setting.codec := by
  refine recorded.induct (motive := fun graph _ => graph.archive.codec = setting.codec) rfl ?_
  intro _ _ _ _ _ before _ step same
  simp only [step.codec_eq before.canonical, same]

theorem after (recorded : Recorded Allowed setting graph journal) (changes : List Change)
    (allowed : ∀ change ∈ changes, Allowed change) :
    Recorded Allowed setting (graph.after changes) (journal.follow graph changes) := by
  induction changes generalizing graph journal with
  | nil => exact recorded
  | cons change rest ih =>
    exact ih (recorded.step change (allowed change (.head _)))
      fun other mem => allowed other (.tail _ mem)

end Recorded

section Sample

/-- A history with two values, of which the second is negative. -/
def sampleHistory : History :=
  ⟨⟨7⟩, "load", ⟨100⟩, some ⟨120⟩, [⟨0, .int32 3⟩, ⟨20, .int32 (-4)⟩]⟩

theorem sampleHistory_obtainable : sampleHistory.Obtainable := by
  have made : History.create ⟨7⟩ "load" ⟨100⟩ = .ok ⟨⟨7⟩, "load", ⟨100⟩, none, []⟩ := rfl
  exact .write ⟨120⟩ (.int32 (-4)) (.write ⟨100⟩ (.int32 3) (.create made))

/-- A run that goes back in time, is refused once, and purges what it has re-encoded. -/
def sampleChanges : List Change :=
  [.addVertex [sampleHistory] ⟨100⟩, .addVertex [] ⟨50⟩, .addEdge ⟨0⟩ ⟨1⟩ [] ⟨70⟩,
    .addEdge ⟨5⟩ ⟨1⟩ [] ⟨70⟩, .addEdge ⟨1⟩ ⟨1⟩ [] ⟨60⟩,
    .write (.vertex ⟨0⟩) "load" (.int32 9) ⟨130⟩, .purge ⟨110⟩]

def sampleGraph : Graph :=
  (empty (.ofReference ⟨0⟩)).after sampleChanges

def sampleJournal : Journal :=
  Journal.empty.follow (empty (.ofReference ⟨0⟩)) sampleChanges

theorem sampleChanges_obtainable : ∀ change ∈ sampleChanges, change.Obtainable := by
  intro change mem
  simp only [sampleChanges, List.mem_cons, List.not_mem_nil, or_false] at mem
  rcases mem with rfl | rfl | rfl | rfl | rfl | rfl | rfl
  · simpa [Change.Obtainable] using sampleHistory_obtainable
  all_goals simp [Change.Obtainable]

theorem sample_recorded :
    Recorded Change.Obtainable (.ofReference ⟨0⟩) sampleGraph sampleJournal :=
  Recorded.start.after sampleChanges sampleChanges_obtainable

end Sample

end TimedGraph.Graph
