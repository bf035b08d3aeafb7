import TimedGraph.Proofs.Graph.Run

/-!
# Refused changes leave no trace

Most changes are refused before they write anything.  A purge is the exception: it stores
histories one after the other, and would stop half way at a record that cannot be read.  A
canonical archive has no such record, so a graph that was reached by changes is after a
refused change what it was before, and a run may leave its refused changes out.
-/

namespace TimedGraph.Graph

variable {Allowed : Change → Prop} {setting : Setting} {graph changed : Graph} {journal : Journal}

/-- The changes of a list that are not refused when they are carried out one after the other. -/
def accepted (graph : Graph) : List Change → List Change
  | [] => []
  | change :: rest =>
    match graph.carryOut change with
    | (.ok _, changed) => change :: changed.accepted rest
    | (.error _, changed) => changed.accepted rest

theorem Step.eq_of_error {change : Change} {fault : Fault}
    (step : graph.Step change (.error fault) changed) : changed = graph := by
  cases step
  rfl

theorem after_accepted (canonical : graph.archive.Canonical) (changes : List Change) :
    graph.after (graph.accepted changes) = graph.after changes := by
  induction changes generalizing graph with
  | nil => rfl
  | cons change rest ih =>
    have step := carryOut_step canonical change
    have later := ih (step.canonical canonical)
    rcases carried : graph.carryOut change with ⟨outcome, changed⟩
    simp only [carried] at step later
    cases outcome with
    | error fault =>
      have same := step.eq_of_error
      subst same
      simp only [after, accepted, carried, List.foldl_cons] at later ⊢
      exact later
    | ok answer =>
      simp only [after, accepted, carried, List.foldl_cons] at later ⊢
      exact later

/-- A change that fails leaves the whole graph as it was, and a run leads to the same graph
without the changes that fail. -/
theorem Recorded.failure_atomic (recorded : Recorded Allowed setting graph journal) :
    (∀ change fault, (graph.carryOut change).1 = .error fault →
      (graph.carryOut change).2 = graph) ∧
    ∀ changes, graph.after (graph.accepted changes) = graph.after changes := by
  have canonical := recorded.canonical
  constructor
  · intro change fault failed
    have step := carryOut_step canonical change
    rw [failed] at step
    exact step.eq_of_error
  · intro changes
    exact after_accepted canonical changes

/-- The first history of the batch would pass; the number of the second is taken. -/
theorem failure_atomic_sample :
    ∃ fault,
      (sampleGraph.carryOut (.addVertex [⟨⟨8⟩, "cost", ⟨200⟩, none, []⟩, sampleHistory] ⟨90⟩)).1 =
        .error fault ∧
      (sampleGraph.carryOut
        (.addVertex [⟨⟨8⟩, "cost", ⟨200⟩, none, []⟩, sampleHistory] ⟨90⟩)).2 = sampleGraph := by
  have refused : (sampleGraph.carryOut
      (.addVertex [⟨⟨8⟩, "cost", ⟨200⟩, none, []⟩, sampleHistory] ⟨90⟩)).1.toOption = none := by
    decide +kernel
  cases failed : (sampleGraph.carryOut
      (.addVertex [⟨⟨8⟩, "cost", ⟨200⟩, none, []⟩, sampleHistory] ⟨90⟩)).1 with
  | ok answer => simp [failed, Except.toOption] at refused
  | error fault => exact ⟨fault, rfl, sample_recorded.failure_atomic.1 _ fault failed⟩

end TimedGraph.Graph
