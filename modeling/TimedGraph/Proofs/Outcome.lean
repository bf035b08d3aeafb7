/-!
# Outcomes of composed steps

When a composition of two steps succeeds and when it fails, for steps that may fail.
-/

namespace TimedGraph

variable {ε α β : Type} {outcome : Except ε α} {fault : ε}

theorem bind_eq_ok {next : α → Except ε β} {result : β} :
    (outcome >>= next) = .ok result ↔ ∃ found, outcome = .ok found ∧ next found = .ok result := by
  cases outcome with
  | error fault => simp [bind, Except.bind]
  | ok found => simp [bind, Except.bind]

theorem bind_eq_error {next : α → Except ε β} :
    (outcome >>= next) = .error fault ↔
      outcome = .error fault ∨ ∃ found, outcome = .ok found ∧ next found = .error fault := by
  cases outcome with
  | error fault => simp [bind, Except.bind]
  | ok found => simp [bind, Except.bind]

theorem map_eq_ok {change : α → β} {result : β} :
    (change <$> outcome) = .ok result ↔ ∃ found, outcome = .ok found ∧ change found = result := by
  cases outcome with
  | error fault => simp [Functor.map, Except.map]
  | ok found => simp [Functor.map, Except.map]

theorem map_eq_error {change : α → β} :
    (change <$> outcome) = .error fault ↔ outcome = .error fault := by
  cases outcome with
  | error fault => simp [Functor.map, Except.map]
  | ok found => simp [Functor.map, Except.map]

theorem exists_map_eq_ok_iff {check : Except ε Unit} {answer : β} :
    (∃ result, (fun _ => answer) <$> check = .ok result) ↔ check = .ok () := by
  simp only [map_eq_ok]
  constructor
  · rintro ⟨_, ⟨⟩, passed, _⟩
    exact passed
  · intro passed
    exact ⟨answer, (), passed, rfl⟩

theorem forM_eq_ok_iff {check : α → Except ε Unit} {items : List α} :
    forM items check = .ok () ↔ ∀ item ∈ items, check item = .ok () := by
  induction items with
  | nil => simp [pure, Except.pure]
  | cons item rest ih =>
    rw [List.forM_cons, bind_eq_ok, List.forall_mem_cons]
    constructor
    · rintro ⟨⟨⟩, first, others⟩
      exact ⟨first, ih.mp others⟩
    · rintro ⟨first, others⟩
      exact ⟨(), first, ih.mpr others⟩

/-- A check of several items fails for the first of them that fails. -/
theorem forM_eq_error_iff {check : α → Except ε Unit} {items : List α} :
    forM items check = .error fault ↔ ∃ before item after, items = before ++ item :: after ∧
      (∀ other ∈ before, check other = .ok ()) ∧ check item = .error fault := by
  induction items with
  | nil => simp [pure, Except.pure]
  | cons head rest ih =>
    rw [List.forM_cons, bind_eq_error, ih]
    constructor
    · rintro (failed | ⟨⟨⟩, passed, before, item, after, rfl, others, failed⟩)
      · exact ⟨[], head, rest, rfl, by simp, failed⟩
      · exact ⟨head :: before, item, after, rfl, List.forall_mem_cons.mpr ⟨passed, others⟩, failed⟩
    · rintro ⟨before, item, after, split, others, failed⟩
      cases before with
      | nil =>
        rcases List.cons.inj split with ⟨rfl, rfl⟩
        exact .inl failed
      | cons first before =>
        rcases List.cons.inj split with ⟨rfl, rfl⟩
        rcases List.forall_mem_cons.mp others with ⟨passed, others⟩
        exact .inr ⟨(), passed, before, item, after, rfl, others, failed⟩

end TimedGraph
