import TimedGraph.Graph.Mutation
import TimedGraph.Proofs.Archive
import TimedGraph.Proofs.Instant
import TimedGraph.Proofs.Outcome

/-!
# Batches

A batch passes its check exactly if it is admissible: no history is older than its owner or
has a stored number, and any two of them have the same name exactly if they have the same
number.

The check goes through the batch once and knows what it has seen by a roster, which keeps
for a name or a number only the last history.  That is enough as long as the histories
seen agree, because then all histories of a name have the number of the last one
(`Agreed.checkHistory_eq`).  That later histories are not compared with earlier ones is no
loss either, because agreement is symmetric.
-/

namespace TimedGraph

namespace Graph

variable {archive : Archive} {owner : Owner} {added : Instant} {batch earlier : List History}
  {history : History}

/-- Two histories have the same name exactly if they have the same number. -/
def Agree (first second : History) : Prop :=
  first.name = second.name ↔ first.id = second.id

/-- Any two histories of a list agree. -/
def Agreed (histories : List History) : Prop :=
  ∀ first ∈ histories, ∀ second ∈ histories, Agree first second

/-- What a batch has to satisfy to be attached to something added at an instant. -/
structure Admissible (archive : Archive) (added : Instant) (batch : List History) : Prop where
  younger : ∀ history ∈ batch, added ≤ history.created
  unstored : ∀ history ∈ batch, archive.contains history.id = false
  agree : ∀ first ∈ batch, ∀ second ∈ batch, Agree first second

/-- The roster of a list of histories. -/
def Roster.of (histories : List History) : Roster :=
  histories.foldl Roster.enter .empty

theorem Agree.symm {first second : History} (agree : Agree first second) : Agree second first := by
  simpa only [Agree, eq_comm] using agree

theorem Agree.refl (history : History) : Agree history history := by
  simp [Agree]

theorem Roster.of_concat (histories : List History) (history : History) :
    of (histories ++ [history]) = (of histories).enter history := by
  simp only [of, List.foldl_append, List.foldl_cons, List.foldl_nil]

theorem Roster.foldl_enter_eq (roster : Roster) (histories : List History) :
    histories.foldl enter roster =
      ⟨(histories.map fun history => (history.name, history.id)).reverse ++ roster.numbers,
        (histories.map fun history => (history.id, history.name)).reverse ++ roster.names⟩ := by
  induction histories generalizing roster with
  | nil => rfl
  | cons history rest ih =>
    rw [List.foldl_cons, ih]
    simp only [enter, List.map_cons, List.reverse_cons, List.append_assoc, List.singleton_append]

/-- If the keys determine the values, then the last value of a key stands for all of them. -/
theorem any_lookup_reverse_iff {κ ν : Type} [DecidableEq κ] [DecidableEq ν] (key : History → κ)
    (value : History → ν) {histories : List History}
    (determined : ∀ first ∈ histories, ∀ second ∈ histories,
      key first = key second → value first = value second) (wanted : κ) (expected : ν) :
    (((histories.map fun history => (key history, value history)).reverse.lookup wanted).any
        (· ≠ expected)) = true ↔
      ∃ other ∈ histories, key other = wanted ∧ value other ≠ expected := by
  cases found : (histories.map fun history => (key history, value history)).reverse.lookup
      wanted with
  | none =>
    have missing : ∀ other ∈ histories, key other ≠ wanted := by
      intro other mem same
      have absent := List.lookup_eq_none_iff.mp found (key other, value other)
        (List.mem_reverse.mpr (List.mem_map_of_mem mem))
      simp [same] at absent
    simp only [Option.any_none, Bool.false_eq_true, false_iff, not_exists, not_and]
    intro other mem same
    exact absurd same (missing other mem)
  | some last =>
    rcases List.lookup_eq_some_iff.mp found with ⟨later, before, all, _⟩
    have lastMem : (wanted, last) ∈ histories.map fun history => (key history, value history) := by
      apply List.mem_reverse.mp
      rw [all]
      exact List.mem_append_right _ (.head _)
    rcases List.mem_map.mp lastMem with ⟨history, mem, isLast⟩
    rcases Prod.mk.inj isLast with ⟨sameKey, sameValue⟩
    simp only [Option.any_some, decide_eq_true_eq]
    constructor
    · intro different
      exact ⟨history, mem, sameKey, sameValue ▸ different⟩
    · rintro ⟨other, otherMem, otherKey, different⟩
      rw [← sameValue, determined history mem other otherMem (sameKey.trans otherKey.symm)]
      exact different

/-- Against the roster of histories that agree, the check is one against each of them. -/
theorem Agreed.checkHistory_eq (agreed : Agreed earlier) (history : History) :
    checkHistory archive owner added (.of earlier) history =
      if history.created < added then
        .error (.propertyOrdering (.olderThanOwner history.name history.created owner.kind added))
      else if archive.contains history.id then .error (.propertyIdInUse history.id)
      else if ∃ other ∈ earlier, other.name = history.name ∧ other.id ≠ history.id then
        .error (.duplicateProperty history.name owner)
      else if ∃ other ∈ earlier, other.id = history.id ∧ other.name ≠ history.name then
        .error (.propertyIdInUse history.id)
      else .ok () := by
  have sameName := any_lookup_reverse_iff History.name History.id
    (fun first firstMem second secondMem => (agreed first firstMem second secondMem).mp)
    history.name history.id
  have sameNumber := any_lookup_reverse_iff History.id History.name
    (fun first firstMem second secondMem => (agreed first firstMem second secondMem).mpr)
    history.id history.name
  simp only [checkHistory, Roster.of, Roster.foldl_enter_eq, Roster.empty, List.append_nil,
    sameName, sameNumber]

theorem Admissible.history?_eq_none (admissible : Admissible archive added batch)
    (canonical : archive.Canonical) (mem : history ∈ batch) :
    archive.history? history.id = none := by
  simpa [canonical.contains_eq] using admissible.unstored history mem

theorem Admissible.nil : Admissible archive added [] := by
  constructor <;> simp

theorem Admissible.of_append {later : List History}
    (admissible : Admissible archive added (earlier ++ later)) :
    Admissible archive added earlier where
  younger history mem := admissible.younger history (List.mem_append_left _ mem)
  unstored history mem := admissible.unstored history (List.mem_append_left _ mem)
  agree first firstMem second secondMem :=
    admissible.agree first (List.mem_append_left _ firstMem) second
      (List.mem_append_left _ secondMem)

theorem Admissible.concat_iff (admissible : Admissible archive added earlier) :
    Admissible archive added (earlier ++ [history]) ↔
      added ≤ history.created ∧ archive.contains history.id = false ∧
        ∀ other ∈ earlier, Agree other history := by
  constructor
  · intro longer
    have last : history ∈ earlier ++ [history] := List.mem_append_right _ (.head _)
    exact ⟨longer.younger history last, longer.unstored history last, fun other mem =>
      longer.agree other (List.mem_append_left _ mem) history last⟩
  · rintro ⟨younger, unstored, agree⟩
    constructor
    · intro other mem
      rcases List.mem_append.mp mem with old | new
      · exact admissible.younger other old
      · rwa [List.mem_singleton.mp new]
    · intro other mem
      rcases List.mem_append.mp mem with old | new
      · exact admissible.unstored other old
      · rwa [List.mem_singleton.mp new]
    · intro first firstMem second secondMem
      rcases List.mem_append.mp firstMem with firstOld | firstNew
      · rcases List.mem_append.mp secondMem with secondOld | secondNew
        · exact admissible.agree first firstOld second secondOld
        · rw [List.mem_singleton.mp secondNew]
          exact agree first firstOld
      · rw [List.mem_singleton.mp firstNew]
        rcases List.mem_append.mp secondMem with secondOld | secondNew
        · exact (agree second secondOld).symm
        · rw [List.mem_singleton.mp secondNew]
          exact .refl history

/-- A history passes its check exactly if the batch stays admissible with it. -/
theorem Admissible.checkHistory_eq_ok_iff (admissible : Admissible archive added earlier) :
    checkHistory archive owner added (.of earlier) history = .ok () ↔
      Admissible archive added (earlier ++ [history]) := by
  have agreement : (∀ other ∈ earlier, Agree other history) ↔
      ¬(∃ other ∈ earlier, other.name = history.name ∧ other.id ≠ history.id) ∧
        ¬∃ other ∈ earlier, other.id = history.id ∧ other.name ≠ history.name := by
    simp only [not_exists, ← forall_and, Agree]
    apply forall_congr'
    intro other
    grind
  rw [admissible.concat_iff, agreement, Agreed.checkHistory_eq admissible.agree,
    ← Instant.not_lt]
  by_cases older : history.created < added
  · simp [older]
  by_cases stored : archive.contains history.id = true
  · simp [older, stored]
  by_cases sharedName : ∃ other ∈ earlier, other.name = history.name ∧ other.id ≠ history.id
  · simp only [older, stored, sharedName, not_true, false_and, and_false, if_true, if_false,
      reduceCtorEq]
  by_cases sharedNumber : ∃ other ∈ earlier, other.id = history.id ∧ other.name ≠ history.name
  · simp only [older, stored, sharedName, sharedNumber, not_true, and_false, if_true, if_false,
      reduceCtorEq]
  · have unstored : archive.contains history.id = false := eq_false_of_ne_true stored
    simp only [older, unstored, sharedName, sharedNumber, Bool.false_eq_true, not_false_eq_true,
      and_self, if_false]

theorem checkBatchFrom_cons_eq_ok_iff {roster : Roster} {rest : List History} :
    checkBatchFrom archive owner added roster (history :: rest) = .ok () ↔
      checkHistory archive owner added roster history = .ok () ∧
        checkBatchFrom archive owner added (roster.enter history) rest = .ok () := by
  simp only [checkBatchFrom, bind_eq_ok]
  constructor
  · rintro ⟨⟨⟩, first, others⟩
    exact ⟨first, others⟩
  · rintro ⟨first, others⟩
    exact ⟨(), first, others⟩

/-- The rest of a batch passes its check exactly if the whole batch is admissible. -/
theorem Admissible.checkBatchFrom_eq_ok_iff (admissible : Admissible archive added earlier) :
    checkBatchFrom archive owner added (.of earlier) batch = .ok () ↔
      Admissible archive added (earlier ++ batch) := by
  induction batch generalizing earlier with
  | nil => simpa [checkBatchFrom] using admissible
  | cons history rest ih =>
    have regroup : earlier ++ history :: rest = (earlier ++ [history]) ++ rest := by simp
    rw [checkBatchFrom_cons_eq_ok_iff, admissible.checkHistory_eq_ok_iff, regroup,
      ← Roster.of_concat]
    constructor
    · rintro ⟨longer, others⟩
      exact (ih longer).mp others
    · intro whole
      exact ⟨whole.of_append, (ih whole.of_append).mpr whole⟩

/-- A batch passes its check exactly if it is admissible. -/
theorem checkBatch_eq_ok_iff :
    checkBatch archive owner added batch = .ok () ↔ Admissible archive added batch :=
  Admissible.nil.checkBatchFrom_eq_ok_iff

end Graph

end TimedGraph
