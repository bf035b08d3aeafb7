import Mathlib.Data.List.Induction
import TimedGraph.Proofs.Graph.Topology

/-!
# Who owns what

Ownership and storage belong together: what is owned is stored, what is stored has exactly
one owner, an owner's properties have different names, and no history is older than its
owner.  `Holdings` says this of an ownership, a map of histories and a record of when
owners were added, so that it can be kept up for each of the ways in which these change: a
batch comes with a new owner (`Holdings.attach`), and a write or a purge replaces histories
by others of the same name and creation (`Holdings.replace`).

The uniqueness of names rests on the batch alone, because a batch comes only with an owner
that has nothing yet; the uniqueness of owners rests on the archive, because a batch
brings no number that is stored.
-/

namespace TimedGraph

/-- How ownership and storage belong together. -/
structure Holdings (owned : Owner → List PropertyId) (history? : PropertyId → Option History)
    (Added : Owner → Instant → Prop) : Prop where
  sound : ∀ {id history}, history? id = some history → history.Sound
  stored : ∀ {owner id}, id ∈ owned owner → ∃ history, history? id = some history
  owner : ∀ {id history}, history? id = some history → ∃ owner, id ∈ owned owner
  unique : ∀ {id first second}, id ∈ owned first → id ∈ owned second → first = second
  nodup : ∀ owner, (owned owner).Nodup
  /-- The properties of one owner are told apart by their names. -/
  named : ∀ {owner first second firstHistory secondHistory}, first ∈ owned owner →
    second ∈ owned owner → history? first = some firstHistory →
    history? second = some secondHistory → firstHistory.name = secondHistory.name →
    first = second
  younger : ∀ {owner id history}, id ∈ owned owner → history? id = some history →
    ∃ time, Added owner time ∧ time ≤ history.created

/-- Without repetitions, the members of a list stand in the order of their first occurrence. -/
theorem pairwise_idxOf_eraseDups {α : Type} [DecidableEq α] (list : List α) :
    list.eraseDups.Pairwise fun first second => list.idxOf first < list.idxOf second := by
  induction list using List.reverseRecOn with
  | nil => simp
  | append_singleton list last ih =>
    have before {member : α} (mem : member ∈ list) :
        (list ++ [last]).idxOf member = list.idxOf member := by
      rw [List.idxOf_append, if_pos mem]
    have old : list.eraseDups.Pairwise fun first second =>
        (list ++ [last]).idxOf first < (list ++ [last]).idxOf second := by
      apply ih.imp_of_mem
      intro first second firstMem secondMem inOrder
      rwa [before (List.mem_eraseDups.mp firstMem), before (List.mem_eraseDups.mp secondMem)]
    rw [List.eraseDups_append]
    by_cases again : last ∈ list
    · simpa [List.removeAll, again] using old
    · have new : ([last].removeAll list).eraseDups = [last] := by
        simp [List.removeAll, again, List.eraseDups_cons]
      rw [new]
      refine List.pairwise_append.mpr ⟨old, by simp, ?_⟩
      intro first firstMem second secondMem
      have firstOld := List.mem_eraseDups.mp firstMem
      rw [List.mem_singleton.mp secondMem, before firstOld, List.idxOf_append, if_neg again]
      have := List.idxOf_lt_length_of_mem firstOld
      omega

theorem nodup_eraseDups {α : Type} [DecidableEq α] (list : List α) : list.eraseDups.Nodup := by
  apply (pairwise_idxOf_eraseDups list).imp
  rintro first _ inOrder rfl
  exact Nat.lt_irrefl _ inOrder

theorem Graph.mem_batchIds {batch : List History} {id : PropertyId} :
    id ∈ batchIds batch ↔ id ∈ batch.map History.id :=
  List.mem_eraseDups

/-- A batch goes to an owner that has nothing yet and is stored beside the histories there. -/
structure Attaching (owned changed : Owner → List PropertyId)
    (history? changedHistory? : PropertyId → Option History) (owner : Owner)
    (batch : List History) : Prop where
  fresh : owned owner = []
  unstored : ∀ history ∈ batch, history? history.id = none
  ownership : ∀ other, changed other =
    if other = owner then Graph.batchIds batch else owned other
  storage : ∀ id, changedHistory? id = (History.lastOf batch id).or (history? id)

section

variable {owned changed : Owner → List PropertyId}
  {history? changedHistory? : PropertyId → Option History}
  {Added ChangedAdded : Owner → Instant → Prop} {owner other : Owner} {batch : List History}
  {id : PropertyId} {history : History}

namespace Attaching

variable (attaching : Attaching owned changed history? changedHistory? owner batch)

include attaching

theorem mem_cases (mem : id ∈ changed other) :
    (other = owner ∧ id ∈ Graph.batchIds batch) ∨ (other ≠ owner ∧ id ∈ owned other) := by
  simp only [attaching.ownership] at mem
  split at mem
  · exact .inl ⟨‹_›, mem⟩
  · exact .inr ⟨‹_›, mem⟩

theorem mem_of_batch (mem : history ∈ batch) : history.id ∈ changed owner := by
  rw [attaching.ownership, if_pos rfl]
  exact Graph.mem_batchIds.mpr (List.mem_map_of_mem mem)

theorem mem_of_owned (mem : id ∈ owned other) : id ∈ changed other := by
  have notOwner : other ≠ owner := fun same => by simp [same, attaching.fresh] at mem
  rwa [attaching.ownership, if_neg notOwner]

theorem found_cases (found : changedHistory? id = some history) :
    (history ∈ batch ∧ history.id = id) ∨ history? id = some history := by
  simp only [attaching.storage, Option.or_eq_some_iff] at found
  rcases found with new | ⟨_, old⟩
  · exact .inl (History.lastOf_eq_some new)
  · exact .inr old

theorem brought (mem : id ∈ Graph.batchIds batch) :
    ∃ history ∈ batch, history.id = id ∧ changedHistory? id = some history := by
  rcases History.exists_lastOf (Graph.mem_batchIds.mp mem) with ⟨history, last⟩
  rcases History.lastOf_eq_some last with ⟨historyMem, sameId⟩
  exact ⟨history, historyMem, sameId, by rw [attaching.storage, last, Option.some_or]⟩

/-- What is found under an id of the batch is a member of the batch. -/
theorem mem_batch (mem : id ∈ Graph.batchIds batch) (found : changedHistory? id = some history) :
    history ∈ batch ∧ history.id = id := by
  rcases attaching.brought mem with ⟨other, otherMem, sameId, isOther⟩
  rw [← Option.some.inj (isOther.symm.trans found)]
  exact ⟨otherMem, sameId⟩

theorem not_batchIds (found : history? id = some history) : id ∉ Graph.batchIds batch := by
  rw [Graph.mem_batchIds, ← History.lastOf_eq_none_iff]
  exact History.lastOf_eq_none attaching.unstored found

theorem kept (found : history? id = some history) : changedHistory? id = some history := by
  have notNew := History.lastOf_eq_none attaching.unstored found
  simp only [attaching.storage, notNew, Option.none_or, found]

end Attaching

namespace Holdings

theorem start (Added : Owner → Instant → Prop) : Holdings (fun _ => []) (fun _ => none) Added := by
  constructor <;> simp

theorem kept (holdings : Holdings owned history? Added)
    (attaching : Attaching owned changed history? changedHistory? owner batch)
    (mem : id ∈ owned other) (found : changedHistory? id = some history) :
    history? id = some history := by
  rcases holdings.stored mem with ⟨before, foundBefore⟩
  have same : before = history :=
    Option.some.inj ((attaching.kept foundBefore).symm.trans found)
  subst same
  exact foundBefore

theorem attach (holdings : Holdings owned history? Added)
    (attaching : Attaching owned changed history? changedHistory? owner batch)
    (sound : ∀ history ∈ batch, history.Sound)
    (agree : ∀ first ∈ batch, ∀ second ∈ batch, Graph.Agree first second) {time : Instant}
    (younger : ∀ history ∈ batch, time ≤ history.created) (added : ChangedAdded owner time)
    (addedBefore : ∀ {other instant}, Added other instant → ChangedAdded other instant) :
    Holdings changed changedHistory? ChangedAdded where
  sound {id history} found := by
    rcases attaching.found_cases found with ⟨new, _⟩ | old
    · exact sound history new
    · exact holdings.sound old
  stored {other id} mem := by
    rcases attaching.mem_cases mem with ⟨_, new⟩ | ⟨_, old⟩
    · rcases attaching.brought new with ⟨history, _, _, found⟩
      exact ⟨history, found⟩
    · rcases holdings.stored old with ⟨history, found⟩
      exact ⟨history, attaching.kept found⟩
  owner {id history} found := by
    rcases attaching.found_cases found with ⟨new, rfl⟩ | old
    · exact ⟨owner, attaching.mem_of_batch new⟩
    · rcases holdings.owner old with ⟨other, mem⟩
      exact ⟨other, attaching.mem_of_owned mem⟩
  unique {id first second} firstMem secondMem := by
    have notBoth {other : Owner} (new : id ∈ Graph.batchIds batch) (old : id ∈ owned other) :
        False := by
      rcases holdings.stored old with ⟨_, found⟩
      exact attaching.not_batchIds found new
    rcases attaching.mem_cases firstMem with ⟨rfl, firstNew⟩ | ⟨_, firstOld⟩
    · rcases attaching.mem_cases secondMem with ⟨rfl, _⟩ | ⟨_, secondOld⟩
      · rfl
      · exact (notBoth firstNew secondOld).elim
    · rcases attaching.mem_cases secondMem with ⟨rfl, secondNew⟩ | ⟨_, secondOld⟩
      · exact (notBoth secondNew firstOld).elim
      · exact holdings.unique firstOld secondOld
  nodup other := by
    simp only [attaching.ownership]
    split
    · exact nodup_eraseDups _
    · exact holdings.nodup other
  named {other first second firstHistory secondHistory} firstMem secondMem firstFound secondFound
      sameName := by
    rcases attaching.mem_cases firstMem with ⟨isOwner, firstNew⟩ | ⟨notOwner, firstOld⟩
    · rcases attaching.mem_cases secondMem with ⟨_, secondNew⟩ | ⟨notOwner, _⟩
      · rcases attaching.mem_batch firstNew firstFound with ⟨firstOf, firstId⟩
        rcases attaching.mem_batch secondNew secondFound with ⟨secondOf, secondId⟩
        rw [← firstId, ← secondId]
        exact (agree firstHistory firstOf secondHistory secondOf).mp sameName
      · exact absurd isOwner notOwner
    · rcases attaching.mem_cases secondMem with ⟨isOwner, _⟩ | ⟨_, secondOld⟩
      · exact absurd isOwner notOwner
      · exact holdings.named firstOld secondOld (holdings.kept attaching firstOld firstFound)
          (holdings.kept attaching secondOld secondFound) sameName
  younger {other id history} mem found := by
    rcases attaching.mem_cases mem with ⟨rfl, new⟩ | ⟨_, old⟩
    · exact ⟨time, added, younger history (attaching.mem_batch new found).1⟩
    · rcases holdings.younger old (holdings.kept attaching old found) with
        ⟨instant, addedAt, notOlder⟩
      exact ⟨instant, addedBefore addedAt, notOlder⟩

/-- Histories are replaced by others of the same name and creation. -/
theorem replace (holdings : Holdings owned history? Added)
    (sound : ∀ {id history}, changedHistory? id = some history → history.Sound)
    (stored : ∀ {id history}, history? id = some history →
      ∃ other, changedHistory? id = some other)
    (same : ∀ {id other}, changedHistory? id = some other →
      ∃ history, history? id = some history ∧ other.name = history.name ∧
        other.created = history.created) : Holdings owned changedHistory? Added where
  sound := sound
  stored mem := by
    rcases holdings.stored mem with ⟨history, found⟩
    exact stored found
  owner found := by
    rcases same found with ⟨history, before, _⟩
    exact holdings.owner before
  unique := holdings.unique
  nodup := holdings.nodup
  named firstMem secondMem firstFound secondFound sameName := by
    rcases same firstFound with ⟨_, firstBefore, firstName, _⟩
    rcases same secondFound with ⟨_, secondBefore, secondName, _⟩
    exact holdings.named firstMem secondMem firstBefore secondBefore
      (firstName.symm.trans (sameName.trans secondName))
  younger mem found := by
    rcases same found with ⟨_, before, _, sameCreated⟩
    simp only [sameCreated]
    exact holdings.younger mem before

end Holdings

end

end TimedGraph
