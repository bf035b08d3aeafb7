import TimedGraph.Proofs.Archive

/-!
# Archives with related histories

A relation of histories that writes and purges keep (`History.Compatible`) lifts to archives:
two archives match if they have histories under the same numbers and these are related.
Storing and purging keep a match.  Whether a history is shortened by a purge may differ, but
only in one direction, so the second archive rewrites at most as many as the first.
-/

namespace TimedGraph

/-- A relation of histories that holds between equals and is kept by all that can be done to a
history.  The second history refuses what the first refuses, and loses values to a purge only
where the first does. -/
structure History.Compatible (Related : History → History → Prop) : Prop where
  refl : ∀ history, Related history history
  name_eq : ∀ {first second}, Related first second → first.name = second.name
  write : ∀ {first second}, Related first second → ∀ time value,
    (first.write time value).1 = (second.write time value).1 ∧
      Related (first.write time value).2 (second.write time value).2
  purge : ∀ {first second}, Related first second → ∀ time,
    ((second.purge time).1 = true → (first.purge time).1 = true) ∧
      Related (first.purge time).2 (second.purge time).2

theorem History.Compatible.eq : Compatible (· = ·) where
  refl _ := rfl
  name_eq same := congrArg name same
  write same time value := by
    subst same
    exact ⟨rfl, rfl⟩
  purge same time := by
    subst same
    exact ⟨fun loses => loses, rfl⟩

namespace Archive

variable {Related : History → History → Prop} {first second : Archive}

/-- Canonical archives have related histories under the same numbers. -/
structure Matched (Related : History → History → Prop) (first second : Archive) : Prop where
  firstCanonical : first.Canonical
  secondCanonical : second.Canonical
  histories : ∀ id, Option.Rel Related (first.history? id) (second.history? id)

namespace Matched

variable (matched : Matched Related first second)

include matched

theorem found_cases (id : PropertyId) :
    (first.history? id = none ∧ second.history? id = none) ∨
      ∃ history other, first.history? id = some history ∧ second.history? id = some other ∧
        Related history other := by
  have both := matched.histories id
  generalize first.history? id = found at both ⊢
  generalize second.history? id = isOther at both ⊢
  cases both with
  | none => exact .inl ⟨rfl, rfl⟩
  | some related => exact .inr ⟨_, _, rfl, rfl, related⟩

theorem store {history other : History} (related : Related history other)
    (sameId : history.id = other.id) :
    Matched Related (first.store history) (second.store other) where
  firstCanonical := matched.firstCanonical.store history
  secondCanonical := matched.secondCanonical.store other
  histories id := by
    rw [history?_store, history?_store, sameId]
    split
    · exact .some related
    · exact matched.histories id

variable (compatible : History.Compatible Related)

include compatible

theorem name?_eq : first.name? = second.name? := by
  funext id
  rw [matched.firstCanonical.name?_eq, matched.secondCanonical.name?_eq]
  rcases matched.found_cases id with
    ⟨absent, otherAbsent⟩ | ⟨history, other, found, isOther, related⟩
  · rw [absent, otherAbsent]
  · rw [found, isOther, Option.map_some, Option.map_some, compatible.name_eq related]

theorem storeAll (batch : List History) :
    Matched Related (batch.foldl Archive.store first) (batch.foldl Archive.store second) := by
  induction batch generalizing first second with
  | nil => exact matched
  | cons history rest ih => exact ih (matched.store (compatible.refl history) rfl)

theorem purge (time : Instant) (ids : List PropertyId) :
    ∃ count fewer firstPurged secondPurged, first.purge time ids = (.ok count, firstPurged) ∧
      second.purge time ids = (.ok fewer, secondPurged) ∧ fewer ≤ count ∧
      Matched Related firstPurged secondPurged := by
  rcases matched.firstCanonical.purge time ids with ⟨firstPurged, firstIds, firstRun, firstTo⟩
  rcases matched.secondCanonical.purge time ids with ⟨secondPurged, secondIds, secondRun, secondTo⟩
  refine ⟨firstIds.length, secondIds.length, firstPurged, secondPurged, firstRun, secondRun, ?_,
    firstTo.canonical, secondTo.canonical, ?_⟩
  · apply secondTo.nodup.length_le_of_subset
    intro id rewritten
    rcases (secondTo.mem_rewritten id).mp rewritten with ⟨listed, other, isOther, loses⟩
    rcases matched.found_cases id with ⟨_, absent⟩ | ⟨history, _, found, isSecond, related⟩
    · rw [absent] at isOther
      cases isOther
    · have same := Option.some.inj (isSecond.symm.trans isOther)
      subst same
      exact (firstTo.mem_rewritten id).mpr
        ⟨listed, history, found, (compatible.purge related time).1 loses⟩
  · intro id
    rw [firstTo.history?_eq, secondTo.history?_eq]
    rcases matched.found_cases id with
      ⟨absent, otherAbsent⟩ | ⟨history, other, found, isOther, related⟩
    · rw [absent, otherAbsent]
      split <;> exact .none
    · rw [found, isOther]
      split
      · exact .some (compatible.purge related time).2
      · exact .some related

end Matched

end Archive

end TimedGraph
