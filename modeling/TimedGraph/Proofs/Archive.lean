import TimedGraph.Archive.Basic
import TimedGraph.Proofs.Remainder
import TimedGraph.Proofs.Series.RoundTrip
import TimedGraph.Proofs.Table

/-!
# Archives as maps of histories

A record restores the history it was made of, whatever the codec.  An archive is canonical
if all its records are made of histories, each under the number of its history.  A
canonical archive is the map `Archive.history?` from numbers to histories: everything it
answers, other than sizes and the records themselves, is read off that map, and the codec
does not enter.
-/

namespace TimedGraph

@[simp]
theorem Record.restore_ofHistory (history : History) (codec : Codec) :
    (ofHistory history codec).restore = .ok history := by
  have columns : history.values.length = history.offsets.length := by
    simp [History.values, History.offsets]
  have joined : List.zipWith Entry.mk history.offsets history.values = history.entries := by
    simp [History.values, History.offsets, List.zipWith_map]
  simp only [restore, ofHistory, Series.toValues_ofValues, if_pos columns, joined]

namespace Archive

/-- The history kept under a number, if there is one that can be restored. -/
def history? (archive : Archive) (id : PropertyId) : Option History :=
  match archive.fetch? id with
  | .ok found => found
  | .error _ => none

/-- Every record is made of a history with the archive's codec, under the history's number. -/
def Canonical (archive : Archive) : Prop :=
  ∀ id record, archive.record? id = some record →
    ∃ history : History, history.id = id ∧ record = .ofHistory history archive.codec

variable {archive : Archive}

@[simp]
theorem codec_store (archive : Archive) (history : History) :
    (archive.store history).codec = archive.codec :=
  rfl

theorem record?_store (archive : Archive) (history : History) (id : PropertyId) :
    (archive.store history).record? id =
      if id = history.id then some (.ofHistory history archive.codec) else archive.record? id := by
  simp only [record?, store, Table.get?_insert]

theorem history?_store (archive : Archive) (history : History) (id : PropertyId) :
    (archive.store history).history? id =
      if id = history.id then some history else archive.history? id := by
  simp only [history?, fetch?, record?_store]
  by_cases same : id = history.id
  · simp [same, Functor.map, Except.map]
  · simp only [if_neg same]

namespace Canonical

theorem empty (codec : Codec) : (Archive.empty codec).Canonical := by
  intro id record found
  simp [record?, Archive.empty] at found

theorem store (canonical : archive.Canonical) (history : History) :
    (archive.store history).Canonical := by
  intro id record found
  simp only [record?_store] at found
  split at found
  · rename_i same
    exact ⟨history, same.symm, (Option.some.inj found).symm⟩
  · exact canonical id record found

section

variable (canonical : archive.Canonical)

include canonical

theorem record?_eq (id : PropertyId) :
    archive.record? id = (archive.history? id).map fun history =>
      .ofHistory history archive.codec := by
  cases found : archive.record? id with
  | none => simp [history?, fetch?, found]
  | some record =>
    rcases canonical id record found with ⟨history, _, rfl⟩
    simp [history?, fetch?, found, Functor.map, Except.map]

theorem fetch?_eq (id : PropertyId) : archive.fetch? id = .ok (archive.history? id) := by
  simp only [fetch?, canonical.record?_eq]
  cases archive.history? id with
  | none => rfl
  | some history => simp [Functor.map, Except.map]

theorem name?_eq (id : PropertyId) :
    archive.name? id = (archive.history? id).map History.name := by
  simp only [name?, canonical.record?_eq, Option.map_map]
  rfl

theorem contains_eq (id : PropertyId) :
    archive.contains id = (archive.history? id).isSome := by
  have asRecord : archive.contains id = (archive.record? id).isSome := rfl
  simp only [asRecord, canonical.record?_eq, Option.isSome_map]

theorem id_eq {id : PropertyId} {history : History}
    (found : archive.history? id = some history) : history.id = id := by
  have isRecord := canonical.record?_eq id
  simp only [found] at isRecord
  rcases canonical id _ isRecord with ⟨other, sameId, sameRecord⟩
  have restored := congrArg Record.restore sameRecord
  simp only [Record.restore_ofHistory, Except.ok.injEq] at restored
  simp only [restored, sameId]

end

end Canonical

/-- A canonical archive is determined by its codec and its histories. -/
theorem Canonical.ext {other : Archive} (canonical : archive.Canonical)
    (otherCanonical : other.Canonical)
    (codec : archive.codec = other.codec)
    (histories : ∀ id, archive.history? id = other.history? id) : archive = other := by
  have records : archive.records = other.records := by
    apply Table.ext
    intro id
    have record := canonical.record?_eq id
    have otherRecord := otherCanonical.record?_eq id
    rw [histories, codec, ← otherRecord] at record
    exact record
  cases archive
  cases other
  simp only at codec records
  simp only [codec, records]

/-- What a batch leaves in the archive: the last history of each of its numbers. -/
theorem history?_storeAll (archive : Archive) (batch : List History) (id : PropertyId) :
    (batch.foldl store archive).history? id =
      (History.lastOf batch id).or (archive.history? id) := by
  induction batch generalizing archive with
  | nil => rfl
  | cons history rest ih =>
    simp only [List.foldl_cons, ih, history?_store]
    simp only [History.lastOf]
    by_cases same : history.id = id
    · simp only [same, decide_true, List.filter_cons_of_pos, if_true, List.getLast?_cons]
      cases (rest.filter (·.id = id)).getLast? <;> rfl
    · simp [same, Ne.symm same]

theorem Canonical.storeAll (canonical : archive.Canonical) (batch : List History) :
    (batch.foldl Archive.store archive).Canonical := by
  induction batch generalizing archive with
  | nil => exact canonical
  | cons history rest ih => exact ih (canonical.store history)

@[simp]
theorem codec_storeAll (archive : Archive) (batch : List History) :
    (batch.foldl store archive).codec = archive.codec := by
  induction batch generalizing archive with
  | nil => rfl
  | cons history rest ih => rw [List.foldl_cons, ih, codec_store]

/-- What a purge leaves of a canonical archive, and which histories it stores again. -/
structure PurgedTo (archive : Archive) (time : Instant) (ids : List PropertyId)
    (purged : Archive) (rewritten : List PropertyId) : Prop where
  canonical : purged.Canonical
  codec_eq : purged.codec = archive.codec
  history?_eq : ∀ id, purged.history? id =
    if id ∈ ids then (archive.history? id).map fun history => (history.purge time).2
    else archive.history? id
  nodup : rewritten.Nodup
  mem_rewritten : ∀ id, id ∈ rewritten ↔ id ∈ ids ∧
    ∃ history, archive.history? id = some history ∧ (history.purge time).1 = true

section Purge

variable {time : Instant} {id : PropertyId} {rest rewritten : List PropertyId} {purged : Archive}
  {history : History}

namespace PurgedTo

theorem found_cases {ids : List PropertyId}
    (purgedTo : archive.PurgedTo time ids purged rewritten)
    (found : purged.history? id = some history) :
    (∃ before, archive.history? id = some before ∧ (before.purge time).2 = history) ∨
      archive.history? id = some history := by
  simp only [purgedTo.history?_eq] at found
  split at found
  · exact .inl (Option.map_eq_some_iff.mp found)
  · exact .inr found

/-- The histories that are stored again are those listed ones that have a value up to the instant,
however the listed numbers are counted. -/
theorem length_rewritten {ids counted : List PropertyId}
    (purgedTo : archive.PurgedTo time ids purged rewritten)
    (sound : ∀ {id history}, archive.history? id = some history → history.Sound)
    (nodup : counted.Nodup)
    (listed : ∀ id history, archive.history? id = some history →
      history.log.any (·.1 ≤ time) = true → (id ∈ ids ↔ id ∈ counted)) :
    rewritten.length = counted.countP fun id =>
      (archive.history? id).any fun history => history.log.any (·.1 ≤ time) := by
  rw [List.countP_eq_length_filter]
  -- Both lists are without repetition, so that they are compared by their members.
  apply List.Perm.length_eq
  apply (List.perm_ext_iff_of_nodup purgedTo.nodup (nodup.filter _)).mpr
  intro id
  rw [purgedTo.mem_rewritten, List.mem_filter]
  cases found : archive.history? id with
  | none => simp
  | some history =>
    have losing := (sound found).purge_fst time
    simp only [Option.some.injEq, exists_eq_left', Option.any_some, losing]
    apply and_congr_left
    exact listed id history found

theorem skip (purgedTo : archive.PurgedTo time rest purged rewritten)
    (keeps : ∀ history, archive.history? id = some history → (history.purge time).1 = false) :
    archive.PurgedTo time (id :: rest) purged rewritten where
  canonical := purgedTo.canonical
  codec_eq := purgedTo.codec_eq
  history?_eq other := by
    have unchanged : (archive.history? id).map (fun history => (history.purge time).2) =
        archive.history? id := by
      cases found : archive.history? id with
      | none => rfl
      | some history => simp [History.purge_eq_self (keeps history found)]
    simp only [purgedTo.history?_eq]
    by_cases here : other = id
    · subst here
      simp [unchanged]
    · simp [here]
  nodup := purgedTo.nodup
  mem_rewritten other := by
    simp only [purgedTo.mem_rewritten]
    by_cases here : other = id
    · subst here
      have stays : ¬∃ history, archive.history? other = some history ∧
          (history.purge time).1 = true := by
        rintro ⟨history, found, loses⟩
        simp [keeps history found] at loses
      simp [stays]
    · simp [here]

theorem shorten (canonical : archive.Canonical) (found : archive.history? id = some history)
    (loses : (history.purge time).1 = true)
    (purgedTo : (archive.store (history.purge time).2).PurgedTo time rest purged rewritten) :
    archive.PurgedTo time (id :: rest) purged (id :: rewritten) := by
  have stored (other : PropertyId) : (archive.store (history.purge time).2).history? other =
      if other = id then some (history.purge time).2 else archive.history? other := by
    simp only [history?_store, History.purge_id, canonical.id_eq found]
  have again := history.purge_purge time
  refine ⟨purgedTo.canonical, purgedTo.codec_eq, ?_, ?_, ?_⟩
  · intro other
    simp only [purgedTo.history?_eq, stored]
    by_cases here : other = id
    · subst here
      simp [found, again]
    · simp [here]
  · apply List.nodup_cons.mpr
    refine ⟨?_, purgedTo.nodup⟩
    intro mem
    rcases (purgedTo.mem_rewritten id).mp mem with ⟨_, other, isOther, losesAgain⟩
    rw [stored, if_pos rfl] at isOther
    simp [← Option.some.inj isOther, again] at losesAgain
  · intro other
    by_cases here : other = id
    · subst here
      simp [found, loses]
    · simp [purgedTo.mem_rewritten, stored, here]

end PurgedTo

theorem Canonical.purge_cons_of_keeps (canonical : archive.Canonical)
    (keeps : ∀ history, archive.history? id = some history → (history.purge time).1 = false) :
    archive.purge time (id :: rest) = archive.purge time rest := by
  cases found : archive.history? id with
  | none => simp only [Archive.purge, canonical.fetch?_eq, found]
  | some history =>
    rcases shortening : history.purge time with ⟨lost, shortened⟩
    have same : lost = false := by simpa [shortening] using keeps history found
    subst same
    simp only [Archive.purge, canonical.fetch?_eq, found, shortening]

theorem Canonical.purge_cons_of_loses (canonical : archive.Canonical)
    (found : archive.history? id = some history) (loses : (history.purge time).1 = true)
    {count : Nat} (run : (archive.store (history.purge time).2).purge time rest =
      (.ok count, purged)) :
    archive.purge time (id :: rest) = (.ok (count + 1), purged) := by
  rcases shortening : history.purge time with ⟨lost, shortened⟩
  have same : lost = true := by simpa [shortening] using loses
  subst same
  simp only [shortening] at run
  simp only [Archive.purge, canonical.fetch?_eq, found, shortening, run]
  rfl

/-- A purge of a canonical archive succeeds.  It purges the listed histories, and counts
those of them that lose entries. -/
theorem Canonical.purge (canonical : archive.Canonical) (time : Instant) (ids : List PropertyId) :
    ∃ purged rewritten, archive.purge time ids = (.ok rewritten.length, purged) ∧
      archive.PurgedTo time ids purged rewritten := by
  induction ids generalizing archive with
  | nil => exact ⟨archive, [], rfl, canonical, rfl, by simp, .nil, by simp⟩
  | cons id rest ih =>
    by_cases loses : ∃ history, archive.history? id = some history ∧ (history.purge time).1 = true
    · rcases loses with ⟨history, found, loses⟩
      rcases ih (canonical.store (history.purge time).2) with ⟨purged, rewritten, run, purgedTo⟩
      exact ⟨purged, id :: rewritten, canonical.purge_cons_of_loses found loses run,
        purgedTo.shorten canonical found loses⟩
    · have keeps (history : History) (found : archive.history? id = some history) :
          (history.purge time).1 = false := by
        simpa using fun lost => loses ⟨history, found, lost⟩
      rcases ih canonical with ⟨purged, rewritten, run, purgedTo⟩
      exact ⟨purged, rewritten, (canonical.purge_cons_of_keeps keeps).trans run,
        purgedTo.skip keeps⟩

theorem Canonical.purgedTo (canonical : archive.Canonical) {ids : List PropertyId} {count : Nat}
    (run : archive.purge time ids = (.ok count, purged)) :
    ∃ rewritten : List PropertyId, rewritten.length = count ∧
      archive.PurgedTo time ids purged rewritten := by
  rcases canonical.purge time ids with ⟨other, rewritten, otherRun, purgedTo⟩
  have same : rewritten.length = count ∧ other = purged := by
    simpa using otherRun.symm.trans run
  rcases same with ⟨rfl, rfl⟩
  exact ⟨rewritten, rfl, purgedTo⟩

/-- What a purge leaves depends on which numbers are listed, not on their order nor on how often
they are. -/
theorem PurgedTo.unique {ids others otherRewritten : List PropertyId} {other : Archive}
    (purgedTo : archive.PurgedTo time ids purged rewritten)
    (otherTo : archive.PurgedTo time others other otherRewritten)
    (same : ∀ id, id ∈ ids ↔ id ∈ others) :
    purged = other ∧ rewritten.length = otherRewritten.length := by
  constructor
  · apply purgedTo.canonical.ext otherTo.canonical
    · rw [purgedTo.codec_eq, otherTo.codec_eq]
    · intro id
      rw [purgedTo.history?_eq, otherTo.history?_eq]
      simp only [same]
  · apply List.Perm.length_eq
    apply (List.perm_ext_iff_of_nodup purgedTo.nodup otherTo.nodup).mpr
    intro id
    rw [purgedTo.mem_rewritten, otherTo.mem_rewritten, same]

theorem Canonical.purge_of_purgedTo (canonical : archive.Canonical) {ids : List PropertyId}
    (purgedTo : archive.PurgedTo time ids purged rewritten) :
    archive.purge time ids = (.ok rewritten.length, purged) := by
  rcases canonical.purge time ids with ⟨other, otherRewritten, run, otherTo⟩
  rcases purgedTo.unique otherTo fun _ => Iff.rfl with ⟨archives, counts⟩
  rw [run, archives, counts]

theorem Canonical.purge_congr (canonical : archive.Canonical) {ids others : List PropertyId}
    (same : ∀ id, id ∈ ids ↔ id ∈ others) (time : Instant) :
    archive.purge time ids = archive.purge time others := by
  rcases canonical.purge time ids with ⟨purged, rewritten, run, purgedTo⟩
  rcases canonical.purge time others with ⟨otherPurged, otherRewritten, otherRun, otherTo⟩
  rcases purgedTo.unique otherTo same with ⟨archives, counts⟩
  rw [run, otherRun, archives, counts]

end Purge

end Archive

end TimedGraph
