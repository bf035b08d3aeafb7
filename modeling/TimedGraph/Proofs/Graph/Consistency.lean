import TimedGraph.Proofs.Graph.Legible
import TimedGraph.Proofs.Graph.Ownership

/-!
# Consistency of ownership and storage

What holds of the histories in the archive is said here of its records: they are in good
order, and each is the record of the history that it restores.  Together with the
holdings this makes every look-up of a recorded graph safe.  A name finds at most one
property, what it finds can be fetched, and nothing fails for want of a codec.
-/

namespace TimedGraph

/-- A record is one of a history in good order, and that history is restored. -/
structure Record.InOrder (record : Record) (codec : Codec) : Prop where
  ascending : record.offsets.Pairwise fun earlier later => earlier.toInt ≤ later.toInt
  inRange : ∀ offset ∈ record.offsets, 0 ≤ offset.toInt ∧ offset.toInt ≤ maxOffset
  /-- There are as many offsets as values. -/
  columns : ∃ values, record.series.toValues = .ok values ∧
    values.length = record.offsets.length
  /-- The last entry is not later than the latest write. -/
  written : ∀ last, record.offsets.getLast? = some last →
    ∃ latest, record.latest = some latest ∧
      record.created.toInt + last.toInt ≤ latest.toInt
  restored : ∃ history, record.restore = .ok history ∧ record = .ofHistory history codec

theorem History.Sound.inOrder {history : History} (sound : history.Sound) (codec : Codec) :
    (Record.ofHistory history codec).InOrder codec where
  ascending := List.pairwise_map.mpr sound.ascending
  inRange offset mem := by
    rcases List.mem_map.mp mem with ⟨entry, entryMem, rfl⟩
    have := entry.offset.toInt_lt
    exact ⟨sound.nonnegative entry entryMem, by simp only [maxOffset]; omega⟩
  columns := ⟨history.values, Series.toValues_ofValues _ _, by
    simp [Record.ofHistory, History.values, History.offsets]⟩
  written last isLast := by
    rcases List.mem_map.mp (List.mem_of_getLast? isLast) with ⟨entry, entryMem, rfl⟩
    exact sound.written entry entryMem
  restored := ⟨history, Record.restore_ofHistory history codec, rfl⟩

namespace Graph

variable {setting : Setting} {graph : Graph} {journal : Journal}

namespace Recorded

section

variable (recorded : Recorded Change.Obtainable setting graph journal)

include recorded

theorem record_inOrder {id : PropertyId} {record : Record}
    (found : graph.archive.record? id = some record) : record.InOrder setting.codec := by
  simp only [recorded.canonical.record?_eq, Option.map_eq_some_iff] at found
  rcases found with ⟨history, found, rfl⟩
  simp only [recorded.codec_eq]
  exact (recorded.holdings.sound found).inOrder setting.codec

theorem record_owner {id : PropertyId} {record : Record}
    (found : graph.archive.record? id = some record) :
    ∃ owner, graph.check owner = .ok () ∧ id ∈ graph.owned owner ∧
      (∀ other, id ∈ graph.owned other → other = owner) ∧
      ∃ added, (∀ time, (owner, time) ∈ journal.additions ↔ time = added) ∧
        added ≤ record.created := by
  have holdings := recorded.holdings
  have topology := Topology.of_recorded recorded
  simp only [recorded.canonical.record?_eq, Option.map_eq_some_iff] at found
  rcases found with ⟨history, found, rfl⟩
  rcases holdings.owner found with ⟨owner, mem⟩
  rcases holdings.younger mem found with ⟨added, isAdded, notYounger⟩
  refine ⟨owner, topology.check_eq_ok_iff.mpr ⟨added, isAdded⟩, mem, ?_, added, ?_, notYounger⟩
  · intro other otherMem
    exact holdings.unique otherMem mem
  · intro time
    constructor
    · intro again
      exact topology.added_once again isAdded
    · rintro rfl
      exact isAdded

/-- The properties of an owner are told apart by their stored names. -/
theorem eq_of_name?_eq {owner : Owner} {first second : PropertyId}
    (firstMem : first ∈ graph.owned owner) (secondMem : second ∈ graph.owned owner)
    (sameName : graph.archive.name? first = graph.archive.name? second) : first = second := by
  have holdings := recorded.holdings
  rcases holdings.stored firstMem with ⟨firstHistory, firstFound⟩
  rcases holdings.stored secondMem with ⟨secondHistory, secondFound⟩
  simp only [recorded.canonical.name?_eq, firstFound, secondFound, Option.map_some,
    Option.some.injEq] at sameName
  exact holdings.named firstMem secondMem firstFound secondFound sameName

theorem property?_eq_ok (owner : Owner) (name : String) :
    ∃ found, graph.property? owner name = .ok found := by
  simp only [property?]
  cases listed : (graph.owned owner).filter fun id => graph.archive.name? id = some name with
  | nil => exact ⟨none, rfl⟩
  | cons first rest =>
    cases rest with
    | nil => exact ⟨some first, rfl⟩
    | cons second others =>
      have both : ∀ id ∈ first :: second :: others,
          id ∈ graph.owned owner ∧ graph.archive.name? id = some name := by
        intro id mem
        rw [← listed] at mem
        simpa using List.mem_filter.mp mem
      rcases both first (.head _) with ⟨firstOwned, firstNamed⟩
      rcases both second (.tail _ (.head _)) with ⟨secondOwned, secondNamed⟩
      have same : first = second :=
        recorded.eq_of_name?_eq firstOwned secondOwned (firstNamed.trans secondNamed.symm)
      have distinct := (recorded.holdings.nodup owner).filter
        fun id => graph.archive.name? id = some name
      rw [listed, same] at distinct
      exact absurd (.head _) (List.nodup_cons.mp distinct).1

section

variable {owner : Owner} {id : PropertyId} {history : History}
  (found : graph.archive.history? id = some history) (owned : id ∈ graph.owned owner)

include found owned

theorem check_of_owned : graph.check owner = .ok () := by
  rcases recorded.holdings.younger owned found with ⟨added, isAdded, _⟩
  exact (Topology.of_recorded recorded).check_eq_ok_iff.mpr ⟨added, isAdded⟩

/-- A stored history is found by its name. -/
theorem property?_of_owned : graph.property? owner history.name = .ok (some id) := by
  have named : graph.archive.name? id = some history.name := by
    rw [recorded.canonical.name?_eq, found, Option.map_some]
  rcases recorded.property?_eq_ok owner history.name with ⟨other, isOther⟩
  cases other with
  | none => exact absurd named (property?_eq_none isOther id owned)
  | some other =>
    rcases property?_eq_some isOther with ⟨otherOwned, otherNamed⟩
    rw [isOther, recorded.eq_of_name?_eq otherOwned owned (otherNamed.trans named.symm)]

end

/-- What a name finds can be fetched. -/
theorem fetch?_of_property? {owner : Owner} {name : String} {id : PropertyId}
    (found : graph.property? owner name = .ok (some id)) :
    ∃ history, graph.archive.fetch? id = .ok (some history) := by
  rcases recorded.holdings.stored (property?_eq_some found).1 with ⟨history, stored⟩
  exact ⟨history, (recorded.canonical.fetch?_eq id).trans (congrArg Except.ok stored)⟩

end

/-- Ownership and storage are consistent: what is owned is stored, what is stored is in order and
has one owner, which is not younger and has no other property of the name.  So a name finds at
most one property and that can be fetched, and no request fails for a codec. -/
theorem consistent (recorded : Recorded Change.Obtainable setting graph journal) :
    (∀ owner id, id ∈ graph.owned owner → ∃ record, graph.archive.record? id = some record) ∧
    (∀ id record, graph.archive.record? id = some record →
      record.id = id ∧ record.InOrder setting.codec ∧
      ∃ owner, graph.check owner = .ok () ∧ id ∈ graph.owned owner ∧
        (∀ other, id ∈ graph.owned other → other = owner) ∧
        ∃ added, (∀ time, (owner, time) ∈ journal.additions ↔ time = added) ∧
          added ≤ record.created) ∧
    (∀ owner, (graph.owned owner).Nodup ∧
      ∀ first ∈ graph.owned owner, ∀ second ∈ graph.owned owner,
        graph.archive.name? first = graph.archive.name? second → first = second) ∧
    (∀ owner name, ∃ found, graph.property? owner name = .ok found ∧
      ∀ id, found = some id → ∃ history, graph.archive.fetch? id = .ok (some history)) ∧
    ∀ request fault, (graph.respond request).1 ≠ .error (.codec fault) := by
  have canonical := recorded.canonical
  refine ⟨?_, ?_, ?_, ?_, ?_⟩
  · intro owner id mem
    rcases recorded.holdings.stored mem with ⟨history, found⟩
    exact ⟨_, (canonical.record?_eq id).trans (by rw [found]; rfl)⟩
  · intro id record found
    refine ⟨?_, recorded.record_inOrder found, recorded.record_owner found⟩
    rcases canonical id record found with ⟨history, sameId, rfl⟩
    exact sameId
  · intro owner
    refine ⟨recorded.holdings.nodup owner, ?_⟩
    intro first firstMem second secondMem sameName
    exact recorded.eq_of_name?_eq firstMem secondMem sameName
  · intro owner name
    rcases recorded.property?_eq_ok owner name with ⟨found, isFound⟩
    refine ⟨found, isFound, ?_⟩
    rintro id rfl
    exact recorded.fetch?_of_property? isFound
  · intro request
    exact legible_respond canonical request

end Recorded

theorem consistent_sample :
    (∃ record, sampleGraph.archive.record? ⟨7⟩ = some record) ∧
      (∀ owner, ⟨7⟩ ∈ sampleGraph.owned owner → owner = .vertex ⟨0⟩) ∧
      ∀ fault, (sampleGraph.respond (.change (.purge ⟨125⟩))).1 ≠ .error (.codec fault) := by
  rcases sample_recorded.consistent with ⟨stored, records, _, _, legible⟩
  have owned : ⟨7⟩ ∈ sampleGraph.owned (.vertex ⟨0⟩) := by decide +kernel
  rcases stored (.vertex ⟨0⟩) ⟨7⟩ owned with ⟨record, isRecord⟩
  rcases records ⟨7⟩ record isRecord with ⟨_, _, owner, _, _, unique, _⟩
  exact ⟨⟨record, isRecord⟩, fun other mem => (unique other mem).trans (unique _ owned).symm,
    legible (.change (.purge ⟨125⟩))⟩

end Graph

end TimedGraph
