import TimedGraph.Proofs.Graph.Run
import TimedGraph.Proofs.Series.Size

/-!
# Sizes of archives

The size of an archive is the sum of the sizes of its records, so that storing a history
again changes it by what the record of this one history has become.  A purge stores histories
without their first entries, and a write stores a history with one entry more.  Since a series
takes no less with values before or after it, the size follows the number of entries: at least
the offset of every entry that is dropped is saved, and an entry that is appended takes an
offset and a byte at the least.
-/

namespace TimedGraph

namespace Table

variable {κ α : Type} [Ranked κ] {key : κ} {old : α}

/-- The sum of what the values of a table measure. -/
def total (table : Table κ α) (measure : α → Nat) : Nat :=
  (table.values.map measure).sum

theorem sum_place {entries : List (κ × α)} (value : α) (measure : α → Nat)
    (ordered : entries.Pairwise fun first second => rank first.1 < rank second.1)
    (found : find? key entries = some old) :
    (((place key value entries).map Prod.snd).map measure).sum + measure old =
      ((entries.map Prod.snd).map measure).sum + measure value := by
  induction entries with
  | nil => cases found
  | cons head rest ih =>
    rcases head with ⟨other, kept⟩
    rcases List.pairwise_cons.mp ordered with ⟨headFirst, restOrdered⟩
    simp only [find?] at found
    simp only [place]
    split at found
    · rename_i same
      cases found
      simp only [same, Int.lt_irrefl, if_false, if_true, List.map_cons, List.sum_cons]
      omega
    · have later : rank other < rank key :=
        headFirst _ ((find?_eq_some_iff restOrdered).mp found)
      have notBefore : ¬rank key < rank other := by omega
      have different : ¬rank key = rank other := by omega
      have others := ih restOrdered found
      simp only [if_neg notBefore, if_neg different, List.map_cons, List.sum_cons]
      omega

/-- A value that is replaced gives its share to the new one. -/
theorem total_insert (table : Table κ α) (value : α) (measure : α → Nat)
    (found : table.get? key = some old) :
    (table.insert key value).total measure + measure old =
      table.total measure + measure value :=
  sum_place value measure table.ordered found

end Table

namespace Archive

variable {archive middle lighter : Archive} {time : Instant} {id : PropertyId}
  {history longer : History} {first second : Nat}

/-- The number of entries of all histories. -/
def entryCount (archive : Archive) : Nat :=
  archive.records.total Record.length

/-- An archive has come to a lighter one that has so many entries less. -/
structure Relieved (archive lighter : Archive) (dropped : Nat) : Prop where
  entryCount_eq : archive.entryCount = lighter.entryCount + dropped
  size_le : lighter.size + 4 * dropped ≤ archive.size

theorem size_eq_total (archive : Archive) : archive.size = archive.records.total Record.size := by
  simp only [size, Table.total, List.sum_eq_foldl, List.foldl_map]

theorem Relieved.refl (archive : Archive) : archive.Relieved archive 0 :=
  ⟨rfl, Nat.le_refl _⟩

theorem Relieved.trans (firstly : archive.Relieved middle first)
    (secondly : middle.Relieved lighter second) : archive.Relieved lighter (first + second) := by
  rcases firstly with ⟨firstCount, firstSize⟩
  rcases secondly with ⟨secondCount, secondSize⟩
  exact ⟨by omega, by omega⟩

theorem size_ofHistory (history : History) (codec : Codec) :
    (Record.ofHistory history codec).size =
      4 * history.entries.length + (Series.ofValues history.values codec).size := by
  simp only [Record.size, Record.ofHistory, History.offsets, List.length_map]

theorem length_ofHistory (history : History) (codec : Codec) :
    (Record.ofHistory history codec).length = history.entries.length := by
  simp only [Record.length, Record.ofHistory, History.offsets, List.length_map]

namespace Canonical

variable (canonical : archive.Canonical)

include canonical

section Store

variable (found : archive.history? id = some history) (sameId : longer.id = id)

include found sameId

/-- Storing a history again changes a sum over the records by what its record has become. -/
theorem total_store (measure : Record → Nat) :
    (archive.store longer).records.total measure +
        measure (.ofHistory history archive.codec) =
      archive.records.total measure + measure (.ofHistory longer archive.codec) := by
  have isRecord : archive.records.get? longer.id = some (.ofHistory history archive.codec) := by
    have stored := canonical.record?_eq id
    simp only [found, Option.map_some] at stored
    simp only [sameId]
    exact stored
  exact archive.records.total_insert _ measure isRecord

theorem relieved_store {dropped : List Entry}
    (entries : history.entries = dropped ++ longer.entries) :
    archive.Relieved (archive.store longer) dropped.length := by
  have counts := canonical.total_store found sameId Record.length
  have sizes := canonical.total_store found sameId Record.size
  have values : history.values = dropped.map Entry.value ++ longer.values := by
    simp only [History.values, entries, List.map_append]
  have series := Series.size_le_append (dropped.map Entry.value) longer.values archive.codec
  simp only [length_ofHistory, entries, List.length_append] at counts
  simp only [size_ofHistory, values, entries, List.length_append] at sizes
  constructor
  · simp only [entryCount]
    omega
  · simp only [size_eq_total]
    omega

theorem size_store_of_concat {entry : Entry}
    (entries : longer.entries = history.entries ++ [entry]) :
    archive.size + 5 ≤ (archive.store longer).size := by
  have sizes := canonical.total_store found sameId Record.size
  have values : longer.values = history.values ++ [entry.value] := by
    simp only [History.values, entries, List.map_append, List.map_cons, List.map_nil]
  have series := Series.size_add_length_le_append history.values [entry.value] archive.codec
  simp only [List.length_singleton] at series
  simp only [size_ofHistory, values, entries, List.length_append, List.length_singleton] at sizes
  simp only [size_eq_total]
  omega

end Store

/-- A purge drops entries, and with each of them at least its offset. -/
theorem relieved_purge (time : Instant) (ids : List PropertyId) :
    ∃ dropped, archive.Relieved (archive.purge time ids).2 dropped := by
  induction ids generalizing archive with
  | nil => exact ⟨0, .refl archive⟩
  | cons id rest ih =>
    by_cases loses : ∃ history, archive.history? id = some history ∧ (history.purge time).1 = true
    · rcases loses with ⟨history, found, loses⟩
      have shorterCanonical := canonical.store (history.purge time).2
      rcases shorterCanonical.purge time rest with ⟨purged, rewritten, run, _⟩
      rcases history.exists_entries_eq_append time with ⟨entries, together⟩
      have sameId : (history.purge time).2.id = id := by
        simp only [History.purge_id, canonical.id_eq found]
      have shorter := canonical.relieved_store found sameId together
      rcases ih shorterCanonical with ⟨dropped, further⟩
      simp only [run] at further
      simp only [canonical.purge_cons_of_loses found loses run]
      exact ⟨_, shorter.trans further⟩
    · have keeps (history : History) (found : archive.history? id = some history) :
          (history.purge time).1 = false := by
        simpa using fun lost => loses ⟨history, found, lost⟩
      simp only [canonical.purge_cons_of_keeps keeps]
      exact ih canonical

end Canonical

end Archive

namespace Graph

variable {Allowed : Change → Prop} {setting : Setting} {graph : Graph} {journal : Journal}

theorem relieved_purge (canonical : graph.archive.Canonical) (time : Instant) :
    ∃ dropped, graph.archive.Relieved (graph.purge time).2.archive dropped := by
  simp only [Graph.purge]
  split
  · exact ⟨0, .refl graph.archive⟩
  · exact canonical.relieved_purge time _

theorem size_writeProperty (canonical : graph.archive.Canonical) {owner : Owner} {name : String}
    {value : Value} {time : Instant}
    (succeeded : (graph.writeProperty owner name value time).1 = .ok ()) :
    graph.archive.size + 5 ≤ (graph.writeProperty owner name value time).2.archive.size := by
  have step := carryOut_step canonical (.write owner name value time)
  simp only [carryOut, succeeded] at step
  rcases step.exists_of_write with ⟨id, history, longer, _, found, _, accepted, left⟩
  rcases history.write_cases time value with ⟨fault, refused⟩ | ⟨_, _, appended⟩
  · simp only [accepted] at refused
    cases refused
  · have same : longer = _ := congrArg Prod.snd (accepted.symm.trans appended)
    have sameId : longer.id = id := by
      simp only [same, canonical.id_eq found]
    have entries : longer.entries = history.entries ++ [⟨time.since history.created, value⟩] := by
      simp only [same]
    simp only [left]
    exact canonical.size_store_of_concat found sameId entries

/-- Stored size follows the values.  A series takes no more than its values as they are, and no
less with values before or after it.  A purge saves at least four bytes for each entry that it
drops, and an appended value takes at least five. -/
theorem Recorded.sizes_monotone (recorded : Recorded Allowed setting graph journal) :
    (∀ (first second : List Value) (codec : Codec),
      (Series.ofValues first codec).size ≤ (Series.ofValues (first ++ second) codec).size ∧
      (Series.ofValues second codec).size ≤ (Series.ofValues (first ++ second) codec).size ∧
      (Series.ofValues (first ++ second) codec).size ≤
        ((first ++ second).map fun value => 24 + value.payload).sum) ∧
    (∀ time, ∃ dropped,
      graph.archive.entryCount = (graph.purge time).2.archive.entryCount + dropped ∧
      (graph.purge time).2.archive.size + 4 * dropped ≤ graph.archive.size) ∧
    ∀ owner name value time, (graph.writeProperty owner name value time).1 = .ok () →
      graph.archive.size + 5 ≤ (graph.writeProperty owner name value time).2.archive.size := by
  have canonical := recorded.canonical
  refine ⟨?_, ?_, ?_⟩
  · intro first second codec
    have longer := Series.size_add_length_le_append first second codec
    refine ⟨by omega, ?_, ?_⟩
    · exact Series.size_le_append first second codec
    · exact Series.size_le_plainSize (first ++ second) codec
  · intro time
    rcases relieved_purge canonical time with ⟨dropped, fewer, lighter⟩
    exact ⟨dropped, fewer, lighter⟩
  · intro owner name value time succeeded
    exact size_writeProperty canonical succeeded

/-- Of the two entries, the purge drops one. -/
theorem sizes_monotone_sample :
    (Series.ofValues [.int64 (-3)] .deltaVarint).size ≤
        (Series.ofValues [.int64 900, .int64 (-3)] .deltaVarint).size ∧
      (sampleGraph.purge ⟨125⟩).2.archive.size + 4 ≤ sampleGraph.archive.size ∧
      sampleGraph.archive.size + 5 ≤
        (sampleGraph.writeProperty (.vertex ⟨0⟩) "load" (.int32 5) ⟨140⟩).2.archive.size := by
  rcases sample_recorded.sizes_monotone with ⟨series, purges, writes⟩
  refine ⟨(series [.int64 900] [.int64 (-3)] .deltaVarint).2.1, ?_, ?_⟩
  · have before : sampleGraph.archive.entryCount = 2 := by decide +kernel
    have after : (sampleGraph.purge ⟨125⟩).2.archive.entryCount = 1 := by decide +kernel
    rcases purges ⟨125⟩ with ⟨dropped, fewer, lighter⟩
    omega
  · apply writes
    have succeeded : (sampleGraph.writeProperty (.vertex ⟨0⟩) "load" (.int32 5)
        ⟨140⟩).1.toOption = some () := by decide +kernel
    cases outcome : (sampleGraph.writeProperty (.vertex ⟨0⟩) "load" (.int32 5) ⟨140⟩).1 with
    | error fault =>
      simp only [outcome] at succeeded
      cases succeeded
    | ok _ => rfl

end Graph

end TimedGraph
