import Mathlib.Data.List.TakeWhile
import TimedGraph.Proofs.Chronology
import TimedGraph.Table

/-!
# Tables by their look-ups

What a table lists, counts and cuts off is determined by its look-ups.
-/

namespace TimedGraph.Table

variable {κ α β : Type} [Ranked κ]

/-- The table with every value changed, each in its own way by its key. -/
def adjust (table : Table κ α) (change : κ → α → β) : Table κ β :=
  ⟨table.entries.map fun entry => (entry.1, change entry.1 entry.2),
    List.pairwise_map.mpr table.ordered⟩

@[simp]
theorem get?_adjust (table : Table κ α) (change : κ → α → β) (key : κ) :
    (table.adjust change).get? key = (table.get? key).map (change key) := by
  simp only [get?, adjust]
  induction table.entries with
  | nil => rfl
  | cons head rest ih =>
    simp only [List.map_cons, find?]
    split
    · rename_i same
      rw [rank_injective same]
      rfl
    · exact ih

@[simp]
theorem get?_nothing (key : κ) : (∅ : Table κ α).get? key = none :=
  rfl

theorem contains_eq (table : Table κ α) (key : κ) :
    table.contains key = (table.get? key).isSome :=
  rfl

theorem mem_keys_iff (table : Table κ α) {key : κ} :
    key ∈ table.keys ↔ (table.get? key).isSome := by
  constructor
  · intro mem
    rcases List.mem_map.mp mem with ⟨⟨other, value⟩, entryMem, rfl⟩
    simp [(get?_eq_some_iff table).mpr entryMem]
  · intro found
    rcases Option.isSome_iff_exists.mp found with ⟨value, found⟩
    exact List.mem_map.mpr ⟨(key, value), (get?_eq_some_iff table).mp found, rfl⟩

theorem keys_ordered (table : Table κ α) :
    table.keys.Pairwise fun first second => rank first < rank second :=
  List.pairwise_map.mpr table.ordered

theorem nodup_keys (table : Table κ α) : table.keys.Nodup := by
  apply table.keys_ordered.imp
  rintro key _ lower rfl
  exact Int.lt_irrefl _ lower

theorem mem_keys_insert [DecidableEq κ] (table : Table κ α) {key other : κ} (value : α) :
    other ∈ (table.insert key value).keys ↔ other = key ∨ other ∈ table.keys := by
  simp only [mem_keys_iff, get?_insert]
  split <;> simp [*]

/-- Tables with entries under the same keys list the same keys. -/
theorem keys_congr {first : Table κ α} {second : Table κ β}
    (same : ∀ key, (first.get? key).isSome = (second.get? key).isSome) :
    first.keys = second.keys := by
  have permuted : first.keys.Perm second.keys := by
    apply (List.perm_ext_iff_of_nodup first.nodup_keys second.nodup_keys).mpr
    intro key
    simp only [mem_keys_iff, same]
  refine permuted.eq_of_pairwise (fun first second _ _ lower upper => ?_) first.keys_ordered
    second.keys_ordered
  omega

theorem size_congr {first : Table κ α} {second : Table κ β}
    (same : ∀ key, (first.get? key).isSome = (second.get? key).isSome) :
    first.size = second.size := by
  simpa [keys, size] using congrArg List.length (keys_congr same)

/-- A table has as many entries as there are keys, however these are listed. -/
theorem size_eq_length (table : Table κ α) {counted : List κ} (nodup : counted.Nodup)
    (same : ∀ key, key ∈ table.keys ↔ key ∈ counted) : table.size = counted.length := by
  have permuted : table.keys.Perm counted :=
    (List.perm_ext_iff_of_nodup table.nodup_keys nodup).mpr same
  simpa only [keys, size, List.length_map] using permuted.length_eq

theorem upTo_eq_filter (table : Table κ α) (key : κ) :
    table.upTo key = table.entries.filter fun entry => rank entry.1 ≤ rank key :=
  takeWhile_eq_filter (table.ordered.imp Int.le_of_lt) (rank key)

theorem mem_keys_upTo (table : Table κ α) {bound key : κ} :
    key ∈ (table.upTo bound).map Prod.fst ↔ key ∈ table.keys ∧ rank key ≤ rank bound := by
  simp only [upTo_eq_filter, keys, List.mem_map, List.mem_filter, decide_eq_true_eq]
  constructor
  · rintro ⟨entry, ⟨mem, within⟩, rfl⟩
    exact ⟨⟨entry, mem, rfl⟩, within⟩
  · rintro ⟨⟨entry, mem, rfl⟩, within⟩
    exact ⟨entry, ⟨mem, within⟩, rfl⟩

theorem upTo_prefix (table : Table κ α) {bound later : κ} (inOrder : rank bound ≤ rank later) :
    table.upTo bound <+: table.upTo later := by
  have cut : (table.upTo later).takeWhile (fun entry => rank entry.1 ≤ rank bound) =
      table.upTo bound := by
    simp only [upTo, List.takeWhile_takeWhile, decide_eq_true_eq]
    congr 1
    funext entry
    apply decide_eq_decide.mpr
    omega
  simp only [← cut]
  exact List.takeWhile_prefix _

/-- The last key up to a bound is the greatest. -/
theorem getLast?_upTo_eq_some_iff (table : Table κ α) {bound floor : κ} :
    (table.upTo bound).getLast?.map Prod.fst = some floor ↔
      floor ∈ table.keys ∧ rank floor ≤ rank bound ∧
        ∀ other ∈ table.keys, rank other ≤ rank bound → rank other ≤ rank floor := by
  simp only [← List.getLast?_map]
  have ordered : ((table.upTo bound).map Prod.fst).Pairwise fun first second =>
      rank first < rank second :=
    List.pairwise_map.mpr (table.ordered.sublist (List.takeWhile_sublist _))
  have greatest {last : κ} (isLast : ((table.upTo bound).map Prod.fst).getLast? = some last) :
      last ∈ table.keys ∧ rank last ≤ rank bound ∧
        ∀ other ∈ table.keys, rank other ≤ rank bound → rank other ≤ rank last := by
    rcases table.mem_keys_upTo.mp (List.mem_of_getLast? isLast) with ⟨mem, within⟩
    refine ⟨mem, within, ?_⟩
    intro other otherMem otherWithin
    have listed := table.mem_keys_upTo.mpr ⟨otherMem, otherWithin⟩
    rcases List.getLast?_eq_some_iff.mp isLast with ⟨before, whole⟩
    simp only [whole] at ordered listed
    rcases List.mem_append.mp listed with early | isOther
    · exact Int.le_of_lt ((List.pairwise_append.mp ordered).2.2 other early last (.head _))
    · simp only [List.mem_singleton.mp isOther]
      exact Int.le_refl _
  constructor
  · exact greatest
  · rintro ⟨mem, within, above⟩
    have listed := table.mem_keys_upTo.mpr ⟨mem, within⟩
    cases isLast : ((table.upTo bound).map Prod.fst).getLast? with
    | none =>
      simp only [List.getLast?_eq_none_iff.mp isLast] at listed
      cases listed
    | some last =>
      rcases greatest isLast with ⟨lastMem, lastWithin, lastAbove⟩
      have lower := above last lastMem lastWithin
      have upper := lastAbove floor mem within
      simp only [rank_injective (Int.le_antisymm lower upper)]

theorem upTo_eq_nil_iff (table : Table κ α) {bound : κ} :
    table.upTo bound = [] ↔ ∀ key ∈ table.keys, rank bound < rank key := by
  simp only [upTo_eq_filter, List.filter_eq_nil_iff, keys, List.forall_mem_map, decide_eq_true_eq,
    Int.not_le]

theorem upTo_of_getLast? (table : Table κ α) {bound floor : κ}
    (isFloor : (table.upTo bound).getLast?.map Prod.fst = some floor) :
    table.upTo bound = table.upTo floor := by
  rcases table.getLast?_upTo_eq_some_iff.mp isFloor with ⟨_, within, above⟩
  simp only [upTo_eq_filter]
  apply List.filter_congr
  intro entry mem
  apply decide_eq_decide.mpr
  constructor
  · exact above entry.1 (List.mem_map_of_mem mem)
  · intro lower
    exact Int.le_trans lower within

/-- What is put under a later key is not listed up to an earlier one. -/
theorem upTo_insert_of_lt (table : Table κ α) {bound key : κ} (later : rank bound < rank key)
    (value : α) : (table.insert key value).upTo bound = table.upTo bound := by
  simp only [upTo, insert]
  induction table.entries with
  | nil => simp [place, later]
  | cons head rest ih =>
    rcases head with ⟨other, old⟩
    simp only [place]
    split
    · rename_i before
      have beyond : rank bound < rank other := Int.lt_trans later before
      simp [later, beyond]
    · split
      · rename_i same
        simp [later, ← same]
      · simp only [List.takeWhile_cons, ih]

end TimedGraph.Table
