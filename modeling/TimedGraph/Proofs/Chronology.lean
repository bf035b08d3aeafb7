import Mathlib.Data.List.Nodup
import TimedGraph.Proofs.Instant

/-!
# Stable order

`sortedBy` lists things by ascending key, those of one key in the order in which they
came.  A list is determined by being sorted and by what it holds for each key
(`eq_of_ascending_of_filter`), which is how every sorted listing is recognised here: it is
enough to know the things of one key, and these a timeline keeps in one bucket.

`chronological` lists things by instant and number.  Of things that came in the order of
their numbers it is the stable order by instant.
-/

namespace TimedGraph

variable {α β : Type}

/-- The things of a list by ascending key, in their order in the list where keys agree. -/
def sortedBy (key : α → Int) (items : List α) : List α :=
  items.mergeSort fun first second => decide (key first ≤ key second)

theorem sortedBy_perm (key : α → Int) (items : List α) : (sortedBy key items).Perm items :=
  List.mergeSort_perm items _

theorem sortedBy_ascending (key : α → Int) (items : List α) :
    (sortedBy key items).Pairwise fun first second => key first ≤ key second := by
  have ordered : (sortedBy key items).Pairwise fun first second =>
      decide (key first ≤ key second) :=
    List.pairwise_mergeSort (by simp; omega) (by simp; omega) items
  simpa using ordered

theorem mem_iff_of_filter {key : α → Int} {first second : List α}
    (same : ∀ number, first.filter (key · = number) = second.filter (key · = number)) (item : α) :
    item ∈ first ↔ item ∈ second := by
  simpa using congrArg (item ∈ ·) (same (key item))

/-- A sorted list is determined by what it holds for each key. -/
theorem eq_of_ascending_of_filter {key : α → Int} {first second : List α}
    (firstAscending : first.Pairwise fun earlier later => key earlier ≤ key later)
    (secondAscending : second.Pairwise fun earlier later => key earlier ≤ key later)
    (same : ∀ number, first.filter (key · = number) = second.filter (key · = number)) :
    first = second := by
  induction first generalizing second with
  | nil =>
    refine (List.eq_nil_iff_forall_not_mem.mpr fun item mem => ?_).symm
    simpa using (mem_iff_of_filter same item).mpr mem
  | cons head rest ih =>
    have mem_iff := mem_iff_of_filter same
    cases second with
    | nil => simpa using (mem_iff head).mp List.mem_cons_self
    | cons other others =>
      rcases List.pairwise_cons.mp firstAscending with ⟨headFirst, restAscending⟩
      rcases List.pairwise_cons.mp secondAscending with ⟨otherFirst, othersAscending⟩
      have headLe : key head ≤ key other := by
        rcases List.mem_cons.mp ((mem_iff other).mpr List.mem_cons_self) with equal | later
        · simp only [equal]
          exact Int.le_refl _
        · exact headFirst other later
      have otherLe : key other ≤ key head := by
        rcases List.mem_cons.mp ((mem_iff head).mp List.mem_cons_self) with equal | later
        · simp only [equal]
          exact Int.le_refl _
        · exact otherFirst head later
      have keys : key head = key other := by omega
      have heads : head = other := by
        have starts := same (key head)
        simp [keys] at starts
        exact starts.1
      subst heads
      have tails (number : Int) :
          rest.filter (key · = number) = others.filter (key · = number) := by
        have whole := same number
        by_cases here : key head = number
        · simpa [here] using whole
        · simpa [here] using whole
      simp only [ih restAscending othersAscending tails]

theorem filter_key_sortedBy (key : α → Int) (items : List α) (number : Int) :
    (sortedBy key items).filter (key · = number) = items.filter (key · = number) := by
  have sameKey : (items.filter (key · = number)).Pairwise fun first second =>
      decide (key first ≤ key second) := by
    apply List.pairwise_of_forall_mem_list
    intro first firstMem second secondMem
    simp only [List.mem_filter, decide_eq_true_eq] at firstMem secondMem
    simp [firstMem.2, secondMem.2]
  have kept : (items.filter (key · = number)).Sublist (sortedBy key items) :=
    List.sublist_mergeSort (by simp; omega) (by simp; omega) sameKey List.filter_sublist
  have within := kept.filter (key · = number)
  simp only [List.filter_filter] at within
  simp only [Bool.and_self] at within
  refine (within.eq_of_length ?_).symm
  exact ((sortedBy_perm key items).filter _).length_eq.symm

theorem filter_sortedBy (key : α → Int) (chosen : α → Bool) (items : List α) :
    (sortedBy key items).filter chosen = sortedBy key (items.filter chosen) := by
  refine eq_of_ascending_of_filter ((sortedBy_ascending key items).filter _)
    (sortedBy_ascending key _) fun number => ?_
  have exchange (list : List α) : (list.filter chosen).filter (key · = number) =
      (list.filter (key · = number)).filter chosen := by
    simp only [List.filter_filter, Bool.and_comm]
  rw [exchange, filter_key_sortedBy, filter_key_sortedBy, exchange]

theorem sortedBy_map (key : β → Int) (view : α → β) (items : List α) :
    sortedBy key (items.map view) = (sortedBy (fun item => key (view item)) items).map view :=
  (List.map_mergeSort (f := view) fun _ _ _ _ => rfl).symm

section Cut

variable {key : α → Int} {items : List α}
variable (ascending : items.Pairwise fun earlier later => key earlier ≤ key later) (bound : Int)

include ascending

/-- Up to a bound, an ascending list begins with what it holds. -/
theorem takeWhile_eq_filter :
    items.takeWhile (fun item => key item ≤ bound) =
      items.filter fun item => key item ≤ bound := by
  induction items with
  | nil => rfl
  | cons head rest ih =>
    rcases List.pairwise_cons.mp ascending with ⟨headFirst, restAscending⟩
    by_cases within : key head ≤ bound
    · simp [within, ih restAscending]
    · have beyond : rest.filter (fun item => key item ≤ bound) = [] := by
        apply List.filter_eq_nil_iff.mpr
        intro item mem
        have := headFirst item mem
        simp only [decide_eq_true_eq]
        omega
      simp [within, beyond]

theorem dropWhile_eq_filter :
    items.dropWhile (fun item => key item ≤ bound) =
      items.filter fun item => bound < key item := by
  induction items with
  | nil => rfl
  | cons head rest ih =>
    rcases List.pairwise_cons.mp ascending with ⟨headFirst, restAscending⟩
    by_cases within : key head ≤ bound
    · have before : ¬bound < key head := by omega
      simp [within, before, ih restAscending]
    · have beyond : rest.filter (fun item => bound < key item) = rest := by
        apply List.filter_eq_self.mpr
        intro item mem
        have := headFirst item mem
        simp only [decide_eq_true_eq]
        omega
      have here : bound < key head := by omega
      simp [within, here, beyond]

end Cut

/-- Things by ascending instant and, within an instant, by ascending number. -/
def chronological (time : α → Instant) (number : α → UInt32) (items : List α) : List α :=
  items.mergeSort fun first second =>
    time first < time second ∨ time first = time second ∧ number first ≤ number second

section Chronological

variable {time : α → Instant} {number : α → UInt32} {items : List α}

theorem chronological_perm (time : α → Instant) (number : α → UInt32) (items : List α) :
    (chronological time number items).Perm items :=
  List.mergeSort_perm items _

@[simp]
theorem mem_chronological {item : α} : item ∈ chronological time number items ↔ item ∈ items :=
  (chronological_perm time number items).mem_iff

theorem chronological_ordered (time : α → Instant) (number : α → UInt32) (items : List α) :
    (chronological time number items).Pairwise fun first second =>
      time first < time second ∨ time first = time second ∧ number first ≤ number second := by
  have asNumbers (first second : α) :
      (time first < time second ∨ time first = time second ∧ number first ≤ number second) ↔
        ((time first).toInt < (time second).toInt ∨ (time first).toInt = (time second).toInt ∧
          (number first).toNat ≤ (number second).toNat) := by
    simp only [Instant.lt_iff, Instant.eq_iff, UInt32.le_iff_toNat_le]
  have ordered : (chronological time number items).Pairwise fun first second =>
      decide (time first < time second ∨
        time first = time second ∧ number first ≤ number second) := by
    refine List.pairwise_mergeSort (fun first second third => ?_) (fun first second => ?_) items
    · simp only [decide_eq_true_eq, asNumbers]
      omega
    · simp only [Bool.or_eq_true, decide_eq_true_eq, asNumbers]
      omega
  simpa using ordered

theorem eq_of_number_eq
    (ascending : items.Pairwise fun first second => number first < number second)
    {first second : α} (firstMem : first ∈ items) (secondMem : second ∈ items)
    (equal : number first = number second) : first = second := by
  have distinct : (items.map number).Nodup := by
    apply List.pairwise_map.mpr
    apply ascending.imp
    intro earlier later before same
    exact UInt32.lt_irrefl _ (same ▸ before)
  exact List.inj_on_of_nodup_map distinct firstMem secondMem equal

/-- For things that came by ascending number, the stable order by instant is chronological. -/
theorem chronological_eq_sortedBy {key : α → Int}
    (ascending : items.Pairwise fun first second => number first < number second)
    (byTime : ∀ first ∈ items, ∀ second ∈ items,
      key first ≤ key second ↔ time first ≤ time second) :
    chronological time number items = sortedBy key items := by
  have ordered := chronological_ordered time number items
  refine eq_of_ascending_of_filter ?_ (sortedBy_ascending key items) fun instant => ?_
  · apply ordered.imp_of_mem
    intro first second firstMem secondMem earlier
    simp only [byTime _ (mem_chronological.mp firstMem) _ (mem_chronological.mp secondMem)]
    rcases earlier with before | ⟨same, _⟩
    · exact Int.le_of_lt before
    · simp only [same]
      exact Int.le_refl _
  · simp only [filter_key_sortedBy]
    have listed : ((chronological time number items).filter (key · = instant)).Pairwise
        fun first second => number first ≤ number second := by
      apply (ordered.filter _).imp_of_mem
      intro first second firstMem secondMem earlier
      simp only [List.mem_filter, mem_chronological, decide_eq_true_eq] at firstMem secondMem
      have notBefore := (byTime _ secondMem.1 _ firstMem.1).mp (by omega)
      rcases earlier with before | ⟨_, lower⟩
      · exact absurd before (Int.not_lt.mpr notBefore)
      · exact lower
    have came : (items.filter (key · = instant)).Pairwise
        fun first second => number first ≤ number second :=
      (ascending.filter _).imp fun lower => UInt32.le_of_lt lower
    refine List.Perm.eq_of_pairwise (fun first second firstMem secondMem lower upper => ?_)
      listed came ((chronological_perm time number items).filter _)
    have firstIn := mem_chronological.mp (List.mem_filter.mp firstMem).1
    exact eq_of_number_eq ascending firstIn (List.mem_filter.mp secondMem).1
      (UInt32.le_antisymm lower upper)

theorem filter_chronological
    (ascending : items.Pairwise fun first second => number first < number second)
    (chosen : α → Bool) :
    (chronological time number items).filter chosen =
      chronological time number (items.filter chosen) := by
  have byTime : ∀ first second : α,
      (time first).toInt ≤ (time second).toInt ↔ time first ≤ time second :=
    fun _ _ => Iff.rfl
  rw [chronological_eq_sortedBy ascending fun first _ second _ => byTime first second,
    chronological_eq_sortedBy (ascending.filter _) fun first _ second _ => byTime first second,
    filter_sortedBy]

theorem nodup_chronological {β : Type} {id : α → β}
    (ascending : items.Pairwise fun first second => number first < number second)
    (numbered : ∀ first second, id first = id second → number first = number second) :
    ((chronological time number items).map id).Nodup := by
  apply ((chronological_perm time number items).map id).nodup_iff.mpr
  apply List.pairwise_map.mpr
  apply ascending.imp
  intro first second lower same
  simp only [numbered first second same] at lower
  exact UInt32.lt_irrefl _ lower

end Chronological

end TimedGraph
