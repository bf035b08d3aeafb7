import TimedGraph.History
import TimedGraph.Proofs.Chronology
import TimedGraph.Proofs.Instant

/-!
# Histories and their logs

The histories that can be obtained are those that creation, writes and purges lead to.
They are sound: offsets ascend from zero and no entry is later than the latest write, so
that the instants of the entries are exact.  For a sound history the look-up, which cuts
its instant off at the greatest offset, is the last pair of the log up to that instant,
and a purge drops exactly the pairs up to its instant.
-/

namespace TimedGraph.History

/-- The histories that creation, writes and purges lead to, whether or not these succeed. -/
inductive Obtainable : History → Prop where
  | create {id : PropertyId} {name : String} {created : Instant} {history : History}
      (made : create id name created = .ok history) : Obtainable history
  | write {history : History} (time : Instant) (value : Value) (before : Obtainable history) :
      Obtainable (history.write time value).2
  | purge {history : History} (time : Instant) (before : Obtainable history) :
      Obtainable (history.purge time).2

/-- The last history of a batch under a number. -/
def lastOf (batch : List History) (id : PropertyId) : Option History :=
  (batch.filter (·.id = id)).getLast?

/-- What every obtainable history satisfies. -/
structure Sound (history : History) : Prop where
  named : history.name ≠ ""
  createdPositive : 0 < history.created.toInt
  ascending : history.entries.Pairwise fun earlier later =>
    earlier.offset.toInt ≤ later.offset.toInt
  nonnegative : ∀ entry ∈ history.entries, 0 ≤ entry.offset.toInt
  /-- The latest write is remembered and no entry is later. -/
  written : ∀ entry ∈ history.entries, ∃ latest, history.latest = some latest ∧
    history.created.toInt + entry.offset.toInt ≤ latest.toInt

theorem lastOf_eq_some {batch : List History} {id : PropertyId} {history : History}
    (last : lastOf batch id = some history) : history ∈ batch ∧ history.id = id := by
  simpa using List.mem_filter.mp (List.mem_of_getLast? last)

theorem lastOf_eq_none_iff {batch : List History} {id : PropertyId} :
    lastOf batch id = none ↔ id ∉ batch.map History.id := by
  simp [lastOf]

/-- A batch has no history under the number of a stored one if it brings no stored number. -/
theorem lastOf_eq_none {batch : List History} {stored? : PropertyId → Option History}
    (unstored : ∀ history ∈ batch, stored? history.id = none) {id : PropertyId}
    {history : History} (found : stored? id = some history) : lastOf batch id = none := by
  apply lastOf_eq_none_iff.mpr
  intro new
  rcases List.mem_map.mp new with ⟨brought, mem, rfl⟩
  simp [unstored brought mem] at found

theorem exists_lastOf {batch : List History} {id : PropertyId}
    (mem : id ∈ batch.map History.id) : ∃ history, lastOf batch id = some history :=
  Option.ne_none_iff_exists'.mp fun none => lastOf_eq_none_iff.mp none mem

variable {history : History}

/-- A write is refused and changes nothing, or it comes in order and in the window and
appends its entry. -/
theorem write_cases (history : History) (time : Instant) (value : Value) :
    (∃ fault, history.write time value = (.error fault, history)) ∨
      ((∀ latest, history.latest = some latest → latest ≤ time) ∧
        time.InWindow history.created ∧
        history.write time value = (.ok (), { history with
          latest := some time
          entries := history.entries ++ [⟨time.since history.created, value⟩] })) := by
  simp only [write]
  split
  · exact .inl ⟨_, rfl⟩
  · rename_i inOrder
    split
    · exact .inl ⟨_, rfl⟩
    · simp only [Instant.offsetFrom?_eq]
      by_cases inWindow : time.InWindow history.created
      · rw [if_pos inWindow]
        refine .inr ⟨fun latest isLatest => ?_, inWindow, rfl⟩
        simpa [isLatest, Instant.lt_iff, Instant.le_iff] using inOrder
      · simp only [if_neg inWindow]
        exact .inl ⟨_, rfl⟩

theorem write_of_beforeLatest {time latest : Instant} (isLatest : history.latest = some latest)
    (early : time < latest) (value : Value) : history.write time value =
      (.error (.propertyOrdering (.beforeLatest history.name time latest)), history) := by
  simp only [write, isLatest, Option.filter_some, early, decide_true, if_true]

section

variable {time : Instant} (inOrder : ∀ latest, history.latest = some latest → latest ≤ time)

include inOrder

theorem filter_latest_eq_none : history.latest.filter (time < ·) = none := by
  apply Option.filter_eq_none_iff.mpr
  intro latest isLatest
  simpa only [decide_eq_true_eq] using Instant.not_lt.mpr (inOrder latest isLatest)

theorem write_of_beforeCreation (early : time < history.created) (value : Value) :
    history.write time value =
      (.error (.propertyOrdering (.beforeCreation history.name time history.created)),
        history) := by
  simp only [write, filter_latest_eq_none inOrder, if_pos early]

theorem write_of_pastWindow (late : history.created.toInt + maxOffset < time.toInt)
    (value : Value) :
    history.write time value = (.error (.timeRange time history.created), history) := by
  have started : ¬time < history.created := by
    simp only [Instant.lt_iff, maxOffset] at late ⊢
    omega
  have outside : ¬time.InWindow history.created := by
    simp only [Instant.InWindow]
    omega
  simp only [write, filter_latest_eq_none inOrder, if_neg started, Instant.offsetFrom?_eq,
    if_neg outside]

theorem write_of_inWindow (inWindow : time.InWindow history.created) (value : Value) :
    history.write time value = (.ok (), { history with
      latest := some time
      entries := history.entries ++ [⟨time.since history.created, value⟩] }) := by
  have started : ¬time < history.created := Instant.not_lt.mpr inWindow.1
  simp only [write, filter_latest_eq_none inOrder, if_neg started, Instant.offsetFrom?_eq,
    if_pos inWindow]

end

@[simp]
theorem write_id (history : History) (time : Instant) (value : Value) :
    (history.write time value).2.id = history.id := by
  rcases history.write_cases time value with ⟨_, refused⟩ | ⟨_, _, appended⟩
  · simp only [refused]
  · simp only [appended]

@[simp]
theorem write_name (history : History) (time : Instant) (value : Value) :
    (history.write time value).2.name = history.name := by
  rcases history.write_cases time value with ⟨_, refused⟩ | ⟨_, _, appended⟩
  · simp only [refused]
  · simp only [appended]

@[simp]
theorem write_created (history : History) (time : Instant) (value : Value) :
    (history.write time value).2.created = history.created := by
  rcases history.write_cases time value with ⟨_, refused⟩ | ⟨_, _, appended⟩
  · simp only [refused]
  · simp only [appended]

/-- The stop at the ends of the range of 64 bits does not show in what an instant reaches. -/
theorem reach_eq (history : History) (time : Instant) :
    history.reach time =
      if 0 ≤ time.toInt - history.created.toInt then
        some (Int32.ofInt (min (time.toInt - history.created.toInt) maxOffset))
      else none := by
  simp only [reach, Instant.toInt_saturatingDistance, Int64.toInt_minValue, Int64.toInt_maxValue,
    maxOffset]
  split
  · rw [if_pos (by omega)]
    congr 2
    omega
  · rw [if_neg (by omega)]

/-- The cut-off instant reaches the offsets whose instants are not after it. -/
theorem reach_cases (history : History) (time : Instant) :
    (history.reach time = none ∧ time < history.created) ∨
      ∃ target, history.reach time = some target ∧ history.created ≤ time ∧
        ∀ offset : Offset, offset.toInt ≤ target.toInt ↔
          history.created.toInt + offset.toInt ≤ time.toInt := by
  rw [reach_eq]
  by_cases reached : 0 ≤ time.toInt - history.created.toInt
  · refine .inr ⟨_, if_pos reached, ?_, fun offset => ?_⟩
    · simp only [Instant.le_iff]
      omega
    · have := offset.toInt_lt
      rw [Int32.toInt_ofInt_of_le (by simp only [maxOffset]; omega)
        (by simp only [maxOffset]; omega)]
      simp only [maxOffset]
      omega
  · refine .inl ⟨if_neg reached, ?_⟩
    simp only [Instant.lt_iff]
    omega

/-- A purge comes before the creation and changes nothing, or it cuts off the entries up to the
offset that it reaches. -/
theorem purge_cases (history : History) (time : Instant) :
    (time < history.created ∧ history.purge time = (false, history)) ∨
      ∃ target, history.reach time = some target ∧
        (∀ offset : Offset, offset.toInt ≤ target.toInt ↔
          history.created.toInt + offset.toInt ≤ time.toInt) ∧
        history.purge time =
          (!(history.entries.takeWhile (·.offset ≤ target)).isEmpty,
            { history with entries := history.entries.dropWhile (·.offset ≤ target) }) := by
  rcases history.reach_cases time with ⟨unreached, before⟩ | ⟨target, isReach, _, reached⟩
  · left
    refine ⟨before, ?_⟩
    simp only [purge, unreached]
  · right
    refine ⟨target, isReach, reached, ?_⟩
    simp only [purge, isReach]

@[simp]
theorem purge_id (history : History) (time : Instant) :
    (history.purge time).2.id = history.id := by
  rcases history.purge_cases time with ⟨_, unchanged⟩ | ⟨_, _, _, cut⟩
  · simp only [unchanged]
  · simp only [cut]

@[simp]
theorem purge_name (history : History) (time : Instant) :
    (history.purge time).2.name = history.name := by
  rcases history.purge_cases time with ⟨_, unchanged⟩ | ⟨_, _, _, cut⟩
  · simp only [unchanged]
  · simp only [cut]

@[simp]
theorem purge_created (history : History) (time : Instant) :
    (history.purge time).2.created = history.created := by
  rcases history.purge_cases time with ⟨_, unchanged⟩ | ⟨_, _, _, cut⟩
  · simp only [unchanged]
  · simp only [cut]

@[simp]
theorem purge_latest (history : History) (time : Instant) :
    (history.purge time).2.latest = history.latest := by
  rcases history.purge_cases time with ⟨_, unchanged⟩ | ⟨_, _, _, cut⟩
  · simp only [unchanged]
  · simp only [cut]

theorem purge_eq_self {time : Instant} (kept : (history.purge time).1 = false) :
    (history.purge time).2 = history := by
  rcases history.purge_cases time with ⟨_, unchanged⟩ | ⟨target, _, _, cut⟩
  · simp only [unchanged]
  · have noneBefore : history.entries.takeWhile (·.offset ≤ target) = [] := by
      simpa [cut] using kept
    have whole := List.takeWhile_append_dropWhile (p := (·.offset ≤ target)) (l := history.entries)
    simp only [noneBefore, List.nil_append] at whole
    simp only [cut, whole]

/-- What a purge drops stands at the beginning. -/
theorem exists_entries_eq_append (history : History) (time : Instant) :
    ∃ dropped, history.entries = dropped ++ (history.purge time).2.entries := by
  rcases history.purge_cases time with ⟨_, unchanged⟩ | ⟨_, _, _, cut⟩
  · exact ⟨[], by simp only [unchanged, List.nil_append]⟩
  · simp only [cut]
    exact ⟨_, List.takeWhile_append_dropWhile.symm⟩

/-- A second purge at the same instant finds nothing. -/
theorem purge_purge (history : History) (time : Instant) :
    (history.purge time).2.purge time = (false, (history.purge time).2) := by
  have sameReach : (history.purge time).2.reach time = history.reach time := by
    simp only [reach, purge_created]
  rcases history.purge_cases time with ⟨_, unchanged⟩ | ⟨target, isReach, _, cut⟩
  · simp only [unchanged]
  · have stopped := List.head?_dropWhile_not (fun entry => decide (entry.offset ≤ target))
      history.entries
    rcases (history.purge time).2.purge_cases time with
      ⟨_, unchanged⟩ | ⟨again, isAgain, _, cutAgain⟩
    · exact unchanged
    · have same : again = target := Option.some.inj (isAgain.symm.trans (sameReach.trans isReach))
      subst same
      simp only [cut] at cutAgain ⊢
      simp only [cutAgain]
      cases left : history.entries.dropWhile fun entry => decide (entry.offset ≤ again) with
      | nil => simp
      | cons head rest =>
        simp only [left, List.head?_cons] at stopped
        simp [stopped]

theorem log_write {time : Instant} {value : Value} {longer : History}
    (accepted : history.write time value = (.ok (), longer)) :
    longer.log = history.log ++ [(time, value)] := by
  rcases history.write_cases time value with ⟨fault, refused⟩ | ⟨_, inWindow, appended⟩
  · simp [refused] at accepted
  · have same : _ = longer := congrArg Prod.snd (appended.symm.trans accepted)
    subst same
    simp [log, Instant.atOffset_since inWindow]

theorem takeWhile_concat {α : Type} {chosen : α → Bool} {last : α} (stops : chosen last = false)
    (items : List α) : (items ++ [last]).takeWhile chosen = items.takeWhile chosen := by
  induction items with
  | nil => simp [stops]
  | cons head rest ih => simp only [List.cons_append, List.takeWhile_cons, ih]

/-- A write is not seen before its instant. -/
theorem valueAt_write (history : History) {time instant : Instant} (later : time < instant)
    (value : Value) : (history.write instant value).2.valueAt time = history.valueAt time := by
  have sameReach : (history.write instant value).2.reach time = history.reach time := by
    simp only [reach, write_created]
  rw [valueAt, valueAt, sameReach]
  rcases reach_cases history time with ⟨unreached, _⟩ | ⟨target, isReach, _, reached⟩
  · rw [unreached]
  · rw [isReach]
    rcases history.write_cases instant value with ⟨fault, refused⟩ | ⟨_, inWindow, appended⟩
    · rw [refused]
    · have beyond : ¬instant.since history.created ≤ target := by
        have offset := Instant.toInt_since inWindow
        simp only [Instant.lt_iff] at later
        rw [Int32.le_iff_toInt_le, reached]
        omega
      simp only [appended]
      refine congrArg (fun kept => kept.getLast?.map Entry.value) (takeWhile_concat ?_ _)
      exact decide_eq_false beyond

namespace Sound

variable (sound : history.Sound)

include sound

theorem toInt_atOffset {entry : Entry} (mem : entry ∈ history.entries) :
    (history.created.atOffset entry.offset).toInt =
      history.created.toInt + entry.offset.toInt := by
  rcases sound.written entry mem with ⟨latest, _, notLater⟩
  exact Instant.toInt_atOffset (sound.nonnegative entry mem) notLater

theorem created_le_of_mem_log {pair : Instant × Value} (mem : pair ∈ history.log) :
    history.created ≤ pair.1 := by
  rcases List.mem_map.mp mem with ⟨entry, entryMem, rfl⟩
  have := sound.nonnegative entry entryMem
  simp only [Instant.le_iff, sound.toInt_atOffset entryMem]
  omega

theorem inWindow_of_mem_log {pair : Instant × Value} (mem : pair ∈ history.log) :
    pair.1.InWindow history.created := by
  rcases List.mem_map.mp mem with ⟨entry, entryMem, rfl⟩
  have lower := sound.nonnegative entry entryMem
  have upper := entry.offset.toInt_lt
  simp only [Instant.InWindow, sound.toInt_atOffset entryMem, maxOffset]
  omega

theorem le_latest_of_mem_log {pair : Instant × Value} (mem : pair ∈ history.log) :
    ∃ latest, history.latest = some latest ∧ pair.1 ≤ latest := by
  rcases List.mem_map.mp mem with ⟨entry, entryMem, rfl⟩
  rcases sound.written entry entryMem with ⟨latest, isLatest, notLater⟩
  refine ⟨latest, isLatest, ?_⟩
  rw [Instant.le_iff, sound.toInt_atOffset entryMem]
  exact notLater

theorem log_ascending : history.log.Pairwise fun first second => first.1 ≤ second.1 := by
  apply List.pairwise_map.mpr
  apply sound.ascending.imp_of_mem
  intro first second firstMem secondMem inOrder
  rw [Instant.le_iff, sound.toInt_atOffset firstMem, sound.toInt_atOffset secondMem]
  omega

/-- The entries up to an instant are found by cutting at the offset that the instant reaches. -/
theorem filter_log (chosen : Int → Bool) :
    history.log.filter (fun pair => chosen pair.1.toInt) =
      (history.entries.filter fun entry =>
        chosen (history.created.toInt + entry.offset.toInt)).map fun entry =>
          (history.created.atOffset entry.offset, entry.value) := by
  simp only [log, List.filter_map]
  refine congrArg (List.map _) (List.filter_congr fun entry mem => ?_)
  simp only [Function.comp_apply, sound.toInt_atOffset mem]

theorem takeWhile_reach {time : Instant} {target : Offset}
    (reached : ∀ offset : Offset, offset.toInt ≤ target.toInt ↔
      history.created.toInt + offset.toInt ≤ time.toInt) :
    history.entries.takeWhile (·.offset ≤ target) =
      history.entries.filter fun entry =>
        history.created.toInt + entry.offset.toInt ≤ time.toInt := by
  have cut := takeWhile_eq_filter sound.ascending target.toInt
  simp only [reached] at cut
  simpa only [Int32.le_iff_toInt_le, reached] using cut

theorem dropWhile_reach {time : Instant} {target : Offset}
    (reached : ∀ offset : Offset, offset.toInt ≤ target.toInt ↔
      history.created.toInt + offset.toInt ≤ time.toInt) :
    history.entries.dropWhile (·.offset ≤ target) =
      history.entries.filter fun entry =>
        time.toInt < history.created.toInt + entry.offset.toInt := by
  have cut := dropWhile_eq_filter sound.ascending target.toInt
  simp only [← Int.not_le, reached] at cut
  simpa only [Int32.le_iff_toInt_le, ← Int.not_le, reached] using cut

/-- The value in force at an instant is the last of the log up to it. -/
theorem valueAt_eq (time : Instant) :
    history.valueAt time = (history.log.filter (·.1 ≤ time)).getLast?.map Prod.snd := by
  have upTo := sound.filter_log fun number => number ≤ time.toInt
  simp only [Instant.le_iff]
  rcases reach_cases history time with ⟨unreached, before⟩ | ⟨target, isReach, _, reached⟩
  · have nothing : history.log.filter (fun pair => pair.1.toInt ≤ time.toInt) = [] := by
      apply List.filter_eq_nil_iff.mpr
      intro pair mem
      have := sound.created_le_of_mem_log mem
      simp only [Instant.lt_iff, Instant.le_iff] at before this
      simp only [decide_eq_true_eq]
      omega
    simp only [valueAt, unreached, nothing, List.getLast?_nil, Option.map_none]
  · simp only [valueAt, isReach, upTo, sound.takeWhile_reach reached, List.getLast?_map,
      Option.map_map, Function.comp_def]

/-- At the instant of one of its values a history reads a value of that instant. -/
theorem readingAt_of_mem_log {pair : Instant × Value} (mem : pair ∈ history.log) :
    ∃ value, (pair.1, value) ∈ history.log ∧
      history.readingAt pair.1 = some ⟨history.name, value⟩ := by
  have kept : pair ∈ history.log.filter (·.1 ≤ pair.1) :=
    List.mem_filter.mpr ⟨mem, decide_eq_true (Int.le_refl _)⟩
  rcases List.eq_nil_or_concat (history.log.filter (·.1 ≤ pair.1)) with nothing | ⟨early, last, all⟩
  · simp [nothing] at kept
  · rw [List.concat_eq_append] at all
    have lastMem : last ∈ history.log.filter (·.1 ≤ pair.1) := by simp [all]
    rcases List.mem_filter.mp lastMem with ⟨logged, notLater⟩
    have ascending := sound.log_ascending.filter (·.1 ≤ pair.1)
    rw [all] at kept ascending
    have notEarlier : pair.1 ≤ last.1 := by
      rcases List.mem_append.mp kept with before | isLast
      · exact (List.pairwise_append.mp ascending).2.2 pair before last (.head _)
      · rw [List.mem_singleton.mp isLast]
        exact Int.le_refl _
    have same : last.1 = pair.1 :=
      Instant.toInt_injective (Int.le_antisymm (of_decide_eq_true notLater) notEarlier)
    refine ⟨last.2, same ▸ logged, ?_⟩
    rw [readingAt, sound.valueAt_eq, all, List.getLast?_concat]
    rfl

theorem log_purge (time : Instant) :
    (history.purge time).2.log = history.log.filter (time < ·.1) := by
  have past := sound.filter_log fun number => time.toInt < number
  simp only [Instant.lt_iff]
  rcases history.purge_cases time with ⟨before, unchanged⟩ | ⟨target, _, reached, cut⟩
  · have everything : history.log.filter (fun pair => time.toInt < pair.1.toInt) = history.log := by
      apply List.filter_eq_self.mpr
      intro pair mem
      have := sound.created_le_of_mem_log mem
      simp only [Instant.lt_iff, Instant.le_iff] at before this
      simp only [decide_eq_true_eq]
      omega
    simp only [unchanged, everything]
  · simp only [past]
    simp only [cut, log, sound.dropWhile_reach reached]

theorem write (time : Instant) (value : Value) : (history.write time value).2.Sound := by
  rcases history.write_cases time value with ⟨fault, refused⟩ | ⟨inOrder, inWindow, appended⟩
  · simp only [refused]
    exact sound
  · have offset := Instant.toInt_since inWindow
    have later := inWindow.1
    simp only [appended]
    refine ⟨sound.named, sound.createdPositive, ?_, ?_, ?_⟩
    · refine List.pairwise_append.mpr ⟨sound.ascending, by simp, fun entry mem last lastMem => ?_⟩
      have same := List.mem_singleton.mp lastMem
      subst same
      rcases sound.written entry mem with ⟨latest, isLatest, notLater⟩
      have := inOrder latest isLatest
      simp only [Instant.le_iff] at this
      simp only [offset]
      omega
    · intro entry mem
      rcases List.mem_append.mp mem with old | new
      · exact sound.nonnegative entry old
      · have same := List.mem_singleton.mp new
        subst same
        simp only [offset]
        omega
    · intro entry mem
      refine ⟨time, rfl, ?_⟩
      rcases List.mem_append.mp mem with old | new
      · rcases sound.written entry old with ⟨latest, isLatest, notLater⟩
        have := inOrder latest isLatest
        simp only [Instant.le_iff] at this
        simp only
        omega
      · have same := List.mem_singleton.mp new
        subst same
        simp only [offset]
        omega

theorem of_sublist {entries : List Entry} (fewer : entries.Sublist history.entries) :
    Sound { history with entries := entries } where
  named := sound.named
  createdPositive := sound.createdPositive
  ascending := sound.ascending.sublist fewer
  nonnegative entry mem := sound.nonnegative entry (fewer.subset mem)
  written entry mem := sound.written entry (fewer.subset mem)

theorem purge (time : Instant) : (history.purge time).2.Sound := by
  rcases history.purge_cases time with ⟨_, unchanged⟩ | ⟨_, _, _, cut⟩
  · simp only [unchanged]
    exact sound
  · simp only [cut]
    exact sound.of_sublist (List.dropWhile_sublist _)

end Sound

theorem Obtainable.sound (obtainable : history.Obtainable) : history.Sound := by
  induction obtainable with
  | create made =>
    rename_i id name created history
    simp only [History.create] at made
    split at made
    · simp at made
    · split at made
      · simp at made
      · rename_i named positive
        have same := Except.ok.inj made
        subst same
        refine ⟨named, ?_, by simp, by simp, by simp⟩
        simpa [Instant.le_iff, Instant.toInt] using positive
  | write time value _ sound => exact sound.write time value
  | purge time _ sound => exact sound.purge time

end TimedGraph.History
