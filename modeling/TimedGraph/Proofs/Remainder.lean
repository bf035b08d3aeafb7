import TimedGraph.Proofs.History

/-!
# What remains of a history

A purge finds its end by an offset, which it cuts off at the greatest one.  For a sound
history this comes to the plain rule: an entry stays if it was written after the instant
(`Sound.purge_eq`), and the purge is noticed if there was one to drop.

`Remains` relates two histories of which the second has lost its first entries, and nothing
else, to earlier purges.  Every write and every purge keeps them so.  Whether a write is
accepted does not depend on the entries, and a value that the second still has at an
instant is the value of the first, because what is lost of a sorted history is its beginning.
-/

namespace TimedGraph.History

/-- The history without its entries up to an instant. -/
def beyond (history : History) (time : Instant) : History :=
  { history with
    entries := history.entries.filter fun entry =>
      time < history.created.atOffset entry.offset }

variable {history : History} {time : Instant}

theorem beyond_beyond (history : History) (first second : Instant) :
    (history.beyond first).beyond second = history.beyond (max first second) := by
  have both : (history.entries.filter fun entry =>
      first < history.created.atOffset entry.offset).filter
        (fun entry => second < history.created.atOffset entry.offset) =
      history.entries.filter fun entry =>
        max first second < history.created.atOffset entry.offset := by
    simp only [List.filter_filter, Instant.max_lt_iff, Bool.decide_and, Bool.and_comm]
  exact congrArg (fun entries => { history with entries := entries }) both

namespace Sound

variable (sound : history.Sound)

include sound

theorem beyond_eq_self (before : time < history.created) : history.beyond time = history := by
  have later : ∀ entry ∈ history.entries,
      decide (time < history.created.atOffset entry.offset) = true := by
    intro entry mem
    have logged : (history.created.atOffset entry.offset, entry.value) ∈ history.log :=
      List.mem_map_of_mem mem
    have started := sound.created_le_of_mem_log logged
    simp only at started
    simp only [Instant.lt_of_lt_of_le before started, decide_true]
  simp only [beyond, List.filter_eq_self.mpr later]

/-- A purge leaves the entries written after its instant. -/
theorem purge_eq (time : Instant) : (history.purge time).2 = history.beyond time := by
  rcases history.purge_cases time with ⟨before, unchanged⟩ | ⟨target, _, reached, cut⟩
  · simp only [unchanged, sound.beyond_eq_self before]
  · simp only [cut, beyond, sound.dropWhile_reach reached]
    congr 1
    apply List.filter_congr
    intro entry mem
    simp only [Instant.lt_iff, sound.toInt_atOffset mem]

theorem log_beyond (time : Instant) :
    (history.beyond time).log = history.log.filter (time < ·.1) := by
  rw [← sound.purge_eq, sound.log_purge]

/-- A purge answers whether a value was written at or before its instant. -/
theorem purge_fst (time : Instant) :
    (history.purge time).1 = history.log.any (·.1 ≤ time) := by
  rcases history.purge_cases time with ⟨before, unchanged⟩ | ⟨target, _, reached, cut⟩
  · have nothing : history.log.any (·.1 ≤ time) = false := by
      apply List.any_eq_false.mpr
      intro pair mem
      have later := Instant.lt_of_lt_of_le before (sound.created_le_of_mem_log mem)
      simpa only [decide_eq_true_eq] using Instant.not_le.mpr later
    simp only [unchanged, nothing]
  · have early : ∀ entry ∈ history.entries,
        (history.created.toInt + entry.offset.toInt ≤ time.toInt ↔
          history.created.atOffset entry.offset ≤ time) := by
      intro entry mem
      simp only [Instant.le_iff, sound.toInt_atOffset mem]
    simp only [cut, sound.takeWhile_reach reached]
    apply Bool.eq_iff_iff.mpr
    simp only [log, List.any_map, Bool.not_eq_true', List.isEmpty_eq_false_iff, ne_eq,
      List.filter_eq_nil_iff, List.any_eq_true, Function.comp_apply, decide_eq_true_eq]
    simp only [Classical.not_forall, Classical.not_not, exists_prop]
    constructor
    · rintro ⟨entry, mem, reachedBy⟩
      exact ⟨entry, mem, (early entry mem).mp reachedBy⟩
    · rintro ⟨entry, mem, notLater⟩
      exact ⟨entry, mem, (early entry mem).mpr notLater⟩

/-- A purge and a later write may change places, and the purge does not notice the write. -/
theorem purge_write {instant : Instant} {value : Value} {longer : History}
    (later : time < instant) (accepted : history.write instant value = (.ok (), longer)) :
    (history.purge time).2.write instant value = (.ok (), (longer.purge time).2) ∧
      (longer.purge time).1 = (history.purge time).1 := by
  have extended := log_write accepted
  have longerSound := sound.write instant value
  simp only [accepted] at longerSound
  simp only [sound.purge_eq, longerSound.purge_eq, sound.purge_fst, longerSound.purge_fst]
  constructor
  · rcases history.write_cases instant value with ⟨fault, refused⟩ | ⟨inOrder, inWindow, appended⟩
    · simp [refused] at accepted
    · have same : _ = longer := congrArg Prod.snd (appended.symm.trans accepted)
      subst same
      -- Whether a write is accepted does not depend on the entries.
      have leftInOrder : ∀ latest, (history.beyond time).latest = some latest →
          latest ≤ instant := inOrder
      apply (write_of_inWindow leftInOrder inWindow value).trans
      simp [beyond, Instant.atOffset_since inWindow, later]
  · simp [extended, Instant.not_le.mpr later]

end Sound

/-- One history is what remains of another: the history itself, or a sound one without its first
entries. -/
inductive Remains : History → History → Prop where
  | all (history : History) : Remains history history
  | part {whole : History} {entries : List Entry} (sound : whole.Sound)
      (suffix : entries <:+ whole.entries) : Remains whole { whole with entries := entries }

namespace Remains

variable {whole left : History} {entries : List Entry}

theorem name_eq (remains : Remains whole left) : whole.name = left.name := by
  cases remains <;> rfl

theorem beyond (sound : history.Sound) (time : Instant) :
    Remains history (history.beyond time) := by
  rw [← sound.purge_eq]
  rcases history.purge_cases time with ⟨_, unchanged⟩ | ⟨_, _, _, cut⟩
  · simp only [unchanged]
    exact .all history
  · simp only [cut]
    exact .part sound (List.dropWhile_suffix _)

theorem write (remains : Remains whole left) (time : Instant) (value : Value) :
    (whole.write time value).1 = (left.write time value).1 ∧
      Remains (whole.write time value).2 (left.write time value).2 := by
  cases remains with
  | all => exact ⟨rfl, .all _⟩
  | part sound suffix =>
    have longerSound := sound.write time value
    simp only [History.write] at longerSound ⊢
    split
    · exact ⟨rfl, .part sound suffix⟩
    · split
      · exact ⟨rfl, .part sound suffix⟩
      · split
        · exact ⟨rfl, .part sound suffix⟩
        · rename_i inOrder started _ offset isOffset
          simp only [inOrder, started, isOffset, if_false] at longerSound
          rcases suffix with ⟨lost, together⟩
          refine ⟨rfl, .part longerSound ⟨lost, ?_⟩⟩
          rw [← List.append_assoc, together]

theorem log_suffix (suffix : entries <:+ whole.entries) :
    ({ whole with entries := entries } : History).log <:+ whole.log :=
  suffix.map _

theorem purge (remains : Remains whole left) (time : Instant) :
    ((left.purge time).1 = true → (whole.purge time).1 = true) ∧
      Remains (whole.purge time).2 (left.purge time).2 := by
  cases remains with
  | all => exact ⟨fun loses => loses, .all _⟩
  | part sound suffix =>
    have leftSound := sound.of_sublist suffix.sublist
    constructor
    · rw [leftSound.purge_fst, sound.purge_fst, List.any_eq_true, List.any_eq_true]
      rintro ⟨pair, mem, early⟩
      exact ⟨pair, (log_suffix suffix).mem mem, early⟩
    · have shorterSound := sound.purge time
      rw [sound.purge_eq] at shorterSound ⊢
      rw [leftSound.purge_eq]
      exact .part shorterSound (suffix.filter _)

theorem valueAt (remains : Remains whole left) (time : Instant) :
    left.valueAt time = none ∨ left.valueAt time = whole.valueAt time := by
  cases remains with
  | all => exact .inr rfl
  | part sound suffix =>
    have leftSound := sound.of_sublist suffix.sublist
    rw [leftSound.valueAt_eq, sound.valueAt_eq]
    rcases (log_suffix suffix).filter (·.1 ≤ time) with ⟨lost, together⟩
    rw [← together, List.getLast?_append]
    cases ({ whole with entries := _ } : History).log.filter (·.1 ≤ time) |>.getLast? with
    | none => exact .inl rfl
    | some pair => exact .inr rfl

theorem readingAt (remains : Remains whole left) (time : Instant) :
    left.readingAt time = none ∨ left.readingAt time = whole.readingAt time := by
  rw [History.readingAt, History.readingAt, remains.name_eq]
  rcases remains.valueAt time with lost | kept
  · rw [lost]
    exact .inl rfl
  · rw [kept]
    exact .inr rfl

end Remains

end TimedGraph.History
