import TimedGraph.Proofs.Remainder

/-!
# Ledgers of histories

A ledger is kept beside a history and notes what its writes and purges came to: the pairs
of instant and value that were accepted, and those of them that no purge has covered since.
It has neither offsets nor a window, and it forgets no accepted pair.

A history and its ledger belong together in two ways.  The log of the history is what the
ledger has kept, so that every look-up and every purge, at whatever instant, is read off the
kept pairs (`Accounted.course_exact`).  And the latest write of the history is the greatest
instant that the ledger has accepted, however much of it was purged, which decides what is
accepted next and why something is refused (`Accounted.admission_exact`).
-/

namespace TimedGraph

/-- What the writes and purges of a history came to. -/
structure Ledger where
  /-- The accepted pairs, in the order of writing. -/
  accepted : List (Instant × Value)
  /-- The accepted pairs that no later purge has covered. -/
  kept : List (Instant × Value)
  deriving DecidableEq

namespace Ledger

/-- The ledger of a history that was just created. -/
def empty : Ledger := ⟨[], []⟩

/-- Notes a write by its outcome. -/
def write (ledger : Ledger) (time : Instant) (value : Value) : Except Fault Unit → Ledger
  | .ok () => ⟨ledger.accepted ++ [(time, value)], ledger.kept ++ [(time, value)]⟩
  | .error _ => ledger

/-- Notes a purge. -/
def purge (ledger : Ledger) (time : Instant) : Ledger :=
  { ledger with kept := ledger.kept.filter (time < ·.1) }

/-- An instant is the greatest at which a write was accepted, purged or not. -/
def Latest (ledger : Ledger) (latest : Instant) : Prop :=
  (∃ value, (latest, value) ∈ ledger.accepted) ∧ ∀ pair ∈ ledger.accepted, pair.1 ≤ latest

end Ledger

namespace History

/-- The histories that creation, writes and purges lead to, whether or not these succeed, with
their ledgers. -/
inductive Accounted : History → Ledger → Prop where
  | create {id : PropertyId} {name : String} {created : Instant} {history : History}
      (made : create id name created = .ok history) : Accounted history .empty
  | write {history : History} {ledger : Ledger} (time : Instant) (value : Value)
      (before : Accounted history ledger) :
      Accounted (history.write time value).2
        (ledger.write time value (history.write time value).1)
  | purge {history : History} {ledger : Ledger} (time : Instant)
      (before : Accounted history ledger) :
      Accounted (history.purge time).2 (ledger.purge time)

/-- Why a history with a ledger refuses a write at an instant. -/
inductive Refused (history : History) (ledger : Ledger) (time : Instant) : Fault → Prop where
  | beforeLatest {latest : Instant} (isLatest : ledger.Latest latest) (early : time < latest) :
      Refused history ledger time
        (.propertyOrdering (.beforeLatest history.name time latest))
  | beforeCreation (inOrder : ∀ latest, ledger.Latest latest → latest ≤ time)
      (early : time < history.created) :
      Refused history ledger time
        (.propertyOrdering (.beforeCreation history.name time history.created))
  | pastWindow (inOrder : ∀ latest, ledger.Latest latest → latest ≤ time)
      (late : maxOffset < time.toInt - history.created.toInt) :
      Refused history ledger time (.timeRange time history.created)

variable {history : History} {ledger : Ledger} {time : Instant}

/-- A write is out of order if it is before the latest one or before the creation. -/
theorem exists_disorder_iff :
    (∃ disorder, history.Refused ledger time (.propertyOrdering disorder)) ↔
      (∃ latest, ledger.Latest latest ∧ time < latest) ∨ time < history.created := by
  constructor
  · rintro ⟨disorder, refused⟩
    cases refused with
    | beforeLatest isLatest early => exact .inl ⟨_, isLatest, early⟩
    | beforeCreation _ early => exact .inr early
  · intro early
    by_cases disordered : ∃ latest, ledger.Latest latest ∧ time < latest
    · rcases disordered with ⟨latest, isLatest, beforeLatest⟩
      exact ⟨_, .beforeLatest isLatest beforeLatest⟩
    · have inOrder : ∀ latest, ledger.Latest latest → latest ≤ time := by
        intro latest isLatest
        exact Instant.not_lt.mp fun beforeLatest => disordered ⟨latest, isLatest, beforeLatest⟩
      exact ⟨_, .beforeCreation inOrder (early.resolve_left disordered)⟩

/-- Every obtainable history has a ledger. -/
theorem Obtainable.accounted (obtainable : history.Obtainable) :
    ∃ ledger, history.Accounted ledger := by
  induction obtainable with
  | create made => exact ⟨_, .create made⟩
  | write time value _ ih =>
    rcases ih with ⟨ledger, accounted⟩
    exact ⟨_, accounted.write time value⟩
  | purge time _ ih =>
    rcases ih with ⟨ledger, accounted⟩
    exact ⟨_, accounted.purge time⟩

theorem write_of_accepted {value : Value} (accepted : (history.write time value).1 = .ok ()) :
    (∀ latest, history.latest = some latest → latest ≤ time) ∧ time.InWindow history.created ∧
      history.write time value = (.ok (), { history with
        latest := some time
        entries := history.entries ++ [⟨time.since history.created, value⟩] }) := by
  rcases history.write_cases time value with ⟨fault, refused⟩ | written
  · simp [refused] at accepted
  · exact written

theorem log_eq_nil_of_create {id : PropertyId} {name : String} {created : Instant}
    (made : create id name created = .ok history) : history.latest = none ∧ history.log = [] := by
  simp only [create] at made
  split at made
  · simp at made
  · split at made
    · simp at made
    · have same := Except.ok.inj made
      subst same
      exact ⟨rfl, rfl⟩

namespace Accounted

variable (accounted : history.Accounted ledger)

include accounted

theorem obtainable : history.Obtainable := by
  induction accounted with
  | create made => exact .create made
  | write time value _ obtainable => exact obtainable.write time value
  | purge time _ obtainable => exact obtainable.purge time

theorem sound : history.Sound :=
  accounted.obtainable.sound

theorem log_eq : history.log = ledger.kept := by
  induction accounted with
  | create made => exact (log_eq_nil_of_create made).2
  | write time value before same =>
    rename_i history ledger
    rcases written : history.write time value with ⟨outcome, longer⟩
    cases outcome with
    | error fault =>
      rcases history.write_cases time value with ⟨_, refused⟩ | ⟨_, _, appended⟩
      · have unchanged : longer = history := congrArg Prod.snd (written.symm.trans refused)
        rw [unchanged]
        exact same
      · simp [appended] at written
    | ok _ =>
      rw [log_write written, same]
      rfl
  | purge time before same =>
    rw [before.sound.log_purge, same]
    rfl

/-- No accepted pair is later than the latest write, which was accepted itself. -/
theorem latest_reached :
    (∀ pair ∈ ledger.accepted, ∃ latest, history.latest = some latest ∧ pair.1 ≤ latest) ∧
      ∀ latest, history.latest = some latest → ∃ value, (latest, value) ∈ ledger.accepted := by
  induction accounted with
  | create made =>
    rw [(log_eq_nil_of_create made).1]
    exact ⟨fun _ mem => (List.not_mem_nil mem).elim, fun _ => nofun⟩
  | write time value before ih =>
    rename_i history ledger
    rcases ih with ⟨reached, wasAccepted⟩
    rcases history.write_cases time value with ⟨fault, refused⟩ | ⟨inOrder, _, appended⟩
    · rw [refused]
      exact ⟨reached, wasAccepted⟩
    · rw [appended]
      constructor
      · intro pair mem
        refine ⟨time, rfl, ?_⟩
        rcases List.mem_append.mp mem with old | new
        · rcases reached pair old with ⟨latest, isLatest, notLater⟩
          exact Instant.le_trans notLater (inOrder latest isLatest)
        · rw [List.mem_singleton.mp new]
          exact Int.le_refl _
      · intro latest isLatest
        rw [← Option.some.inj isLatest]
        exact ⟨value, List.mem_append_right _ (.head _)⟩
  | purge time before ih =>
    rw [purge_latest]
    exact ih

/-- The latest write is the greatest instant ever accepted. -/
theorem latest_eq_some_iff {latest : Instant} :
    history.latest = some latest ↔ ledger.Latest latest := by
  rcases accounted.latest_reached with ⟨reached, wasAccepted⟩
  constructor
  · intro isLatest
    refine ⟨wasAccepted latest isLatest, ?_⟩
    intro pair mem
    rcases reached pair mem with ⟨other, isOther, notLater⟩
    rwa [Option.some.inj (isLatest.symm.trans isOther)]
  · rintro ⟨⟨value, mem⟩, greatest⟩
    rcases reached _ mem with ⟨other, isOther, notLater⟩
    rcases wasAccepted other isOther with ⟨_, otherMem⟩
    have same : other = latest :=
      Instant.toInt_injective (Int.le_antisymm (greatest _ otherMem) notLater)
    rw [isOther, same]

theorem latest_eq_none_iff : history.latest = none ↔ ledger.accepted = [] := by
  rcases accounted.latest_reached with ⟨reached, wasAccepted⟩
  constructor
  · intro isNone
    apply List.eq_nil_iff_forall_not_mem.mpr
    intro pair mem
    rcases reached pair mem with ⟨latest, isLatest, _⟩
    simp [isNone] at isLatest
  · intro nothing
    apply Option.eq_none_iff_forall_ne_some.mpr
    intro latest isLatest
    rcases wasAccepted latest isLatest with ⟨_, mem⟩
    simp [nothing] at mem

theorem inOrder_iff : (∀ latest, history.latest = some latest → latest ≤ time) ↔
    ∀ latest, ledger.Latest latest → latest ≤ time := by
  simp only [accounted.latest_eq_some_iff]

theorem write_eq_ok_iff (value : Value) : (history.write time value).1 = .ok () ↔
    (∀ latest, ledger.Latest latest → latest ≤ time) ∧ history.created ≤ time ∧
      time.toInt - history.created.toInt ≤ maxOffset := by
  rw [← accounted.inOrder_iff]
  constructor
  · intro accepted
    rcases write_of_accepted accepted with ⟨inOrder, ⟨started, inTime⟩, _⟩
    exact ⟨inOrder, started, by omega⟩
  · rintro ⟨inOrder, started, inTime⟩
    have inWindow : time.InWindow history.created := ⟨started, by omega⟩
    rw [write_of_inWindow inOrder inWindow]

theorem write_of_refused {fault : Fault} (refused : history.Refused ledger time fault)
    (value : Value) : history.write time value = (.error fault, history) := by
  cases refused with
  | beforeLatest isLatest early =>
    exact write_of_beforeLatest (accounted.latest_eq_some_iff.mpr isLatest) early value
  | beforeCreation inOrder early =>
    exact write_of_beforeCreation (accounted.inOrder_iff.mpr inOrder) early value
  | pastWindow inOrder late =>
    exact write_of_pastWindow (accounted.inOrder_iff.mpr inOrder) (by omega) value

/-- What is not accepted is refused for one of the three reasons. -/
theorem exists_refused {value : Value} {fault : Fault}
    (failed : (history.write time value).1 = .error fault) :
    ∃ reason, history.Refused ledger time reason := by
  by_cases inOrder : ∀ latest, ledger.Latest latest → latest ≤ time
  · by_cases started : history.created ≤ time
    · refine ⟨_, .pastWindow inOrder (Int.not_le.mp fun inTime => ?_)⟩
      have accepted := (accounted.write_eq_ok_iff value).mpr ⟨inOrder, started, inTime⟩
      simp [accepted] at failed
    · exact ⟨_, .beforeCreation inOrder (Instant.not_le.mp started)⟩
  · rcases Classical.not_forall.mp inOrder with ⟨latest, disordered⟩
    rcases Classical.not_imp.mp disordered with ⟨isLatest, early⟩
    exact ⟨_, .beforeLatest isLatest (Instant.not_le.mp early)⟩

theorem write_eq_error_iff {value : Value} {fault : Fault} :
    (history.write time value).1 = .error fault ↔ history.Refused ledger time fault := by
  constructor
  · intro failed
    rcases accounted.exists_refused failed with ⟨other, refused⟩
    have same := accounted.write_of_refused refused value
    rw [same] at failed
    rwa [← Except.error.inj failed]
  · intro refused
    rw [accounted.write_of_refused refused value]

end Accounted

section Sample

/-- A history with two values of one instant, of which the later one counts; what was written
before them is purged. -/
def tiedHistory : History :=
  ⟨⟨3⟩, "state", ⟨100⟩, some ⟨120⟩, [⟨20, .string "on"⟩, ⟨20, .string "off"⟩]⟩

def tiedLedger : Ledger where
  accepted := [(⟨100⟩, .int32 1), (⟨120⟩, .string "on"), (⟨120⟩, .string "off")]
  kept := [(⟨120⟩, .string "on"), (⟨120⟩, .string "off")]

/-- One of the writes goes back in time and is refused. -/
theorem tied_accounted : tiedHistory.Accounted tiedLedger := by
  have made : create ⟨3⟩ "state" ⟨100⟩ = .ok ⟨⟨3⟩, "state", ⟨100⟩, none, []⟩ := rfl
  have first := ((Accounted.create made).write ⟨100⟩ (.int32 1)).write ⟨120⟩ (.string "on")
  exact ((first.write ⟨110⟩ (.int32 2)).write ⟨120⟩ (.string "off")).purge ⟨110⟩

end Sample

/-- A history shows what its ledger has kept.  Its offsets ascend within their range, and no instant
of an entry exceeds the range of instants.  At every instant, whatever its distance from the
creation, a look-up is the last kept pair up to it, and a purge leaves the kept pairs after it. -/
theorem Accounted.course_exact (accounted : history.Accounted ledger) :
    (history.offsets.Pairwise fun earlier later => earlier.toInt ≤ later.toInt) ∧
    (∀ offset ∈ history.offsets, 0 ≤ offset.toInt ∧ offset.toInt ≤ maxOffset ∧
      (history.created.atOffset offset).toInt = history.created.toInt + offset.toInt) ∧
    history.offsets.length = history.values.length ∧
    history.log = ledger.kept ∧
    ∀ time,
      history.valueAt time = (ledger.kept.filter (·.1 ≤ time)).getLast?.map Prod.snd ∧
      ((history.purge time).1 = true ↔ ∃ pair ∈ ledger.kept, pair.1 ≤ time) ∧
      (history.purge time).2.log = ledger.kept.filter (time < ·.1) ∧
      (history.purge time).2.latest = history.latest ∧
      (history.purge time).2.created = history.created ∧
      (history.purge time).2.id = history.id ∧
      (history.purge time).2.name = history.name := by
  have sound := accounted.sound
  have logged := accounted.log_eq
  refine ⟨List.pairwise_map.mpr sound.ascending, ?_, ?_, logged, ?_⟩
  · intro offset mem
    rcases List.mem_map.mp mem with ⟨entry, entryMem, rfl⟩
    have := entry.offset.toInt_lt
    refine ⟨sound.nonnegative entry entryMem, ?_, sound.toInt_atOffset entryMem⟩
    simp only [maxOffset]
    omega
  · simp only [offsets, values, List.length_map]
  · intro time
    rw [← logged]
    refine ⟨sound.valueAt_eq time, ?_, sound.log_purge time, history.purge_latest time,
      history.purge_created time, history.purge_id time, history.purge_name time⟩
    rw [sound.purge_fst, List.any_eq_true]
    simp only [decide_eq_true_eq]

/-- The ends of the range of instants lie farther from the creation than offsets go. -/
theorem course_exact_sample :
    tiedHistory.valueAt ⟨Int64.maxValue⟩ = some (.string "off") ∧
      (tiedHistory.purge ⟨Int64.minValue⟩).1 = false ∧
      (tiedHistory.purge ⟨Int64.maxValue⟩).2.log = [] := by
  rcases tied_accounted.course_exact with ⟨_, _, _, _, each⟩
  rcases each ⟨Int64.maxValue⟩ with ⟨read, _, left, _⟩
  rcases each ⟨Int64.minValue⟩ with ⟨_, loses, _⟩
  rw [read, left, Bool.eq_false_iff, Ne, loses]
  decide

/-- The latest write of a history is the greatest instant that was ever accepted.  A write is
accepted exactly if it is not before that, not before the creation and not past the window;
otherwise it is refused for the first of these reasons and changes nothing. -/
theorem Accounted.admission_exact (accounted : history.Accounted ledger) :
    (∀ latest, history.latest = some latest ↔ ledger.Latest latest) ∧
    (history.latest = none ↔ ledger.accepted = []) ∧
    ∀ time value,
      ((history.write time value).1 = .ok () ↔
        (∀ latest, ledger.Latest latest → latest ≤ time) ∧ history.created ≤ time ∧
          time.toInt - history.created.toInt ≤ maxOffset) ∧
      ∀ fault,
        ((history.write time value).1 = .error fault ↔ history.Refused ledger time fault) ∧
        ((history.write time value).1 = .error fault → (history.write time value).2 = history) := by
  refine ⟨fun _ => accounted.latest_eq_some_iff, accounted.latest_eq_none_iff, ?_⟩
  intro time value
  refine ⟨accounted.write_eq_ok_iff value, ?_⟩
  intro fault
  refine ⟨accounted.write_eq_error_iff, ?_⟩
  intro failed
  rw [accounted.write_of_refused (accounted.write_eq_error_iff.mp failed) value]

/-- A purge of everything leaves the latest write in force. -/
theorem admission_exact_sample :
    (tiedHistory.purge ⟨120⟩).2.log = [] ∧
      ((tiedHistory.purge ⟨120⟩).2.write ⟨119⟩ (.int32 3)).1 =
        .error (.propertyOrdering (.beforeLatest "state" ⟨119⟩ ⟨120⟩)) ∧
      ((tiedHistory.purge ⟨120⟩).2.write ⟨120⟩ (.int32 3)).1 = .ok () ∧
      ((tiedHistory.purge ⟨120⟩).2.write ⟨2147483748⟩ (.int32 3)).1 =
        .error (.timeRange ⟨2147483748⟩ ⟨100⟩) := by
  rcases (tied_accounted.purge ⟨120⟩).admission_exact with ⟨latest, _, admission⟩
  have isLatest : (tiedLedger.purge ⟨120⟩).Latest ⟨120⟩ := (latest ⟨120⟩).mp (by decide)
  have onlyLatest : ∀ other, (tiedLedger.purge ⟨120⟩).Latest other → other = ⟨120⟩ := by
    intro other isOther
    have found := (latest other).mpr isOther
    exact (Option.some.inj found).symm
  refine ⟨by decide, ?_, ?_, ?_⟩
  · exact ((admission ⟨119⟩ (.int32 3)).2 _).1.mpr (.beforeLatest isLatest (by decide))
  · apply (admission ⟨120⟩ (.int32 3)).1.mpr
    refine ⟨?_, by decide, by decide⟩
    intro other isOther
    rw [onlyLatest other isOther]
    decide
  · refine ((admission ⟨2147483748⟩ (.int32 3)).2 _).1.mpr (.pastWindow ?_ (by decide))
    intro other isOther
    rw [onlyLatest other isOther]
    decide

end History

end TimedGraph
