import TimedGraph.Instant

/-!
# Instants in a window

The window of a reference holds the instants from the reference to the greatest offset
after it.  They are the instants that have an offset, and the offset is the distance.
-/

namespace TimedGraph.Instant

/-- An instant lies in the window of a reference. -/
def InWindow (time reference : Instant) : Prop :=
  reference.toInt ≤ time.toInt ∧ time.toInt ≤ reference.toInt + maxOffset

instance (time reference : Instant) : Decidable (InWindow time reference) :=
  inferInstanceAs (Decidable (_ ∧ _))

/-- The distance of an instant from a reference, for an instant in its window. -/
def since (time reference : Instant) : Offset :=
  Int32.ofInt (time.toInt - reference.toInt)

/-- The later of two instants. -/
instance : Max Instant := maxOfLe

variable {time reference : Instant} {offset : Offset}

theorem le_iff (first second : Instant) : first ≤ second ↔ first.toInt ≤ second.toInt :=
  Iff.rfl

theorem lt_iff (first second : Instant) : first < second ↔ first.toInt < second.toInt :=
  Iff.rfl

theorem toInt_injective {first second : Instant} (equal : first.toInt = second.toInt) :
    first = second :=
  congrArg Instant.mk (Int64.toInt_inj.mp equal)

theorem eq_iff (first second : Instant) : first = second ↔ first.toInt = second.toInt :=
  ⟨congrArg toInt, toInt_injective⟩

theorem not_le {first second : Instant} : ¬first ≤ second ↔ second < first :=
  Int.not_le

theorem not_lt {first second : Instant} : ¬first < second ↔ second ≤ first :=
  Int.not_lt

theorem le_trans {first second third : Instant} (earlier : first ≤ second)
    (later : second ≤ third) : first ≤ third :=
  Int.le_trans earlier later

theorem lt_of_lt_of_le {first second third : Instant} (earlier : first < second)
    (later : second ≤ third) : first < third :=
  Int.lt_of_lt_of_le earlier later

theorem max_eq (first second : Instant) :
    max first second = if first ≤ second then second else first :=
  rfl

theorem max_lt_iff {first second : Instant} : max first second < time ↔
    first < time ∧ second < time := by
  simp only [max_eq, lt_iff]
  split
  · rename_i later
    simp only [le_iff] at later
    omega
  · rename_i earlier
    simp only [le_iff] at earlier
    omega

theorem max_comm (first second : Instant) : max first second = max second first := by
  simp only [max_eq, eq_iff]
  split <;> split <;> simp only [le_iff] at * <;> omega

theorem max_self (instant : Instant) : max instant instant = instant :=
  ite_self instant

theorem InWindow.max {first second : Instant} (firstIn : first.InWindow reference)
    (secondIn : second.InWindow reference) : (max first second).InWindow reference := by
  rw [max_eq]
  split
  · exact secondIn
  · exact firstIn

theorem InWindow.of_le {first last : Instant} (here : last.InWindow reference)
    (lower : reference ≤ first) (upper : first ≤ last) : first.InWindow reference :=
  ⟨lower, Int.le_trans upper here.2⟩

theorem toInt_since (inWindow : time.InWindow reference) :
    (time.since reference).toInt = time.toInt - reference.toInt := by
  simp only [InWindow, maxOffset] at inWindow
  exact Int32.toInt_ofInt_of_le (by omega) (by omega)

theorem since_lt_since {first second : Instant} (firstIn : first.InWindow reference)
    (secondIn : second.InWindow reference) (earlier : first < second) :
    first.since reference < second.since reference := by
  rw [Int32.lt_iff_toInt_lt, toInt_since firstIn, toInt_since secondIn]
  simp only [lt_iff] at earlier
  omega

/-- A distance is exact, unless 64 bits do not hold it. -/
theorem distance?_cases (time reference : Instant) :
    (∃ distance, time.distance? reference = some distance ∧
      distance.toInt = time.toInt - reference.toInt) ∨
    (time.distance? reference = none ∧
      (time.toInt - reference.toInt < Int64.minValue.toInt ∨
        Int64.maxValue.toInt < time.toInt - reference.toInt)) := by
  simp only [distance?, BitVec.ssubOverflow, Int64.toInt_toBitVec, toInt, Int64.toInt_minValue,
    Int64.toInt_maxValue]
  split
  · rename_i overflows
    refine .inr ⟨rfl, ?_⟩
    simp only [Bool.or_eq_true, decide_eq_true_eq] at overflows
    omega
  · rename_i fits
    refine .inl ⟨_, rfl, ?_⟩
    simp only [Bool.or_eq_true, decide_eq_true_eq] at fits
    rw [Int64.toInt_sub]
    exact Int.bmod_eq_of_le (by omega) (by omega)

theorem toInt_saturatingDistance (time reference : Instant) :
    (time.saturatingDistance reference).toInt =
      max Int64.minValue.toInt (min (time.toInt - reference.toInt) Int64.maxValue.toInt) := by
  rcases distance?_cases time reference with ⟨distance, isDistance, exact⟩ | ⟨isNone, beyond⟩
  · have := distance.le_toInt
    have := distance.toInt_lt
    rw [saturatingDistance, isDistance, Option.getD_some, ← exact, Int64.toInt_minValue,
      Int64.toInt_maxValue]
    omega
  · rw [saturatingDistance, isNone, Option.getD_none]
    simp only [lt_iff]
    rw [Int64.toInt_minValue, Int64.toInt_maxValue] at beyond
    split
    · rw [Int64.toInt_minValue, Int64.toInt_maxValue]
      omega
    · rw [Int64.toInt_minValue, Int64.toInt_maxValue]
      omega

theorem offsetFrom?_eq (time reference : Instant) :
    time.offsetFrom? reference =
      if time.InWindow reference then some (time.since reference) else none := by
  have window : time.InWindow reference ↔ 0 ≤ time.toInt - reference.toInt ∧
      time.toInt - reference.toInt ≤ maxOffset := by
    simp only [InWindow]
    omega
  rcases distance?_cases time reference with ⟨distance, isDistance, exact⟩ | ⟨isNone, beyond⟩
  · have sameOffset : distance.toInt32 = time.since reference := by
      rw [since, ← exact, ← Int64.toInt32_ofInt, Int64.ofInt_toInt]
    simp only [offsetFrom?, isDistance, exact, sameOffset, window]
  · have outside : ¬time.InWindow reference := by
      simp only [window, maxOffset]
      rw [Int64.toInt_minValue, Int64.toInt_maxValue] at beyond
      omega
    simp only [offsetFrom?, isNone, if_neg outside]

theorem toInt_atOffset {instant last : Instant} (lower : 0 ≤ offset.toInt)
    (upper : instant.toInt + offset.toInt ≤ last.toInt) :
    (instant.atOffset offset).toInt = instant.toInt + offset.toInt := by
  have := instant.millis.le_toInt
  have := last.millis.toInt_lt
  simp only [toInt] at upper
  simp only [toInt, atOffset, Int64.toInt_add, Int32.toInt_toInt64]
  exact Int.bmod_eq_of_le (by omega) (by omega)

theorem atOffset_since (inWindow : time.InWindow reference) :
    reference.atOffset (time.since reference) = time := by
  have offset := toInt_since inWindow
  have lower : reference.toInt ≤ time.toInt := inWindow.1
  have upper : reference.toInt + (time.since reference).toInt ≤ time.toInt := by omega
  apply toInt_injective
  rw [toInt_atOffset (by omega) upper]
  omega

end TimedGraph.Instant
