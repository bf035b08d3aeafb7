import TimedGraph.Proofs.Word.Folding
import TimedGraph.Proofs.Word.Reading
import TimedGraph.Series.Basic

/-!
# Stored series are read back

A series that has a metric is nothing but its numbers: each value is the metric's value of
a 64-bit number that the metric can hold.  Both codecs are therefore treated on lists of
numbers, for the two metrics at once.  Plain words give the numbers back because none is
negative, and differences because the sums undo them, wrapping included.

The main result is `Series.toValues_ofValues`: whatever the values and the codec, what is
stored is read back.
-/

namespace TimedGraph

namespace Metric

/-- The 64-bit numbers that a value of the metric can hold. -/
def Holds (metric : Metric) (number : Int64) : Prop :=
  match metric with
  | int32 => Int32.minValue.toInt ≤ number.toInt ∧ number.toInt ≤ Int32.maxValue.toInt
  | int64 => True

variable {metric : Metric} {values : List Value}

theorem exists_number {value : Value} (ofMetric : ofValue? value = some metric) :
    ∃ number, value.int64? = some number ∧ metric.value number.toInt = value ∧
      metric.Holds number := by
  cases value with
  | int32 number =>
    have same : int32 = metric := by simpa [ofValue?] using ofMetric
    subst same
    refine ⟨number.toInt64, rfl, ?_, ?_⟩
    · simp [Metric.value]
    · have := number.le_toInt
      have := number.toInt_lt
      simp only [Holds, Int32.toInt_minValue, Int32.toInt_maxValue, Int32.toInt_toInt64]
      omega
  | int64 number =>
    have same : int64 = metric := by simpa [ofValue?] using ofMetric
    subst same
    exact ⟨number, rfl, by simp [Metric.value], trivial⟩
  | bool _ => simp [ofValue?] at ofMetric
  | float64 _ => simp [ofValue?] at ofMetric
  | string _ => simp [ofValue?] at ofMetric
  | bytes _ => simp [ofValue?] at ofMetric

theorem detect_eq_ok (detected : detect values = .ok metric) :
    values ≠ [] ∧ ∀ value ∈ values, ofValue? value = some metric := by
  cases values with
  | nil => simp [detect] at detected
  | cons first rest =>
    refine ⟨by simp, ?_⟩
    simp only [detect] at detected
    split at detected
    · simp at detected
    · rename_i firstMetric firstOf
      split at detected
      · simp at detected
      · rename_i noOther
        have same : firstMetric = metric := by simpa using detected
        subst same
        intro value mem
        rcases List.mem_cons.mp mem with rfl | later
        · exact firstOf
        · simpa using List.find?_eq_none.mp noOther value later

/-- A series of one metric is the list of its numbers. -/
theorem map_value_numbers (ofMetric : ∀ value ∈ values, ofValue? value = some metric) :
    (values.filterMap Value.int64?).map (fun number => metric.value number.toInt) = values := by
  induction values with
  | nil => rfl
  | cons first rest ih =>
    rcases exists_number (ofMetric first List.mem_cons_self) with ⟨number, isNumber, back, _⟩
    have restBack := ih fun value mem => ofMetric value (List.mem_cons_of_mem _ mem)
    simp only [List.filterMap_cons_some isNumber, List.map_cons, back, restBack]

theorem holds_numbers (ofMetric : ∀ value ∈ values, ofValue? value = some metric) :
    ∀ number ∈ values.filterMap Value.int64?, metric.Holds number := by
  intro number mem
  rcases List.mem_filterMap.mp mem with ⟨value, valueMem, isNumber⟩
  rcases exists_number (ofMetric value valueMem) with ⟨same, isSame, _, holds⟩
  have same : number = same := Option.some.inj (isNumber.symm.trans isSame)
  subst same
  exact holds

end Metric

namespace Differences

variable {metric : Metric}

theorem sumsFrom_stepsFrom (previous : Int64) (values : List Int64) :
    sumsFrom previous (stepsFrom previous values) = values := by
  induction values generalizing previous with
  | nil => rfl
  | cons value rest ih =>
    have back : previous + (value - previous) = value := by
      rw [Int64.add_comm, Int64.sub_add_cancel]
    simp only [stepsFrom, sumsFrom, back, ih]

theorem toInt64s_ofList {differences : Differences} {numbers : List Int64}
    (reduced : ofList metric numbers = .ok differences) :
    differences.metric = metric ∧ differences.toInt64s = numbers := by
  cases numbers with
  | nil => simp [ofList] at reduced
  | cons first rest =>
    have same : _ = differences := Except.ok.inj reduced
    subst same
    exact ⟨rfl, congrArg (first :: ·) (sumsFrom_stepsFrom first rest)⟩

theorem ofValues_eq {values : List Value} (detected : Metric.detect values = .ok metric) :
    ofValues values = ofList metric (values.filterMap Value.int64?) := by
  rw [ofValues, detected]
  rfl

theorem mapM_narrow {numbers : List Int64} (holds : ∀ number ∈ numbers, Metric.int32.Holds number) :
    numbers.mapM narrow = .ok (numbers.map Int64.toInt32) := by
  induction numbers with
  | nil => rfl
  | cons number rest ih =>
    have first : narrow number = .ok number.toInt32 := if_pos (holds number List.mem_cons_self)
    have others := ih fun other mem => holds other (List.mem_cons_of_mem _ mem)
    simp only [List.mapM_cons, first, others]
    rfl

/-- The values of a series whose numbers the metric can hold. -/
theorem toValues_eq_ok {differences : Differences}
    (holds : ∀ number ∈ differences.toInt64s, differences.metric.Holds number) :
    differences.toValues =
      .ok (differences.toInt64s.map fun number => differences.metric.value number.toInt) := by
  rcases differences with ⟨metric, base, steps⟩
  cases metric with
  | int32 =>
    simp only [toValues, toInt32s, mapM_narrow holds]
    simp [Functor.map, Except.map, Metric.value]
  | int64 => simp [toValues, Metric.value]

theorem ofBytes_toBytes (differences : Differences) :
    ofBytes differences.metric differences.toBytes = .ok differences := by
  rcases differences with ⟨metric, base, steps⟩
  have bytes : toBytes ⟨metric, base, steps⟩ =
      ((base :: steps).map fun step => (Folded.fold64 step).toNat).flatMap Varint.word := by
    simp [toBytes, toList, List.flatMap_map]
  have places : Varint.readAll .unsigned64 (toBytes ⟨metric, base, steps⟩) =
      .ok ((base :: steps).map fun step => (Folded.fold64 step).toNat) := by
    simp only [bytes]
    apply Varint.readAll_words _ (by decide)
    intro place mem
    rcases List.mem_map.mp mem with ⟨step, _, rfl⟩
    exact UInt64.toNat_lt _
  simp [ofBytes, places, bind, Except.bind, Function.comp_def]

end Differences

namespace Encoded

variable {values : List Value} {codec : Codec}

theorem toNat_lt_target {metric : Metric} {number : Int64} (holds : metric.Holds number)
    (nonnegative : 0 ≤ number.toInt) : number.toInt.toNat < (target metric).limit := by
  cases metric with
  | int32 =>
    simp only [Metric.Holds, Int32.toInt_maxValue] at holds
    have limit : (target .int32).limit = 2 ^ 31 := rfl
    omega
  | int64 =>
    have := number.toInt_lt
    have limit : (target .int64).limit = 2 ^ 63 := rfl
    omega

theorem bytesOf_varint (values : List Value) :
    bytesOf values .varint =
      Varint.signedWords ((values.filterMap Value.int64?).map Int64.toInt) :=
  congrArg Varint.signedWords List.map_filterMap.symm

theorem contents_varint {metric : Metric} {length : Nat} {bytes : List UInt8}
    (ofMetric : ∀ value ∈ values, Metric.ofValue? value = some metric)
    (written : bytesOf values .varint = .ok bytes) :
    contents ⟨metric, .varint, length, bytes⟩ = .ok values := by
  let numbers := values.filterMap Value.int64?
  have written : Varint.signedWords (numbers.map Int64.toInt) = .ok bytes :=
    (bytesOf_varint values).symm.trans written
  rcases Varint.signedWords_eq_ok_iff.mp written with ⟨nonnegative, rfl⟩
  have fits : ∀ number ∈ (numbers.map Int64.toInt).map Int.toNat,
      number < (target metric).limit := by
    intro number mem
    simp only [List.map_map, List.mem_map, Function.comp_apply] at mem
    rcases mem with ⟨source, sourceMem, rfl⟩
    exact toNat_lt_target (Metric.holds_numbers ofMetric source sourceMem)
      (nonnegative _ (List.mem_map_of_mem sourceMem))
  have someBits : 0 < (target metric).bits := by cases metric <;> decide
  simp only [contents, Varint.readAll_words _ someBits fits, Functor.map, Except.map,
    Except.ok.injEq]
  calc
    _ = numbers.map fun number => metric.value number.toInt := by
      simp only [List.map_map]
      apply List.map_congr_left
      intro number mem
      have := nonnegative _ (List.mem_map_of_mem mem)
      simp only [Function.comp_apply, Int.toNat_of_nonneg this]
    _ = values := Metric.map_value_numbers ofMetric

theorem contents_deltaVarint {metric : Metric} {length : Nat} {bytes : List UInt8}
    (detected : Metric.detect values = .ok metric)
    (written : bytesOf values .deltaVarint = .ok bytes) :
    contents ⟨metric, .deltaVarint, length, bytes⟩ = .ok values := by
  rcases Metric.detect_eq_ok detected with ⟨_, ofMetric⟩
  simp only [bytesOf, Differences.ofValues_eq detected] at written
  cases reduced : Differences.ofList metric (values.filterMap Value.int64?) with
  | error fault => simp [reduced, Functor.map, Except.map] at written
  | ok differences =>
    have same : differences.toBytes = bytes := by
      simpa [reduced, Functor.map, Except.map] using written
    subst same
    rcases Differences.toInt64s_ofList reduced with ⟨rfl, numbers⟩
    have holds : ∀ number ∈ differences.toInt64s, differences.metric.Holds number :=
      numbers ▸ Metric.holds_numbers ofMetric
    have restored := Differences.toValues_eq_ok holds
    simp only [numbers, Metric.map_value_numbers ofMetric] at restored
    simp only [contents, Differences.ofBytes_toBytes]
    exact restored

theorem decode_encode {series : Encoded} (encoded : encode values codec = .ok series) :
    series.decode = .ok values := by
  cases detected : Metric.detect values with
  | error fault => simp [encode, detected, bind, Except.bind] at encoded
  | ok metric =>
    cases written : bytesOf values codec with
    | error fault => simp [encode, detected, written, bind, Except.bind] at encoded
    | ok bytes =>
      have same : ⟨metric, codec, values.length, bytes⟩ = series := by
        simpa [encode, detected, written, bind, Except.bind, pure, Except.pure] using encoded
      subst same
      have read : contents ⟨metric, codec, values.length, bytes⟩ = .ok values := by
        cases codec with
        | varint => exact contents_varint (Metric.detect_eq_ok detected).2 written
        | deltaVarint => exact contents_deltaVarint detected written
      simp [decode, read, bind, Except.bind]

end Encoded

/-- What is stored as a series is read back, whatever the values and the codec. -/
@[simp]
theorem Series.toValues_ofValues (values : List Value) (codec : Codec) :
    (Series.ofValues values codec).toValues = .ok values := by
  simp only [ofValues]
  split
  · rename_i series encoded
    exact Encoded.decode_encode encoded
  · rfl

end TimedGraph
