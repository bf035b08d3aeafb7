import TimedGraph.Proofs.Series.Encodability

/-!
# Reading bytes that no encoder wrote

Decoding takes any bytes that are words throughout, with zero digits at the end of a word as
well.  What it accepts is sound: as many values as recorded, all of the metric, and none
negative where words are plain.  Encoding these values again writes each word of the bytes in
its shortest form, because the numbers of plain words are the values themselves, and the steps
between the sums of steps are those steps, wrapping included.  The new bytes are therefore not
more than the old, and the same just if the old words were minimal.
-/

namespace TimedGraph

namespace Metric

variable {metric : Metric} {number : Int64} {numbers : List Int64}

theorem ofValue?_value (metric : Metric) (number : Int) :
    ofValue? (metric.value number) = some metric := by
  cases metric <;> rfl

theorem int64?_value (holds : metric.Holds number) :
    (metric.value number.toInt).int64? = some number := by
  cases metric with
  | int32 =>
    simp only [Holds, Int32.toInt_minValue, Int32.toInt_maxValue] at holds
    simp only [Metric.value, Value.int64?, Option.some.injEq]
    apply Int64.toInt_inj.mp
    rw [Int32.toInt_toInt64, Int32.toInt_ofInt_of_le (by omega) (by omega)]
  | int64 => simp [Metric.value, Value.int64?]

/-- The numbers of a series are found again in it. -/
theorem filterMap_numbers (holds : ∀ number ∈ numbers, metric.Holds number) :
    (numbers.map fun number => metric.value number.toInt).filterMap Value.int64? = numbers := by
  induction numbers with
  | nil => rfl
  | cons first rest ih =>
    rcases List.forall_mem_cons.mp holds with ⟨firstHolds, restHold⟩
    rw [List.map_cons, List.filterMap_cons_some (int64?_value firstHolds), ih restHold]

theorem detect_numbers (nonempty : numbers ≠ []) :
    detect (numbers.map fun number => metric.value number.toInt) = .ok metric := by
  apply detect_eq_ok_iff.mpr
  refine ⟨by simpa using nonempty, ?_⟩
  intro value mem
  rcases List.mem_map.mp mem with ⟨number, _, rfl⟩
  exact metric.ofValue?_value _

end Metric

namespace Differences

variable {metric : Metric} {differences : Differences} {values : List Value} {bytes : List UInt8}

theorem stepsFrom_sumsFrom (previous : Int64) (steps : List Int64) :
    stepsFrom previous (sumsFrom previous steps) = steps := by
  induction steps generalizing previous with
  | nil => rfl
  | cons step rest ih =>
    have back : previous + step - previous = step := by
      rw [Int64.add_comm, Int64.add_sub_cancel]
    simp only [sumsFrom, stepsFrom, back, ih]

theorem ofList_toInt64s (differences : Differences) :
    ofList differences.metric differences.toInt64s = .ok differences := by
  simp only [toInt64s, ofList, stepsFrom_sumsFrom]

theorem holds_of_mapM_narrow {numbers : List Int64} {narrowed : List Int32}
    (narrowing : numbers.mapM narrow = .ok narrowed) :
    ∀ number ∈ numbers, Metric.int32.Holds number := by
  induction numbers generalizing narrowed with
  | nil => simp
  | cons first rest ih =>
    simp only [List.mapM_cons, bind_eq_ok] at narrowing
    rcases narrowing with ⟨_, firstNarrow, _, restNarrow, _⟩
    refine List.forall_mem_cons.mpr ⟨?_, ih restNarrow⟩
    simp only [narrow] at firstNarrow
    split at firstNarrow
    · assumption
    · simp at firstNarrow

theorem holds_of_toValues (restored : differences.toValues = .ok values) :
    ∀ number ∈ differences.toInt64s, differences.metric.Holds number := by
  rcases differences with ⟨metric, base, steps⟩
  cases metric with
  | int32 =>
    rcases map_eq_ok.mp restored with ⟨narrowed, narrowing, _⟩
    exact holds_of_mapM_narrow narrowing
  | int64 =>
    intro number _
    trivial

/-- Differences that were read are written as the shortest words of what was read. -/
theorem toBytes_of_ofBytes (read : ofBytes metric bytes = .ok differences) :
    differences.metric = metric ∧
      differences.toBytes = ((Varint.split bytes).map Varint.number).flatMap Varint.word := by
  simp only [ofBytes, bind_eq_ok] at read
  rcases read with ⟨places, isPlaces, read⟩
  rcases Varint.readAll_eq_ok isPlaces with ⟨_, rfl, fits⟩
  generalize (Varint.split bytes).map Varint.number = places at *
  cases unfolded : places.map fun place => Folded.unfold64 (.ofNat place) with
  | nil => simp [unfolded] at read
  | cons base steps =>
    simp only [unfolded, Except.ok.injEq] at read
    subst read
    refine ⟨rfl, ?_⟩
    have whole : toList ⟨metric, base, steps⟩ = _ := unfolded.symm
    rw [toBytes, whole, List.flatMap_map, List.flatMap_def, List.flatMap_def]
    refine congrArg List.flatten (List.map_congr_left fun place mem => ?_)
    have inRange : place < UInt64.size := fits place mem
    rw [Folded.fold64_unfold64, UInt64.toNat_ofNat_of_lt' inRange]

end Differences

namespace Encoded

variable {series other : Encoded} {values : List Value}

/-- The words of the bytes, each in its shortest form. -/
def shortest (series : Encoded) : List UInt8 :=
  ((Varint.split series.bytes).map Varint.number).flatMap Varint.word

/-- The bytes of a series hold values if these are numbers of the metric, not negative in plain
words, and are written as the shortest words of the bytes. -/
structure Holding (series : Encoded) (values : List Value) : Prop where
  areWords : ∀ bytes ∈ Varint.split series.bytes, Varint.IsWord bytes
  ofMetric : ∀ value ∈ values, Metric.ofValue? value = some series.metric
  nonnegative : series.codec = .varint → ∀ value ∈ values, value.Nonnegative
  written : bytesOf values series.codec = .ok series.shortest

theorem lt_of_target {metric : Metric} {number : Nat} (fits : number < (target metric).limit) :
    metric.Holds (.ofNat number) ∧ (Int64.ofNat number).toInt = number := by
  have narrow : (target .int32).limit = 2 ^ 31 := rfl
  have wide : (target .int64).limit = 2 ^ 63 := rfl
  have inRange : number < 2 ^ 63 := by
    cases metric with
    | int32 => omega
    | int64 => omega
  have same : (Int64.ofNat number).toInt = number := Int64.toInt_ofNat_of_lt inRange
  refine ⟨?_, same⟩
  cases metric with
  | int32 =>
    simp only [Metric.Holds, same, Int32.toInt_minValue, Int32.toInt_maxValue]
    omega
  | int64 => trivial

theorem holding_varint (isVarint : series.codec = .varint)
    (read : series.contents = .ok values) : series.Holding values := by
  rcases series with ⟨metric, codec, length, bytes⟩
  subst isVarint
  rcases map_eq_ok.mp read with ⟨numbers, isNumbers, rfl⟩
  rcases Varint.readAll_eq_ok isNumbers with ⟨areWords, numbersEq, fits⟩
  have asNumbers : (numbers.map fun (number : Nat) => metric.value number) =
      (numbers.map Int64.ofNat).map fun number => metric.value number.toInt := by
    rw [List.map_map]
    apply List.map_congr_left
    intro number mem
    rw [Function.comp_apply, (lt_of_target (fits number mem)).2]
  have holds : ∀ number ∈ numbers.map Int64.ofNat, metric.Holds number := by
    intro number mem
    rcases List.mem_map.mp mem with ⟨source, sourceMem, rfl⟩
    exact (lt_of_target (fits source sourceMem)).1
  have back : (numbers.map Int64.ofNat).map Int64.toInt =
      numbers.map fun (number : Nat) => ↑number := by
    rw [List.map_map]
    apply List.map_congr_left
    intro number mem
    exact (lt_of_target (fits number mem)).2
  have written : bytesOf (numbers.map fun (number : Nat) => metric.value number) .varint =
      .ok (numbers.flatMap Varint.word) := by
    rw [asNumbers, bytesOf_varint, Metric.filterMap_numbers holds, back]
    apply Varint.signedWords_eq_ok_iff.mpr
    simp [Function.comp_def]
  refine ⟨areWords, ?_, ?_, ?_⟩
  · intro value mem
    rcases List.mem_map.mp mem with ⟨number, _, rfl⟩
    exact metric.ofValue?_value number
  · intro _
    exact exists_bytesOf_varint_iff.mp ⟨_, written⟩
  · rw [shortest, ← numbersEq]
    exact written

theorem holding_deltaVarint (isDelta : series.codec = .deltaVarint)
    (read : series.contents = .ok values) : series.Holding values := by
  rcases series with ⟨metric, codec, length, bytes⟩
  subst isDelta
  rcases bind_eq_ok.mp read with ⟨differences, isDifferences, restored⟩
  rcases bind_eq_ok.mp isDifferences with ⟨_, isPlaces, _⟩
  rcases Differences.toBytes_of_ofBytes isDifferences with ⟨rfl, shortestBytes⟩
  have holds := Differences.holds_of_toValues restored
  have same := (Differences.toValues_eq_ok holds).symm.trans restored
  simp only [Except.ok.injEq] at same
  subst same
  have detected : Metric.detect (differences.toInt64s.map fun number =>
      differences.metric.value number.toInt) = .ok differences.metric :=
    Metric.detect_numbers (by simp [Differences.toInt64s])
  refine ⟨(Varint.readAll_eq_ok isPlaces).1, (Metric.detect_eq_ok detected).2, nofun, ?_⟩
  rw [bytesOf, Differences.ofValues_eq detected, Metric.filterMap_numbers holds,
    Differences.ofList_toInt64s]
  exact congrArg Except.ok shortestBytes

theorem decode_eq_ok (decoded : series.decode = .ok values) :
    series.contents = .ok values ∧ values.length = series.length := by
  rcases bind_eq_ok.mp decoded with ⟨found, isFound, counted⟩
  split at counted
  · rename_i sameLength
    rw [Except.ok.injEq] at counted
    subst counted
    exact ⟨isFound, sameLength⟩
  · simp at counted

theorem holding_of_decode (decoded : series.decode = .ok values) : series.Holding values := by
  have read := (decode_eq_ok decoded).1
  cases isCodec : series.codec with
  | varint => exact holding_varint isCodec read
  | deltaVarint => exact holding_deltaVarint isCodec read

namespace Holding

theorem length_shortest_le (holding : series.Holding values) :
    series.shortest.length ≤ series.bytes.length := by
  have short := Varint.length_words_le holding.areWords
  rwa [Varint.flatten_split] at short

theorem shortest_eq_iff (holding : series.Holding values) :
    series.shortest = series.bytes ↔
      ∀ bytes ∈ Varint.split series.bytes, Varint.Minimal bytes := by
  have same := Varint.words_eq_flatten_iff holding.areWords
  rwa [Varint.flatten_split] at same

theorem encode_eq_ok (holding : series.Holding values) (nonempty : values ≠ []) :
    encode values series.codec =
      .ok ⟨series.metric, series.codec, values.length, series.shortest⟩ := by
  have detected := Metric.detect_eq_ok_iff.mpr ⟨nonempty, holding.ofMetric⟩
  exact encode_eq_ok_iff.mpr ⟨_, _, detected, holding.written, rfl⟩

end Holding

/-- What is decoded, from whatever bytes, is as many values of the metric as recorded.  Encoding
them again gives a series of no more bytes, and of the same bytes just if these are minimal words.
So minimal words are determined by the values. -/
theorem decode_canonical (decoded : series.decode = .ok values) :
    values.length = series.length ∧
      (∀ value ∈ values, Metric.ofValue? value = some series.metric ∧
        (series.codec = .varint → value.Nonnegative)) ∧
      (∀ bytes ∈ Varint.split series.bytes, Varint.IsWord bytes) ∧
      (values ≠ [] → ∃ again, encode values series.codec = .ok again ∧
        again.metric = series.metric ∧ again.codec = series.codec ∧
        again.length = series.length ∧ again.bytes.length ≤ series.bytes.length ∧
        (again.bytes = series.bytes ↔
          ∀ bytes ∈ Varint.split series.bytes, Varint.Minimal bytes)) ∧
      ∀ other : Encoded, other.codec = series.codec → other.decode = .ok values →
        (∀ bytes ∈ Varint.split series.bytes, Varint.Minimal bytes) →
        (∀ bytes ∈ Varint.split other.bytes, Varint.Minimal bytes) →
        other.bytes = series.bytes := by
  have holding := holding_of_decode decoded
  have counted := (decode_eq_ok decoded).2
  refine ⟨counted, ?_, holding.areWords, ?_, ?_⟩
  · intro value mem
    exact ⟨holding.ofMetric value mem, fun isVarint => holding.nonnegative isVarint value mem⟩
  · intro nonempty
    exact ⟨_, holding.encode_eq_ok nonempty, rfl, rfl, counted, holding.length_shortest_le,
      holding.shortest_eq_iff⟩
  · intro other sameCodec otherDecoded minimal otherMinimal
    have otherHolding := holding_of_decode otherDecoded
    have sameShortest : other.shortest = series.shortest := by
      apply Except.ok.inj (ε := CodecFault)
      rw [← otherHolding.written, ← holding.written, sameCodec]
    calc
      other.bytes = other.shortest := (otherHolding.shortest_eq_iff.mpr otherMinimal).symm
      _ = series.shortest := sameShortest
      _ = series.bytes := holding.shortest_eq_iff.mpr minimal

/-- A series whose first word ends in a zero digit. -/
def sampleForged : Encoded :=
  ⟨.int32, .deltaVarint, 2, [0x86, 0x00, 0x0D]⟩

theorem decode_canonical_sample :
    sampleForged.decode = .ok [.int32 3, .int32 (-4)] ∧
      ∃ again, encode [.int32 3, .int32 (-4)] .deltaVarint = .ok again ∧
        again.bytes.length ≤ 3 ∧ again.bytes ≠ sampleForged.bytes := by
  have decoded : sampleForged.decode = .ok [.int32 3, .int32 (-4)] := by rfl
  rcases decode_canonical decoded with ⟨_, _, _, reencoded, _⟩
  rcases reencoded (by simp) with ⟨again, encoded, _, _, _, short, same⟩
  refine ⟨decoded, again, encoded, short, ?_⟩
  intro equal
  exact absurd (same.mp equal) (by decide)

end Encoded

end TimedGraph
