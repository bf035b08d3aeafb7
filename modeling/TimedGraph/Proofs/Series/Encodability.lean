import TimedGraph.Proofs.Series.RoundTrip

/-!
# Which series are encoded

A series can be encoded just if it has a value, holds integers of one width only, and holds no
negative one where numbers are written as plain words.  `Encoded.Refused` says why any other
series cannot: it is read off the series from the left, as its shortest beginning that goes
wrong.  Emptiness and mixed values are found before any number is looked at.
-/

namespace TimedGraph

/-- A value is no negative number. -/
def Value.Nonnegative (value : Value) : Prop :=
  ∀ number, value.int64? = some number → 0 ≤ number.toInt

/-- Values are all 32-bit integers or all 64-bit integers. -/
def Homogeneous (values : List Value) : Prop :=
  (∀ value ∈ values, ∃ number, value = .int32 number) ∨
    ∀ value ∈ values, ∃ number, value = .int64 number

/-- Why a series has no encoding under a codec. -/
inductive Encoded.Refused : List Value → Codec → CodecFault → Prop where
  | empty (codec : Codec) : Refused [] codec .emptyInput
  /-- The first value with which the series stops being homogeneous. -/
  | foreign {before after : List Value} {other : Value} (codec : Codec)
      (homogeneous : Homogeneous before) (breaks : ¬Homogeneous (before ++ [other])) :
      Refused (before ++ other :: after) codec (.unsupportedType other.typeName)
  /-- The first negative number of a homogeneous series. -/
  | negative {before after : List Value} {value : Value} {number : Int64}
      (homogeneous : Homogeneous (before ++ value :: after))
      (earlier : ∀ other ∈ before, other.Nonnegative)
      (isNumber : value.int64? = some number) (negative : number.toInt < 0) :
      Refused (before ++ value :: after) .varint (.negativeValue number.toInt)

variable {metric : Metric} {values before after : List Value} {other : Value} {codec : Codec}
  {fault : CodecFault}

theorem homogeneous_iff :
    Homogeneous values ↔ ∃ metric, ∀ value ∈ values, Metric.ofValue? value = some metric := by
  have ofInt32 (value : Value) :
      Metric.ofValue? value = some .int32 ↔ ∃ number, value = .int32 number := by
    cases value <;> simp [Metric.ofValue?]
  have ofInt64 (value : Value) :
      Metric.ofValue? value = some .int64 ↔ ∃ number, value = .int64 number := by
    cases value <;> simp [Metric.ofValue?]
  simp only [Homogeneous, ← ofInt32, ← ofInt64]
  constructor
  · rintro (narrow | wide)
    · exact ⟨.int32, narrow⟩
    · exact ⟨.int64, wide⟩
  · rintro ⟨_ | _, ofMetric⟩
    · exact .inl ofMetric
    · exact .inr ofMetric

theorem homogeneous_nil : Homogeneous [] :=
  .inl (by simp)

namespace Metric

theorem detect_eq_ok_iff :
    detect values = .ok metric ↔
      values ≠ [] ∧ ∀ value ∈ values, ofValue? value = some metric := by
  refine ⟨detect_eq_ok, ?_⟩
  rintro ⟨nonempty, ofMetric⟩
  cases values with
  | nil => exact absurd rfl nonempty
  | cons first rest =>
    rcases List.forall_mem_cons.mp ofMetric with ⟨firstOf, restOf⟩
    have noOther : rest.find? (fun value => ofValue? value ≠ some metric) = none := by
      apply List.find?_eq_none.mpr
      intro value mem
      simp [restOf value mem]
    simp only [detect, firstOf, noOther]

/-- The value that breaks homogeneity is the one whose type the fault names. -/
theorem detect_of_foreign (homogeneous : Homogeneous before)
    (breaks : ¬Homogeneous (before ++ [other])) (after : List Value) :
    detect (before ++ other :: after) = .error (.unsupportedType other.typeName) := by
  cases before with
  | nil =>
    have foreign : ofValue? other = none := by
      apply Option.eq_none_iff_forall_ne_some.mpr
      intro metric isMetric
      apply breaks
      exact homogeneous_iff.mpr ⟨metric, by simpa using isMetric⟩
    simp only [List.nil_append, detect, foreign]
  | cons first earlier =>
    rcases homogeneous_iff.mp homogeneous with ⟨metric, ofMetric⟩
    rcases List.forall_mem_cons.mp ofMetric with ⟨firstOf, earlierOf⟩
    have foreign : ofValue? other ≠ some metric := by
      intro isMetric
      apply breaks
      refine homogeneous_iff.mpr ⟨metric, ?_⟩
      intro value mem
      rcases List.mem_append.mp mem with old | new
      · exact ofMetric value old
      · rwa [List.mem_singleton.mp new]
    have found : (earlier ++ other :: after).find? (fun value => ofValue? value ≠ some metric) =
        some other := by
      apply List.find?_eq_some_iff_append.mpr
      refine ⟨by simpa using foreign, earlier, after, rfl, ?_⟩
      intro value mem
      simp [earlierOf value mem]
    simp only [List.cons_append, detect, firstOf, found]

theorem detect_eq_error_iff :
    detect values = .error fault ↔
      (values = [] ∧ fault = .emptyInput) ∨
      ∃ before other after, values = before ++ other :: after ∧ Homogeneous before ∧
        ¬Homogeneous (before ++ [other]) ∧ fault = .unsupportedType other.typeName := by
  constructor
  · intro failed
    cases values with
    | nil => exact .inl ⟨rfl, (Except.error.inj failed).symm⟩
    | cons first rest =>
      refine .inr ?_
      simp only [detect] at failed
      split at failed
      · rename_i foreign
        refine ⟨[], first, rest, rfl, homogeneous_nil, ?_, (Except.error.inj failed).symm⟩
        intro homogeneous
        rcases homogeneous_iff.mp homogeneous with ⟨metric, ofMetric⟩
        simp [foreign] at ofMetric
      · rename_i metric firstOf
        split at failed
        · rename_i other found
          rcases List.find?_eq_some_iff_append.mp found with ⟨foreign, earlier, after, rfl, agree⟩
          refine ⟨first :: earlier, other, after, rfl, ?_, ?_, (Except.error.inj failed).symm⟩
          · refine homogeneous_iff.mpr ⟨metric, List.forall_mem_cons.mpr ⟨firstOf, ?_⟩⟩
            intro value mem
            simpa using agree value mem
          · intro homogeneous
            rcases homogeneous_iff.mp homogeneous with ⟨otherMetric, ofMetric⟩
            have same : metric = otherMetric :=
              Option.some.inj (firstOf.symm.trans (ofMetric first (.head _)))
            have isMetric := ofMetric other (by simp)
            simp [isMetric, same] at foreign
        · simp at failed
  · rintro (⟨rfl, rfl⟩ | ⟨before, other, after, rfl, homogeneous, breaks, rfl⟩)
    · rfl
    · exact detect_of_foreign homogeneous breaks after

end Metric

namespace Encoded

theorem encode_eq_ok_iff {series : Encoded} :
    encode values codec = .ok series ↔ ∃ metric bytes, Metric.detect values = .ok metric ∧
      bytesOf values codec = .ok bytes ∧ ⟨metric, codec, values.length, bytes⟩ = series := by
  simp only [encode, bind_eq_ok, pure, Except.pure, Except.ok.injEq]
  constructor
  · rintro ⟨metric, detected, bytes, written, same⟩
    exact ⟨metric, bytes, detected, written, same⟩
  · rintro ⟨metric, bytes, detected, written, same⟩
    exact ⟨metric, detected, bytes, written, same⟩

theorem encode_eq_error_iff :
    encode values codec = .error fault ↔ Metric.detect values = .error fault ∨
      ∃ metric, Metric.detect values = .ok metric ∧ bytesOf values codec = .error fault := by
  simp only [encode, bind_eq_error, pure, Except.pure, reduceCtorEq, and_false, exists_false,
    or_false]

theorem forall_nonnegative_iff :
    (∀ value ∈ values, value.Nonnegative) ↔
      ∀ number ∈ (values.filterMap Value.int64?).map Int64.toInt, 0 ≤ number := by
  simp only [List.mem_map, List.mem_filterMap]
  constructor
  · rintro nonnegative _ ⟨number, ⟨value, mem, isNumber⟩, rfl⟩
    exact nonnegative value mem number isNumber
  · intro nonnegative value mem number isNumber
    exact nonnegative _ ⟨number, ⟨value, mem, isNumber⟩, rfl⟩

theorem exists_bytesOf_varint_iff :
    (∃ bytes, bytesOf values .varint = .ok bytes) ↔ ∀ value ∈ values, value.Nonnegative := by
  simp only [bytesOf_varint, Varint.signedWords_eq_ok_iff, exists_and_left, exists_eq', and_true,
    forall_nonnegative_iff]

theorem bytesOf_varint_eq_error_iff :
    bytesOf values .varint = .error fault ↔
      ∃ before value after number, values = before ++ value :: after ∧
        (∀ other ∈ before, other.Nonnegative) ∧ value.int64? = some number ∧ number.toInt < 0 ∧
        .negativeValue number.toInt = fault := by
  rw [bytesOf_varint, Varint.signedWords_eq_error_iff]
  constructor
  · rintro ⟨_, _, _, cut, nonnegative, negative, same⟩
    rcases List.map_eq_append_iff.mp cut with ⟨earlier, _, numbersCut, rfl, laterCut⟩
    rcases List.map_eq_cons_iff.mp laterCut with ⟨number, _, rfl, rfl, rfl⟩
    rcases List.filterMap_eq_append_iff.mp numbersCut with ⟨before, _, rfl, rfl, restCut⟩
    rcases List.filterMap_eq_cons_iff.mp restCut with
      ⟨between, value, after, rfl, noNumbers, isNumber, _⟩
    refine ⟨before ++ between, value, after, number, (List.append_assoc ..).symm, ?_, isNumber,
      negative, same⟩
    intro other mem
    rcases List.mem_append.mp mem with early | late
    · exact forall_nonnegative_iff.mpr nonnegative other early
    · intro otherNumber isOther
      simp [noNumbers other late] at isOther
  · rintro ⟨before, value, after, number, rfl, nonnegative, isNumber, negative, same⟩
    refine ⟨_, number.toInt, (after.filterMap Value.int64?).map Int64.toInt, ?_,
      forall_nonnegative_iff.mp nonnegative, negative, same⟩
    rw [List.filterMap_append, List.map_append, List.filterMap_cons_some isNumber, List.map_cons]

/-- Differences have bytes whatever the numbers are. -/
theorem exists_bytesOf_deltaVarint (detected : Metric.detect values = .ok metric) :
    ∃ bytes, bytesOf values .deltaVarint = .ok bytes := by
  rcases Metric.detect_eq_ok detected with ⟨nonempty, ofMetric⟩
  simp only [bytesOf, Differences.ofValues_eq detected]
  cases numbers : values.filterMap Value.int64? with
  | nil =>
    have back := Metric.map_value_numbers ofMetric
    rw [numbers] at back
    exact absurd back.symm nonempty
  | cons first rest => exact ⟨_, rfl⟩

theorem exists_encode_iff :
    (∃ series, encode values codec = .ok series) ↔ values ≠ [] ∧ Homogeneous values ∧
      (codec = .deltaVarint ∨ ∀ value ∈ values, value.Nonnegative) := by
  constructor
  · rintro ⟨series, encoded⟩
    rcases encode_eq_ok_iff.mp encoded with ⟨metric, bytes, detected, written, _⟩
    rcases Metric.detect_eq_ok detected with ⟨nonempty, ofMetric⟩
    refine ⟨nonempty, homogeneous_iff.mpr ⟨metric, ofMetric⟩, ?_⟩
    cases codec with
    | varint => exact .inr (exists_bytesOf_varint_iff.mp ⟨bytes, written⟩)
    | deltaVarint => exact .inl rfl
  · rintro ⟨nonempty, homogeneous, writable⟩
    rcases homogeneous_iff.mp homogeneous with ⟨metric, ofMetric⟩
    have detected := Metric.detect_eq_ok_iff.mpr ⟨nonempty, ofMetric⟩
    have written : ∃ bytes, bytesOf values codec = .ok bytes := by
      cases codec with
      | varint =>
        apply exists_bytesOf_varint_iff.mpr
        simpa using writable
      | deltaVarint => exact exists_bytesOf_deltaVarint detected
    rcases written with ⟨bytes, written⟩
    exact ⟨_, encode_eq_ok_iff.mpr ⟨metric, bytes, detected, written, rfl⟩⟩

/-- Encoding fails with a fault just if the series is refused for it. -/
theorem encode_eq_error_iff_refused :
    encode values codec = .error fault ↔ Refused values codec fault := by
  rw [encode_eq_error_iff, Metric.detect_eq_error_iff]
  constructor
  · rintro ((⟨rfl, rfl⟩ | ⟨before, other, after, rfl, homogeneous, breaks, rfl⟩) |
      ⟨metric, detected, failed⟩)
    · exact .empty codec
    · exact .foreign codec homogeneous breaks
    · have homogeneous := homogeneous_iff.mpr ⟨metric, (Metric.detect_eq_ok detected).2⟩
      cases codec with
      | varint =>
        rcases bytesOf_varint_eq_error_iff.mp failed with
          ⟨before, value, after, number, rfl, earlier, isNumber, negative, rfl⟩
        exact .negative homogeneous earlier isNumber negative
      | deltaVarint =>
        rcases exists_bytesOf_deltaVarint detected with ⟨bytes, written⟩
        simp [written] at failed
  · intro refused
    cases refused with
    | empty codec => exact .inl (.inl ⟨rfl, rfl⟩)
    | foreign codec homogeneous breaks => exact .inl (.inr ⟨_, _, _, rfl, homogeneous, breaks, rfl⟩)
    | negative homogeneous earlier isNumber negative =>
      rcases homogeneous_iff.mp homogeneous with ⟨metric, ofMetric⟩
      refine .inr ⟨metric, Metric.detect_eq_ok_iff.mpr ⟨by simp, ofMetric⟩, ?_⟩
      exact bytesOf_varint_eq_error_iff.mpr
        ⟨_, _, _, _, rfl, earlier, isNumber, negative, rfl⟩

end Encoded

namespace Series

theorem isEncoded_ofValues_iff :
    (ofValues values codec).isEncoded = true ↔
      ∃ series, Encoded.encode values codec = .ok series := by
  simp only [ofValues]
  cases Encoded.encode values codec with
  | error fault => simp [isEncoded]
  | ok series => simp [isEncoded]

@[simp]
theorem length_ofValues (values : List Value) (codec : Codec) :
    (ofValues values codec).length = values.length := by
  simp only [ofValues]
  split
  · rename_i series encoded
    rcases Encoded.encode_eq_ok_iff.mp encoded with ⟨metric, bytes, _, _, rfl⟩
    rfl
  · rfl

/-- A stored series has the length and the values of what it was made of, and is encoded just if
its values are integers of one width that the codec can write.  Each other series is refused by
the encoder for one cause. -/
theorem ofValues_exact (values : List Value) (codec : Codec) :
    (ofValues values codec).length = values.length ∧
      (ofValues values codec).toValues = .ok values ∧
      ((ofValues values codec).isEncoded = true ↔ values ≠ [] ∧ Homogeneous values ∧
        (codec = .deltaVarint ∨ ∀ value ∈ values, value.Nonnegative)) ∧
      ∀ fault, Encoded.encode values codec = .error fault ↔
        Encoded.Refused values codec fault := by
  refine ⟨length_ofValues values codec, toValues_ofValues values codec, ?_, ?_⟩
  · rw [isEncoded_ofValues_iff, Encoded.exists_encode_iff]
  · intro fault
    exact Encoded.encode_eq_error_iff_refused

end Series

end TimedGraph
