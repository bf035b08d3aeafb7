import TimedGraph.Proofs.Series.Canonical

/-!
# Reduction to differences is a bijection

A series that has a value is the same as its base and its steps.  Sums undo steps and steps undo
sums, both with wrapping, so that nothing is lost in either direction and any steps whatever are
the steps of some series of 64-bit numbers.  Between 32-bit numbers no step wraps, and the steps of
such a series are the exact differences; of any other steps the sums leave 32 bits, and they are
not restored as 32-bit numbers.
-/

namespace TimedGraph.Differences

variable {metric : Metric}

/-- A step between 32-bit numbers does not wrap. -/
theorem toInt_step (value previous : Int32) :
    (value.toInt64 - previous.toInt64).toInt = value.toInt - previous.toInt := by
  have := value.le_toInt
  have := value.toInt_lt
  have := previous.le_toInt
  have := previous.toInt_lt
  rw [Int64.toInt_sub, Int32.toInt_toInt64, Int32.toInt_toInt64]
  exact Int.bmod_eq_of_le (by omega) (by omega)

theorem toInt_stepsFrom (previous : Int32) (values : List Int32) :
    (stepsFrom previous.toInt64 (values.map Int32.toInt64)).map Int64.toInt =
      List.zipWith (fun value before => value.toInt - before.toInt) values
        (previous :: values) := by
  induction values generalizing previous with
  | nil => rfl
  | cons value rest ih =>
    simp only [List.map_cons, stepsFrom, toInt_step, ih, List.zipWith_cons_cons]

theorem holds_toInt64 (value : Int32) : Metric.int32.Holds value.toInt64 := by
  have := value.le_toInt
  have := value.toInt_lt
  simp only [Metric.Holds, Int32.toInt_minValue, Int32.toInt_maxValue, Int32.toInt_toInt64]
  omega

theorem toInt64_toInt32 {number : Int64} (holds : Metric.int32.Holds number) :
    number.toInt32.toInt64 = number := by
  simp only [Metric.Holds, Int32.toInt_minValue, Int32.toInt_maxValue] at holds
  apply Int64.toInt_inj.mp
  rw [Int32.toInt_toInt64, Int64.toInt_toInt32]
  exact Int.bmod_eq_of_le (by omega) (by omega)

theorem mapM_narrow_toInt64 (values : List Int32) :
    (values.map Int32.toInt64).mapM narrow = .ok values := by
  have holds : ∀ number ∈ values.map Int32.toInt64, Metric.int32.Holds number := by
    intro number mem
    rcases List.mem_map.mp mem with ⟨value, _, rfl⟩
    exact holds_toInt64 value
  rw [mapM_narrow holds, List.map_map]
  simp [Function.comp_def]

/-- Numbers that were narrowed are found again in 64 bits. -/
theorem map_toInt64_of_mapM_narrow {numbers : List Int64} {values : List Int32}
    (narrowed : numbers.mapM narrow = .ok values) : values.map Int32.toInt64 = numbers := by
  have holds := holds_of_mapM_narrow narrowed
  rw [mapM_narrow holds] at narrowed
  rw [← Except.ok.inj narrowed, List.map_map]
  calc
    numbers.map (Int32.toInt64 ∘ Int64.toInt32) = numbers.map id :=
      List.map_congr_left fun number mem => toInt64_toInt32 (holds number mem)
    _ = numbers := List.map_id numbers

/-- The differences of a sum are the base and the steps that were summed, in any metric. -/
theorem exists_ofList_toInt64s (metric : Metric) (differences : Differences) :
    ∃ again, ofList metric differences.toInt64s = .ok again ∧
      again.toList = differences.toList :=
  ⟨⟨metric, differences.base, differences.steps⟩, ofList_toInt64s ⟨metric, _, _⟩, rfl⟩

/-- Reducing a series and restoring it is the identity, and so is restoring a series of differences
and reducing it again, in either width.  Steps of 32-bit numbers are the exact differences.  Bytes
give back the differences they were written for.  No series is reduced, and no bytes are read, to
nothing. -/
theorem reduction_exact (differences : Differences) :
    (∀ first rest, ∃ reduced, ofInt64s (first :: rest) = .ok reduced ∧
      reduced.toInt64s = first :: rest) ∧
    (∀ first rest, ∃ reduced, ofInt32s (first :: rest) = .ok reduced ∧
      reduced.toInt32s = .ok (first :: rest) ∧
      reduced.toList.map Int64.toInt = first.toInt ::
        List.zipWith (fun value before => value.toInt - before.toInt) rest (first :: rest)) ∧
    (∃ again, ofInt64s differences.toInt64s = .ok again ∧ again.toList = differences.toList) ∧
    (∀ values, differences.toInt32s = .ok values → ∃ again, ofInt32s values = .ok again ∧
      again.toList = differences.toList) ∧
    ofBytes differences.metric differences.toBytes = .ok differences ∧
    (ofInt64s [] = .error .emptyInput ∧ ofInt32s [] = .error .emptyInput ∧
      ofValues [] = .error .emptyInput ∧ ∀ metric, ofBytes metric [] = .error .emptyInput) ∧
    differences.toList.head? = some differences.base := by
  refine ⟨?_, ?_, exists_ofList_toInt64s .int64 differences, ?_, ofBytes_toBytes differences,
    ⟨rfl, rfl, rfl, fun _ => rfl⟩, rfl⟩
  · intro first rest
    exact ⟨_, rfl, congrArg (first :: ·) (sumsFrom_stepsFrom first rest)⟩
  · intro first rest
    let reduced : Differences :=
      ⟨.int32, first.toInt64, stepsFrom first.toInt64 (rest.map Int32.toInt64)⟩
    have made : ofInt32s (first :: rest) = .ok reduced := rfl
    refine ⟨reduced, made, ?_, ?_⟩
    · rw [toInt32s, (toInt64s_ofList made).2]
      exact mapM_narrow_toInt64 (first :: rest)
    · rw [toList, List.map_cons, toInt_stepsFrom, Int32.toInt_toInt64]
  · intro values restored
    rw [ofInt32s, map_toInt64_of_mapM_narrow restored]
    exact exists_ofList_toInt64s .int32 differences

/-- The widest steps between 32-bit numbers.  From another base they lead out of 32 bits. -/
theorem reduction_exact_sample :
    toInt32s ⟨.int64, -5, [4294967295, -4294967295]⟩ = .error (.overflow "i32") ∧
      toInt32s ⟨.int64, -2147483648, [4294967295, -4294967295]⟩ =
        .ok [-2147483648, 2147483647, -2147483648] ∧
      ∃ again, ofInt32s [-2147483648, 2147483647, -2147483648] = .ok again ∧
        again.toList = [-2147483648, 4294967295, -4294967295] := by
  have restored : toInt32s ⟨.int64, -2147483648, [4294967295, -4294967295]⟩ =
      .ok [-2147483648, 2147483647, -2147483648] := by rfl
  refine ⟨by rfl, restored, ?_⟩
  exact (reduction_exact ⟨.int64, -2147483648, [4294967295, -4294967295]⟩).2.2.2.1 _ restored

end TimedGraph.Differences
