import TimedGraph.Proofs.Series.Encodability
import TimedGraph.Proofs.Word.Length

/-!
# Sizes of stored series

A series that a codec can write takes the bytes of its words, and any other takes the plain
size of its values.  More values never take less.  Values at the end only add words.  Values
at the beginning may be dropped from plain words one by one; from differences, dropping a
value joins the step to it and the step from it into their sum, whose word is no longer than
both words together.  A series that can be written is a part of others that cannot, but not
the other way round, and no word is as long as a plain value, so that changing from one form
to the other follows the same order.
-/

namespace TimedGraph

open Varint Folded

/-- The numbers whose words a codec writes for integers. -/
def Codec.places : Codec → List Int64 → List Nat
  | .varint, numbers => numbers.map fun number => number.toInt.toNat
  | .deltaVarint, numbers =>
    (Differences.stepsFrom 0 numbers).map fun step => (fold64 step).toNat

/-- The bytes that the words of numbers take. -/
def wordsSize (numbers : List Nat) : Nat :=
  (numbers.map encodedLength).sum

/-- The bytes that values take where they are kept as they are. -/
def plainSize (values : List Value) : Nat :=
  (values.map Value.footprint).sum

/-- A codec can write the values, or there are none. -/
def Writable (values : List Value) (codec : Codec) : Prop :=
  Homogeneous values ∧ (codec = .deltaVarint ∨ ∀ value ∈ values, value.Nonnegative)

section Words

variable {numbers : List Nat}

theorem length_flatMap_word (numbers : List Nat) :
    (numbers.flatMap word).length = wordsSize numbers := by
  simp only [List.length_flatMap, length_word, wordsSize]

theorem wordsSize_cons (number : Nat) (rest : List Nat) :
    wordsSize (number :: rest) = encodedLength number + wordsSize rest := by
  simp only [wordsSize, List.map_cons, List.sum_cons]

theorem wordsSize_append (first second : List Nat) :
    wordsSize (first ++ second) = wordsSize first + wordsSize second := by
  simp only [wordsSize, List.map_append, List.sum_append]

theorem length_le_wordsSize (numbers : List Nat) : numbers.length ≤ wordsSize numbers := by
  induction numbers with
  | nil => exact Nat.zero_le _
  | cons number rest ih =>
    have := encodedLength_pos number
    simp only [wordsSize_cons, List.length_cons]
    omega

theorem wordsSize_le (fit : ∀ number ∈ numbers, number < UInt64.size) :
    wordsSize numbers ≤ 10 * numbers.length := by
  induction numbers with
  | nil => exact Nat.zero_le _
  | cons number rest ih =>
    rcases List.forall_mem_cons.mp fit with ⟨numberFits, restFit⟩
    have := encodedLength_le_ten numberFits
    have := ih restFit
    simp only [wordsSize_cons, List.length_cons]
    omega

end Words

namespace Differences

theorem stepsFrom_append (previous : Int64) (first second : List Int64) :
    stepsFrom previous (first ++ second) =
      stepsFrom previous first ++ stepsFrom (first.getLast?.getD previous) second := by
  induction first generalizing previous with
  | nil => rfl
  | cons value rest ih =>
    simp only [List.cons_append, stepsFrom, ih, List.getLast?_cons, Option.getD_some]

theorem length_stepsFrom (previous : Int64) (numbers : List Int64) :
    (stepsFrom previous numbers).length = numbers.length := by
  induction numbers generalizing previous with
  | nil => rfl
  | cons value rest ih => simp only [stepsFrom, List.length_cons, ih]

/-- The bytes of the steps through numbers. -/
def stepsSize (previous : Int64) (numbers : List Int64) : Nat :=
  wordsSize ((stepsFrom previous numbers).map fun step => (fold64 step).toNat)

theorem stepsSize_cons (previous value : Int64) (rest : List Int64) :
    stepsSize previous (value :: rest) =
      encodedLength (fold64 (value - previous)).toNat + stepsSize value rest := by
  simp only [stepsSize, stepsFrom, List.map_cons, wordsSize_cons]

/-- A way that leaves out a stop is no longer. -/
theorem stepsSize_le_cons (previous value : Int64) (rest : List Int64) :
    stepsSize previous rest ≤ stepsSize previous (value :: rest) := by
  cases rest with
  | nil => exact Nat.zero_le _
  | cons next further =>
    have joined : next - previous = (value - previous) + (next - value) := by grind
    have shorter := encodedLength_fold64_add_le (value - previous) (next - value)
    simp only [stepsSize_cons, joined]
    omega

theorem stepsSize_le_append (previous : Int64) (first second : List Int64) :
    stepsSize previous second ≤ stepsSize previous (first ++ second) := by
  induction first generalizing previous with
  | nil => exact Nat.le_refl _
  | cons value rest ih =>
    apply Nat.le_trans (stepsSize_le_cons previous value second)
    simp only [List.cons_append, stepsSize_cons]
    exact Nat.add_le_add_left (ih value) _

end Differences

namespace Codec

variable (codec : Codec)

theorem length_places (numbers : List Int64) :
    (codec.places numbers).length = numbers.length := by
  cases codec with
  | varint => simp only [places, List.length_map]
  | deltaVarint => simp only [places, List.length_map, Differences.length_stepsFrom]

theorem places_lt (numbers : List Int64) : ∀ place ∈ codec.places numbers, place < UInt64.size := by
  cases codec with
  | varint =>
    intro place mem
    rcases List.mem_map.mp mem with ⟨number, _, rfl⟩
    have := number.toInt_lt
    simp only [UInt64.size]
    omega
  | deltaVarint =>
    intro place mem
    rcases List.mem_map.mp mem with ⟨step, _, rfl⟩
    exact (fold64 step).toNat_lt

theorem exists_places_append (first second : List Int64) :
    ∃ further, codec.places (first ++ second) = codec.places first ++ further ∧
      further.length = second.length := by
  cases codec with
  | varint => exact ⟨_, List.map_append, by simp only [List.length_map]⟩
  | deltaVarint =>
    refine ⟨(Differences.stepsFrom (first.getLast?.getD 0) second).map fun step =>
      (fold64 step).toNat, ?_, ?_⟩
    · simp only [places, Differences.stepsFrom_append, List.map_append]
    · simp only [List.length_map, Differences.length_stepsFrom]

theorem wordsSize_places_add_length_le (first second : List Int64) :
    wordsSize (codec.places first) + second.length ≤
      wordsSize (codec.places (first ++ second)) := by
  rcases codec.exists_places_append first second with ⟨further, isWhole, sameLength⟩
  have someBytes := length_le_wordsSize further
  simp only [isWhole, wordsSize_append]
  omega

theorem wordsSize_places_le_append (first second : List Int64) :
    wordsSize (codec.places second) ≤ wordsSize (codec.places (first ++ second)) := by
  cases codec with
  | varint =>
    simp only [places, List.map_append, wordsSize_append]
    exact Nat.le_add_left _ _
  | deltaVarint => exact Differences.stepsSize_le_append 0 first second

end Codec

variable {first second values : List Value} {codec : Codec}

theorem plainSize_append (first second : List Value) :
    plainSize (first ++ second) = plainSize first + plainSize second := by
  simp only [plainSize, List.map_append, List.sum_append]

theorem length_le_plainSize (values : List Value) : 24 * values.length ≤ plainSize values := by
  induction values with
  | nil => exact Nat.zero_le _
  | cons value rest ih =>
    simp only [plainSize, List.map_cons, List.sum_cons, List.length_cons, Value.footprint] at ih ⊢
    omega

theorem Homogeneous.of_append (homogeneous : Homogeneous (first ++ second)) :
    Homogeneous first ∧ Homogeneous second := by
  rcases homogeneous_iff.mp homogeneous with ⟨metric, ofMetric⟩
  rcases List.forall_mem_append.mp ofMetric with ⟨firstOf, secondOf⟩
  exact ⟨homogeneous_iff.mpr ⟨metric, firstOf⟩, homogeneous_iff.mpr ⟨metric, secondOf⟩⟩

theorem Homogeneous.length_numbers (homogeneous : Homogeneous values) :
    (values.filterMap Value.int64?).length = values.length := by
  rcases homogeneous_iff.mp homogeneous with ⟨metric, ofMetric⟩
  simpa only [List.length_map] using congrArg List.length (Metric.map_value_numbers ofMetric)

theorem Writable.of_append (writable : Writable (first ++ second) codec) :
    Writable first codec ∧ Writable second codec := by
  rcases writable with ⟨homogeneous, allowed⟩
  rcases homogeneous.of_append with ⟨firstHomogeneous, secondHomogeneous⟩
  simp only [List.forall_mem_append] at allowed
  exact ⟨⟨firstHomogeneous, allowed.imp_right And.left⟩,
    ⟨secondHomogeneous, allowed.imp_right And.right⟩⟩

namespace Series

theorem length_bytesOf {bytes : List UInt8} {metric : Metric}
    (detected : Metric.detect values = .ok metric)
    (written : Encoded.bytesOf values codec = .ok bytes) :
    bytes.length = wordsSize (codec.places (values.filterMap Value.int64?)) := by
  cases codec with
  | varint =>
    simp only [Encoded.bytesOf_varint, Varint.signedWords_eq_ok_iff, List.map_map] at written
    simp only [← written.2, length_flatMap_word, Codec.places, Function.comp_def]
  | deltaVarint =>
    simp only [Encoded.bytesOf, Differences.ofValues_eq detected, map_eq_ok] at written
    rcases written with ⟨differences, reduced, rfl⟩
    cases numbers : values.filterMap Value.int64? with
    | nil =>
      simp only [numbers, Differences.ofList] at reduced
      cases reduced
    | cons head rest =>
      simp only [numbers, Differences.ofList] at reduced
      cases reduced
      simp only [Differences.toBytes, Differences.toList, ← List.flatMap_map, length_flatMap_word,
        Codec.places, Differences.stepsFrom, Int64.sub_zero]

/-- What can be written takes the bytes of its words. -/
theorem size_of_writable (writable : Writable values codec) :
    (ofValues values codec).size = wordsSize (codec.places (values.filterMap Value.int64?)) := by
  by_cases nonempty : values = []
  · subst nonempty
    cases codec <;> rfl
  · rcases Encoded.exists_encode_iff.mpr ⟨nonempty, writable⟩ with ⟨series, encoded⟩
    rcases Encoded.encode_eq_ok_iff.mp encoded with ⟨metric, bytes, detected, written, rfl⟩
    simp only [ofValues, encoded, size, length_bytesOf detected written]

/-- What cannot be written takes its plain size. -/
theorem size_of_not_writable (unwritable : ¬Writable values codec) :
    (ofValues values codec).size = plainSize values := by
  cases encoded : Encoded.encode values codec with
  | ok series => exact absurd (Encoded.exists_encode_iff.mp ⟨series, encoded⟩).2 unwritable
  | error fault =>
    simp only [ofValues, encoded, size, plainSize, List.sum_eq_foldl, List.foldl_map]

theorem size_le_of_writable (writable : Writable values codec) :
    (ofValues values codec).size ≤ 10 * values.length := by
  have few := wordsSize_le (codec.places_lt (values.filterMap Value.int64?))
  simpa only [size_of_writable writable, Codec.length_places,
    writable.1.length_numbers] using few

theorem size_le_plainSize (values : List Value) (codec : Codec) :
    (ofValues values codec).size ≤ plainSize values := by
  by_cases writable : Writable values codec
  · have := size_le_of_writable writable
    have := length_le_plainSize values
    omega
  · exact Nat.le_of_eq (size_of_not_writable writable)

/-- Each value at the end takes at least a byte. -/
theorem size_add_length_le_append (first second : List Value) (codec : Codec) :
    (ofValues first codec).size + second.length ≤ (ofValues (first ++ second) codec).size := by
  by_cases writable : Writable (first ++ second) codec
  · rcases writable.of_append with ⟨firstWritable, secondWritable⟩
    have longer := codec.wordsSize_places_add_length_le (first.filterMap Value.int64?)
      (second.filterMap Value.int64?)
    simpa only [size_of_writable writable, size_of_writable firstWritable, List.filterMap_append,
      secondWritable.1.length_numbers] using longer
  · have := size_le_plainSize first codec
    have := length_le_plainSize second
    simp only [size_of_not_writable writable, plainSize_append]
    omega

/-- Values at the beginning may be dropped. -/
theorem size_le_append (first second : List Value) (codec : Codec) :
    (ofValues second codec).size ≤ (ofValues (first ++ second) codec).size := by
  by_cases writable : Writable (first ++ second) codec
  · have shorter := codec.wordsSize_places_le_append (first.filterMap Value.int64?)
      (second.filterMap Value.int64?)
    simpa only [size_of_writable writable, size_of_writable writable.of_append.2,
      List.filterMap_append] using shorter
  · have := size_le_plainSize second codec
    simp only [size_of_not_writable writable, plainSize_append]
    omega

end Series

end TimedGraph
