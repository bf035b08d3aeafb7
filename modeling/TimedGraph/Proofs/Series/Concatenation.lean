import TimedGraph.Proofs.Word.Reading
import TimedGraph.Series.Differences

/-!
# Bytes side by side

Bytes that are words throughout may stand in front of any bytes.  The reader is then at the end of
a word and starts afresh, so that what follows is read as if it stood alone: to the same numbers,
or to the same fault, with the bytes of an unfinished word counted from its own beginning.  Writing
is a homomorphism of the same kind; its fault is the first negative number of the whole series.

The statement for differences leaves out bytes with nothing after them, because no bytes at all
are no series.
-/

namespace TimedGraph

namespace Varint

variable {target : Target} {position value : Nat} {first : List UInt8} {numbers : List Nat}

/-- What is read of bytes stands in front of what is read of the bytes after them.  The reader may
be inside a word already, but at its start it must not have read anything. -/
theorem readAllFrom_append (fresh : position = 0 → value = 0)
    (accepted : readAllFrom target position value first = .ok numbers) (second : List UInt8) :
    readAllFrom target position value (first ++ second) =
      (numbers ++ ·) <$> readAll target second := by
  induction first generalizing position value numbers with
  | nil =>
    simp only [readAllFrom] at accepted
    split at accepted
    · rename_i atStart
      rw [← Except.ok.inj accepted, atStart, fresh atStart]
      simp only [List.nil_append]
      exact (id_map _).symm
    · cases accepted
  | cons byte rest ih =>
    simp only [List.cons_append, readAllFrom] at accepted ⊢
    cases progressed : progress target position value byte with
    | overflow => simp [progressed] at accepted
    | finished total =>
      simp only [progressed] at accepted ⊢
      rcases map_eq_ok.mp accepted with ⟨others, isOthers, rfl⟩
      rw [ih (fun _ => rfl) isOthers]
      cases readAll target second <;> rfl
    | unfinished total =>
      simp only [progressed] at accepted ⊢
      exact ih (by simp) accepted

theorem readAll_append (accepted : readAll target first = .ok numbers) (second : List UInt8) :
    readAll target (first ++ second) = (numbers ++ ·) <$> readAll target second :=
  readAllFrom_append (fun _ => rfl) accepted second

theorem signedWords_append (values others : List Int) :
    signedWords (values ++ others) = (do
      let bytes ← signedWords values
      let otherBytes ← signedWords others
      return bytes ++ otherBytes) := by
  induction values with
  | nil =>
    simp only [List.nil_append, signedWords]
    cases signedWords others <;> rfl
  | cons value rest ih =>
    by_cases negative : value < 0
    · simp only [List.cons_append, signedWords_cons_of_neg negative]
      rfl
    · simp only [List.cons_append, signedWords_cons (Int.not_lt.mp negative), ih]
      cases signedWords rest with
      | error fault => rfl
      | ok bytes =>
        cases signedWords others with
        | error fault => rfl
        | ok otherBytes => exact congrArg Except.ok (List.append_assoc ..).symm

end Varint

namespace Differences

variable {metric : Metric} {first second : List UInt8} {differences : Differences}

/-- Differences with the base and the steps of others as further steps. -/
def followedBy (differences others : Differences) : Differences :=
  { differences with steps := differences.steps ++ others.toList }

theorem ofBytes_append (read : ofBytes metric first = .ok differences) (nonempty : second ≠ []) :
    ofBytes metric (first ++ second) = differences.followedBy <$> ofBytes metric second := by
  rcases bind_eq_ok.mp read with ⟨places, isPlaces, made⟩
  rw [ofBytes, ofBytes, Varint.readAll_append isPlaces]
  cases isOthers : Varint.readAll .unsigned64 second with
  | error fault => rfl
  | ok others =>
    cases others with
    | nil => exact absurd (Varint.readAll_eq_ok_nil_iff.mp isOthers) nonempty
    | cons place rest =>
      cases places with
      | nil => cases made
      | cons base steps =>
        rw [← Except.ok.inj made]
        simp [Functor.map, Except.map, bind, Except.bind, followedBy, toList]

/-- Words can be read apart: what bytes are read as stands in front of what the bytes after them
are read as, and a fault of these is the fault of all.  Words can be written apart likewise, and
the first negative number is the fault. -/
theorem concatenation_exact (target : Varint.Target) (metric : Metric) (first second : List UInt8)
    (values others : List Int) :
    (∀ numbers, Varint.readAll target first = .ok numbers →
      Varint.readAll target (first ++ second) = (numbers ++ ·) <$> Varint.readAll target second) ∧
    (∀ differences, ofBytes metric first = .ok differences → second ≠ [] →
      ofBytes metric (first ++ second) = differences.followedBy <$> ofBytes metric second) ∧
    (Varint.signedWords (values ++ others) = do
      let bytes ← Varint.signedWords values
      let otherBytes ← Varint.signedWords others
      return bytes ++ otherBytes) ∧
    ∀ fault, Varint.signedWords (values ++ others) = .error fault ↔
      ∃ before value after, values ++ others = before ++ value :: after ∧
        (∀ other ∈ before, 0 ≤ other) ∧ value < 0 ∧ .negativeValue value = fault :=
  ⟨fun _ accepted => Varint.readAll_append accepted second,
    fun _ read nonempty => ofBytes_append read nonempty,
    Varint.signedWords_append values others,
    fun _ => Varint.signedWords_eq_error_iff⟩

/-- Words of 6 and 134, and then a word that does not end. -/
theorem concatenation_exact_sample :
    Varint.readAll .nonnegative32 [0x06, 0x86, 0x01] = .ok [6, 134] ∧
      Varint.readAll .nonnegative32 [0x06, 0x86, 0x01, 0x80] = .error (.truncated 1) ∧
      ofBytes .int32 [0x06, 0x86, 0x01] = .ok ⟨.int32, 3, [67]⟩ ∧
      ofBytes .int32 [0x06, 0x86, 0x01, 0x0D] = .ok ⟨.int32, 3, [67, -7]⟩ := by
  have accepted : Varint.readAll .nonnegative32 [0x06, 0x86, 0x01] = .ok [6, 134] := by rfl
  have read : ofBytes .int32 [0x06, 0x86, 0x01] = .ok ⟨.int32, 3, [67]⟩ := by rfl
  have numbers := (concatenation_exact .nonnegative32 .int32 [0x06, 0x86, 0x01] [0x80] [] []).1
  have steps := (concatenation_exact .unsigned64 .int32 [0x06, 0x86, 0x01] [0x0D] [] []).2.1
  exact ⟨accepted, numbers _ accepted, read, steps _ read (by simp)⟩

end Differences

end TimedGraph
