import TimedGraph.Proofs.Outcome
import TimedGraph.Proofs.Word.Acceptance

/-!
# Reading words back

Reading all words of a source is reading the first one and then all words of what is
left (`readAllFrom_eq`).  So words put side by side are read back as the list of their numbers, and
whatever is read to its end has been read word by word, each as its number.
-/

namespace TimedGraph.Varint

variable {target : Target}

theorem le_consumed (target : Target) (position value : Nat) (source : List UInt8) :
    position ≤ (readFrom target position value source).consumed := by
  induction source generalizing position value with
  | nil => simp [readFrom]
  | cons byte rest ih =>
    simp only [readFrom]
    split
    · simp
    · simp
    · exact Nat.le_of_succ_le (ih _ _)

theorem readAllFrom_eq (target : Target) (position value : Nat) (source : List UInt8)
    (begun : position ≠ 0 ∨ source ≠ []) :
    readAllFrom target position value source =
      match readFrom target position value source with
      | ⟨.ok number, consumed⟩ =>
        (number :: ·) <$> readAll target (source.drop (consumed - position))
      | ⟨.error fault, _⟩ => .error fault := by
  induction source generalizing position value with
  | nil =>
    have inside : position ≠ 0 := by simpa using begun
    simp only [readAllFrom, readFrom, if_neg inside]
  | cons byte rest ih =>
    simp only [readAllFrom, readFrom]
    cases progress target position value byte with
    | overflow => rfl
    | finished total => simp [readAll]
    | unfinished total =>
      have onward := ih (position + 1) total (.inl (by omega))
      have passed := le_consumed target (position + 1) total rest
      simp only [onward]
      generalize readFrom target (position + 1) total rest = reading at passed
      rcases reading with ⟨outcome, consumed⟩
      cases outcome with
      | error fault => rfl
      | ok number =>
        have oneMore : consumed - position = consumed - (position + 1) + 1 := by
          simp only at passed
          omega
        simp only [oneMore, List.drop_succ_cons]

@[simp]
theorem readAll_nil : readAll target [] = .ok [] := by
  simp [readAll, readAllFrom]

theorem readAll_eq_ok_nil_iff {source : List UInt8} :
    readAll target source = .ok [] ↔ source = [] := by
  constructor
  · intro accepted
    cases source with
    | nil => rfl
    | cons byte rest =>
      rw [readAll, readAllFrom_eq target 0 0 _ (.inr (by simp))] at accepted
      split at accepted
      · rcases map_eq_ok.mp accepted with ⟨_, _, noNumber⟩
        cases noNumber
      · cases accepted
  · rintro rfl
    exact readAll_nil

theorem readAll_word (number : Nat) (rest : List UInt8) (someBits : 0 < target.bits)
    (fits : number < target.limit) :
    readAll target (word number ++ rest) = (number :: ·) <$> readAll target rest := by
  have begun : word number ++ rest ≠ [] := by simp [word_ne_nil]
  have first := read_word number rest someBits fits
  simp only [read] at first
  simp only [readAll, readAllFrom_eq target 0 0 _ (.inr begun), first]
  simp

/-- Words side by side are read back as their numbers. -/
theorem readAll_words (numbers : List Nat) (someBits : 0 < target.bits)
    (fits : ∀ number ∈ numbers, number < target.limit) :
    readAll target (numbers.flatMap word) = .ok numbers := by
  induction numbers with
  | nil => simp
  | cons number rest ih =>
    have restRead := ih fun other mem => fits other (List.mem_cons_of_mem _ mem)
    rw [List.flatMap_cons, readAll_word number _ someBits (fits number List.mem_cons_self),
      restRead]
    rfl

/-- What is read of a source are the numbers of its words. -/
theorem readAll_eq_ok {source : List UInt8} {numbers : List Nat}
    (isRead : readAll target source = .ok numbers) :
    (∀ bytes ∈ split source, IsWord bytes) ∧ numbers = (split source).map number ∧
      ∀ number ∈ numbers, number < target.limit := by
  induction length : source.length using Nat.strongRecOn generalizing source numbers with
  | ind size ih =>
    by_cases done : source = []
    · subst done
      simp only [readAll_nil, Except.ok.injEq] at isRead
      simp [← isRead, split]
    · rw [readAll, readAllFrom_eq target 0 0 source (.inr done)] at isRead
      have verdict : Verdict target source (readFrom target 0 0 source) :=
        verdict_read target source
      generalize readFrom target 0 0 source = reading at verdict isRead
      cases verdict with
      | @accepted bytes rest cut accepted =>
        subst cut
        simp only [Nat.sub_zero, List.drop_left] at isRead
        rcases map_eq_ok.mp isRead with ⟨others, isOthers, rfl⟩
        have positive := List.length_pos_iff.mpr accepted.isWord.ne_nil
        rw [List.length_append] at length
        rcases ih rest.length (by omega) isOthers rfl with ⟨otherWords, rfl, othersFit⟩
        rw [accepted.isWord.split_append, List.forall_mem_cons, List.map_cons,
          List.forall_mem_cons]
        exact ⟨⟨accepted.isWord, otherWords⟩, rfl, accepted.number_lt, othersFit⟩
      | truncated _ => cases isRead
      | overflow _ _ => cases isRead

theorem signedWord_of_nonnegative {value : Int} (nonnegative : 0 ≤ value) :
    signedWord value = .ok (word value.toNat) :=
  if_neg (Int.not_lt.mpr nonnegative)

theorem signedWords_cons {value : Int} (nonnegative : 0 ≤ value) (rest : List Int) :
    signedWords (value :: rest) = (word value.toNat ++ ·) <$> signedWords rest := by
  rw [signedWords, signedWord_of_nonnegative nonnegative]
  cases signedWords rest <;> rfl

theorem signedWords_cons_of_neg {value : Int} (negative : value < 0) (rest : List Int) :
    signedWords (value :: rest) = .error (.negativeValue value) := by
  rw [signedWords, signedWord, if_pos negative]
  rfl

/-- Signed numbers are written just if none is negative, as the words of their magnitudes. -/
theorem signedWords_eq_ok_iff {values : List Int} {bytes : List UInt8} :
    signedWords values = .ok bytes ↔
      (∀ value ∈ values, 0 ≤ value) ∧ (values.map Int.toNat).flatMap word = bytes := by
  induction values generalizing bytes with
  | nil => simp [signedWords]
  | cons value rest ih =>
    by_cases negative : value < 0
    · simp [signedWords_cons_of_neg negative, Int.not_le.mpr negative]
    · have nonnegative : 0 ≤ value := by omega
      simp only [signedWords_cons nonnegative, map_eq_ok, ih, List.forall_mem_cons, List.map_cons,
        List.flatMap_cons]
      constructor
      · rintro ⟨found, ⟨others, rfl⟩, rfl⟩
        exact ⟨⟨nonnegative, others⟩, rfl⟩
      · rintro ⟨⟨_, others⟩, rfl⟩
        exact ⟨_, ⟨others, rfl⟩, rfl⟩

/-- The fault of writing signed numbers is their first negative one. -/
theorem signedWords_eq_error_iff {values : List Int} {fault : CodecFault} :
    signedWords values = .error fault ↔
      ∃ before value after, values = before ++ value :: after ∧ (∀ other ∈ before, 0 ≤ other) ∧
        value < 0 ∧ .negativeValue value = fault := by
  induction values with
  | nil => simp [signedWords]
  | cons first rest ih =>
    by_cases negative : first < 0
    · rw [signedWords_cons_of_neg negative, Except.error.injEq]
      constructor
      · intro same
        exact ⟨[], first, rest, rfl, by simp, negative, same⟩
      · rintro ⟨before, value, after, cut, nonnegative, _, same⟩
        cases before with
        | nil => rw [(List.cons.inj cut).1, same]
        | cons other others =>
          have := nonnegative other (.head _)
          rw [(List.cons.inj cut).1] at negative
          omega
    · have nonnegative : 0 ≤ first := by omega
      rw [signedWords_cons nonnegative, map_eq_error, ih]
      constructor
      · rintro ⟨before, value, after, rfl, earlier, rest⟩
        exact ⟨first :: before, value, after, rfl, List.forall_mem_cons.mpr ⟨nonnegative, earlier⟩,
          rest⟩
      · rintro ⟨before, value, after, cut, earlier, isNegative, same⟩
        cases before with
        | nil =>
          rw [(List.cons.inj cut).1] at nonnegative
          omega
        | cons other others =>
          exact ⟨others, value, after, (List.cons.inj cut).2,
            (List.forall_mem_cons.mp earlier).2, isNegative, same⟩

end TimedGraph.Varint
