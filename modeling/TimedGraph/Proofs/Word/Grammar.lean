import TimedGraph.Word.Varint

/-!
# Words as byte strings

A reader takes any string of bytes for a word of which only the last is below 128, also one
that ends in zero digits and is longer than the word that would be written for its number.
`IsWord` says what a word is, `number` what it stands for, and `split` cuts bytes into words.  What
is written for a number is a word of it (`number_word`), and as long as `encodedLength` foretells
(`length_word`).

Among the words of a number the written one is the shortest, and it is the only one that is
minimal, that is, has one byte or does not end in a zero digit.  Writing again what was read
therefore never takes more bytes, and gives the same bytes just if all words were minimal.
-/

namespace TimedGraph.Varint

/-- A byte string is a word if just its last byte is below 128. -/
inductive IsWord : List UInt8 → Prop where
  | last {byte : UInt8} (final : byte.toNat < 128) : IsWord [byte]
  | more {byte : UInt8} {rest : List UInt8} (continued : 128 ≤ byte.toNat) (isWord : IsWord rest) :
      IsWord (byte :: rest)

/-- The number that the digits of a byte string make, the lowest coming first. -/
def number : List UInt8 → Nat
  | [] => 0
  | byte :: rest => byte.toNat % 128 + 128 * number rest

/-- A word is minimal if it is one byte or does not end in a zero digit. -/
def Minimal (bytes : List UInt8) : Prop :=
  bytes.length = 1 ∨ bytes.getLast? ≠ some 0

instance (bytes : List UInt8) : Decidable (Minimal bytes) :=
  inferInstanceAs (Decidable (_ ∨ _))

/-- The words that bytes are cut into.  Bytes at the end that do not finish a word are a last
piece of their own. -/
def split : List UInt8 → List (List UInt8)
  | [] => []
  | byte :: rest =>
    if byte.toNat < 128 then [byte] :: split rest
    else
      match split rest with
      | [] => [[byte]]
      | first :: others => (byte :: first) :: others

variable {byte : UInt8} {bytes others rest after : List UInt8}

theorem bitLength_le_iff {number count : Nat} :
    bitLength number ≤ count ↔ number < Nat.pow 2 count := by
  simp only [bitLength]
  split
  · rename_i zero
    rw [zero]
    exact iff_of_true (Nat.zero_le count) (Nat.two_pow_pos count)
  · rename_i nonzero
    exact Nat.succ_le_iff.trans (Nat.log2_lt nonzero)

/-- Each digit takes seven binary digits. -/
theorem bitLength_div {number : Nat} (large : ¬number < 128) :
    bitLength number = bitLength (number / 128) + 7 := by
  have shift (count : Nat) : bitLength (number / 128) ≤ count ↔ bitLength number ≤ count + 7 := by
    have whole : Nat.pow 2 (count + 7) = Nat.pow 2 count * 128 := Nat.pow_add 2 count 7
    rw [bitLength_le_iff, bitLength_le_iff, whole]
    omega
  have seven : ¬bitLength number ≤ 7 := fun few => large (bitLength_le_iff.mp few)
  have upper := (shift (bitLength (number / 128))).mp (Nat.le_refl _)
  have lower := (shift (bitLength number - 7)).mpr (by omega)
  omega

theorem word_of_lt {number : Nat} (small : number < 128) :
    word number = [UInt8.ofNat number] := by
  rw [word, if_pos small]

theorem word_of_ge {number : Nat} (large : ¬number < 128) :
    word number = UInt8.ofNat (number % 128 + 128) :: word (number / 128) := by
  rw [word, if_neg large]

theorem word_ne_nil (number : Nat) : word number ≠ [] := by
  rw [word]
  split <;> simp

@[simp]
theorem weight_zero : weight 0 = 1 :=
  rfl

theorem weight_succ (position : Nat) : weight (position + 1) = weight position * 128 :=
  rfl

theorem pow_eq_weight (position : Nat) : Nat.pow 2 (7 * position) = weight position :=
  Nat.pow_mul 2 7 position

theorem number_append (bytes others : List UInt8) :
    number (bytes ++ others) = number bytes + number others * weight bytes.length := by
  induction bytes with
  | nil => simp [number]
  | cons byte rest ih =>
    rw [List.cons_append, number, ih, number, List.length_cons, weight_succ, Nat.mul_add,
      Nat.add_assoc, Nat.mul_comm (weight _) 128, Nat.mul_left_comm]

theorem number_concat (bytes : List UInt8) (byte : UInt8) :
    number (bytes ++ [byte]) = number bytes + byte.toNat % 128 * weight bytes.length := by
  rw [number_append]
  rfl

theorem number_lt_weight (bytes : List UInt8) : number bytes < weight bytes.length := by
  induction bytes with
  | nil => exact Nat.one_pos
  | cons byte rest ih =>
    rw [number, List.length_cons, weight_succ]
    omega

theorem number_word (value : Nat) : number (word value) = value := by
  induction value using Nat.strongRecOn with
  | ind value ih =>
    by_cases small : value < 128
    · have byte : (UInt8.ofNat value).toNat = value := by
        simp only [UInt8.toNat_ofNat']
        omega
      simp only [word_of_lt small, number, byte]
      omega
    · have byte : (UInt8.ofNat (value % 128 + 128)).toNat = value % 128 + 128 := by
        simp only [UInt8.toNat_ofNat']
        omega
      simp only [word_of_ge small, number, byte, ih (value / 128) (by omega)]
      omega

theorem isWord_word (value : Nat) : IsWord (word value) := by
  induction value using Nat.strongRecOn with
  | ind value ih =>
    by_cases small : value < 128
    · rw [word_of_lt small]
      refine .last ?_
      simp only [UInt8.toNat_ofNat']
      omega
    · rw [word_of_ge small]
      refine .more ?_ (ih (value / 128) (by omega))
      simp only [UInt8.toNat_ofNat']
      omega

theorem length_word (value : Nat) : (word value).length = encodedLength value := by
  induction value using Nat.strongRecOn with
  | ind value ih =>
    by_cases small : value < 128
    · have few : bitLength value ≤ 7 := bitLength_le_iff.mpr small
      rw [word_of_lt small, List.length_singleton, encodedLength]
      omega
    · have some : ¬bitLength (value / 128) ≤ 0 := by
        rw [bitLength_le_iff]
        exact Nat.not_lt.mpr (Nat.div_pos (Nat.not_lt.mp small) (by decide))
      rw [word_of_ge small, List.length_cons, ih (value / 128) (by omega), encodedLength,
        encodedLength, bitLength_div small]
      omega

theorem flatten_split (source : List UInt8) : (split source).flatten = source := by
  induction source with
  | nil => rfl
  | cons byte rest ih =>
    simp only [split]
    split
    · rw [List.flatten_cons, ih]
      rfl
    · cases cut : split rest with
      | nil =>
        rw [cut] at ih
        simp [← ih]
      | cons first others =>
        rw [cut, List.flatten_cons] at ih
        simp [ih]

/-- A word with more bytes is written again with its first byte, unless the others make zero. -/
theorem word_number_cons (continued : 128 ≤ byte.toNat) (nonzero : number rest ≠ 0) :
    word (number (byte :: rest)) = byte :: word (number rest) := by
  have bounded := byte.toNat_lt
  have large : ¬byte.toNat % 128 + 128 * number rest < 128 := by omega
  have digit : (byte.toNat % 128 + 128 * number rest) % 128 + 128 = byte.toNat := by omega
  have others : (byte.toNat % 128 + 128 * number rest) / 128 = number rest := by omega
  rw [number, word_of_ge large, digit, others, UInt8.ofNat_toNat]

theorem length_word_number_cons (zero : number rest = 0) :
    (word (number (byte :: rest))).length = 1 := by
  have small : byte.toNat % 128 + 128 * number rest < 128 := by omega
  rw [number, word_of_lt small, List.length_singleton]

theorem word_number_singleton (final : byte.toNat < 128) : word (number [byte]) = [byte] := by
  have digit : byte.toNat % 128 + 128 * 0 = byte.toNat := by omega
  simp only [number, digit, word_of_lt final, UInt8.ofNat_toNat]

namespace IsWord

theorem ne_nil (isWord : IsWord bytes) : bytes ≠ [] := by
  cases isWord <;> simp

theorem split_append (isWord : IsWord bytes) (rest : List UInt8) :
    split (bytes ++ rest) = bytes :: split rest := by
  induction isWord with
  | last final => simp only [List.singleton_append, split, if_pos final]
  | more continued _ ih =>
    have goesOn : ¬_ < 128 := Nat.not_lt.mpr continued
    simp only [List.cons_append, split, if_neg goesOn, ih]

/-- The bytes of a word before its last one. -/
theorem exists_eq_concat (isWord : IsWord bytes) :
    ∃ earlier last, bytes = earlier ++ [last] ∧ (∀ byte ∈ earlier, 128 ≤ byte.toNat) ∧
      last.toNat < 128 := by
  induction isWord with
  | @last byte final => exact ⟨[], byte, rfl, by simp, final⟩
  | @more byte rest continued _ ih =>
    rcases ih with ⟨earlier, last, rfl, earlierContinued, final⟩
    exact ⟨byte :: earlier, last, rfl, List.forall_mem_cons.mpr ⟨continued, earlierContinued⟩,
      final⟩

theorem exists_last (isWord : IsWord bytes) : ∃ byte ∈ bytes, byte.toNat < 128 := by
  rcases isWord.exists_eq_concat with ⟨earlier, last, rfl, _, final⟩
  exact ⟨last, List.mem_append_right earlier (List.mem_singleton_self last), final⟩

/-- Only one word starts a byte string. -/
theorem eq_of_append_eq (isWord : IsWord bytes) (otherWord : IsWord others)
    (same : bytes ++ rest = others ++ after) : bytes = others := by
  have pieces := congrArg split same
  rw [isWord.split_append, otherWord.split_append] at pieces
  exact (List.cons.inj pieces).1

theorem concat (continued : ∀ byte ∈ bytes, 128 ≤ byte.toNat) (final : byte.toNat < 128) :
    IsWord (bytes ++ [byte]) := by
  induction bytes with
  | nil => exact .last final
  | cons first rest ih =>
    rcases List.forall_mem_cons.mp continued with ⟨firstContinued, restContinued⟩
    exact .more firstContinued (ih restContinued)

theorem getLast?_of_number_eq_zero (isWord : IsWord bytes) (zero : number bytes = 0) :
    bytes.getLast? = some 0 := by
  induction isWord with
  | last final =>
    simp only [number] at zero
    simp only [List.getLast?_singleton, Option.some.injEq]
    apply UInt8.toNat_inj.mp
    simp only [UInt8.toNat_zero]
    omega
  | more _ isWord ih =>
    simp only [number] at zero
    rw [List.getLast?_cons_of_ne_nil isWord.ne_nil]
    exact ih (by omega)

theorem minimal_cons (isWord : IsWord rest) :
    Minimal (byte :: rest) ↔ number rest ≠ 0 ∧ Minimal rest := by
  have longer : (byte :: rest).length ≠ 1 := by simpa using isWord.ne_nil
  simp only [Minimal, longer, false_or, List.getLast?_cons_of_ne_nil isWord.ne_nil]
  constructor
  · intro lastNonzero
    exact ⟨fun zero => lastNonzero (isWord.getLast?_of_number_eq_zero zero), .inr lastNonzero⟩
  · rintro ⟨nonzero, single | lastNonzero⟩
    · rcases List.length_eq_one_iff.mp single with ⟨only, rfl⟩
      intro isZero
      have same : only = 0 := by simpa using isZero
      simp [number, same] at nonzero
    · exact lastNonzero

/-- No word of a number is shorter than the written one. -/
theorem length_word_number_le (isWord : IsWord bytes) :
    (word (number bytes)).length ≤ bytes.length := by
  induction isWord with
  | last final => exact Nat.le_of_eq (congrArg List.length (word_number_singleton final))
  | @more byte rest continued isWord ih =>
    by_cases zero : number rest = 0
    · rw [length_word_number_cons zero, List.length_cons]
      omega
    · rw [word_number_cons continued zero, List.length_cons, List.length_cons]
      omega

/-- No other word of a number is as short as the written one. -/
theorem word_number_of_length_le (isWord : IsWord bytes)
    (short : bytes.length ≤ (word (number bytes)).length) : word (number bytes) = bytes := by
  induction isWord with
  | last final => exact word_number_singleton final
  | @more byte rest continued isWord ih =>
    by_cases zero : number rest = 0
    · have := List.length_pos_iff.mpr isWord.ne_nil
      rw [length_word_number_cons zero, List.length_cons] at short
      omega
    · rw [word_number_cons continued zero, List.length_cons, List.length_cons] at short
      rw [word_number_cons continued zero, ih (Nat.le_of_succ_le_succ short)]

/-- The written word of a number is its only minimal one. -/
theorem word_number_eq_iff (isWord : IsWord bytes) :
    word (number bytes) = bytes ↔ Minimal bytes := by
  induction isWord with
  | last final => simp [word_number_singleton final, Minimal]
  | @more byte rest continued isWord ih =>
    rw [isWord.minimal_cons]
    by_cases zero : number rest = 0
    · have longer : (byte :: rest).length ≠ 1 := by simpa using isWord.ne_nil
      constructor
      · intro same
        exact absurd (same ▸ length_word_number_cons zero) longer
      · rintro ⟨nonzero, _⟩
        exact absurd zero nonzero
    · rw [word_number_cons continued zero, List.cons.injEq, ih]
      simp [zero]

end IsWord

section Again

variable {words : List (List UInt8)} (areWords : ∀ bytes ∈ words, IsWord bytes)

include areWords

theorem length_words_le :
    ((words.map number).flatMap word).length ≤ words.flatten.length := by
  induction words with
  | nil => simp
  | cons first others ih =>
    have firstShort := (areWords first (.head _)).length_word_number_le
    have othersShort := ih fun bytes mem => areWords bytes (.tail _ mem)
    simp only [List.map_cons, List.flatMap_cons, List.flatten_cons, List.length_append]
    omega

theorem words_eq_flatten_iff :
    (words.map number).flatMap word = words.flatten ↔ ∀ bytes ∈ words, Minimal bytes := by
  induction words with
  | nil => simp
  | cons first others ih =>
    have firstWord := areWords first (.head _)
    have otherWords : ∀ bytes ∈ others, IsWord bytes := by
      intro bytes mem
      exact areWords bytes (.tail _ mem)
    rw [List.map_cons, List.flatMap_cons, List.flatten_cons, List.forall_mem_cons,
      ← firstWord.word_number_eq_iff, ← ih otherWords]
    constructor
    · intro same
      -- Neither part grows, so both keep their lengths and the bytes can be compared in parts.
      have firstShort := firstWord.length_word_number_le
      have othersShort := length_words_le otherWords
      have lengths := congrArg List.length same
      simp only [List.length_append] at lengths
      exact List.append_inj same (by omega)
    · rintro ⟨firstSame, othersSame⟩
      rw [firstSame, othersSame]

end Again

end TimedGraph.Varint
