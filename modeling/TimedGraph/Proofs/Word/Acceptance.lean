import TimedGraph.Proofs.Word.Folding
import TimedGraph.Proofs.Word.Grammar
import TimedGraph.Word.Stream

/-!
# What a reader accepts

A reader looks at one byte after the other and asks each time whether its leading binary digit
still lies in the range.  What it comes to is said here of the bytes as a whole, by the number
that their digits make: `Varint.Verdict` knows a word of the range, bytes that end inside such a
word, and bytes of which one is the first to leave the range.  These exclude each other, and
reading always comes to one of them, because the bytes that the reader has behind it are all
unfinished and its state is their length and their number (`Varint.verdict_readFrom`).

The reader itself never compares that number.  As long as it lies below the weight of the next
digit, the leading binary digit of this one tells whether the number leaves the range
(`Varint.progress_eq`), and nothing else about the test is used.

The main statement, `Stream.read_exact`, says it of the readers of all kinds of integer, with the
cursor at any place.
-/

namespace TimedGraph

namespace Varint

/-- The most bytes that a word of the range has. -/
def Target.places (target : Target) : Nat :=
  (target.bits + 6) / 7

example : [Target.unsigned64, .unsigned32, .nonnegative64, .nonnegative32].map Target.places =
    [10, 5, 9, 5] := by rfl

/-- A word of the range. -/
structure Accepted (target : Target) (bytes : List UInt8) : Prop where
  isWord : IsWord bytes
  length_le : bytes.length ≤ target.places
  number_lt : number bytes < target.limit

/-- Bytes that have not left the range, with no end of a word among them. -/
structure Unfinished (target : Target) (bytes : List UInt8) : Prop where
  continued : ∀ byte ∈ bytes, 128 ≤ byte.toNat
  length_le : bytes.length ≤ target.places
  number_lt : number bytes < target.limit

/-- The bytes up to an index are more than a word of the range has, or their digits make too
large a number. -/
def Exceeds (target : Target) (source : List UInt8) (index : Nat) : Prop :=
  target.places ≤ index ∨ target.limit ≤ number (source.take (index + 1))

/-- The index of the byte that leaves the range. -/
structure FirstExceeding (target : Target) (source : List UInt8) (index : Nat) : Prop where
  inside : index < source.length
  exceeds : Exceeds target source index
  earlier : ∀ before < index, ¬Exceeds target source before

/-- What reading a word at the start of `source` comes to. -/
inductive Verdict (target : Target) (source : List UInt8) : Reading → Prop where
  | accepted {bytes rest : List UInt8} (cut : source = bytes ++ rest)
      (accepted : Accepted target bytes) : Verdict target source ⟨.ok (number bytes), bytes.length⟩
  | truncated (unfinished : Unfinished target source) :
      Verdict target source ⟨.error (.truncated source.length), source.length⟩
  | overflow {index : Nat} (continued : ∀ byte ∈ source.take index, 128 ≤ byte.toNat)
      (first : FirstExceeding target source index) :
      Verdict target source ⟨.error (.overflow target.name), index + 1⟩

variable {target : Target} {bytes source rest : List UInt8} {index position value digit : Nat}

/-- The leading binary digit of a digit lies past the range just if the number that it makes with
all digits below does. -/
theorem overflows_iff (bounded : value < weight position) (room : 7 * position < target.bits) :
    target.bits < 7 * position + bitLength digit ↔
      target.limit ≤ value + digit * weight position := by
  let above := Nat.pow 2 (target.bits - 7 * position)
  have whole : target.limit = above * weight position := by
    rw [← pow_eq_weight, Target.limit]
    calc
      Nat.pow 2 target.bits = Nat.pow 2 (target.bits - 7 * position + 7 * position) := by
        rw [Nat.sub_add_cancel (Nat.le_of_lt room)]
      _ = above * Nat.pow 2 (7 * position) := Nat.pow_add 2 _ _
  have binary : target.bits < 7 * position + bitLength digit ↔ above ≤ digit := by
    rw [← Nat.not_lt, ← bitLength_le_iff]
    omega
  rw [binary, whole]
  constructor
  · intro large
    exact Nat.le_add_left_of_le (Nat.mul_le_mul_right _ large)
  · intro past
    -- The digits below do not reach up to the next multiple of this position's weight.
    have below : above * weight position < (digit + 1) * weight position := by
      rw [Nat.succ_mul digit]
      omega
    exact Nat.le_of_lt_succ (Nat.lt_of_mul_lt_mul_right below)

/-- What one more byte makes of a word, by the number that the digits make. -/
theorem progress_eq (target : Target) (bounded : value < weight position) (byte : UInt8) :
    progress target position value byte =
      if target.bits ≤ 7 * position ∨
          target.limit ≤ value + byte.toNat % 128 * weight position then .overflow
      else if byte.toNat < 128 then .finished (value + byte.toNat % 128 * weight position)
      else .unfinished (value + byte.toNat % 128 * weight position) := by
  by_cases room : 7 * position < target.bits
  · simp only [progress, overflows_iff bounded room]
  · have full : target.bits ≤ 7 * position := Nat.not_lt.mp room
    simp only [progress, full, true_or, if_true]

theorem not_exceeds (short : bytes.length ≤ target.places) (fits : number bytes < target.limit)
    (inside : index < bytes.length) (rest : List UInt8) :
    ¬Exceeds target (bytes ++ rest) index := by
  rintro (long | large)
  · omega
  · have reach : index + 1 ≤ bytes.length := inside
    have whole := number_append (bytes.take (index + 1)) (bytes.drop (index + 1))
    rw [List.take_append_drop] at whole
    rw [List.take_append_of_le_length reach] at large
    omega

theorem Accepted.not_continued (accepted : Accepted target bytes)
    (within : bytes <+: source) : ¬∀ byte ∈ source, 128 ≤ byte.toNat := by
  intro continued
  rcases accepted.isWord.exists_last with ⟨byte, mem, final⟩
  have := continued byte (within.subset mem)
  omega

/-- A word of the range ends before any byte that leaves it. -/
theorem Accepted.not_overflow (accepted : Accepted target bytes) (cut : source = bytes ++ rest)
    (continued : ∀ byte ∈ source.take index, 128 ≤ byte.toNat) :
    ¬FirstExceeding target source index := by
  subst cut
  intro first
  rcases Nat.lt_or_ge index bytes.length with inside | beyond
  · exact not_exceeds accepted.length_le accepted.number_lt inside rest first.exceeds
  · refine accepted.not_continued ?_ continued
    exact (List.prefix_take_iff).mpr ⟨List.prefix_append _ _, beyond⟩

theorem Unfinished.not_overflow (unfinished : Unfinished target source) :
    ¬FirstExceeding target source index := by
  intro first
  have stays := not_exceeds unfinished.length_le unfinished.number_lt first.inside []
  rw [List.append_nil] at stays
  exact stays first.exceeds

theorem FirstExceeding.unique {other : Nat} (first : FirstExceeding target source index)
    (second : FirstExceeding target source other) : index = other := by
  rcases Nat.lt_trichotomy index other with before | same | after
  · exact absurd first.exceeds (second.earlier index before)
  · exact same
  · exact absurd second.exceeds (first.earlier other after)

theorem Verdict.unique {reading other : Reading} (verdict : Verdict target source reading)
    (second : Verdict target source other) : reading = other := by
  cases verdict with
  | accepted cut accepted =>
    cases second with
    | accepted otherCut otherAccepted =>
      have same := accepted.isWord.eq_of_append_eq otherAccepted.isWord (cut.symm.trans otherCut)
      rw [same]
    | truncated unfinished =>
      exact absurd unfinished.continued (accepted.not_continued ⟨_, cut.symm⟩)
    | overflow continued first => exact absurd first (accepted.not_overflow cut continued)
  | truncated unfinished =>
    cases second with
    | accepted cut accepted =>
      exact absurd unfinished.continued (accepted.not_continued ⟨_, cut.symm⟩)
    | truncated _ => rfl
    | overflow _ first => exact absurd first unfinished.not_overflow
  | overflow continued first =>
    cases second with
    | accepted cut accepted => exact absurd first (accepted.not_overflow cut continued)
    | truncated unfinished => exact absurd first unfinished.not_overflow
    | overflow _ otherFirst => rw [first.unique otherFirst]

/-- A reader inside a word has unfinished bytes behind it, and comes to the verdict on them and
the bytes ahead. -/
theorem verdict_readFrom (unfinished : Unfinished target bytes) (rest : List UInt8) :
    Verdict target (bytes ++ rest) (readFrom target bytes.length (number bytes) rest) := by
  induction rest generalizing bytes with
  | nil =>
    rw [List.append_nil]
    exact .truncated unfinished
  | cons byte rest ih =>
    have cut : bytes ++ byte :: rest = bytes ++ [byte] ++ rest := by simp
    have upTo : (bytes ++ byte :: rest).take (bytes.length + 1) = bytes ++ [byte] := by
      rw [cut]
      exact List.take_left' (by simp)
    have full : target.bits ≤ 7 * bytes.length ↔ target.places ≤ bytes.length := by
      rw [Target.places]
      omega
    simp only [readFrom, progress_eq target (number_lt_weight bytes), ← number_concat, full]
    by_cases exceeds : target.places ≤ bytes.length ∨ target.limit ≤ number (bytes ++ [byte])
    · simp only [if_pos exceeds]
      refine .overflow ?_ ⟨by simp, ?_, ?_⟩
      · rw [List.take_left]
        exact unfinished.continued
      · rwa [Exceeds, upTo]
      · intro before earlier
        exact not_exceeds unfinished.length_le unfinished.number_lt earlier _
    · have longer : (bytes ++ [byte]).length = bytes.length + 1 := by simp
      have short : (bytes ++ [byte]).length ≤ target.places := by omega
      have fits : number (bytes ++ [byte]) < target.limit := by omega
      simp only [if_neg exceeds]
      by_cases final : byte.toNat < 128
      · simp only [if_pos final]
        rw [← longer]
        exact .accepted cut ⟨.concat unfinished.continued final, short, fits⟩
      · simp only [if_neg final]
        rw [← longer, cut]
        refine ih ⟨?_, short, fits⟩
        intro other mem
        rcases List.mem_append.mp mem with old | new
        · exact unfinished.continued other old
        · rw [List.mem_singleton.mp new]
          omega

theorem verdict_read (target : Target) (source : List UInt8) :
    Verdict target source (read target source) := by
  have none : Unfinished target [] := ⟨by simp, by simp, Nat.two_pow_pos _⟩
  exact verdict_readFrom none source

theorem accepted_word (someBits : 0 < target.bits) (fits : value < target.limit) :
    Accepted target (word value) := by
  refine ⟨isWord_word value, ?_, by rwa [number_word]⟩
  have short : bitLength value ≤ target.bits := bitLength_le_iff.mpr fits
  rw [length_word, encodedLength, Target.places]
  omega

/-- A word is read back from in front of any bytes. -/
theorem read_word (number : Nat) (rest : List UInt8) (someBits : 0 < target.bits)
    (fits : number < target.limit) :
    read target (word number ++ rest) = ⟨.ok number, (word number).length⟩ := by
  have verdict : Verdict target (word number ++ rest) _ :=
    .accepted rfl (accepted_word someBits fits)
  rw [← verdict.unique (verdict_read target _), number_word]

/-- A number past the range of a reader is not read, whatever stands behind its word. -/
theorem read_word_of_le (rest : List UInt8) (past : target.limit ≤ value) :
    (read target (word value ++ rest)).outcome = .error (.overflow target.name) := by
  have verdict := verdict_read target (word value ++ rest)
  generalize read target (word value ++ rest) = reading at verdict
  cases verdict with
  | accepted cut accepted =>
    have same := (isWord_word value).eq_of_append_eq accepted.isWord cut
    have inRange := accepted.number_lt
    rw [← same, number_word] at inRange
    omega
  | truncated unfinished =>
    rcases (isWord_word value).exists_last with ⟨byte, mem, final⟩
    have := unfinished.continued byte (List.mem_append_left rest mem)
    omega
  | overflow _ _ => rfl

end Varint

namespace Stream

open Varint

/-- The integer that a number in the range of a kind stands for. -/
def Kind.integer (kind : Kind) (number : Nat) : Int :=
  match kind with
  | folded32 | folded64 => Folded.unfold number
  | unsigned64 | unsigned32 | nonnegative32 | nonnegative64 => number

@[simp]
theorem Kind.kind_item (kind : Kind) (number : Nat) : (kind.item number).kind = kind := by
  cases kind <;> rfl

/-- An item is made of a number in its range without loss. -/
theorem Kind.toInt_item {kind : Kind} {number : Nat} (fits : number < kind.target.limit) :
    (kind.item number).toInt = kind.integer number := by
  cases kind with
  | unsigned64 => exact congrArg Nat.cast (UInt64.toNat_ofNat_of_lt' fits)
  | unsigned32 => exact congrArg Nat.cast (UInt32.toNat_ofNat_of_lt' fits)
  | nonnegative32 => exact Int32.toInt_ofNat_of_lt fits
  | nonnegative64 => exact Int64.toInt_ofNat_of_lt fits
  | folded32 =>
    simp only [item, Item.toInt, integer, Folded.toInt_unfold32, UInt32.toNat_ofNat_of_lt' fits]
  | folded64 =>
    simp only [item, Item.toInt, integer, Folded.toInt_unfold64, UInt64.toNat_ofNat_of_lt' fits]

theorem Item.ext {item other : Item} (sameKind : item.kind = other.kind)
    (sameInt : item.toInt = other.toInt) : item = other := by
  cases item <;> cases other <;> simp only [kind, reduceCtorEq] at sameKind
  · exact congrArg _ (UInt64.toNat_inj.mp (Int.ofNat_inj.mp sameInt))
  · exact congrArg _ (UInt32.toNat_inj.mp (Int.ofNat_inj.mp sameInt))
  · exact congrArg _ (Int32.toInt_inj.mp sameInt)
  · exact congrArg _ (Int64.toInt_inj.mp sameInt)
  · exact congrArg _ (Int32.toInt_inj.mp sameInt)
  · exact congrArg _ (Int64.toInt_inj.mp sameInt)

variable {source : List UInt8} {start : Nat} {kind : Kind}

theorem read_of_verdict {reading : Reading}
    (verdict : Verdict kind.target (source.drop start) reading) :
    read source start kind = (kind.item <$> reading.outcome, start + reading.consumed) := by
  have same := verdict.unique (verdict_read kind.target (source.drop start))
  subst same
  rfl

theorem exists_verdict (source : List UInt8) (start : Nat) (kind : Kind) :
    ∃ reading, Verdict kind.target (source.drop start) reading ∧
      read source start kind = (kind.item <$> reading.outcome, start + reading.consumed) :=
  ⟨_, verdict_read kind.target (source.drop start), rfl⟩

theorem read_eq_ok_iff {item : Item} {stop : Nat} :
    read source start kind = (.ok item, stop) ↔
      ∃ bytes rest, source.drop start = bytes ++ rest ∧ Accepted kind.target bytes ∧
        item.kind = kind ∧ item.toInt = kind.integer (number bytes) ∧
        stop = start + bytes.length := by
  constructor
  · intro isRead
    rcases exists_verdict source start kind with ⟨reading, verdict, comesTo⟩
    rw [comesTo] at isRead
    cases verdict with
    | accepted cut accepted =>
      rcases Prod.mk.inj isRead with ⟨isItem, isStop⟩
      rw [← Except.ok.inj isItem]
      exact ⟨_, _, cut, accepted, kind.kind_item _, Kind.toInt_item accepted.number_lt,
        isStop.symm⟩
    | truncated _ => cases isRead
    | overflow _ _ => cases isRead
  · rintro ⟨bytes, rest, cut, accepted, sameKind, sameInt, rfl⟩
    have same : kind.item (number bytes) = item := by
      apply Item.ext
      · rw [Kind.kind_item, sameKind]
      · rw [Kind.toInt_item accepted.number_lt, sameInt]
    rw [read_of_verdict (.accepted cut accepted), ← same]
    rfl

theorem read_eq_truncated_iff {count stop : Nat} :
    read source start kind = (.error (.truncated count), stop) ↔
      Unfinished kind.target (source.drop start) ∧ count = (source.drop start).length ∧
        stop = max start source.length := by
  have atEnd : start + (source.drop start).length = max start source.length := by
    rw [List.length_drop]
    omega
  constructor
  · intro isRead
    rcases exists_verdict source start kind with ⟨reading, verdict, comesTo⟩
    rw [comesTo] at isRead
    cases verdict with
    | accepted _ _ => cases isRead
    | truncated unfinished =>
      rcases Prod.mk.inj isRead with ⟨isFault, isStop⟩
      have isCount := CodecFault.truncated.inj (Except.error.inj isFault)
      exact ⟨unfinished, isCount.symm, isStop.symm.trans atEnd⟩
    | overflow _ _ => cases isRead
  · rintro ⟨unfinished, rfl, rfl⟩
    rw [read_of_verdict (.truncated unfinished), atEnd]
    rfl

/-- A reader of any kind accepts just the words of its range, and stands behind the word then.  It
runs out of bytes just if all that are left are unfinished, and then stands at the end.  Otherwise
it finds that the number leaves the range, and stands behind the first byte that does. -/
theorem read_exact (source : List UInt8) (start : Nat) (kind : Kind) :
    (∀ item stop, read source start kind = (.ok item, stop) ↔
      ∃ bytes rest, source.drop start = bytes ++ rest ∧ Accepted kind.target bytes ∧
        item.kind = kind ∧ item.toInt = kind.integer (number bytes) ∧
        stop = start + bytes.length) ∧
    (∀ count stop, read source start kind = (.error (.truncated count), stop) ↔
      Unfinished kind.target (source.drop start) ∧ count = (source.drop start).length ∧
        stop = max start source.length) ∧
    ((∃ bytes rest, source.drop start = bytes ++ rest ∧ Accepted kind.target bytes) ∨
      Unfinished kind.target (source.drop start) ∨
      ∃ index, FirstExceeding kind.target (source.drop start) index ∧
        read source start kind =
          (.error (.overflow kind.target.name), start + index + 1)) := by
  refine ⟨fun _ _ => read_eq_ok_iff, fun _ _ => read_eq_truncated_iff, ?_⟩
  rcases exists_verdict source start kind with ⟨reading, verdict, comesTo⟩
  cases verdict with
  | accepted cut accepted => exact .inl ⟨_, _, cut, accepted⟩
  | truncated unfinished => exact .inr (.inl unfinished)
  | overflow _ first => exact .inr (.inr ⟨_, first, comesTo⟩)

end Stream

end TimedGraph
