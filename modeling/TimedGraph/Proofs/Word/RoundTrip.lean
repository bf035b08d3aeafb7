import TimedGraph.Proofs.Word.Acceptance

/-!
# Streams are read back

An item is written as the word of one number, and only a negative integer of a nonnegative kind
has none.  A word is read back from between any other bytes, because it carries its own end, and
the cursor stands behind it then.  So a stream is read back in the order of its writing, by
readers of the kinds that were written, and what was refused has left no trace in it
(`Stream.mixed_roundTrip`).

A reader of another kind reads the same number and takes it for an integer of its own kind if it
lies in its range; it overflows otherwise, as there is no other word to be found at that place.
-/

namespace TimedGraph

namespace Stream

open Varint Folded

/-- Writes items one after the other and answers what came of each. -/
def writeAll (buffer : List UInt8) : List Item → List (Except CodecFault Nat) × List UInt8
  | [] => ([], buffer)
  | item :: rest =>
    let (outcome, longer) := write buffer item
    let (outcomes, whole) := writeAll longer rest
    (outcome :: outcomes, whole)

/-- Reads items one after the other, with one cursor, and answers what came of each. -/
def readAll (buffer : List UInt8) (cursor : Nat) : List Kind → List (Except CodecFault Item) × Nat
  | [] => ([], cursor)
  | kind :: rest =>
    let (outcome, next) := read buffer cursor kind
    let (outcomes, stop) := readAll buffer next rest
    (outcome :: outcomes, stop)

namespace Item

/-- A negative integer of a kind that has none. -/
def Refused (item : Item) : Prop :=
  (item.kind = .nonnegative32 ∨ item.kind = .nonnegative64) ∧ item.toInt < 0

instance : DecidablePred Refused :=
  fun item => inferInstanceAs (Decidable ((_ ∨ _) ∧ item.toInt < 0))

/-- The number whose word an item has. -/
def number : Item → Nat
  | unsigned64 value => value.toNat
  | unsigned32 value => value.toNat
  | nonnegative32 value => value.toInt.toNat
  | nonnegative64 value => value.toInt.toNat
  | folded32 value => (fold32 value).toNat
  | folded64 value => (fold64 value).toNat

variable {item : Item}

theorem word_of_refused (refused : item.Refused) :
    item.word = .error (.negativeValue item.toInt) := by
  rcases refused with ⟨isKind, negative⟩
  cases item with
  | nonnegative32 value => exact if_pos negative
  | nonnegative64 value => exact if_pos negative
  | _ => simp [kind] at isKind

theorem word_of_accepted (accepted : ¬item.Refused) :
    item.word = .ok (Varint.word item.number) := by
  cases item with
  | nonnegative32 value =>
    have nonnegative : ¬value.toInt < 0 := fun negative => accepted ⟨.inl rfl, negative⟩
    exact if_neg nonnegative
  | nonnegative64 value =>
    have nonnegative : ¬value.toInt < 0 := fun negative => accepted ⟨.inr rfl, negative⟩
    exact if_neg nonnegative
  | _ => rfl

theorem number_lt (item : Item) : item.number < item.kind.target.limit := by
  cases item with
  | unsigned64 value => exact value.toNat_lt
  | unsigned32 value => exact value.toNat_lt
  | nonnegative32 value =>
    have := value.toInt_lt
    have limit : Kind.nonnegative32.target.limit = 2 ^ 31 := rfl
    simp only [number, kind]
    omega
  | nonnegative64 value =>
    have := value.toInt_lt
    have limit : Kind.nonnegative64.target.limit = 2 ^ 63 := rfl
    simp only [number, kind]
    omega
  | folded32 value => exact (fold32 value).toNat_lt
  | folded64 value => exact (fold64 value).toNat_lt

theorem integer_number (accepted : ¬item.Refused) : item.kind.integer item.number = item.toInt := by
  cases item with
  | unsigned64 value => rfl
  | unsigned32 value => rfl
  | nonnegative32 value =>
    have nonnegative : ¬value.toInt < 0 := fun negative => accepted ⟨.inl rfl, negative⟩
    exact Int.toNat_of_nonneg (by omega)
  | nonnegative64 value =>
    have nonnegative : ¬value.toInt < 0 := fun negative => accepted ⟨.inr rfl, negative⟩
    exact Int.toNat_of_nonneg (by omega)
  | folded32 value => simp only [kind, Kind.integer, number, toNat_fold32, unfold_fold, toInt]
  | folded64 value => simp only [kind, Kind.integer, number, toNat_fold64, unfold_fold, toInt]

theorem item_number (accepted : ¬item.Refused) : item.kind.item item.number = item := by
  apply Item.ext
  · exact Kind.kind_item _ _
  · rw [Kind.toInt_item item.number_lt, integer_number accepted]

end Item

variable {item : Item} {items : List Item} {number : Nat}

theorem write_of_refused (buffer : List UInt8) (refused : item.Refused) :
    write buffer item = (.error (.negativeValue item.toInt), buffer) := by
  simp only [write, Item.word_of_refused refused]

theorem write_of_accepted (buffer : List UInt8) (accepted : ¬item.Refused) :
    write buffer item =
      (.ok (Varint.word item.number).length, buffer ++ Varint.word item.number) := by
  simp only [write, Item.word_of_accepted accepted]

theorem write_eq_error_iff {buffer result : List UInt8} {fault : CodecFault} :
    write buffer item = (.error fault, result) ↔
      item.Refused ∧ fault = .negativeValue item.toInt ∧ result = buffer := by
  by_cases refused : item.Refused
  · rw [write_of_refused buffer refused, Prod.mk.injEq, Except.error.injEq]
    simp only [refused, true_and, eq_comm]
  · rw [write_of_accepted buffer refused]
    simp [refused]

/-- The items that leave a word. -/
def accepted (items : List Item) : List Item :=
  items.filter (¬·.Refused)

/-- The words of items side by side. -/
def wordsOf (items : List Item) : List UInt8 :=
  items.flatMap fun item => Varint.word item.number

theorem wordsOf_cons (item : Item) (items : List Item) :
    wordsOf (item :: items) = Varint.word item.number ++ wordsOf items :=
  List.flatMap_cons

theorem writeAll_eq (buffer : List UInt8) (items : List Item) :
    writeAll buffer items =
      (items.map fun item =>
          if item.Refused then .error (.negativeValue item.toInt)
          else .ok (Varint.word item.number).length,
        buffer ++ wordsOf (accepted items)) := by
  induction items generalizing buffer with
  | nil => simp [writeAll, wordsOf, accepted]
  | cons item rest ih =>
    by_cases refused : item.Refused
    · have passedOver : accepted (item :: rest) = accepted rest := by simp [accepted, refused]
      simp only [writeAll, write_of_refused buffer refused, ih, passedOver, List.map_cons,
        if_pos refused]
    · have taken : accepted (item :: rest) = item :: accepted rest := by simp [accepted, refused]
      simp only [writeAll, write_of_accepted buffer refused, ih, taken, wordsOf_cons,
        List.append_assoc, List.map_cons, if_neg refused]

theorem Kind.bits_target_pos (kind : Kind) : 0 < kind.target.bits := by
  cases kind <;> decide

/-- The word of a number is read as an integer of any kind with that number in its range. -/
theorem read_word (buffer after : List UInt8) {kind : Kind} (fits : number < kind.target.limit) :
    read (buffer ++ Varint.word number ++ after) buffer.length kind =
      (.ok (kind.item number), (buffer ++ Varint.word number).length) := by
  rw [List.append_assoc, read, List.drop_left,
    Varint.read_word number after kind.bits_target_pos fits, List.length_append]
  rfl

theorem read_word_of_le (buffer after : List UInt8) {kind : Kind}
    (past : kind.target.limit ≤ number) :
    (read (buffer ++ Varint.word number ++ after) buffer.length kind).1 =
      .error (.overflow kind.target.name) := by
  rw [List.append_assoc, read, List.drop_left, Varint.read_word_of_le after past]
  rfl

/-- What a reader of any kind makes of the word of a number. -/
theorem read_number (buffer after : List UInt8) (number : Nat) (kind : Kind) :
    if number < kind.target.limit then
      ∃ item, read (buffer ++ Varint.word number ++ after) buffer.length kind =
          (.ok item, (buffer ++ Varint.word number).length) ∧
        item.kind = kind ∧ item.toInt = kind.integer number
    else
      (read (buffer ++ Varint.word number ++ after) buffer.length kind).1 =
        .error (.overflow kind.target.name) := by
  split
  · rename_i fits
    exact ⟨_, read_word buffer after fits, kind.kind_item _, Kind.toInt_item fits⟩
  · rename_i past
    exact read_word_of_le buffer after (Nat.not_lt.mp past)

/-- A 64-bit integer folds into 32 bits just if it is a 32-bit integer. -/
theorem fold64_lt_limit_iff (value : Int64) :
    (fold64 value).toNat < Kind.folded32.target.limit ↔
      Int32.minValue.toInt ≤ value.toInt ∧ value.toInt ≤ Int32.maxValue.toInt := by
  have narrow := fold_lt_iff value.toInt (2 ^ 31)
  have limit : Kind.folded32.target.limit = 2 * 2 ^ 31 := rfl
  rw [toNat_fold64, limit, narrow, Int32.toInt_minValue, Int32.toInt_maxValue]
  omega

theorem readAll_wordsOf (buffer after : List UInt8) (allAccepted : ∀ item ∈ items, ¬item.Refused) :
    readAll (buffer ++ wordsOf items ++ after) buffer.length (items.map Item.kind) =
      (items.map .ok, (buffer ++ wordsOf items).length) := by
  induction items generalizing buffer with
  | nil => simp [readAll, wordsOf]
  | cons item rest ih =>
    rcases List.forall_mem_cons.mp allAccepted with ⟨firstAccepted, restAccepted⟩
    have first := read_word buffer (wordsOf rest ++ after) item.number_lt
    have others := ih (buffer ++ Varint.word item.number) restAccepted
    rw [Item.item_number firstAccepted] at first
    simp only [List.append_assoc] at first others
    simp only [wordsOf_cons, List.append_assoc, List.map_cons, readAll, first, others]

/-- Writing fails only for a negative integer of a nonnegative kind, and then writes nothing.  What
was written, between any other bytes, is read back in its order by readers of its kinds, and the
cursor then stands behind it.  A reader of another kind reads a plain number as the same number if
it is in its range, and overflows otherwise; so does a 32-bit reader of a folded 64-bit integer. -/
theorem mixed_roundTrip (buffer after : List UInt8) (items : List Item) :
    (∀ item fault result, write buffer item = (.error fault, result) ↔
      item.Refused ∧ fault = .negativeValue item.toInt ∧ result = buffer) ∧
    (∃ bytes, writeAll buffer items =
        (items.map fun item =>
            if item.Refused then .error (.negativeValue item.toInt)
            else .ok (Varint.word item.number).length,
          buffer ++ bytes) ∧
      readAll (buffer ++ bytes ++ after) buffer.length ((accepted items).map Item.kind) =
        ((accepted items).map .ok, (buffer ++ bytes).length)) ∧
    (∀ (number : UInt64) (kind : Kind),
      let written := (write buffer (.unsigned64 number)).2
      if number.toNat < kind.target.limit then
        ∃ item, read (written ++ after) buffer.length kind = (.ok item, written.length) ∧
          item.kind = kind ∧ item.toInt = kind.integer number.toNat
      else (read (written ++ after) buffer.length kind).1 = .error (.overflow kind.target.name)) ∧
    ∀ value : Int64,
      let written := (write buffer (.folded64 value)).2
      if Int32.minValue.toInt ≤ value.toInt ∧ value.toInt ≤ Int32.maxValue.toInt then
        ∃ item, read (written ++ after) buffer.length .folded32 = (.ok item, written.length) ∧
          item.kind = .folded32 ∧ item.toInt = value.toInt
      else (read (written ++ after) buffer.length .folded32).1 = .error (.overflow "u32") := by
  refine ⟨fun _ _ _ => write_eq_error_iff, ?_, ?_, ?_⟩
  · refine ⟨_, writeAll_eq buffer items, readAll_wordsOf buffer after ?_⟩
    intro item mem
    simpa using (List.mem_filter.mp mem).2
  · intro number kind
    exact read_number buffer after number.toNat kind
  · intro value
    have asPlace := read_number buffer after (fold64 value).toNat .folded32
    have unfolded : Kind.folded32.integer (fold64 value).toNat = value.toInt := by
      rw [Kind.integer, toNat_fold64, unfold_fold]
    rw [unfolded] at asPlace
    simp only [fold64_lt_limit_iff] at asPlace
    exact asPlace

end Stream

end TimedGraph
