import Mathlib.Order.Bounds.Defs
import TimedGraph.Proofs.Word.Length
import TimedGraph.Proofs.Word.RoundTrip

/-!
# The written word is the shortest

The length of a word is defined by the writer, which goes on as long as the rest of its number
needs more than seven binary digits, foretold from the leading zeros of a machine integer, and
limited by the range of the reader.  These agree: the written word is as long as foretold
(`Varint.length_word`), no lower power of 128 exceeds its number (`Varint.isLeast_encodedLength`),
and whatever else a reader takes for the same number is longer (`Stream.Shortest`).

What the writer does with a 64-bit integer is said here also in its own steps, by masks and
shifts, and the foretold length by the count of leading zeros.
-/

namespace TimedGraph

namespace Varint

/-- The binary digits of a machine word are those behind its leading zeros. -/
theorem bitLength_toNat {width : Nat} (value : BitVec width) :
    bitLength value.toNat = width - value.clz.toNat := by
  apply Nat.le_antisymm
  · exact bitLength_le_iff.mpr BitVec.toNat_lt_two_pow_sub_clz
  · by_cases zero : value = BitVec.ofNat width 0
    · have all : value.clz.toNat = width := by
        simp [BitVec.clz_eq_iff_eq_zero.mpr zero]
      omega
    · have some : 0 < width := by
        apply Nat.pos_of_ne_zero
        rintro rfl
        exact zero BitVec.of_length_zero
      -- The digit behind the leading zeros is set, so one digit fewer would not do.
      have leading := BitVec.two_pow_sub_clz_le_toNat_of_ne_zero some zero
      have long : ¬bitLength value.toNat ≤ width - 1 - value.clz.toNat := by
        rw [bitLength_le_iff]
        exact Nat.not_lt.mpr leading
      omega

/-- The foretold length of a 64-bit integer by its leading zeros. -/
theorem encodedLength_toNat (value : UInt64) :
    let bits := 64 - value.toBitVec.clz.toNat
    encodedLength value.toNat = if bits = 0 then 1 else (bits + 6) / 7 := by
  have digits : bitLength value.toNat = 64 - value.toBitVec.clz.toNat :=
    bitLength_toNat value.toBitVec
  simp only [encodedLength, digits]
  split <;> omega

/-- The foretold length of a number is the least count of digits that can hold it. -/
theorem isLeast_encodedLength {number : Nat} (nonzero : number ≠ 0) :
    IsLeast {count | number < 2 ^ (7 * count)} (encodedLength number) := by
  have holds (count : Nat) : number < 2 ^ (7 * count) ↔ number < weight count := by
    rw [← pow_eq_weight]
    rfl
  simp only [holds]
  constructor
  · exact (encodedLength_le_iff (encodedLength_pos number)).mp (Nat.le_refl _)
  · intro count fits
    have some : 0 < count := by
      apply Nat.pos_of_ne_zero
      rintro rfl
      exact nonzero (Nat.lt_one_iff.mp fits)
    exact (encodedLength_le_iff some).mpr fits

/-- The lowest digit of a machine integer, marked as not the last. -/
theorem toUInt8_and_or (value : UInt64) :
    (value.toUInt8 &&& 127) ||| 128 = UInt8.ofNat (value.toNat % 128 + 128) := by
  have digit : (value.toUInt8 &&& 127).toNat = value.toNat % 128 := by
    have lowest := Nat.and_two_pow_sub_one_eq_mod (value.toNat % 2 ^ 8) 7
    rw [UInt8.toNat_and, UInt64.toNat_toUInt8]
    exact lowest.trans (by omega)
  have apart := Nat.two_pow_add_eq_or_of_lt (i := 7) (b := value.toNat % 128) (by omega) 1
  apply UInt8.toNat_inj.mp
  calc
    ((value.toUInt8 &&& 127) ||| 128).toNat = value.toNat % 128 ||| 128 := by
      rw [UInt8.toNat_or, digit]
      rfl
    _ = 128 ||| value.toNat % 128 := Nat.or_comm _ _
    _ = 128 + value.toNat % 128 := apart.symm
    _ = (UInt8.ofNat (value.toNat % 128 + 128)).toNat := by
      rw [UInt8.toNat_ofNat']
      omega

end Varint

namespace Stream

open Varint

/-- A reader of unsigned integers takes any word of a number for it. -/
theorem read_unsigned64_iff {source : List UInt8} {start stop : Nat} {value : UInt64} :
    read source start .unsigned64 = (.ok (.unsigned64 value), stop) ↔
      ∃ bytes rest, source.drop start = bytes ++ rest ∧ Accepted .unsigned64 bytes ∧
        number bytes = value.toNat ∧ stop = start + bytes.length := by
  have sameNumber (bytes : List UInt8) :
      (Item.unsigned64 value).toInt = Kind.unsigned64.integer (number bytes) ↔
        number bytes = value.toNat := Int.ofNat_inj.trans eq_comm
  rw [read_eq_ok_iff]
  simp only [sameNumber, Item.kind, true_and, Kind.target]

/-- The writer takes one digit at a time off a 64-bit integer, by a mask and a shift. -/
theorem write_unsigned64 (buffer : List UInt8) (value : UInt64) :
    write buffer (.unsigned64 value) =
      if value < 128 then (.ok 1, buffer ++ [value.toUInt8])
      else
        let (count, longer) :=
          write (buffer ++ [(value.toUInt8 &&& 127) ||| 128]) (.unsigned64 (value >>> 7))
        ((· + 1) <$> count, longer) := by
  have shifted : (value >>> 7).toNat = value.toNat / 128 := by
    rw [UInt64.toNat_shiftRight]
    exact Nat.shiftRight_eq_div_pow value.toNat 7
  by_cases small : value < 128
  · have lone : value.toNat < 128 := small
    have byte : UInt8.ofNat value.toNat = value.toUInt8 := rfl
    simp only [if_pos small, write, Item.word, word_of_lt lone, byte, List.length_singleton]
  · have large : ¬value.toNat < 128 := small
    simp only [if_neg small, write, Item.word, shifted, toUInt8_and_or, word_of_ge large,
      List.length_cons, List.append_assoc, List.singleton_append]
    rfl

/-- The most bytes that an integer of a kind takes. -/
def Kind.mostBytes : Kind → Nat
  | unsigned64 | folded64 => 10
  | nonnegative64 => 9
  | unsigned32 | nonnegative32 | folded32 => 5

/-- What distinguishes the bytes written for a 64-bit integer: how many they are, how their end
is marked, and that no other bytes are read as the same integer unless they are more. -/
structure Shortest (value : UInt64) (bytes : List UInt8) : Prop where
  length_eq : bytes.length = encodedLength value.toNat
  least : if value = 0 then bytes.length = 1
    else IsLeast {count | value.toNat < 2 ^ (7 * count)} bytes.length
  marked : ∃ earlier last, bytes = earlier ++ [last] ∧ (∀ byte ∈ earlier, 128 ≤ byte.toNat) ∧
    last.toNat < 128
  shortest : ∀ source start stop,
    read source start .unsigned64 = (.ok (.unsigned64 value), stop) → start + bytes.length ≤ stop
  unique : ∀ source, source.length = bytes.length ∧
    read source 0 .unsigned64 = (.ok (.unsigned64 value), bytes.length) ↔ source = bytes

theorem length_le_of_read {source : List UInt8} {start stop : Nat} {value : UInt64}
    (isRead : read source start .unsigned64 = (.ok (.unsigned64 value), stop)) :
    start + (word value.toNat).length ≤ stop := by
  rcases read_unsigned64_iff.mp isRead with ⟨bytes, rest, _, accepted, same, rfl⟩
  have short := accepted.isWord.length_word_number_le
  rw [same] at short
  exact Nat.add_le_add_left short start

theorem word_isPrefix_of_read {source : List UInt8} {start : Nat} {value : UInt64}
    (isRead : read source start .unsigned64 =
      (.ok (.unsigned64 value), start + (word value.toNat).length)) :
    word value.toNat <+: source.drop start := by
  rcases read_unsigned64_iff.mp isRead with ⟨bytes, rest, cut, accepted, same, stops⟩
  have short : bytes.length ≤ (word (number bytes)).length := by
    rw [same]
    omega
  rw [cut, ← same, accepted.isWord.word_number_of_length_le short]
  exact List.prefix_append bytes rest

theorem shortest_word (value : UInt64) : Shortest value (word value.toNat) where
  length_eq := length_word value.toNat
  least := by
    rw [length_word]
    split
    · rename_i zero
      rw [zero]
      rfl
    · rename_i nonzero
      apply isLeast_encodedLength
      intro zero
      exact nonzero (UInt64.toNat_inj.mp zero)
  marked := (isWord_word value.toNat).exists_eq_concat
  shortest _ _ _ := length_le_of_read
  unique := by
    intro source
    have own : read (word value.toNat) 0 .unsigned64 =
        (.ok (.unsigned64 value), (word value.toNat).length) := by
      have accepted : ¬(Item.unsigned64 value).Refused := by simp [Item.Refused, Item.kind]
      have found := read_word [] [] (Item.unsigned64 value).number_lt
      rw [Item.item_number accepted, List.append_nil] at found
      exact found
    constructor
    · rintro ⟨asLong, isRead⟩
      have within : word value.toNat <+: source.drop 0 := by
        apply word_isPrefix_of_read
        rwa [Nat.zero_add]
      exact (within.eq_of_length asLong.symm).symm
    · rintro rfl
      exact ⟨rfl, own⟩

theorem Kind.places_target (kind : Kind) : kind.target.places = kind.mostBytes := by
  cases kind <;> rfl

theorem le_mostBytes {buffer longer : List UInt8} {item : Item} {count : Nat}
    (written : write buffer item = (.ok count, longer)) : count ≤ item.kind.mostBytes := by
  have accepted : ¬item.Refused := by
    intro refused
    rw [write_of_refused buffer refused] at written
    cases written
  rw [write_of_accepted buffer accepted] at written
  rw [← Except.ok.inj (Prod.mk.inj written).1, ← Kind.places_target]
  exact (accepted_word item.kind.bits_target_pos item.number_lt).length_le

theorem exists_longest (kind : Kind) :
    ∃ item : Item, item.kind = kind ∧ ¬item.Refused ∧
      encodedLength item.number = kind.mostBytes := by
  cases kind with
  | unsigned64 => exact ⟨.unsigned64 18446744073709551615, rfl, by decide, by decide⟩
  | unsigned32 => exact ⟨.unsigned32 4294967295, rfl, by decide, by decide⟩
  | nonnegative32 => exact ⟨.nonnegative32 Int32.maxValue, rfl, by decide, by decide⟩
  | nonnegative64 => exact ⟨.nonnegative64 Int64.maxValue, rfl, by decide, by decide⟩
  | folded32 => exact ⟨.folded32 Int32.minValue, rfl, by decide, by decide⟩
  | folded64 => exact ⟨.folded64 Int64.minValue, rfl, by decide, by decide⟩

theorem isGreatest_mostBytes (buffer : List UInt8) (kind : Kind) :
    IsGreatest {count | ∃ item longer, item.kind = kind ∧
      write buffer item = (.ok count, longer)} kind.mostBytes := by
  constructor
  · rcases exists_longest kind with ⟨item, ofKind, accepted, longest⟩
    rw [← longest, ← length_word]
    exact ⟨item, _, ofKind, write_of_accepted buffer accepted⟩
  · rintro count ⟨item, longer, rfl, written⟩
    exact le_mostBytes written

/-- A 64-bit integer is written, digit by digit, in the bytes that its leading zeros foretell.
They are the only ones of their length that are read as this integer, and any others that are read
so are more.  Larger integers are not written in fewer bytes, and each kind of integer takes up to
its own number of bytes. -/
theorem written_exact (buffer : List UInt8) (value : UInt64) :
    (∃ bytes, write buffer (.unsigned64 value) =
        (.ok (encodedLength value.toNat), buffer ++ bytes) ∧ Shortest value bytes) ∧
    (write buffer (.unsigned64 value) =
      if value < 128 then (.ok 1, buffer ++ [value.toUInt8])
      else
        let (count, longer) :=
          write (buffer ++ [(value.toUInt8 &&& 127) ||| 128]) (.unsigned64 (value >>> 7))
        ((· + 1) <$> count, longer)) ∧
    (let bits := 64 - value.toBitVec.clz.toNat
     encodedLength value.toNat = if bits = 0 then 1 else (bits + 6) / 7) ∧
    (∀ other, value ≤ other → encodedLength value.toNat ≤ encodedLength other.toNat) ∧
    ∀ kind : Kind, IsGreatest {count | ∃ item longer, item.kind = kind ∧
      write buffer item = (.ok count, longer)} kind.mostBytes := by
  refine ⟨⟨word value.toNat, ?_, shortest_word value⟩, write_unsigned64 buffer value,
    encodedLength_toNat value, ?_, isGreatest_mostBytes buffer⟩
  · rw [← length_word]
    rfl
  · intro other le
    exact encodedLength_mono le

/-- The least integer of three bytes.  Written with a zero digit behind them it is read as well,
but from more bytes. -/
theorem written_exact_sample :
    ∃ bytes, write [7] (.unsigned64 16384) = (.ok 3, [7] ++ bytes) ∧
      read [128, 128, 129, 0] 0 .unsigned64 = (.ok (.unsigned64 16384), 4) ∧
      0 + bytes.length ≤ 4 ∧
      (16384 : UInt64) ≤ 2097151 ∧ encodedLength 16384 ≤ encodedLength 2097151 := by
  have overlong : read [128, 128, 129, 0] 0 .unsigned64 = (.ok (.unsigned64 16384), 4) := by rfl
  have le : (16384 : UInt64) ≤ 2097151 := by decide
  rcases written_exact [7] 16384 with ⟨⟨bytes, written, isShortest⟩, _, _, longer, _⟩
  exact ⟨bytes, written, overlong, isShortest.shortest _ _ _ overlong, le, longer _ le⟩

end Stream

end TimedGraph
