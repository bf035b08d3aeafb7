import Mathlib.Algebra.Group.Int.Defs
import Mathlib.Algebra.Group.Nat.Defs
import TimedGraph.Proofs.Word.RoundTrip

/-!
# Folding at both widths

On a machine word folding is the word shifted by one place, which discards its sign, with every
binary digit turned over if the sign was set.  An arithmetic shift by all places but one makes the
mask for that, as it fills the word with the sign; the lowest digit, negated, makes the mask for
the way back.  At any width these masks are nothing or all digits, and the two laws of the shifts
come down to doubling and halving (`Folded.toNat_shiftLeft_xor`, `Folded.toInt_ushiftRight_xor`).

Folding keeps the order of magnitude at each width (`Folded.IsFolding`), and both widths fold an
integer that they share to one number.  A 32-bit integer therefore has the same word in either
kind, and is found again by readers of both.
-/

namespace TimedGraph

namespace Folded

section Shifts

variable {width : Nat} {value : BitVec (width + 1)}

/-- The sign of a negative word fills it. -/
theorem sshiftRight_of_negative (negative : value.msb = true) :
    value.sshiftRight width = BitVec.allOnes (width + 1) := by
  have large : 2 ^ width ≤ value.toNat := by simpa [BitVec.msb_eq_decide] using negative
  have gone : (2 ^ (width + 1) - 1 - value.toNat) >>> width = 0 := by
    rw [Nat.shiftRight_eq_div_pow]
    apply Nat.div_eq_of_lt
    omega
  apply BitVec.eq_of_toNat_eq
  simp only [BitVec.toNat_sshiftRight_of_msb_true negative, gone, BitVec.toNat_allOnes,
    Nat.sub_zero]

theorem sshiftRight_of_nonnegative (nonnegative : value.msb = false) :
    value.sshiftRight width = 0#(width + 1) := by
  have small : value.toNat < 2 ^ width := by simpa [BitVec.msb_eq_decide] using nonnegative
  apply BitVec.eq_of_toNat_eq
  simp only [BitVec.sshiftRight_eq_of_msb_false nonnegative, BitVec.toNat_ushiftRight,
    Nat.shiftRight_eq_div_pow]
  exact Nat.div_eq_of_lt small

/-- Folding by shifts: a word doubled, and turned over if it was negative. -/
theorem toNat_shiftLeft_xor (value : BitVec (width + 1)) :
    (value <<< 1 ^^^ value.sshiftRight width).toNat = fold value.toInt := by
  have bounded := value.isLt
  cases sign : value.msb with
  | false =>
    have small : value.toNat < 2 ^ width := by simpa [BitVec.msb_eq_decide] using sign
    have doubled : (value <<< 1).toNat = 2 * value.toNat := by
      rw [BitVec.toNat_shiftLeft, Nat.shiftLeft_eq, Nat.mod_eq_of_lt (by omega)]
      omega
    rw [sshiftRight_of_nonnegative sign, BitVec.xor_zero, doubled,
      BitVec.toInt_eq_toNat_of_msb sign]
    rfl
  | true =>
    have large : 2 ^ width ≤ value.toNat := by simpa [BitVec.msb_eq_decide] using sign
    have doubled : (value <<< 1).toNat = 2 * value.toNat - 2 ^ (width + 1) := by
      rw [BitVec.toNat_shiftLeft, Nat.shiftLeft_eq, Nat.mod_eq_sub_mod (by omega),
        Nat.mod_eq_of_lt (by omega)]
      omega
    have magnitude : value.toInt = .negSucc (2 ^ (width + 1) - 1 - value.toNat) := by
      simp only [BitVec.toInt_eq_msb_cond, sign, if_true]
      omega
    rw [sshiftRight_of_negative sign, BitVec.xor_allOnes, BitVec.toNat_not, doubled, magnitude,
      fold]
    omega

/-- Unfolding by shifts: a word halved, and turned over if it was odd. -/
theorem toInt_ushiftRight_xor (place : BitVec (width + 1)) :
    (place >>> 1 ^^^ -(place &&& 1#(width + 1))).toInt = unfold place.toNat := by
  have bounded := place.isLt
  have half : (place >>> 1).toNat = place.toNat / 2 := BitVec.toNat_ushiftRight place 1
  have lowest : (place &&& 1#(width + 1)).toNat = place.toNat % 2 := by
    simp only [BitVec.toNat_and, BitVec.toNat_one (Nat.succ_pos width), Nat.and_one_is_mod]
  rcases Nat.mod_two_eq_zero_or_one place.toNat with even | odd
  · have none : place &&& 1#(width + 1) = 0#(width + 1) := by
      apply BitVec.eq_of_toNat_eq
      rw [lowest, even, BitVec.toNat_zero]
    rw [none, BitVec.neg_zero, BitVec.xor_zero, BitVec.toInt_ushiftRight, unfold, if_pos even]
    rfl
  · have one : place &&& 1#(width + 1) = 1#(width + 1) := by
      apply BitVec.eq_of_toNat_eq
      rw [lowest, odd, BitVec.toNat_one (Nat.succ_pos width)]
    -- Halving clears the sign, so that turning over sets it.
    rw [one, BitVec.neg_one_eq_allOnes, BitVec.xor_allOnes, BitVec.toInt_eq_toNat_cond,
      BitVec.toNat_not, half, unfold, if_neg (by omega)]
    split <;> omega

end Shifts

theorem fold32_eq (value : Int32) : fold32 value = (value <<< 1 ^^^ value >>> 31).toUInt32 := by
  apply UInt32.toNat_inj.mp
  rw [toNat_fold32]
  exact (toNat_shiftLeft_xor value.toBitVec).symm

theorem unfold32_eq (place : UInt32) :
    unfold32 place = (place >>> 1).toInt32 ^^^ -(place &&& 1).toInt32 := by
  apply Int32.toInt_inj.mp
  rw [toInt_unfold32]
  exact (toInt_ushiftRight_xor place.toBitVec).symm

theorem fold64_eq (value : Int64) : fold64 value = (value <<< 1 ^^^ value >>> 63).toUInt64 := by
  apply UInt64.toNat_inj.mp
  rw [toNat_fold64]
  exact (toNat_shiftLeft_xor value.toBitVec).symm

theorem unfold64_eq (place : UInt64) :
    unfold64 place = (place >>> 1).toInt64 ^^^ -(place &&& 1).toInt64 := by
  apply Int64.toInt_inj.mp
  rw [toInt_unfold64]
  exact (toInt_ushiftRight_xor place.toBitVec).symm

/-- An integer folds into so many binary digits if it is a signed integer of as many. -/
theorem fold_lt_pow_iff (value : Int) (bits : Nat) :
    fold value < 2 ^ (bits + 1) ↔ -2 ^ bits ≤ value ∧ value < 2 ^ bits := by
  have whole : 2 ^ (bits + 1) = 2 * 2 ^ bits := Nat.pow_succ'
  have half : ((2 ^ bits : Nat) : Int) = 2 ^ bits := Int.natCast_pow 2 bits
  rw [whole, fold_lt_iff, half]

/-- A folding of the integers of one width: it is a bijection, and an integer lies below a power of
two after folding just if it lies between minus the half of that power and the half before. -/
structure IsFolding {Signed Unsigned : Type} (toInt : Signed → Int) (toNat : Unsigned → Nat)
    (fold : Signed → Unsigned) (unfold : Unsigned → Signed) : Prop where
  unfold_fold : ∀ value, unfold (fold value) = value
  fold_unfold : ∀ place, fold (unfold place) = place
  lt_pow_iff : ∀ value bits,
    toNat (fold value) < 2 ^ (bits + 1) ↔ -2 ^ bits ≤ toInt value ∧ toInt value < 2 ^ bits

/-- A folding that is the restriction of folding on all integers. -/
theorem IsFolding.of_restricts {Signed Unsigned : Type} {toInt : Signed → Int}
    {toNat : Unsigned → Nat} {narrowFold : Signed → Unsigned} {narrowUnfold : Unsigned → Signed}
    (toInt_injective : Function.Injective toInt) (toNat_injective : Function.Injective toNat)
    (folds : ∀ value, toNat (narrowFold value) = fold (toInt value))
    (unfolds : ∀ place, toInt (narrowUnfold place) = unfold (toNat place)) :
    IsFolding toInt toNat narrowFold narrowUnfold where
  unfold_fold value := by
    apply toInt_injective
    rw [unfolds, folds, Folded.unfold_fold]
  fold_unfold place := by
    apply toNat_injective
    rw [folds, unfolds, Folded.fold_unfold]
  lt_pow_iff value bits := by rw [folds, fold_lt_pow_iff]

theorem isFolding32 : IsFolding Int32.toInt UInt32.toNat fold32 unfold32 :=
  .of_restricts (fun _ _ => Int32.toInt_inj.mp) (fun _ _ => UInt32.toNat_inj.mp) toNat_fold32
    toInt_unfold32

theorem isFolding64 : IsFolding Int64.toInt UInt64.toNat fold64 unfold64 :=
  .of_restricts (fun _ _ => Int64.toInt_inj.mp) (fun _ _ => UInt64.toNat_inj.mp) toNat_fold64
    toInt_unfold64

/-- Both widths fold an integer that they share to one number. -/
theorem fold64_toInt64 (value : Int32) : fold64 value.toInt64 = (fold32 value).toUInt64 := by
  apply UInt64.toNat_inj.mp
  rw [toNat_fold64, Int32.toInt_toInt64, UInt32.toNat_toUInt64, toNat_fold32]

end Folded

namespace Stream

open Varint Folded

theorem write_toInt64 (buffer : List UInt8) (value : Int32) :
    write buffer (.folded64 value.toInt64) = write buffer (.folded32 value) := by
  simp only [write, Item.word, fold64_toInt64, UInt32.toNat_toUInt64]

/-- A folded 32-bit integer is read back in 64 bits. -/
theorem read_toInt64 (buffer after : List UInt8) (value : Int32) :
    read ((write buffer (.folded32 value)).2 ++ after) buffer.length .folded64 =
      (.ok (.folded64 value.toInt64), (write buffer (.folded32 value)).2.length) := by
  have accepted : ¬(Item.folded64 value.toInt64).Refused := by simp [Item.Refused, Item.kind]
  have found := read_word buffer after (Item.folded64 value.toInt64).number_lt
  rw [Item.item_number accepted] at found
  rw [← write_toInt64, write_of_accepted buffer accepted]
  exact found

/-- Folding is a bijection that keeps the order of magnitude, in 32 and in 64 bits, and is done and
undone by shifts and masks.  Both widths fold the integers of 32 bits alike, so that these are
written in the same bytes by either, and read back in 64 bits. -/
theorem folding_exact :
    IsFolding Int32.toInt UInt32.toNat fold32 unfold32 ∧
    IsFolding Int64.toInt UInt64.toNat fold64 unfold64 ∧
    ((∀ value : Int32, fold32 value = (value <<< 1 ^^^ value >>> 31).toUInt32) ∧
      (∀ place : UInt32, unfold32 place = (place >>> 1).toInt32 ^^^ -(place &&& 1).toInt32) ∧
      (∀ value : Int64, fold64 value = (value <<< 1 ^^^ value >>> 63).toUInt64) ∧
      ∀ place : UInt64, unfold64 place = (place >>> 1).toInt64 ^^^ -(place &&& 1).toInt64) ∧
    ∀ value : Int32, fold64 value.toInt64 = (fold32 value).toUInt64 ∧
      ∀ buffer after : List UInt8,
        write buffer (.folded64 value.toInt64) = write buffer (.folded32 value) ∧
        read ((write buffer (.folded32 value)).2 ++ after) buffer.length .folded64 =
          (.ok (.folded64 value.toInt64), (write buffer (.folded32 value)).2.length) := by
  refine ⟨isFolding32, isFolding64, ⟨fold32_eq, unfold32_eq, fold64_eq, unfold64_eq⟩, ?_⟩
  intro value
  refine ⟨fold64_toInt64 value, ?_⟩
  intro buffer after
  exact ⟨write_toInt64 buffer value, read_toInt64 buffer after value⟩

example : fold32 Int32.minValue = 4294967295 ∧ fold64 Int32.minValue.toInt64 = 4294967295 := by
  decide

end Stream

end TimedGraph
