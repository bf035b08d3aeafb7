import Mathlib.Algebra.GroupWithZero.Nat
import TimedGraph.Proofs.Word.Folding
import TimedGraph.Proofs.Word.Grammar

/-!
# Lengths of words

A word has at most so many bytes just if its number lies below that power of 128.  The
integers whose folded words have at most so many bytes are therefore those of a range about
zero, from which it follows that the word of a sum is no longer than those of the summands
together.  Wrapping does not change this, since it only brings a number nearer to zero.
-/

namespace TimedGraph

namespace Varint

variable {number count : Nat}

theorem weight_add (first second : Nat) :
    weight (first + second) = weight first * weight second :=
  Nat.pow_add 128 first second

theorem weight_pos (position : Nat) : 0 < weight position :=
  Nat.pow_pos (by decide)

theorem encodedLength_pos (number : Nat) : 0 < encodedLength number := by
  simp only [encodedLength]
  omega

theorem encodedLength_le_iff (some : 0 < count) :
    encodedLength number ≤ count ↔ number < weight count := by
  simp only [← pow_eq_weight, ← bitLength_le_iff, encodedLength]
  omega

theorem encodedLength_mono {other : Nat} (le : number ≤ other) :
    encodedLength number ≤ encodedLength other := by
  apply (encodedLength_le_iff (encodedLength_pos other)).mpr
  exact Nat.lt_of_le_of_lt le ((encodedLength_le_iff (encodedLength_pos other)).mp (Nat.le_refl _))

theorem encodedLength_le_ten (fits : number < UInt64.size) : encodedLength number ≤ 10 := by
  apply (encodedLength_le_iff (by decide)).mpr
  exact Nat.lt_trans fits (by decide)

end Varint

namespace Folded

open Varint

/-- The integers whose words have no more than so many bytes lie about zero. -/
theorem encodedLength_fold_le_iff (value : Int) (count : Nat) :
    encodedLength (fold value) ≤ count + 1 ↔
      -((64 * weight count : Nat) : Int) ≤ value ∧ value < (64 * weight count : Nat) := by
  have whole : weight (count + 1) = 2 * (64 * weight count) := by
    simp only [weight_succ]
    omega
  simp only [encodedLength_le_iff (Nat.succ_pos count), whole, fold_lt_iff]

theorem encodedLength_fold_add_le (first second : Int) :
    encodedLength (fold (first + second)) ≤
      encodedLength (fold first) + encodedLength (fold second) := by
  rcases Nat.exists_eq_add_one.mpr (encodedLength_pos (fold first)) with ⟨few, isFew⟩
  rcases Nat.exists_eq_add_one.mpr (encodedLength_pos (fold second)) with ⟨more, isMore⟩
  have firstRange := (encodedLength_fold_le_iff first few).mp (Nat.le_of_eq isFew)
  have secondRange := (encodedLength_fold_le_iff second more).mp (Nat.le_of_eq isMore)
  have total : encodedLength (fold first) + encodedLength (fold second) = few + more + 1 + 1 := by
    omega
  simp only [total, encodedLength_fold_le_iff, weight_succ, weight_add]
  -- The range of the sum has the product of both widths, which is more than their sum.
  have firstLe : weight few ≤ weight few * weight more :=
    Nat.le_mul_of_pos_right _ (weight_pos more)
  have secondLe : weight more ≤ weight few * weight more :=
    Nat.le_mul_of_pos_left _ (weight_pos few)
  omega

theorem fold_bmod_le (number : Int) : fold (number.bmod (2 ^ 64)) ≤ fold number := by
  by_cases inRange : fold number < 2 * 2 ^ 63
  · have range := (fold_lt_iff number (2 ^ 63)).mp inRange
    have same : number.bmod (2 ^ 64) = number := Int.bmod_eq_of_le (by omega) (by omega)
    simp only [same]
    exact Nat.le_refl _
  · have lower := Int.le_bmod (x := number) (m := 2 ^ 64) (by decide)
    have upper := Int.bmod_lt (x := number) (m := 2 ^ 64) (by decide)
    have wrapped := (fold_lt_iff (number.bmod (2 ^ 64)) (2 ^ 63)).mpr ⟨by omega, by omega⟩
    omega

/-- The word of a sum, even of one that wraps, is no longer than the words of its summands. -/
theorem encodedLength_fold64_add_le (first second : Int64) :
    encodedLength (fold64 (first + second)).toNat ≤
      encodedLength (fold64 first).toNat + encodedLength (fold64 second).toNat := by
  simp only [toNat_fold64, Int64.toInt_add]
  exact Nat.le_trans (encodedLength_mono (fold_bmod_le _)) (encodedLength_fold_add_le _ _)

end Folded

end TimedGraph
