import TimedGraph.Word.Folded

/-!
# Folding and unfolding

Folding and unfolding undo each other on all integers.  A word of `n` bits folds into `n`
bits because folding doubles the magnitude: the integers from `-bound` up to `bound` are
exactly those that fold below `2 * bound`.
-/

namespace TimedGraph.Folded

@[simp]
theorem unfold_fold (value : Int) : unfold (fold value) = value := by
  cases value with
  | ofNat magnitude => simp [fold, unfold]
  | negSucc magnitude =>
    have odd : (2 * magnitude + 1) % 2 ≠ 0 := by omega
    have half : (2 * magnitude + 1) / 2 = magnitude := by omega
    simp only [fold, unfold, if_neg odd, half]

@[simp]
theorem fold_unfold (place : Nat) : fold (unfold place) = place := by
  simp only [unfold]
  split
  · simp only [fold]
    omega
  · simp only [fold]
    omega

theorem fold_lt_iff (value : Int) (bound : Nat) :
    fold value < 2 * bound ↔ -(bound : Int) ≤ value ∧ value < bound := by
  cases value with
  | ofNat magnitude =>
    simp only [fold, Int.ofNat_eq_natCast]
    omega
  | negSucc magnitude =>
    simp only [fold]
    omega

theorem toNat_fold32 (value : Int32) : (fold32 value).toNat = fold value.toInt := by
  have bounded : fold value.toInt < 2 * 2 ^ 31 :=
    (fold_lt_iff value.toInt (2 ^ 31)).mpr ⟨value.le_toInt, value.toInt_lt⟩
  simp only [fold32, UInt32.toNat_ofNat']
  omega

theorem toNat_fold64 (value : Int64) : (fold64 value).toNat = fold value.toInt := by
  have bounded : fold value.toInt < 2 * 2 ^ 63 :=
    (fold_lt_iff value.toInt (2 ^ 63)).mpr ⟨value.le_toInt, value.toInt_lt⟩
  simp only [fold64, UInt64.toNat_ofNat']
  omega

theorem toInt_unfold32 (place : UInt32) : (unfold32 place).toInt = unfold place.toNat := by
  have inRange := (fold_lt_iff (unfold place.toNat) (2 ^ 31)).mp (by
    rw [fold_unfold]
    exact place.toNat_lt)
  exact Int32.toInt_ofInt_of_le (by omega) (by omega)

theorem toInt_unfold64 (place : UInt64) : (unfold64 place).toInt = unfold place.toNat := by
  have inRange := (fold_lt_iff (unfold place.toNat) (2 ^ 63)).mp (by
    rw [fold_unfold]
    exact place.toNat_lt)
  exact Int64.toInt_ofInt_of_le (by omega) (by omega)

@[simp]
theorem unfold64_fold64 (value : Int64) : unfold64 (fold64 value) = value := by
  simp only [unfold64, toNat_fold64, unfold_fold, Int64.ofInt_toInt]

@[simp]
theorem fold64_unfold64 (place : UInt64) : fold64 (unfold64 place) = place := by
  rw [fold64, toInt_unfold64, fold_unfold, UInt64.ofNat_toNat]

end TimedGraph.Folded
