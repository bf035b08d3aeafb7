/-!
# Folded integers

Folding numbers the integers by their distance from zero, in the order
0, -1, 1, -2, 2, and so on.  Numbers near zero, of either sign, then have short
words.  The law is stated once, on all integers; the folding of fixed-width
integers is its restriction, and a word of `n` bits folds into `n` bits.
-/

namespace TimedGraph.Folded

/-- The place of an integer in the order 0, -1, 1, -2, 2, … -/
def fold : Int → Nat
  | .ofNat magnitude => 2 * magnitude
  | .negSucc magnitude => 2 * magnitude + 1

/-- The integer at a place in the order 0, -1, 1, -2, 2, … -/
def unfold (place : Nat) : Int :=
  if place % 2 = 0 then .ofNat (place / 2) else .negSucc (place / 2)

/-- Folds a signed 32-bit integer into an unsigned one. -/
def fold32 (value : Int32) : UInt32 :=
  UInt32.ofNat (fold value.toInt)

/-- The signed 32-bit integer that folds into `place`. -/
def unfold32 (place : UInt32) : Int32 :=
  Int32.ofInt (unfold place.toNat)

/-- Folds a signed 64-bit integer into an unsigned one. -/
def fold64 (value : Int64) : UInt64 :=
  UInt64.ofNat (fold value.toInt)

/-- The signed 64-bit integer that folds into `place`. -/
def unfold64 (place : UInt64) : Int64 :=
  Int64.ofInt (unfold place.toNat)

end TimedGraph.Folded
