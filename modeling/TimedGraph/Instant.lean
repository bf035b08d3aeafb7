/-!
# Instants and offsets

An instant is a number of milliseconds from a fixed epoch.  Instants are stored as
32-bit offsets from a reference instant.  Only the instants of the reference's window,
from the reference to `maxOffset` milliseconds after it, have such an offset;
`Instant.offsetFrom?` refuses all others.  Instants may lie so far apart that 64 bits do
not hold their distance: `Instant.distance?` then has no answer, and
`Instant.saturatingDistance` stops at the end of the range.
-/

namespace TimedGraph

/-- A point in time, in milliseconds from the epoch. -/
structure Instant where
  millis : Int64
  deriving DecidableEq

/-- A number of milliseconds from a reference instant. -/
abbrev Offset := Int32

/-- The greatest offset of an instant, in milliseconds. -/
def maxOffset : Int := 0x7FFFFFFF

namespace Instant

/-- The milliseconds from the epoch as an integer. -/
def toInt (instant : Instant) : Int :=
  instant.millis.toInt

instance : Inhabited Instant := ⟨⟨0⟩⟩

instance : LE Instant := ⟨fun first second => first.toInt ≤ second.toInt⟩

instance : LT Instant := ⟨fun first second => first.toInt < second.toInt⟩

instance (first second : Instant) : Decidable (first ≤ second) :=
  inferInstanceAs (Decidable (first.toInt ≤ second.toInt))

instance (first second : Instant) : Decidable (first < second) :=
  inferInstanceAs (Decidable (first.toInt < second.toInt))

instance : Ord Instant := ⟨fun first second => compare first.toInt second.toInt⟩

/-- The milliseconds from a reference to an instant, if 64 bits hold their number. -/
def distance? (instant reference : Instant) : Option Int64 :=
  if BitVec.ssubOverflow instant.millis.toBitVec reference.millis.toBitVec then none
  else some (instant.millis - reference.millis)

/-- The milliseconds from a reference to an instant, stopped at the ends of the range of 64
bits. -/
def saturatingDistance (instant reference : Instant) : Int64 :=
  (instant.distance? reference).getD
    (if instant < reference then Int64.minValue else Int64.maxValue)

/-- The offset of an instant from a reference, if it lies in the reference's window. -/
def offsetFrom? (instant reference : Instant) : Option Offset :=
  match instant.distance? reference with
  | none => none
  | some distance =>
    if 0 ≤ distance.toInt ∧ distance.toInt ≤ maxOffset then some distance.toInt32 else none

/-- The instant at an offset, for offsets that stay in the range of instants. -/
def atOffset (instant : Instant) (offset : Offset) : Instant :=
  ⟨instant.millis + offset.toInt64⟩

/-- Moves an instant forward, within the range of instants. -/
instance : HAdd Instant Int64 Instant := ⟨fun instant millis => ⟨instant.millis + millis⟩⟩

/-- Moves an instant back, within the range of instants. -/
instance : HSub Instant Int64 Instant := ⟨fun instant millis => ⟨instant.millis - millis⟩⟩

/-- The instant in words. -/
def text (instant : Instant) : String :=
  s!"{instant.toInt}ms"

end Instant

end TimedGraph
