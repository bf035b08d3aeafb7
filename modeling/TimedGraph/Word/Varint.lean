import TimedGraph.CodecFault

/-!
# Words of variable length

A number is written in digits to the base 128, the lowest first, one digit to a
byte; 128 is added to every byte but the last.  A word therefore carries its own
end, and a list of numbers is written by putting their words side by side.

Writing knows no bound.  Reading does: `read` refuses a word as soon as the
digits so far leave the range of its target, whatever bytes would follow.  It
answers how many bytes it went past also when it fails, so that a caller can read
on from there.  `readAll` reads words until the bytes end.  Both take their bytes
through `progress`, which alone decides what one more byte means.
-/

namespace TimedGraph.Varint

/-- The number of binary digits of `value`, none for zero. -/
def bitLength (value : Nat) : Nat :=
  if value = 0 then 0 else value.log2 + 1

/-- The number of bytes in the word of `value`: one for every seven binary digits begun, and
one for zero. -/
def encodedLength (value : Nat) : Nat :=
  max 1 ((bitLength value + 6) / 7)

/-- The word of `value`. -/
def word (value : Nat) : List UInt8 :=
  if value < 128 then
    [UInt8.ofNat value]
  else
    UInt8.ofNat (value % 128 + 128) :: word (value / 128)
termination_by value

/-- The word of a signed number, which must not be negative. -/
def signedWord (value : Int) : Except CodecFault (List UInt8) :=
  if value < 0 then .error (.negativeValue value) else .ok (word value.toNat)

/-- The words of signed numbers side by side; the first negative one is the fault. -/
def signedWords : List Int → Except CodecFault (List UInt8)
  | [] => .ok []
  | value :: rest => do
    let first ← signedWord value
    let others ← signedWords rest
    return first ++ others

/-- A range of numbers that a reader accepts: those below `2 ^ bits`. -/
structure Target where
  /-- The name of the range in faults. -/
  name : String
  /-- The number of binary digits that fit. -/
  bits : Nat

namespace Target

/-- Unsigned 64-bit numbers. -/
def unsigned64 : Target := ⟨"u64", 64⟩

/-- Unsigned 32-bit numbers. -/
def unsigned32 : Target := ⟨"u32", 32⟩

/-- Signed 64-bit numbers that are not negative. -/
def nonnegative64 : Target := ⟨"i64", 63⟩

/-- Signed 32-bit numbers that are not negative. -/
def nonnegative32 : Target := ⟨"i32", 31⟩

/-- The first number past the range. -/
def limit (target : Target) : Nat :=
  Nat.pow 2 target.bits

end Target

/-- What the digit at `position` counts. -/
def weight (position : Nat) : Nat :=
  Nat.pow 128 position

/-- What a word is after one more byte. -/
inductive Progress where
  /-- The number has left its range. -/
  | overflow
  /-- The word ended with this number. -/
  | finished (value : Nat)
  /-- The digits so far make this number, and more follow. -/
  | unfinished (value : Nat)

/-- Takes the byte at `position` into a word whose earlier digits make `value`.  A digit leaves
the range if its leading binary digit does, and the range is checked before the end of the word
is, so a byte past the last position overflows even if its digit is zero. -/
def progress (target : Target) (position value : Nat) (byte : UInt8) : Progress :=
  let digit := byte.toNat % 128
  if target.bits ≤ 7 * position ∨ target.bits < 7 * position + bitLength digit then .overflow
  else
    let total := value + digit * weight position
    if byte.toNat < 128 then .finished total else .unfinished total

/-- What reading one word comes to, and the number of bytes it went past. -/
structure Reading where
  /-- The number read, or why there is none. -/
  outcome : Except CodecFault Nat
  /-- The bytes of the source that are behind the reader now. -/
  consumed : Nat

/-- Reads on in a word of which `position` bytes, making `value`, have been read. -/
def readFrom (target : Target) (position value : Nat) : List UInt8 → Reading
  | [] => ⟨.error (.truncated position), position⟩
  | byte :: rest =>
    match progress target position value byte with
    | .overflow => ⟨.error (.overflow target.name), position + 1⟩
    | .finished total => ⟨.ok total, position + 1⟩
    | .unfinished total => readFrom target (position + 1) total rest

/-- Reads the word at the start of `source`. -/
def read (target : Target) (source : List UInt8) : Reading :=
  readFrom target 0 0 source

/-- Reads words to the end of the bytes, the first of them being read already up to `position`. -/
def readAllFrom (target : Target) (position value : Nat) :
    List UInt8 → Except CodecFault (List Nat)
  | [] => if position = 0 then .ok [] else .error (.truncated position)
  | byte :: rest =>
    match progress target position value byte with
    | .overflow => .error (.overflow target.name)
    | .finished total => (total :: ·) <$> readAllFrom target 0 0 rest
    | .unfinished total => readAllFrom target (position + 1) total rest

/-- Reads words until `source` ends; the first fault is the answer. -/
def readAll (target : Target) (source : List UInt8) : Except CodecFault (List Nat) :=
  readAllFrom target 0 0 source

end TimedGraph.Varint
