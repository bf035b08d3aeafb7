import TimedGraph.Word.Folded
import TimedGraph.Word.Varint

/-!
# Streams of mixed integers

A stream is a buffer of words of several kinds of integer, without marks between
them.  Writing appends one item and leaves the buffer as it was when the item has
no word.  Reading works on the whole buffer with a cursor; it answers the new
cursor also after a fault, and a cursor past the end finds no bytes.
-/

namespace TimedGraph.Stream

open Varint Folded

/-- The kinds of integer that a stream holds. -/
inductive Kind where
  /-- Unsigned 64-bit integers. -/
  | unsigned64
  /-- Unsigned 32-bit integers. -/
  | unsigned32
  /-- Signed 32-bit integers that are not negative. -/
  | nonnegative32
  /-- Signed 64-bit integers that are not negative. -/
  | nonnegative64
  /-- Signed 32-bit integers, folded. -/
  | folded32
  /-- Signed 64-bit integers, folded. -/
  | folded64
  deriving DecidableEq

/-- An integer of one of the kinds. -/
inductive Item where
  | unsigned64 (value : UInt64)
  /-- An unsigned 32-bit integer, as its reader answers it.  The format has no writer for this
  kind: `write` gives the item the word of the unsigned 64-bit integer of the same number, which
  is how such an integer comes into a stream. -/
  | unsigned32 (value : UInt32)
  | nonnegative32 (value : Int32)
  | nonnegative64 (value : Int64)
  | folded32 (value : Int32)
  | folded64 (value : Int64)
  deriving DecidableEq

namespace Kind

/-- The range within which the words of a kind lie. -/
def target : Kind → Target
  | unsigned64 | folded64 => .unsigned64
  | unsigned32 | folded32 => .unsigned32
  | nonnegative32 => .nonnegative32
  | nonnegative64 => .nonnegative64

/-- The integer of a kind that a number in its range stands for. -/
def item (kind : Kind) (number : Nat) : Item :=
  match kind with
  | unsigned64 => .unsigned64 (.ofNat number)
  | unsigned32 => .unsigned32 (.ofNat number)
  | nonnegative32 => .nonnegative32 (.ofNat number)
  | nonnegative64 => .nonnegative64 (.ofNat number)
  | folded32 => .folded32 (unfold32 (.ofNat number))
  | folded64 => .folded64 (unfold64 (.ofNat number))

end Kind

namespace Item

/-- The kind of an item. -/
def kind : Item → Kind
  | unsigned64 _ => .unsigned64
  | unsigned32 _ => .unsigned32
  | nonnegative32 _ => .nonnegative32
  | nonnegative64 _ => .nonnegative64
  | folded32 _ => .folded32
  | folded64 _ => .folded64

/-- The integer itself. -/
def toInt : Item → Int
  | unsigned64 value => value.toNat
  | unsigned32 value => value.toNat
  | nonnegative32 value | folded32 value => value.toInt
  | nonnegative64 value | folded64 value => value.toInt

/-- The word of an item; only a negative integer of a nonnegative kind has none. -/
def word : Item → Except CodecFault (List UInt8)
  | unsigned64 value => .ok (Varint.word value.toNat)
  | unsigned32 value => .ok (Varint.word value.toNat)
  | nonnegative32 value => signedWord value.toInt
  | nonnegative64 value => signedWord value.toInt
  | folded32 value => .ok (Varint.word (fold32 value).toNat)
  | folded64 value => .ok (Varint.word (fold64 value).toNat)

end Item

/-- Appends an item to a buffer and answers the number of bytes written.  For an unsigned 32-bit
integer this is the writer of unsigned 64-bit integers at its number. -/
def write (buffer : List UInt8) (item : Item) : Except CodecFault Nat × List UInt8 :=
  match item.word with
  | .error fault => (.error fault, buffer)
  | .ok bytes => (.ok bytes.length, buffer ++ bytes)

/-- Reads an item of the given kind at `cursor` and answers the cursor after it. -/
def read (buffer : List UInt8) (cursor : Nat) (kind : Kind) : Except CodecFault Item × Nat :=
  let reading := Varint.read kind.target (buffer.drop cursor)
  (kind.item <$> reading.outcome, cursor + reading.consumed)

end TimedGraph.Stream
