import TimedGraph.Instant
import TimedGraph.Table

/-!
# Timelines

A timeline remembers which things came into being at which offset.  Things of one
offset share a bucket, in the order of their arrival; a bucket exists once something
has arrived in it.  What exists at an offset is the content of all buckets up to it, so
it is listed by offset first and by arrival second.  The number of things is counted
beside the buckets.
-/

namespace TimedGraph

/-- Things by the offset at which they came into being. -/
structure Timeline (α : Type) where
  buckets : Table Offset (List α)
  /-- The number of things. -/
  size : Nat
  deriving DecidableEq

namespace Timeline

variable {α : Type}

/-- The timeline of nothing. -/
def empty : Timeline α := ⟨∅, 0⟩

instance : EmptyCollection (Timeline α) := ⟨empty⟩

/-- The things that came into being at exactly an offset. -/
def bucket (timeline : Timeline α) (offset : Offset) : List α :=
  (timeline.buckets.get? offset).getD []

/-- Adds a thing that came into being at an offset. -/
def insert (timeline : Timeline α) (offset : Offset) (item : α) : Timeline α :=
  ⟨timeline.buckets.insert offset (timeline.bucket offset ++ [item]), timeline.size + 1⟩

/-- The things that came into being at or before an offset. -/
def upTo (timeline : Timeline α) (offset : Offset) : List α :=
  (timeline.buckets.upTo offset).flatMap Prod.snd

/-- The greatest offset of a bucket that is not after the given one. -/
def floor? (timeline : Timeline α) (offset : Offset) : Option Offset :=
  (timeline.buckets.upTo offset).getLast?.map Prod.fst

/-- The number of buckets. -/
def bucketCount (timeline : Timeline α) : Nat :=
  timeline.buckets.size

end Timeline

end TimedGraph
