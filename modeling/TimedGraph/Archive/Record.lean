import TimedGraph.History
import TimedGraph.Series.Basic

/-!
# Records

A record is a history as it is archived: the offsets in one column, plain, and the
values in another, as a stored series.  Restoring the history decodes the series and
puts the columns together again, which fails if they differ in length.
-/

namespace TimedGraph

/-- An archived history. -/
structure Record where
  id : PropertyId
  name : String
  created : Instant
  latest : Option Instant
  offsets : List Offset
  series : Series
  deriving DecidableEq

namespace Record

/-- Archives a history, its values written with a codec where that is possible. -/
def ofHistory (history : History) (codec : Codec) : Record where
  id := history.id
  name := history.name
  created := history.created
  latest := history.latest
  offsets := history.offsets
  series := .ofValues history.values codec

/-- The history that was archived. -/
def restore (record : Record) : Except Fault History :=
  match record.series.toValues with
  | .error fault => .error (.codec fault)
  | .ok values =>
    if values.length = record.offsets.length then
      .ok ⟨record.id, record.name, record.created, record.latest,
        List.zipWith Entry.mk record.offsets values⟩
    else
      .error (.codec (.lengthMismatch record.offsets.length values.length))

/-- The number of entries. -/
def length (record : Record) : Nat :=
  record.offsets.length

/-- The bytes that the columns take, four for an offset. -/
def size (record : Record) : Nat :=
  4 * record.offsets.length + record.series.size

end Record

end TimedGraph
