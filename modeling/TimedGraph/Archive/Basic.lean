import TimedGraph.Archive.Record
import TimedGraph.Table

/-!
# Archives

An archive keeps histories under their numbers, as records.  What is fetched from it is
a history of its own; a change to that is seen only once it is stored again.  Purging
goes through the listed histories one by one and stores again those that lost entries.
It answers their number; should a record not be readable, it stops there, with what it
has done so far.
-/

namespace TimedGraph

/-- Histories by number, in archived form. -/
structure Archive where
  codec : Codec
  records : Table PropertyId Record
  deriving DecidableEq

namespace Archive

/-- The archive without histories, with a codec for integer series. -/
def empty (codec : Codec) : Archive := ⟨codec, ∅⟩

/-- Stores a history, in place of an earlier version of it. -/
def store (archive : Archive) (history : History) : Archive :=
  { archive with records := archive.records.insert history.id (.ofHistory history archive.codec) }

/-- The record of a number. -/
def record? (archive : Archive) (id : PropertyId) : Option Record :=
  archive.records.get? id

/-- Fetches the history of a number. -/
def fetch? (archive : Archive) (id : PropertyId) : Except Fault (Option History) :=
  match archive.record? id with
  | none => .ok none
  | some record => some <$> record.restore

/-- The name of a stored property. -/
def name? (archive : Archive) (id : PropertyId) : Option String :=
  (archive.record? id).map Record.name

/-- Whether a history is stored under a number. -/
def contains (archive : Archive) (id : PropertyId) : Bool :=
  archive.records.contains id

/-- The number of histories. -/
def count (archive : Archive) : Nat :=
  archive.records.size

/-- Whether there are no histories. -/
def isEmpty (archive : Archive) : Bool :=
  archive.records.entries.isEmpty

/-- The numbers under which histories are stored, ascending. -/
def ids (archive : Archive) : List PropertyId :=
  archive.records.keys

/-- The bytes that all records take. -/
def size (archive : Archive) : Nat :=
  archive.records.values.foldl (fun total record => total + record.size) 0

/-- Appends a value to the history of a number and stores it again.  Answers the history after
that, or none if there is no such history. -/
def append (archive : Archive) (id : PropertyId) (time : Instant) (value : Value) :
    Except Fault (Option History) × Archive :=
  match archive.fetch? id with
  | .error fault => (.error fault, archive)
  | .ok none => (.ok none, archive)
  | .ok (some history) =>
    match history.write time value with
    | (.error fault, _) => (.error fault, archive)
    | (.ok (), longer) => (.ok (some longer), archive.store longer)

/-- Drops the entries written at or before an instant from the listed histories, and answers how
many histories were stored again.  Numbers without a history are passed over. -/
def purge (archive : Archive) (time : Instant) : List PropertyId → Except Fault Nat × Archive
  | [] => (.ok 0, archive)
  | id :: rest =>
    match archive.fetch? id with
    | .error fault => (.error fault, archive)
    | .ok none => archive.purge time rest
    | .ok (some history) =>
      match history.purge time with
      | (false, _) => archive.purge time rest
      | (true, shortened) =>
        let (outcome, purged) := (archive.store shortened).purge time rest
        ((· + 1) <$> outcome, purged)

end Archive

end TimedGraph
