import TimedGraph.Fault
import TimedGraph.Value

/-!
# Histories

A history is the course of one named property: the values it was given, each with the
offset of its writing from the property's creation.  Values are only appended, and
never before the latest write, so that offsets ascend and a look-up is the last entry
up to an instant.  Purging drops the entries up to an instant but not the memory of
the latest write: what was refused before a purge is refused after it.

Look-ups and purges take any instant.  One before the creation reaches no entry; one
past the window reaches them all, because `reach` cuts it off at the greatest offset.
-/

namespace TimedGraph

/-- A value and the offset at which it was written. -/
structure Entry where
  offset : Offset
  value : Value
  deriving DecidableEq

/-- The values of one named property over time. -/
structure History where
  id : PropertyId
  name : String
  created : Instant
  /-- The instant of the latest write, whether its entry was purged or not. -/
  latest : Option Instant
  /-- The entries in the order of writing. -/
  entries : List Entry
  deriving DecidableEq

namespace History

/-- A history without entries, for a property with a name and a creation after the epoch. -/
def create (id : PropertyId) (name : String) (created : Instant) : Except Fault History :=
  if name = "" then .error (.invalidArgument .emptyName)
  else if created ≤ ⟨0⟩ then .error (.invalidArgument (.createdTooEarly name created))
  else .ok ⟨id, name, created, none, []⟩

/-- Creates a history under the next number of a counter.  The number is used up even if the
history is refused. -/
def createNext (counter : Counter) (name : String) (created : Instant) :
    Except Fault History × Counter :=
  match counter.draw? with
  | none => (.error (.idSpaceExhausted .property), counter)
  | some (number, counter) => (create ⟨number⟩ name created, counter)

/-- The number of entries. -/
def length (history : History) : Nat :=
  history.entries.length

/-- The offsets of the entries. -/
def offsets (history : History) : List Offset :=
  history.entries.map Entry.offset

/-- The values of the entries. -/
def values (history : History) : List Value :=
  history.entries.map Entry.value

/-- The entries with the instants at which they were written. -/
def log (history : History) : List (Instant × Value) :=
  history.entries.map fun entry => (history.created.atOffset entry.offset, entry.value)

/-- Appends a value.  A write at the instant of the latest one is accepted. -/
def write (history : History) (time : Instant) (value : Value) : Except Fault Unit × History :=
  match history.latest.filter (time < ·) with
  | some latest =>
    (.error (.propertyOrdering (.beforeLatest history.name time latest)), history)
  | none =>
    if time < history.created then
      (.error (.propertyOrdering (.beforeCreation history.name time history.created)), history)
    else
      match time.offsetFrom? history.created with
      | none => (.error (.timeRange time history.created), history)
      | some offset =>
        (.ok (), { history with
          latest := some time
          entries := history.entries ++ [⟨offset, value⟩] })

/-- Appends values in the order given, up to the first that is refused. -/
def writeAll (history : History) : List (Instant × Value) → Except Fault Unit × History
  | [] => (.ok (), history)
  | (time, value) :: rest =>
    match history.write time value with
    | (.ok (), longer) => longer.writeAll rest
    | refused => refused

/-- The offset up to which an instant reaches, cut off at the greatest one; none before the
creation. -/
def reach (history : History) (time : Instant) : Option Offset :=
  let distance := (time.saturatingDistance history.created).toInt
  if 0 ≤ distance then some (Int32.ofInt (min distance maxOffset)) else none

/-- The value in force at an instant: the last one written at or before it. -/
def valueAt (history : History) (time : Instant) : Option Value :=
  match history.reach time with
  | none => none
  | some target =>
    (history.entries.takeWhile (·.offset ≤ target)).getLast?.map Entry.value

/-- The value in force at an instant, with the name of the property. -/
def readingAt (history : History) (time : Instant) : Option NamedValue :=
  (history.valueAt time).map fun value => ⟨history.name, value⟩

/-- Drops the entries written at or before an instant, and answers whether there were any. -/
def purge (history : History) (time : Instant) : Bool × History :=
  match history.reach time with
  | none => (false, history)
  | some target =>
    (!(history.entries.takeWhile (·.offset ≤ target)).isEmpty,
      { history with entries := history.entries.dropWhile (·.offset ≤ target) })

/-- The history in words. -/
def text (history : History) : String :=
  s!"{history.name}({history.id.text}) [{history.length} entries]"

end History

end TimedGraph
