import TimedGraph.CodecFault
import TimedGraph.Entity
import TimedGraph.Instant
import TimedGraph.Text

/-!
# Faults of histories and graphs

The causes for which a history, an archive or a graph refuses what it is asked.  As for
the codecs, a fault holds what was found, and `Fault.message` alone puts it into words.
A rule of order or a refused argument may also be described by the caller, in words of
its own.
-/

namespace TimedGraph

/-- How the order of a property's times was violated. -/
inductive Disorder where
  /-- A write to `name` at `time`, before its latest write. -/
  | beforeLatest (name : String) (time latest : Instant)
  /-- A write to `name` at `time`, before its creation. -/
  | beforeCreation (name : String) (time created : Instant)
  /-- The property `name` is older than the entity of the given kind that is to own it. -/
  | olderThanOwner (name : String) (created : Instant) (kind : EntityKind) (added : Instant)
  /-- A violation described in words. -/
  | described (text : String)
  deriving DecidableEq

/-- A violation of order in words. -/
def Disorder.text : Disorder → String
  | beforeLatest name time latest =>
    s!"write to {Text.quoted name} at {time.text} precedes its last write at {latest.text}"
  | beforeCreation name time created =>
    s!"write to {Text.quoted name} at {time.text} precedes its creation at {created.text}"
  | olderThanOwner name created kind added =>
    s!"property {Text.quoted name} created at {created.text} precedes {kind.text} addition " ++
      s!"at {added.text}"
  | described text => text

/-- Why an argument was refused. -/
inductive Refusal where
  /-- A property has to have a name. -/
  | emptyName
  /-- The property `name` was to be created at or before the epoch. -/
  | createdTooEarly (name : String) (created : Instant)
  /-- A refusal described in words. -/
  | described (text : String)
  deriving DecidableEq

/-- A refusal in words. -/
def Refusal.text : Refusal → String
  | emptyName => "property name must not be empty"
  | createdTooEarly name created =>
    s!"property {Text.quoted name} creation time must be positive, got {created.text}"
  | described text => text

/-- Why a history, an archive or a graph refused an operation. -/
inductive Fault where
  /-- The instant lies outside the window of the reference. -/
  | timeRange (time reference : Instant)
  /-- No vertex, edge or property of this number has been handed out. -/
  | unknownEntity (kind : EntityKind) (number : UInt32)
  /-- A write or an attachment would break the order of times. -/
  | propertyOrdering (disorder : Disorder)
  /-- The owner has no property of this name. -/
  | propertyNotFound (name : String) (owner : Owner)
  /-- The owner has, or would have, several properties of this name. -/
  | duplicateProperty (name : String) (owner : Owner)
  /-- An argument was refused. -/
  | invalidArgument (refusal : Refusal)
  /-- The property's number already names another property. -/
  | propertyIdInUse (id : PropertyId)
  /-- All numbers of this kind have been handed out. -/
  | idSpaceExhausted (kind : EntityKind)
  /-- A series could not be written or read. -/
  | codec (fault : CodecFault)
  deriving DecidableEq

namespace Fault

/-- The fault in words. -/
def message : Fault → String
  | timeRange time reference =>
    s!"timestamp {time.text} falls outside the supported range starting at {reference.text}"
  | unknownEntity kind number => s!"{kind.text} {number.toNat} not found"
  | propertyOrdering disorder => s!"property ordering violated: {disorder.text}"
  | propertyNotFound name owner => s!"property {Text.quoted name} not found for {owner.text}"
  | duplicateProperty name owner =>
    s!"{owner.text} owns more than one property named {Text.quoted name}"
  | invalidArgument refusal => s!"invalid argument: {refusal.text}"
  | propertyIdInUse id => s!"property id {id.text} is already in use"
  | idSpaceExhausted kind => s!"{kind.text} identifier space exhausted"
  | codec fault => s!"codec error: {fault.message}"

/-- Whether the fault is an instant outside a window. -/
def isTimeRange : Fault → Bool
  | timeRange _ _ => true
  | _ => false

end Fault

end TimedGraph
