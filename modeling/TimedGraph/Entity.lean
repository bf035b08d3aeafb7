import TimedGraph.Table

/-!
# Vertices, edges and properties by number

Vertices, edges and properties are named by 32-bit numbers, each kind by its own type.
Numbers are handed out by a counter in ascending order; the last number of the space
is never handed out, because the counter has to name the next one.
-/

namespace TimedGraph

/-- The name of a vertex. -/
structure VertexId where
  number : UInt32
  deriving DecidableEq

/-- The name of an edge. -/
structure EdgeId where
  number : UInt32
  deriving DecidableEq

/-- The name of a property. -/
structure PropertyId where
  number : UInt32
  deriving DecidableEq

instance : Ranked VertexId where
  rank vertex := rank vertex.number
  rank_injective {first second} equal := by
    cases first
    cases second
    exact congrArg VertexId.mk (rank_injective equal)

instance : Ranked EdgeId where
  rank edge := rank edge.number
  rank_injective {first second} equal := by
    cases first
    cases second
    exact congrArg EdgeId.mk (rank_injective equal)

instance : Ranked PropertyId where
  rank property := rank property.number
  rank_injective {first second} equal := by
    cases first
    cases second
    exact congrArg PropertyId.mk (rank_injective equal)

/-- A vertex's name in words. -/
def VertexId.text (vertex : VertexId) : String :=
  s!"v{vertex.number.toNat}"

/-- An edge's name in words. -/
def EdgeId.text (edge : EdgeId) : String :=
  s!"e{edge.number.toNat}"

/-- A property's name in words. -/
def PropertyId.text (property : PropertyId) : String :=
  s!"p{property.number.toNat}"

/-- The kinds of thing that a graph numbers. -/
inductive EntityKind where
  | vertex
  | edge
  | property
  deriving DecidableEq

/-- A kind in words. -/
def EntityKind.text : EntityKind → String
  | vertex => "vertex"
  | edge => "edge"
  | property => "property"

/-- What can own properties: a vertex or an edge. -/
inductive Owner where
  | vertex (id : VertexId)
  | edge (id : EdgeId)
  deriving DecidableEq

namespace Owner

/-- Vertices come after edges, which are counted downward from -1. -/
instance : Ranked Owner where
  rank
    | vertex id => rank id
    | edge id => -1 - rank id
  rank_injective {first second} equal := by
    have nonnegative (number : UInt32) : 0 ≤ rank number := Int.natCast_nonneg _
    cases first with
    | vertex first =>
      cases second with
      | vertex second => exact congrArg vertex (rank_injective equal)
      | edge second =>
        have := nonnegative first.number
        have := nonnegative second.number
        simp only [rank] at *
        omega
    | edge first =>
      cases second with
      | vertex second =>
        have := nonnegative first.number
        have := nonnegative second.number
        simp only [rank] at *
        omega
      | edge second => exact congrArg edge (rank_injective (by simp only at equal; omega))

/-- The kind of an owner. -/
def kind : Owner → EntityKind
  | vertex _ => .vertex
  | edge _ => .edge

/-- An owner in words, by kind and name. -/
def text : Owner → String
  | vertex id => s!"vertex {id.text}"
  | edge id => s!"edge {id.text}"

end Owner

/-- A source of numbers; `next` is the one it hands out next. -/
structure Counter where
  next : UInt32
  deriving DecidableEq

namespace Counter

/-- The counter whose first number is `number`. -/
def startingAt (number : UInt32) : Counter := ⟨number⟩

/-- The next number and the counter after it, unless the space is used up. -/
def draw? (counter : Counter) : Option (UInt32 × Counter) :=
  if counter.next.toNat + 1 < UInt32.size then some (counter.next, ⟨counter.next + 1⟩) else none

end Counter

end TimedGraph
